import RowStore.Proofs.Agreement
import RowStore.Proofs.Plan.Passing
import RowStore.Proofs.Plan.Sources
/-!
# Sources in step

Two sources are in step when beside the same engine they answer the same and leave the same engine, whatever each
keeps of its own, and the rows they give are wanted ones. Cursors on sources in step are in step, and so are sources
that draw from them: a filter, a join, an aggregate and a change of tables each do the same over either.
-/

namespace RowStore

open Engine

variable {σ τ σ' τ' α β : Type} {kept : Engine → Prop} {goes : σ → τ → Prop} {yields : α → Prop} {s : σ} {t : τ}
  {e : Engine}

/-- Two steps came to the same answer and left the same engine. What is kept up on the engine is kept up, and what
either left of its own goes together. -/
structure Level (kept : Engine → Prop) (goes : σ → τ → Prop) (yields : α → Prop)
    (left : Except Fault α × σ × Engine) (right : Except Fault α × τ × Engine) : Prop where
  answer : left.1 = right.1
  engine : left.2.2 = right.2.2
  goes : goes left.2.1 right.2.1
  kept : kept left.2.2
  yields : ∀ a, left.1 = .ok a → yields a

/-- Done beside the same engine the two steps come to the same. -/
def Alongside (kept : Engine → Prop) (goes : σ → τ → Prop) (yields : α → Prop) (act : Step σ α) (act' : Step τ α)
    (s : σ) (t : τ) (e : Engine) : Prop :=
  Level kept goes yields (outcome act (s, e)) (outcome act' (t, e))

theorem ofExcept_keeps {x : Except Fault α} (keeps : kept e) (given : ∀ a, x = .ok a → yields a) :
    Ensures (Engine.ofExcept x) e fun answer e' => kept e' ∧ ∀ a, answer = .ok a → yields a := by
  cases x with
  | error fault => exact .throw ⟨keeps, by simp⟩
  | ok a => exact .pure ⟨keeps, given⟩

namespace Alongside

theorem pure {a : α} (related : goes s t) (keeps : kept e) (given : yields a) :
    Alongside kept goes yields (Pure.pure a) (Pure.pure a) s t e where
  answer := rfl
  engine := rfl
  goes := related
  kept := keeps
  yields _ same := by
    cases same
    exact given

theorem throw {fault : Fault} (related : goes s t) (keeps : kept e) :
    Alongside kept goes yields (MonadExcept.throw fault) (MonadExcept.throw fault) s t e where
  answer := rfl
  engine := rfl
  goes := related
  kept := keeps
  yields _ same := by cases same

theorem bind {act : Step σ α} {act' : Step τ α} {next : α → Step σ β} {next' : α → Step τ β} {yields' : β → Prop}
    (first : Alongside kept goes yields act act' s t e)
    (later : ∀ a s t e, goes s t → kept e → yields a → Alongside kept goes yields' (next a) (next' a) s t e) :
    Alongside kept goes yields' (act >>= next) (act' >>= next') s t e := by
  rw [Alongside] at first
  rw [Alongside, outcome_bind, outcome_bind]
  generalize outcome act (s, e) = left at first ⊢
  generalize outcome act' (t, e) = right at first ⊢
  obtain ⟨answer, s₁, e₁⟩ := left
  obtain ⟨answer', t₁, e₁'⟩ := right
  obtain ⟨same, engine, related, keeps, given⟩ := first
  obtain rfl : answer = answer' := same
  obtain rfl : e₁ = e₁' := engine
  cases answer with
  | error fault => exact ⟨rfl, rfl, related, keeps, by simp⟩
  | ok a => exact later a s₁ t₁ e₁ related keeps (given a rfl)

theorem map {act : Step σ α} {act' : Step τ α} {f : α → β} {yields' : β → Prop}
    (first : Alongside kept goes yields act act' s t e) (given : ∀ a, yields a → yields' (f a)) :
    Alongside kept goes yields' (act >>= fun a => Pure.pure (f a)) (act' >>= fun a => Pure.pure (f a)) s t e :=
  first.bind fun a _ _ _ related keeps yielded => .pure related keeps (given a yielded)

theorem theEngine_bind {next : Engine → Step σ β} {next' : Engine → Step τ β} {yields' : β → Prop}
    (later : Alongside kept goes yields' (next e) (next' e) s t e) :
    Alongside kept goes yields' (Step.theEngine >>= next) (Step.theEngine >>= next') s t e := later

theorem update_bind {f : σ → σ} {f' : τ → τ} {next : Unit → Step σ β} {next' : Unit → Step τ β} {yields' : β → Prop}
    (later : Alongside kept goes yields' (next ()) (next' ()) (f s) (f' t) e) :
    Alongside kept goes yields' (Step.update f >>= next) (Step.update f' >>= next') s t e := later

theorem alongside_within {goesPart : σ' → τ' → Prop} {part : σ → σ'} {part' : τ → τ'} {replace : σ → σ' → σ}
    {replace' : τ → τ' → τ} {act : Step σ' α} {act' : Step τ' α}
    (alongside : Alongside kept goesPart yields act act' (part s) (part' t) e)
    (whole : ∀ a b, goesPart a b → goes (replace s a) (replace' t b)) :
    Alongside kept goes yields (Step.within part replace act) (Step.within part' replace' act') s t e := by
  have inside {ω ω' : Type} (part : ω → ω') (replace : ω → ω' → ω) (act : Step ω' α) (s : ω) :
      outcome (Step.within part replace act) (s, e) = ((outcome act (part s, e)).1,
        replace s (outcome act (part s, e)).2.1, (outcome act (part s, e)).2.2) := by
    rw [outcome, outcome, Step.within]
    cases act (part s, e) <;> rfl
  rw [Alongside, inside, inside]
  exact ⟨alongside.answer, alongside.engine, whole _ _ alongside.goes, alongside.kept, alongside.yields⟩

theorem alongside_engine {act : Action α} (related : goes s t)
    (ensured : Ensures act e fun answer e' => kept e' ∧ ∀ a, answer = .ok a → yields a) :
    Alongside kept goes yields (Step.engine act) (Step.engine act) s t e := by
  have beside {ω : Type} (s : ω) :
      outcome (Step.engine act) (s, e) = ((outcome act e).1, s, (outcome act e).2) := by
    rw [outcome, outcome, Step.engine]
    cases act e <;> rfl
  obtain ⟨keeps, given⟩ := ensured.outcome
  rw [Alongside, beside, beside]
  exact ⟨rfl, rfl, related, keeps, given⟩

theorem attempt {act : Step σ α} {act' : Step τ α} (first : Alongside kept goes yields act act' s t e) :
    Alongside kept goes (fun answer => ∀ a, answer = .ok a → yields a) (RowStore.attempt act)
      (RowStore.attempt act') s t e := by
  have tried {ω : Type} (act : Step ω α) (s : ω × Engine) :
      outcome (RowStore.attempt act) s = (.ok (outcome act s).1, (outcome act s).2) := by
    rw [outcome, outcome, RowStore.attempt]
    cases act s <;> rfl
  rw [Alongside, tried, tried]
  refine ⟨congrArg Except.ok first.answer, first.engine, first.goes, first.kept, ?_⟩
  intro answer same
  cases same
  exact first.yields

end Alongside

/-- The sources do the same beside the same engine, and every row is a wanted one. -/
structure Source.Follows (kept : Engine → Prop) (wanted : Row → Prop) (left right : Source)
    (goes : left.State → right.State → Prop) : Prop where
  initial : goes left.initial right.initial
  finish : ∀ s t, goes s t → goes (left.finish s) (right.finish t)
  replay : Option.Rel (fun again again' => ∀ s t, goes s t → goes (again s) (again' t)) left.replay right.replay
  limit : left.limit = right.limit
  start : ∀ s t e, goes s t → kept e → Alongside kept goes (fun _ => True) left.start right.start s t e
  fetch : ∀ s t e, goes s t → kept e →
    Alongside kept goes (fun answer => ∀ row ∈ answer, wanted row) left.fetch right.fetch s t e

theorem Source.Gives.follows_self {source : Source} {good : source.State → Prop} {wanted : Row → Prop}
    (gives : source.Gives kept good wanted) : source.Follows kept wanted source fun s t => s = t ∧ good s where
  initial := ⟨rfl, gives.initial⟩
  finish s _ related := ⟨congrArg source.finish related.1, gives.finish s related.2⟩
  replay := by
    cases again : source.replay with
    | none => exact .none
    | some replay =>
      apply Option.Rel.some
      intro s t related
      obtain ⟨rfl, holds⟩ := related
      exact ⟨rfl, gives.replay replay again s holds⟩
  limit := rfl
  start s t e related keeps := by
    obtain ⟨rfl, holds⟩ := related
    obtain ⟨holds', keeps', -⟩ := (gives.start s e holds keeps).outcome
    exact ⟨rfl, rfl, ⟨rfl, holds'⟩, keeps', fun _ _ => trivial⟩
  fetch s t e related keeps := by
    obtain ⟨rfl, holds⟩ := related
    obtain ⟨holds', keeps', given⟩ := (gives.fetch s e holds keeps).outcome
    exact ⟨rfl, rfl, ⟨rfl, holds'⟩, keeps', given⟩

/-! ### Cursors -/

namespace Cursor

variable {left right : Source} {goes : left.State → right.State → Prop} {wanted : Row → Prop}

/-- The cursors stand at the same place, and the row that was looked at is a wanted one. -/
structure Beside (goes : left.State → right.State → Prop) (wanted : Row → Prop) (cur : Cursor left)
    (cur' : Cursor right) : Prop where
  isOpen : cur.isOpen = cur'.isOpen
  ahead : cur.ahead = cur'.ahead
  inner : goes cur.inner cur'.inner
  wanted : ∀ row ∈ cur.ahead, wanted row

theorem beside_of_inner {isOpen : Bool} {inner : left.State} {inner' : right.State} (related : goes inner inner') :
    Beside goes wanted (⟨isOpen, none, inner⟩ : Cursor left) (⟨isOpen, none, inner'⟩ : Cursor right) :=
  ⟨rfl, rfl, related, by simp⟩

variable (follows : left.Follows kept wanted right goes)

include follows

theorem beside_new : Beside goes wanted (new left) (new right) := beside_of_inner follows.initial

variable {cur : Cursor left} {cur' : Cursor right} (beside : Beside goes wanted cur cur') (keeps : kept e)

include beside

theorem Beside.beside_close : Beside goes wanted cur.close cur'.close :=
  beside_of_inner (follows.finish _ _ beside.inner)

omit follows in
theorem onInner_alongside {act : Step left.State α} {act' : Step right.State α}
    (alongside : Alongside kept goes yields act act' cur.inner cur'.inner e) :
    Alongside kept (Beside goes wanted) yields (onInner act) (onInner act') cur cur' e :=
  alongside.alongside_within fun _ _ related => ⟨beside.isOpen, beside.ahead, related, beside.wanted⟩

include keeps

omit follows in
theorem checkOpen_alongside {next : Unit → Step (Cursor left) α} {next' : Unit → Step (Cursor right) α}
    (later : Alongside kept (Beside goes wanted) yields (next ()) (next' ()) cur cur' e) :
    Alongside kept (Beside goes wanted) yields (checkOpen >>= next) (checkOpen >>= next') cur cur' e := by
  have same := beside.isOpen
  cases isOpen : cur.isOpen with
  | true =>
    rw [isOpen] at same
    rw [Alongside, outcome, outcome, checkOpen_of_open isOpen, checkOpen_of_open same.symm]
    exact later
  | false =>
    rw [isOpen] at same
    rw [Alongside, outcome, outcome, Step.bind_of_error (checkOpen_of_closed isOpen),
      Step.bind_of_error (checkOpen_of_closed same.symm)]
    exact ⟨rfl, rfl, beside, keeps, by simp⟩

theorem start_alongside :
    Alongside kept (Beside goes wanted) (fun _ => True) start start cur cur' e := by
  refine (onInner_alongside beside (follows.start _ _ e beside.inner keeps)).bind ?_
  intro _ cur₁ cur₁' e₁ beside₁ keeps₁ _
  exact ⟨rfl, rfl, beside_of_inner beside₁.inner, keeps₁, fun _ _ => trivial⟩

theorem fetch_alongside :
    Alongside kept (Beside goes wanted) (fun answer => ∀ row ∈ answer, wanted row) fetch fetch cur cur' e :=
  onInner_alongside beside (follows.fetch _ _ e beside.inner keeps)

theorem pull_alongside :
    Alongside kept (Beside goes wanted) (fun answer => ∀ row ∈ answer, wanted row) pull pull cur cur' e := by
  apply checkOpen_alongside beside keeps
  obtain ⟨isOpen, ahead, inner⟩ := cur
  obtain ⟨isOpen', ahead', inner'⟩ := cur'
  obtain rfl : isOpen = isOpen' := beside.isOpen
  obtain rfl : ahead = ahead' := beside.ahead
  cases ahead with
  | none => exact fetch_alongside follows beside keeps
  | some row =>
    refine ⟨rfl, rfl, beside_of_inner beside.inner, keeps, ?_⟩
    intro answer same
    cases same
    exact beside.wanted

theorem hasNext_alongside :
    Alongside kept (Beside goes wanted) (fun _ => True) hasNext hasNext cur cur' e := by
  refine (pull_alongside follows beside keeps).bind ?_
  intro answer cur₁ cur₁' e₁ beside₁ keeps₁ given
  exact ⟨rfl, rfl, ⟨beside₁.isOpen, rfl, beside₁.inner, given⟩, keeps₁, fun _ _ => trivial⟩

theorem next_alongside : Alongside kept (Beside goes wanted) wanted next next cur cur' e := by
  refine (pull_alongside follows beside keeps).bind ?_
  intro answer cur₁ cur₁' e₁ beside₁ keeps₁ given
  cases answer with
  | none => exact .throw beside₁ keeps₁
  | some row => exact .pure beside₁ keeps₁ (given row rfl)

theorem rewind_alongside :
    Alongside kept (Beside goes wanted) (fun _ => True) rewind rewind cur cur' e := by
  have replay := follows.replay
  rw [rewind, rewind]
  cases again : left.replay with
  | none =>
    cases again' : right.replay with
    | none => exact start_alongside follows (beside.beside_close follows) keeps
    | some _ => rw [again, again'] at replay; cases replay
  | some begin =>
    cases again' : right.replay with
    | none => rw [again, again'] at replay; cases replay
    | some begin' =>
      rw [again, again'] at replay
      cases replay with
      | some both =>
        apply checkOpen_alongside beside keeps
        have begun : Beside goes wanted (⟨cur.isOpen, none, begin cur.inner⟩ : Cursor left)
            (⟨cur'.isOpen, none, begin' cur'.inner⟩ : Cursor right) :=
          ⟨beside.isOpen, rfl, both _ _ beside.inner, by simp⟩
        exact ⟨rfl, rfl, begun, keeps, fun _ _ => trivial⟩

theorem take_alongside (n : Nat) :
    Alongside kept (Beside goes wanted) (fun taken => ∀ row ∈ taken.1, wanted row) (take n) (take n) cur cur' e := by
  induction n generalizing cur cur' e with
  | zero => exact .pure beside keeps (by simp)
  | succ n ih =>
    refine (next_alongside follows beside keeps).attempt.bind ?_
    intro answer cur₁ cur₁' e₁ beside₁ keeps₁ first
    cases answer with
    | error fault => exact .pure beside₁ keeps₁ (by simp)
    | ok row =>
      refine (ih beside₁ keeps₁).bind ?_
      intro taken cur₂ cur₂' e₂ beside₂ keeps₂ later
      exact .pure beside₂ keeps₂ (List.forall_mem_cons.mpr ⟨first row rfl, later⟩)

/-- Rows are drawn and dealt with, as long as that keeps up what is kept up. -/
theorem drain_alongside {visit : β → Row → Action β} {fine : β → Prop}
    (visits : ∀ acc row e, fine acc → wanted row → kept e →
      Ensures (visit acc row) e fun answer e' => kept e' ∧ ∀ acc, answer = .ok acc → fine acc)
    (turns : Nat) {acc : β} (sofar : fine acc) :
    Alongside kept (Beside goes wanted) fine (drain visit turns acc) (drain visit turns acc) cur cur' e := by
  induction turns generalizing cur cur' e acc with
  | zero => exact .throw beside keeps
  | succ turns ih =>
    refine (pull_alongside follows beside keeps).bind ?_
    intro answer cur₁ cur₁' e₁ beside₁ keeps₁ given
    cases answer with
    | none => exact .pure beside₁ keeps₁ sofar
    | some row =>
      refine (Alongside.alongside_engine beside₁ (visits acc row e₁ sofar (given row rfl) keeps₁)).bind ?_
      intro acc' cur₂ cur₂' e₂ beside₂ keeps₂ fine'
      exact ih beside₂ keeps₂ fine'

theorem find_alongside (accepts : Row → Bool) (turns : Nat) :
    Alongside kept (Beside goes wanted) (fun answer => ∀ row ∈ answer, wanted row) (find accepts turns)
      (find accepts turns) cur cur' e := by
  induction turns generalizing cur cur' e with
  | zero => exact .throw beside keeps
  | succ turns ih =>
    refine (pull_alongside follows beside keeps).bind ?_
    intro answer cur₁ cur₁' e₁ beside₁ keeps₁ given
    cases answer with
    | none => exact .pure beside₁ keeps₁ (by simp)
    | some row =>
      cases accepted : accepts row with
      | true => simp only [accepted, if_true]; exact .pure beside₁ keeps₁ given
      | false => simp only [accepted]; exact ih beside₁ keeps₁

omit beside keeps in
/-- They may take as many turns as each other. -/
theorem turns_alongside {next : Nat → Step (Cursor left) α} {next' : Nat → Step (Cursor right) α}
    (later : Alongside kept (Beside goes wanted) yields (next (left.limit e + 2)) (next' (left.limit e + 2)) cur cur' e) :
    Alongside kept (Beside goes wanted) yields (turns left >>= next) (turns right >>= next') cur cur' e := by
  have same : (turns right >>= next') (cur', e) = next' (left.limit e + 2) (cur', e) := by
    rw [follows.limit]
    rfl
  rw [Alongside, outcome, outcome, same]
  exact later

theorem collect_alongside :
    Alongside kept (Beside goes wanted) (fun rows => ∀ row ∈ rows, wanted row) collect collect cur cur' e := by
  apply turns_alongside follows
  have visits : ∀ (pile : List Row) row (e : Engine), (∀ row ∈ pile, wanted row) → wanted row → kept e →
      Ensures (Pure.pure (row :: pile) : Action (List Row)) e fun answer e' =>
        kept e' ∧ ∀ pile, answer = .ok pile → ∀ row ∈ pile, wanted row := by
    intro pile row e sofar fine keeps
    refine .pure ⟨keeps, ?_⟩
    intro pile' same
    cases same
    exact List.forall_mem_cons.mpr ⟨fine, sofar⟩
  refine (drain_alongside follows beside keeps visits _ (by simp)).map ?_
  intro rows all row among
  exact all row (List.mem_reverse.mp among)

end Cursor

theorem Use.act_alongside {left right : Source} {goes : left.State → right.State → Prop} {wanted : Row → Prop}
    (follows : left.Follows kept wanted right goes) {cur : Cursor left} {cur' : Cursor right}
    (beside : cur.Beside goes wanted cur') (keeps : kept e) (use : Use) :
    Alongside kept (Cursor.Beside goes wanted) (fun reply => ∀ row ∈ reply.given, wanted row) use.act use.act
      cur cur' e := by
  cases use with
  | start => exact (Cursor.start_alongside follows beside keeps).map fun _ _ => by simp [Reply.given]
  | close => exact ⟨rfl, rfl, beside.beside_close follows, keeps, fun _ same => by cases same; simp [Reply.given]⟩
  | rewind => exact (Cursor.rewind_alongside follows beside keeps).map fun _ _ => by simp [Reply.given]
  | hasNext => exact (Cursor.hasNext_alongside follows beside keeps).map fun _ _ => by simp [Reply.given]
  | next =>
    exact (Cursor.next_alongside follows beside keeps).map fun row given => by simpa [Reply.given] using given
  | fetch =>
    exact (Cursor.fetch_alongside follows beside keeps).map fun answer rows => by simpa [Reply.given] using rows
  | take count =>
    exact (Cursor.take_alongside follows beside keeps count).map fun taken rows => by
      simpa [Reply.given, List.reduceOption_mem_iff] using rows
  | collect =>
    exact (Cursor.collect_alongside follows beside keeps).map fun rows all => by
      simpa [Reply.given, List.reduceOption_mem_iff] using all

/-- The source's state is good, and the row that was looked at is a wanted one. -/
structure Cursor.Bears {source : Source} (good : source.State → Prop) (wanted : Row → Prop) (cur : Cursor source) :
    Prop where
  inner : good cur.inner
  ahead : ∀ row ∈ cur.ahead, wanted row

section

variable {source : Source} {good : source.State → Prop} {wanted : Row → Prop}
  (gives : source.Gives kept good wanted)

include gives

theorem Cursor.bears_new : (new source).Bears good wanted := ⟨gives.initial, by simp [new]⟩

/-- A cursor makes no rows of its own: whatever it is asked for, the rows in its reply are those of the source. -/
theorem Use.act_passes_wanted {cur : Cursor source} (bears : cur.Bears good wanted) (keeps : kept e) (use : Use) :
    Sustained kept (Cursor.Bears good wanted) (fun reply => ∀ row ∈ reply.given, wanted row)
      (outcome use.act (cur, e)).1 (outcome use.act (cur, e)).2 := by
  have alongside := use.act_alongside gives.follows_self ⟨rfl, rfl, ⟨rfl, bears.inner⟩, bears.ahead⟩ keeps
  exact ⟨⟨alongside.goes.inner.2, alongside.goes.wanted⟩, alongside.kept, alongside.yields⟩

end

namespace Source

/-! ### Rows that are there, and filters -/

theorem ofRows_gives {rows : List Row} {wanted : Row → Prop} (fine : ∀ row ∈ rows, wanted row) :
    (ofRows rows).Gives kept (fun rest : List Row => ∀ row ∈ rest, wanted row) wanted where
  initial := fine
  finish _ holds := holds
  replay again same := absurd same (by simp [ofRows])
  start s e _ keeps := ⟨fine, keeps, fun _ _ => trivial⟩
  fetch s e holds keeps := by
    cases s with
    | nil => exact ⟨holds, keeps, fun _ same => by cases same; simp⟩
    | cons row rest =>
      obtain ⟨first, later⟩ := List.forall_mem_cons.mp holds
      refine ⟨later, keeps, ?_⟩
      intro answer same other among
      cases same
      cases among
      exact first

theorem filter_follows {left right : Source} {goes : left.State → right.State → Prop} {wanted : Row → Prop}
    (follows : left.Follows kept wanted right goes) (condition : Condition) :
    (filter condition left).Follows kept wanted (filter condition right) (Cursor.Beside goes wanted) where
  initial := Cursor.beside_new follows
  finish _ _ beside := beside.beside_close follows
  replay := .none
  limit := follows.limit
  start _ _ _ beside keeps := Cursor.start_alongside follows beside keeps
  fetch _ _ _ beside keeps := Cursor.turns_alongside follows (Cursor.find_alongside follows beside keeps _ _)

/-! ### Joins -/

namespace Joining

variable {left left' right right' : Source} {goes : left.State → left'.State → Prop}
  {goes' : right.State → right'.State → Prop} {wanted wanted' : Row → Prop}

/-- Both sides stand at the same place and match the same left row. -/
structure Beside (goes : left.State → left'.State → Prop) (goes' : right.State → right'.State → Prop)
    (wanted wanted' : Row → Prop) (j : Joining left right) (j' : Joining left' right') : Prop where
  left : j.left.Beside goes wanted j'.left
  right : j.right.Beside goes' wanted' j'.right
  outer : j.outer = j'.outer
  wanted : ∀ row ∈ j.outer, wanted row

theorem beside_of_sides {inLeft : Cursor left} {inLeft' : Cursor left'} {inRight : Cursor right}
    {inRight' : Cursor right'} (lefts : inLeft.Beside goes wanted inLeft')
    (rights : inRight.Beside goes' wanted' inRight') :
    Beside goes goes' wanted wanted' ⟨inLeft, inRight, none⟩ ⟨inLeft', inRight', none⟩ :=
  ⟨lefts, rights, rfl, by simp⟩

variable (follows : left.Follows kept wanted left' goes) (follows' : right.Follows kept wanted' right' goes')
  {j : Joining left right} {j' : Joining left' right'} (beside : Beside goes goes' wanted wanted' j j')
  (keeps : kept e)

include beside

theorem onLeft_alongside {act : Step (Cursor left) α} {act' : Step (Cursor left') α}
    (alongside : Alongside kept (Cursor.Beside goes wanted) yields act act' j.left j'.left e) :
    Alongside kept (Beside goes goes' wanted wanted') yields (onLeft act) (onLeft act') j j' e :=
  alongside.alongside_within fun _ _ related => ⟨related, beside.right, beside.outer, beside.wanted⟩

theorem onRight_alongside {act : Step (Cursor right) α} {act' : Step (Cursor right') α}
    (alongside : Alongside kept (Cursor.Beside goes' wanted') yields act act' j.right j'.right e) :
    Alongside kept (Beside goes goes' wanted wanted') yields (onRight act) (onRight act') j j' e :=
  alongside.alongside_within fun _ _ related => ⟨beside.left, related, beside.outer, beside.wanted⟩

include keeps follows

theorem current_alongside :
    Alongside kept (Beside goes goes' wanted wanted') (fun answer => ∀ row ∈ answer, wanted row) current current
      j j' e := by
  obtain ⟨inLeft, inRight, outer⟩ := j
  obtain ⟨inLeft', inRight', outer'⟩ := j'
  obtain rfl : outer = outer' := beside.outer
  cases outer with
  | some row =>
    refine ⟨rfl, rfl, beside, keeps, ?_⟩
    intro answer same
    cases same
    exact beside.wanted
  | none =>
    refine (onLeft_alongside beside (Cursor.pull_alongside follows beside.left keeps)).bind ?_
    intro answer j₁ j₁' e₁ beside₁ keeps₁ given
    refine ⟨rfl, rfl, ⟨beside₁.left, beside₁.right, rfl, given⟩, keeps₁, ?_⟩
    intro answer' same
    cases same
    exact given

include follows'

theorem nextPair_alongside (accepts : Row → Row → Bool) (turns : Nat) :
    Alongside kept (Beside goes goes' wanted wanted')
      (fun pair => ∀ l r, pair = some (l, r) → wanted l ∧ wanted' r) (nextPair accepts turns)
      (nextPair accepts turns) j j' e := by
  induction turns generalizing j j' e with
  | zero => exact .throw beside keeps
  | succ turns ih =>
    refine (current_alongside follows beside keeps).bind ?_
    intro answer j₁ j₁' e₁ beside₁ keeps₁ given
    cases answer with
    | none => exact .pure beside₁ keeps₁ (by simp)
    | some l =>
      have found := Cursor.turns_alongside follows' (Cursor.find_alongside follows' beside₁.right keeps₁ (accepts l)
        (right.limit e₁ + 2))
      refine (onRight_alongside beside₁ found).bind ?_
      intro match? j₂ j₂' e₂ beside₂ keeps₂ given'
      cases match? with
      | some r =>
        refine .pure beside₂ keeps₂ ?_
        intro l' r' same
        cases same
        exact ⟨given l rfl, given' r rfl⟩
      | none =>
        have bare : Beside goes goes' wanted wanted' { j₂ with outer := none } { j₂' with outer := none } :=
          beside_of_sides beside₂.left beside₂.right
        refine .update_bind (.bind (onRight_alongside bare (Cursor.rewind_alongside follows' beside₂.right keeps₂)) ?_)
        intro _ j₃ j₃' e₃ beside₃ keeps₃ _
        exact ih beside₃ keeps₃

end Joining

theorem join_follows {left left' right right' : Source} {goes : left.State → left'.State → Prop}
    {goes' : right.State → right'.State → Prop} {wanted wanted' wanted'' : Row → Prop} {schema : Schema}
    (follows : left.Follows kept wanted left' goes) (follows' : right.Follows kept wanted' right' goes')
    (condition : JoinCondition) (joins : ∀ l r, wanted l → wanted' r → wanted'' (Row.joined schema l r)) :
    (join condition schema left right).Follows kept wanted'' (join condition schema left' right')
      (Joining.Beside goes goes' wanted wanted') where
  initial := Joining.beside_of_sides (Cursor.beside_new follows) (Cursor.beside_new follows')
  finish _ _ beside := Joining.beside_of_sides (beside.left.beside_close follows) (beside.right.beside_close follows')
  replay := .none
  limit := by
    ext1 e
    simp only [join, follows.limit, follows'.limit]
  start j j' e beside keeps := by
    refine (Joining.onLeft_alongside beside (Cursor.start_alongside follows beside.left keeps)).bind ?_
    intro _ j₁ j₁' e₁ beside₁ keeps₁ _
    refine (Joining.onRight_alongside beside₁ (Cursor.start_alongside follows' beside₁.right keeps₁)).bind ?_
    intro _ j₂ j₂' e₂ beside₂ keeps₂ _
    exact ⟨rfl, rfl, Joining.beside_of_sides beside₂.left beside₂.right, keeps₂, fun _ _ => trivial⟩
  fetch j j' e beside keeps := by
    have turns : left'.limit e = left.limit e := by rw [follows.limit]
    apply Alongside.theEngine_bind
    rw [turns]
    refine (Joining.nextPair_alongside follows follows' beside keeps condition.accepts (left.limit e + 2)).map ?_
    intro pair given row among
    obtain ⟨⟨l, r⟩, here, rfl⟩ := Option.map_eq_some_iff.mp among
    obtain ⟨fine, fine'⟩ := given l r here
    exact joins l r fine fine'

/-! ### Aggregates -/

namespace Aggregating

variable {left right : Source} {goes : left.State → right.State → Prop} {wanted result : Row → Prop}

/-- The results and those of them that are still to come are the same, and are wanted ones. -/
structure Beside (goes : left.State → right.State → Prop) (wanted result : Row → Prop) (a : Aggregating left)
    (a' : Aggregating right) : Prop where
  child : a.child.Beside goes wanted a'.child
  results : a.results = a'.results
  rest : a.rest = a'.rest
  wanted : ∀ row ∈ a.results, result row
  later : ∀ row ∈ a.rest, result row

theorem onChild_alongside {act : Step (Cursor left) α} {act' : Step (Cursor right) α} {a : Aggregating left}
    {a' : Aggregating right} (beside : Beside goes wanted result a a')
    (alongside : Alongside kept (Cursor.Beside goes wanted) yields act act' a.child a'.child e) :
    Alongside kept (Beside goes wanted result) yields (onChild act) (onChild act') a a' e :=
  alongside.alongside_within fun _ _ related => ⟨related, beside.results, beside.rest, beside.wanted, beside.later⟩

theorem summarise_alongside (follows : left.Follows kept wanted right goes) {cur : Cursor left} {cur' : Cursor right}
    (beside : cur.Beside goes wanted cur') (keeps : kept e) (grouping : Grouping) :
    Alongside kept (Cursor.Beside goes wanted) (fun rows => ∀ row ∈ rows, row.Conforms grouping.output.types)
      (summarise grouping) (summarise grouping) cur cur' e := by
  refine (Cursor.start_alongside follows beside keeps).bind ?_
  intro _ cur₁ cur₁' e₁ beside₁ keeps₁ _
  apply Cursor.turns_alongside follows
  have merges : ∀ groups row e, True → wanted row → kept e → Ensures (Engine.ofExcept (grouping.merge groups row)) e
      fun answer e' => kept e' ∧ ∀ groups, answer = .ok groups → True :=
    fun _ _ _ _ _ keeps => ofExcept_keeps keeps fun _ _ => trivial
  refine (Cursor.drain_alongside follows beside₁ keeps₁ merges _ trivial).bind ?_
  intro groups cur₂ cur₂' e₂ beside₂ keeps₂ _
  apply Alongside.alongside_engine beside₂
  apply ofExcept_keeps keeps₂
  intro rows built row among
  obtain ⟨⟨key, tally⟩, -, done⟩ := mem_of_mapM built row among
  exact grouping.conforms_of_resultRow done

end Aggregating

theorem aggregate_follows {left right : Source} {goes : left.State → right.State → Prop} {wanted : Row → Prop}
    (follows : left.Follows kept wanted right goes) (grouping : Grouping) :
    (aggregate grouping left).Follows kept (Row.Conforms grouping.output.types) (aggregate grouping right)
      (Aggregating.Beside goes wanted (Row.Conforms grouping.output.types)) where
  initial := ⟨Cursor.beside_new follows, rfl, rfl, by simp [aggregate], by simp [aggregate]⟩
  finish _ _ beside := ⟨beside.child.beside_close follows, rfl, rfl, by simp [aggregate], by simp [aggregate]⟩
  replay := .some fun _ _ beside => ⟨beside.child, beside.results, beside.results, beside.wanted, beside.wanted⟩
  limit := follows.limit
  start a a' e beside keeps := by
    have summarised := Aggregating.summarise_alongside follows beside.child keeps grouping
    refine Alongside.bind (Aggregating.onChild_alongside beside summarised) ?_
    intro rows a₁ a₁' e₁ beside₁ keeps₁ conform
    exact ⟨rfl, rfl, ⟨beside₁.child, rfl, rfl, conform, conform⟩, keeps₁, fun _ _ => trivial⟩
  fetch a a' e beside keeps := by
    obtain ⟨child, results, rest⟩ := a
    obtain ⟨child', results', rest'⟩ := a'
    obtain rfl : rest = rest' := beside.rest
    cases rest with
    | nil => exact ⟨rfl, rfl, beside, keeps, fun _ same => by cases same; simp⟩
    | cons row rest =>
      obtain ⟨first, later⟩ := List.forall_mem_cons.mp beside.later
      refine ⟨rfl, rfl, ⟨beside.child, beside.results, rfl, beside.wanted, later⟩, keeps, ?_⟩
      intro answer same other among
      cases same
      cases among
      exact first

/-! ### Changes -/

namespace Changing

variable {left right : Source} {goes : left.State → right.State → Prop} {wanted : Row → Prop}

/-- Both have come as far. -/
structure Beside (goes : left.State → right.State → Prop) (wanted : Row → Prop) (c : Changing left)
    (c' : Changing right) : Prop where
  child : c.child.Beside goes wanted c'.child
  done : c.done = c'.done

variable {c : Changing left} {c' : Changing right} (beside : Beside goes wanted c c')

include beside

theorem onChild_alongside {act : Step (Cursor left) α} {act' : Step (Cursor right) α}
    (alongside : Alongside kept (Cursor.Beside goes wanted) yields act act' c.child c'.child e) :
    Alongside kept (Beside goes wanted) yields (onChild act) (onChild act') c c' e :=
  alongside.alongside_within fun _ _ related => ⟨related, beside.done⟩

end Changing

theorem change_follows {left right : Source} {goes : left.State → right.State → Prop} {wanted : Row → Prop}
    (follows : left.Follows kept wanted right goes) (name : String) {act : Row → Action Unit}
    (acts : ∀ row e, wanted row → kept e → Ensures (act row) e fun _ e' => kept e') :
    (change name act left).Follows kept (Row.Conforms (Plan.countSchema name).types) (change name act right)
      (Changing.Beside goes wanted) where
  initial := ⟨Cursor.beside_new follows, rfl⟩
  finish _ _ beside := ⟨beside.child.beside_close follows, beside.done⟩
  replay := .none
  limit := rfl
  start c c' e beside keeps :=
    Changing.onChild_alongside beside (Cursor.start_alongside follows beside.child keeps)
  fetch c c' e beside keeps := by
    obtain ⟨child, done⟩ := c
    obtain ⟨child', done'⟩ := c'
    obtain rfl : done = done' := beside.done
    cases done with
    | true => exact ⟨rfl, rfl, beside, keeps, fun _ same => by cases same; simp⟩
    | false =>
      have visits : ∀ count row e, True → wanted row → kept e → Ensures (Changing.visit act count row) e
          fun answer e' => kept e' ∧ ∀ count, answer = .ok count → True := by
        intro count row e _ fine keeps
        refine (acts row e fine keeps).bind ?_ fun _ _ keeps => ⟨keeps, by simp⟩
        intro _ e' keeps'
        exact .pure ⟨keeps', fun _ _ => trivial⟩
      have visited : Alongside kept (Cursor.Beside goes wanted) (fun _ => True) (Changing.visitAll act)
          (Changing.visitAll act) child child' e :=
        Cursor.turns_alongside follows (Cursor.drain_alongside follows beside.child keeps visits _ trivial)
      refine Alongside.bind (Changing.onChild_alongside beside visited) ?_
      intro count c₁ c₁' e₁ beside₁ keeps₁ _
      have counted : Ensures (Engine.ofExcept (countRow name count)) e₁ fun answer e' =>
          kept e' ∧ ∀ row, answer = .ok row → row.Conforms (Plan.countSchema name).types :=
        ofExcept_keeps keeps₁ fun _ built => conforms_of_countRow built
      have ended : Changing.Beside goes wanted { c₁ with done := true } { c₁' with done := true } :=
        ⟨beside₁.child, rfl⟩
      refine .update_bind ((Alongside.alongside_engine ended counted).map ?_)
      intro row conforms given among
      cases among
      exact conforms

end Source

end RowStore
