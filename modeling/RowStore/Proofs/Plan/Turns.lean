import RowStore.Proofs.Plan.Cursors
import RowStore.Proofs.Plan.Fairness
/-!
# Cursors have turns enough

A source can give only so many rows before it comes to its end, however the tables grow meanwhile. A
cursor takes that many turns and more, so it comes to the end of the source, or fails for a reason.
-/

namespace RowStore

open Engine

/-- How a source is measured while files keep to a bound: the states it can be in, how many rows it can
still give, and how many it can give from any state. -/
structure Source.Gauge (source : Source) where
  good : (TableId → Nat) → source.State → Prop
  left : (TableId → Nat) → source.State → Nat
  most : (TableId → Nat) → Nat

/-- The source does only fair steps, its rows have values for the columns, and every row that it gives
is one less that it can still give. -/
structure Source.Lasts (c : Catalog) (settings : Settings) (types : List ColType) (source : Source)
    (gauge : source.Gauge) : Prop where
  wider : ∀ {bound bound' s}, (∀ table, bound table ≤ bound' table) → gauge.good bound s → gauge.good bound' s
  grows : ∀ {bound bound'}, (∀ table, bound table ≤ bound' table) → gauge.most bound ≤ gauge.most bound'
  initial : ∀ bound, gauge.good bound source.initial
  finish : ∀ bound s, gauge.good bound s → gauge.good bound (source.finish s)
  replay : ∀ again, source.replay = some again → ∀ bound s, gauge.good bound s → gauge.good bound (again s)
  bounded : ∀ {bound s}, gauge.good bound s → gauge.left bound s ≤ gauge.most bound
  limit : ∀ {bound e}, Under c settings bound e → gauge.most bound ≤ source.limit e
  start : ∀ {bound s e}, gauge.good bound s → Under c settings bound e →
    Ensures source.start (s, e) (Fair c settings bound (gauge.good bound) fun _ _ => True)
  fetch : ∀ {bound s e}, gauge.good bound s → Under c settings bound e →
    Ensures source.fetch (s, e) (Fair c settings bound (gauge.good bound) fun answer s' =>
      Row.MayConform types answer ∧ gauge.left bound s' + taken answer ≤ gauge.left bound s)

namespace Cursor

variable {source : Source} {c : Catalog} {settings : Settings} {types : List ColType} {gauge : source.Gauge}
  {bound : TableId → Nat} {bare : Prop} {α β : Type}

def left (gauge : source.Gauge) (bound : TableId → Nat) (cur : Cursor source) : Nat :=
  gauge.left bound cur.inner + taken cur.ahead

/-- A bare cursor has not looked at a row; those of which another source draws never do. -/
structure Fit (types : List ColType) (gauge : source.Gauge) (bare : Prop) (bound : TableId → Nat)
    (cur : Cursor source) : Prop where
  inner : gauge.good bound cur.inner
  ahead : Row.MayConform types cur.ahead
  bare : bare → cur.ahead = none

theorem fit_of_inner {isOpen : Bool} {inner : source.State} (holds : gauge.good bound inner) :
    Fit types gauge bare bound (⟨isOpen, none, inner⟩ : Cursor source) :=
  ⟨holds, fun _ same => absurd same (by simp), fun _ => rfl⟩

theorem taken_le_one (answer : Option α) : taken answer ≤ 1 := by
  rw [taken]
  split <;> omega

section

variable (lasts : source.Lasts c settings types gauge)

include lasts

theorem fit_new (bound : TableId → Nat) : Fit types gauge bare bound (new source) := fit_of_inner (lasts.initial bound)

theorem Fit.fit_close {cur : Cursor source} (fit : cur.Fit types gauge bare bound) :
    cur.close.Fit types gauge bare bound := fit_of_inner (lasts.finish _ _ fit.inner)

theorem Fit.fit_of_le {bound' : TableId → Nat} {cur : Cursor source} (fit : cur.Fit types gauge bare bound)
    (wider : ∀ table, bound table ≤ bound' table) : cur.Fit types gauge bare bound' :=
  ⟨lasts.wider wider fit.inner, fit.ahead, fit.bare⟩

theorem Fit.left_le {cur : Cursor source} (fit : cur.Fit types gauge True bound) :
    cur.left gauge bound ≤ gauge.most bound := by
  rw [left, fit.bare trivial, taken_none, Nat.add_zero]
  exact lasts.bounded fit.inner

/-- There are turns enough for all rows, for the row looked at, and to see that there are no more. -/
theorem Fit.left_lt {cur : Cursor source} (fit : cur.Fit types gauge bare bound) {e : Engine}
    (under : Under c settings bound e) : cur.left gauge bound < source.limit e + 2 := by
  have bounded := lasts.bounded fit.inner
  have limit := lasts.limit under
  have one := taken_le_one cur.ahead
  rw [left]
  omega

variable {cur : Cursor source} (fit : cur.Fit types gauge bare bound) {e : Engine} (under : Under c settings bound e)

include fit under

omit lasts in
theorem checkOpen_fair {next : Unit → Step (Cursor source) β} {goal : β → Cursor source → Prop}
    (later : Ensures (next ()) (cur, e) (Fair c settings bound (Fit types gauge bare bound) goal)) :
    Ensures (checkOpen >>= next) (cur, e) (Fair c settings bound (Fit types gauge bare bound) goal) := by
  show Ensures ((if cur.isOpen then pure () else throw .notOpen : Step (Cursor source) Unit) >>= next) (cur, e) _
  cases cur.isOpen with
  | true => exact later
  | false => exact ⟨fit, under.halted_of_not_full (by simp)⟩

omit lasts under in
theorem onInner_fair {act : Step source.State α} {yields : α → source.State → Prop}
    (fair : Ensures act (cur.inner, e) (Fair c settings bound (gauge.good bound) yields)) :
    Ensures (onInner act) (cur, e) (Fair c settings bound (Fit types gauge bare bound) fun a cur' =>
      cur'.ahead = cur.ahead ∧ yields a cur'.inner) := by
  apply fair.fair_within
  · intro inner holds
    exact ⟨holds, fit.ahead, fit.bare⟩
  · intro a inner given
    exact ⟨rfl, given⟩

theorem start_fair :
    Ensures start (cur, e) (Fair c settings bound (Fit types gauge bare bound) fun _ cur' => cur'.ahead = none) := by
  refine (onInner_fair fit (lasts.start fit.inner under)).fair_bind ?_
  intro _ cur' e' fit' under' _
  exact ⟨fit_of_inner fit'.inner, under', rfl⟩

theorem fetch_fair :
    Ensures fetch (cur, e) (Fair c settings bound (Fit types gauge bare bound) fun answer cur' =>
      Row.MayConform types answer ∧ cur'.left gauge bound + taken answer ≤ cur.left gauge bound) := by
  apply (onInner_fair fit (lasts.fetch fit.inner under)).fair_mono
  intro answer cur' given
  obtain ⟨ahead, conforms, less⟩ := given
  refine ⟨conforms, ?_⟩
  rw [left, left, ahead]
  omega

/-- Every row that a cursor gives is one less that it can still give. -/
theorem pull_fair :
    Ensures pull (cur, e) (Fair c settings bound (Fit types gauge bare bound) fun answer cur' =>
      Row.MayConform types answer ∧ cur'.left gauge bound + taken answer ≤ cur.left gauge bound) := by
  refine checkOpen_fair fit under (.here_bind ?_)
  cases ahead : cur.ahead with
  | some row =>
    refine ⟨fit_of_inner fit.inner, under, ?_, ?_⟩
    · rw [← ahead]
      exact fit.ahead
    · simp [left, ahead]
  | none => exact fetch_fair lasts fit under

/-- Looking at a row takes it from the source. -/
theorem hasNext_fair (free : ¬bare) :
    Ensures hasNext (cur, e) (Fair c settings bound (Fit types gauge bare bound) fun _ _ => True) := by
  refine (pull_fair lasts fit under).fair_bind ?_
  intro row cur' e' fit' under' given
  exact ⟨⟨fit'.inner, given.1, fun bare => absurd bare free⟩, under', trivial⟩

theorem next_fair :
    Ensures next (cur, e) (Fair c settings bound (Fit types gauge bare bound) fun _ _ => True) := by
  refine (pull_fair lasts fit under).fair_bind ?_
  intro answer cur' e' fit' under' _
  cases answer with
  | none => exact ⟨fit', under'.halted_of_not_full (by simp)⟩
  | some row => exact ⟨fit', under', trivial⟩

theorem rewind_fair :
    Ensures rewind (cur, e) (Fair c settings bound (Fit types gauge bare bound) fun _ cur' => cur'.ahead = none) := by
  rw [rewind]
  cases replay : source.replay with
  | none => exact start_fair lasts (fit.fit_close lasts) under
  | some again =>
    refine checkOpen_fair fit under ?_
    exact ⟨fit_of_inner (lasts.replay again replay _ _ fit.inner), under, rfl⟩

/-- As many turns as there can be rows, and one more, are enough to find one. -/
theorem find_fair (accepts : Row → Bool) (turns : Nat) (enough : cur.left gauge bound < turns) :
    Ensures (find accepts turns) (cur, e) (Fair c settings bound (Fit types gauge bare bound) fun answer cur' =>
      Row.MayConform types answer ∧ cur'.left gauge bound + taken answer ≤ cur.left gauge bound) := by
  induction turns generalizing cur e with
  | zero => exact absurd enough (Nat.not_lt_zero _)
  | succ turns ih =>
    refine (pull_fair lasts fit under).fair_bind ?_
    intro answer cur' e' fit' under' given
    cases answer with
    | none => exact ⟨fit', under', given⟩
    | some row =>
      have less := given.2
      rw [taken_some] at less
      by_cases accepted : accepts row
      · simp only [accepted, if_true]
        exact ⟨fit', under', given⟩
      · simp only [accepted]
        apply (ih fit' under' (by omega)).fair_mono
        intro answer cur'' found
        exact ⟨found.1, by omega⟩

/-- And to fold them all, where every row adds one to what is kept at most. -/
theorem drain_fair {visit : β → Row → Action β} {size : β → Nat}
    (visits : ∀ acc row e, row.Conforms types → Ready c settings e →
      Ensures (visit acc row) e (Honest c settings e fun acc' => size acc' ≤ size acc + 1))
    (turns : Nat) (acc : β) (enough : cur.left gauge bound < turns) :
    Ensures (drain visit turns acc) (cur, e) (Fair c settings bound (Fit types gauge bare bound) fun acc' _ =>
      size acc' ≤ size acc + cur.left gauge bound) := by
  induction turns generalizing cur e acc with
  | zero => exact absurd enough (Nat.not_lt_zero _)
  | succ turns ih =>
    refine (pull_fair lasts fit under).fair_bind ?_
    intro answer cur₁ e₁ fit₁ under₁ given
    obtain ⟨conforms, less⟩ := given
    cases answer with
    | none => exact ⟨fit₁, under₁, Nat.le_add_right _ _⟩
    | some row =>
      rw [taken_some] at less
      have visited := Ensures.fair_engine under₁ (visits acc row e₁ (conforms row rfl) under₁.ready) fit₁
      refine visited.fair_bind ?_
      intro acc' cur₂ e₂ fit₂ under₂ grown
      obtain ⟨rfl, grown⟩ := grown
      apply (ih fit₂ under₂ acc' (by omega)).fair_mono
      intro last cur₃ folded
      omega

/-- All turns that a cursor takes are enough. -/
theorem turns_fair {next : Nat → Step (Cursor source) β} {goal : β → Cursor source → Prop}
    (later : ∀ turns, cur.left gauge bound < turns →
      Ensures (next turns) (cur, e) (Fair c settings bound (Fit types gauge bare bound) goal)) :
    Ensures (turns source >>= next) (cur, e) (Fair c settings bound (Fit types gauge bare bound) goal) :=
  later _ (fit.left_lt lasts under)

theorem collect_fair :
    Ensures collect (cur, e) (Fair c settings bound (Fit types gauge bare bound) fun _ _ => True) := by
  apply turns_fair lasts fit under
  intro turns enough
  have drained : Ensures (drain (fun rows row => pure (row :: rows)) turns []) (cur, e)
      (Fair c settings bound (Fit types gauge bare bound) fun rows _ =>
        rows.length ≤ List.length ([] : List Row) + cur.left gauge bound) := by
    apply drain_fair lasts fit under ?_ turns [] enough
    intro rows row e _ ready
    exact ⟨ready.onward_self, Nat.le_refl _⟩
  refine drained.fair_bind ?_
  intro rows cur' e' fit' under' _
  exact ⟨fit', under', trivial⟩

/-- What ends the rows early is part of the answer. -/
theorem take_fair (n : Nat) :
    Ensures (take n) (cur, e) fun answer left => left.1.Fit types gauge bare bound ∧
      Halted c settings bound (∃ a, answer = .ok a ∧ Short a) left.2 := by
  induction n generalizing cur e with
  | zero => exact ⟨fit, under.halted_of_not_full (by simp)⟩
  | succ n ih =>
    have attempted : Ensures (attempt next) (cur, e) fun answer left => ∃ x, answer = .ok x ∧
        Fair c settings bound (Fit types gauge bare bound) (fun _ _ => True) x left :=
      (next_fair lasts fit under).attempt fun answer left done => ⟨answer, rfl, done⟩
    refine attempted.bind ?_ fun _ _ failed => absurd failed (by simp)
    intro x after tried
    obtain ⟨cur', e'⟩ := after
    obtain ⟨_, same, tried⟩ := tried
    cases same
    cases x with
    | error fault =>
      obtain ⟨fit', halted⟩ := tried
      refine ⟨fit', halted.ready, halted.room, ?_⟩
      intro full
      obtain ⟨a, same, short⟩ := full
      cases same
      exact halted.stuck (Option.some.inj short)
    | ok row =>
      obtain ⟨fit', under', -⟩ := tried
      refine (ih fit' under').bind ?_ ?_
      · intro rest after taken
        refine ⟨taken.1, taken.2.ready, taken.2.room, ?_⟩
        intro full
        obtain ⟨a, same, short⟩ := full
        cases same
        exact taken.2.stuck ⟨rest, rfl, short⟩
      · intro fault after failed
        exact ⟨failed.1, failed.2.ready, failed.2.room, fun full => absurd full (by simp)⟩

end

end Cursor

end RowStore
