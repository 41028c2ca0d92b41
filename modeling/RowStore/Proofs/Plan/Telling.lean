import RowStore.Proofs.Plan.Fairness
import RowStore.Proofs.Plan.Sources
/-!
# Drawing rows one after another

A source answers rows when it gives the first of those that are still to come and leaves the others. A
cursor that draws from it knows then what it will answer, whatever has been asked of it before. It is
refused a row only for a reason, and if the source is sure to start it has lost none by that.
-/

namespace RowStore

open Engine

/-- Another transaction is writing to the table. -/
def Engine.Barred (table : TableId) (txn : TxnId) (e : Engine) : Prop :=
  ∃ number other, other ≠ txn ∧ e.locks.mode? other ⟨table, number⟩ = some .exclusive

/-- Memory is said to be full, or another transaction is writing to a table among those. -/
def Refusal (among : List TableId) (fault : Fault) (e : Engine) : Prop :=
  fault = .poolFull ∨ ∃ txn, fault = .aborted txn ∧ ∃ table ∈ among, e.Barred table txn

variable {σ τ α β : Type} {shows : Engine → Prop} {refusal : Fault → Engine → Prop} {sure : Prop} {s : σ} {e : Engine}

/-- What fails is not gone on with. -/
theorem Step.bind_of_error {act : Step σ α} {next : α → Step σ β} {fault : Fault} {before after : σ × Engine}
    (failed : act before = .error fault after) : (act >>= next) before = .error fault after := by
  show EStateM.bind act next before = _
  rw [EStateM.bind, failed]

def Refused (refusal : Fault → Engine → Prop) (answer : Except Fault α) (e : Engine) : Prop :=
  ∃ fault, answer = .error fault ∧ refusal fault e

/-- A step is plain when its answer is the one that is said, unless it is refused. What it leaves is said for
either case, for the latter only where that is sure. The engine is as the condition says. -/
def Plain (shows : Engine → Prop) (refusal : Fault → Engine → Prop) (sure : Prop) (said : Except Fault α)
    (left kept : σ → Prop) (answer : Except Fault α) (after : σ × Engine) : Prop :=
  shows after.2 ∧ (answer = said ∧ left after.1 ∨ Refused refusal answer after.2 ∧ (sure → kept after.1))

namespace Ensures

variable {left kept left' kept' : σ → Prop} {said : Except Fault β}

theorem plain_bind {act : Step σ α} {next : α → Step σ β} {a : α}
    (first : Ensures act (s, e) (Plain shows refusal sure (.ok a) left kept))
    (later : ∀ s' e', shows e' → left s' → Ensures (next a) (s', e') (Plain shows refusal sure said left' kept'))
    (stays : ∀ s', kept s' → kept' s') : Ensures (act >>= next) (s, e) (Plain shows refusal sure said left' kept') := by
  refine first.bind ?_ ?_
  · rintro answer ⟨s', e'⟩ ⟨shown, ⟨same, holds⟩ | ⟨⟨_, other, -⟩, -⟩⟩
    · cases same
      exact later s' e' shown holds
    · exact absurd other (by simp)
  · rintro fault ⟨s', e'⟩ ⟨shown, ⟨other, -⟩ | ⟨⟨_, same, refusal⟩, keeps⟩⟩
    · exact absurd other (by simp)
    · cases same
      exact ⟨shown, .inr ⟨⟨fault, rfl, refusal⟩, fun sure => stays s' (keeps sure)⟩⟩

theorem plain_within {part : σ → τ} {replace : σ → τ → σ} {act : Step τ α} {said : Except Fault α}
    {leftPart keptPart : τ → Prop} (ensured : Ensures act (part s, e) (Plain shows refusal sure said leftPart keptPart))
    (leaves : ∀ t, leftPart t → left (replace s t)) (keeps : ∀ t, keptPart t → kept (replace s t)) :
    Ensures (Step.within part replace act) (s, e) (Plain shows refusal sure said left kept) := by
  refine ensured.within_step ?_
  rintro answer ⟨t, e'⟩ ⟨shown, ⟨same, holds⟩ | ⟨refused, stays⟩⟩
  · exact ⟨shown, .inl ⟨same, leaves t holds⟩⟩
  · exact ⟨shown, .inr ⟨refused, fun sure => keeps t (stays sure)⟩⟩

theorem plain_mono {act : Step σ β} (ensured : Ensures act (s, e) (Plain shows refusal sure said left kept))
    (leaves : ∀ s', left s' → left' s') (stays : ∀ s', kept s' → kept' s') :
    Ensures act (s, e) (Plain shows refusal sure said left' kept') := by
  refine ensured.mono ?_
  rintro answer after ⟨shown, ⟨same, holds⟩ | ⟨refused, keeps⟩⟩
  · exact ⟨shown, .inl ⟨same, leaves _ holds⟩⟩
  · exact ⟨shown, .inr ⟨refused, fun sure => stays _ (keeps sure)⟩⟩

/-- Where nothing is sure, a refused step may leave anything. -/
theorem plain_unsure {act : Step σ β} (unsure : ¬sure)
    (ensured : Ensures act (s, e) (Plain shows refusal sure said left kept)) :
    Ensures act (s, e) (Plain shows refusal sure said left kept') := by
  refine ensured.mono ?_
  rintro answer after ⟨shown, told | ⟨refused, -⟩⟩
  · exact ⟨shown, .inl told⟩
  · exact ⟨shown, .inr ⟨refused, fun sure => absurd sure unsure⟩⟩

theorem plain_pure {b : β} (shown : shows e) (holds : left s) :
    Ensures (Pure.pure b) (s, e) (Plain shows refusal sure (.ok b) left kept) := ⟨shown, .inl ⟨rfl, holds⟩⟩

/-- Where the turns run out, memory is said to be full. -/
theorem plain_full (shown : shows e) (full : refusal .poolFull e) (holds : kept s) :
    Ensures (MonadExcept.throw Fault.poolFull : Step σ β) (s, e) (Plain shows refusal sure said left kept) :=
  ⟨shown, .inr ⟨⟨.poolFull, rfl, full⟩, fun _ => holds⟩⟩

end Ensures

/-- There are turns enough for the rows, unless it may be said that memory is full. -/
def Enough (shows : Engine → Prop) (refusal : Fault → Engine → Prop) (turns : Nat) (rows : List α) : Prop :=
  (∀ e, shows e → refusal .poolFull e) ∨ rows.length < turns

theorem Enough.refusal_of_zero {rows : List α} (enough : Enough shows refusal 0 rows) (shown : shows e) :
    refusal .poolFull e := enough.elim (fun full => full e shown) fun fewer => absurd fewer (Nat.not_lt_zero _)

theorem Enough.enough_tail {turns : Nat} {row : α} {rows : List α}
    (enough : Enough shows refusal (turns + 1) (row :: rows)) :
    Enough shows refusal turns rows := enough.imp_right Nat.lt_of_succ_lt_succ

/-- From the states in which rows are still to come the source answers the first of them, it starts with all
rows and it can begin again with them. There are not more of them than it says, unless it may be said that
memory is full. -/
structure Source.Answers (shows : Engine → Prop) (refusal : Fault → Engine → Prop) (sure : Prop) (rows : List Row)
    (source : Source) (still : List Row → source.State → Prop) : Prop where
  start : ∀ s e, shows e →
    Ensures source.start (s, e) (Plain shows refusal sure (.ok ()) (still rows) fun _ => False)
  fetch : ∀ rest s e, still rest s → shows e →
    Ensures source.fetch (s, e) (Plain shows refusal sure (.ok rest.head?) (still rest.tail) (still rest))
  replay : ∀ again, source.replay = some again → ∀ rest s, still rest s → still rows (again s)
  limit : (∀ e, shows e → refusal .poolFull e) ∨ ∀ e, shows e →
    rows.length ≤ source.limit e ∧ ∀ rest s, still rest s → rest.length ≤ source.limit e

/-- The source answers the rows, and is refused them only where memory is said to be full or another transaction
is writing to one of the tables. -/
abbrev Source.Tells (shows : Engine → Prop) (among : List TableId) (sure : Prop) (rows : List Row) (source : Source)
    (still : List Row → source.State → Prop) : Prop := source.Answers shows (Refusal among) sure rows still

namespace Cursor

variable {source : Source} {still : List Row → source.State → Prop} {rows rest : List Row} {cur : Cursor source}

/-- The cursor is open, and the rows are still to come from it. -/
structure Awaits (still : List Row → source.State → Prop) (rest : List Row) (cur : Cursor source) : Prop where
  isOpen : cur.isOpen = true
  later : ∃ later, still later cur.inner ∧ rest = cur.ahead.toList ++ later

/-- The rows are still to come from the cursor, and none of them has been looked at. -/
structure Draws (still : List Row → source.State → Prop) (rest : List Row) (cur : Cursor source) : Prop where
  isOpen : cur.isOpen = true
  ahead : cur.ahead = none
  inner : still rest cur.inner

theorem Draws.to_awaits (draws : cur.Draws still rest) : cur.Awaits still rest :=
  ⟨draws.isOpen, rest, draws.inner, by rw [draws.ahead]; rfl⟩

/-- The rows are those of the rows still to come that pass the test. -/
def Sifts (still : List Row → source.State → Prop) (accepts : Row → Bool) (rest : List Row)
    (cur : Cursor source) : Prop := ∃ all, cur.Draws still all ∧ rest = all.filter accepts

theorem checkOpen_of_closed (closed : cur.isOpen = false) : checkOpen (cur, e) = .error .notOpen (cur, e) := by
  show (if cur.isOpen then pure () else throw .notOpen : Step (Cursor source) Unit) (cur, e) = _
  rw [closed]
  rfl

theorem checkOpen_of_open {next : Unit → Step (Cursor source) β} (isOpen : cur.isOpen = true) :
    (checkOpen >>= next) (cur, e) = next () (cur, e) := by
  show ((if cur.isOpen then pure () else throw .notOpen : Step (Cursor source) Unit) >>= next) (cur, e) = _
  rw [isOpen]
  rfl

section

variable (answers : source.Answers shows refusal sure rows still) (shown : shows e)

include answers shown

theorem start_plain (cur : Cursor source) :
    Ensures start (cur, e) (Plain shows refusal sure (.ok ()) (Draws still rows) fun _ => False) := by
  have started : Ensures (onInner source.start) (cur, e)
      (Plain shows refusal sure (.ok ()) (fun cur' => still rows cur'.inner) fun _ => False) :=
    (answers.start cur.inner e shown).plain_within (fun _ holds => holds) fun _ => False.elim
  refine started.plain_bind ?_ fun _ => False.elim
  intro cur' e' shown' holds
  exact ⟨shown', .inl ⟨rfl, rfl, rfl, holds⟩⟩

theorem pull_draws (draws : cur.Draws still rest) :
    Ensures pull (cur, e) (Plain shows refusal sure (.ok rest.head?) (Draws still rest.tail) (Draws still rest)) := by
  obtain ⟨isOpen, ahead, holds⟩ := draws
  refine .congr (checkOpen_of_open isOpen) (.here_bind ?_)
  rw [ahead]
  have fetched : Ensures (onInner source.fetch) (cur, e)
      (Plain shows refusal sure (.ok rest.head?) (Draws still rest.tail) (Draws still rest)) :=
    (answers.fetch rest cur.inner e holds shown).plain_within (fun inner holds => ⟨isOpen, ahead, holds⟩)
      fun inner holds => ⟨isOpen, ahead, holds⟩
  exact fetched

variable (awaits : cur.Awaits still rest)

include awaits

theorem pull_plain :
    Ensures pull (cur, e) (Plain shows refusal sure (.ok rest.head?) (Draws still rest.tail) (Awaits still rest)) := by
  obtain ⟨isOpen, later, holds, rfl⟩ := awaits
  cases ahead : cur.ahead with
  | some row =>
    refine .congr (checkOpen_of_open isOpen) (.here_bind ?_)
    rw [ahead]
    exact ⟨shown, .inl ⟨rfl, isOpen, rfl, holds⟩⟩
  | none => exact (pull_draws answers shown ⟨isOpen, ahead, holds⟩).plain_mono (fun _ => id) fun _ => Draws.to_awaits

omit answers shown in
theorem length_le_of_awaits (most : ∀ later s, still later s → later.length ≤ source.limit e) :
    rest.length < source.limit e + 2 := by
  obtain ⟨-, later, holds, rfl⟩ := awaits
  have fewer := most later cur.inner holds
  have ahead : cur.ahead.toList.length ≤ 1 := by cases cur.ahead <;> simp
  rw [List.length_append]
  omega

/-- A cursor takes turns enough. -/
theorem enough_turns : Enough shows refusal (source.limit e + 2) rest :=
  answers.limit.imp_right fun limit => length_le_of_awaits awaits (limit e shown).2

theorem hasNext_plain :
    Ensures hasNext (cur, e)
      (Plain shows refusal sure (.ok !rest.isEmpty) (Awaits still rest) (Awaits still rest)) := by
  refine (pull_plain answers shown awaits).plain_bind ?_ fun _ kept => kept
  rintro cur' e' shown' ⟨isOpen, -, holds⟩
  refine ⟨shown', .inl ⟨?_, isOpen, rest.tail, holds, ?_⟩⟩
  · cases rest <;> rfl
  · cases rest <;> rfl

theorem rewind_plain :
    Ensures rewind (cur, e) (Plain shows refusal sure (.ok ()) (Draws still rows) fun _ => False) := by
  rw [rewind]
  cases replay : source.replay with
  | none => exact start_plain answers shown cur.close
  | some again =>
    obtain ⟨isOpen, later, holds, -⟩ := awaits
    refine .congr (checkOpen_of_open isOpen) ?_
    exact ⟨shown, .inl ⟨rfl, isOpen, rfl, answers.replay again replay later cur.inner holds⟩⟩

theorem next_plain :
    Ensures next (cur, e) (Plain shows refusal sure (rest.head?.elim (.error .noMoreRows) .ok)
      (Awaits still rest.tail) (Awaits still rest)) := by
  refine (pull_plain answers shown awaits).plain_bind ?_ fun _ kept => kept
  intro cur' e' shown' draws
  cases rest with
  | nil => exact ⟨shown', .inl ⟨rfl, draws.to_awaits⟩⟩
  | cons row later => exact ⟨shown', .inl ⟨rfl, draws.to_awaits⟩⟩

end

section

variable (answers : source.Answers shows refusal sure rows still)

include answers

theorem find_plain (accepts : Row → Bool) (turns : Nat) {all : List Row} (shown : shows e)
    (draws : cur.Draws still all) (enough : Enough shows refusal turns all) :
    Ensures (find accepts turns) (cur, e) (Plain shows refusal sure (.ok (all.filter accepts).head?)
      (Sifts still accepts (all.filter accepts).tail) (Sifts still accepts (all.filter accepts))) := by
  induction turns generalizing cur e all with
  | zero => exact .plain_full shown (enough.refusal_of_zero shown) ⟨all, draws, rfl⟩
  | succ turns ih =>
    refine (pull_draws answers shown draws).plain_bind ?_ fun cur' kept => ⟨all, kept, rfl⟩
    intro cur' e' shown' draws'
    cases all with
    | nil => exact ⟨shown', .inl ⟨rfl, [], draws', rfl⟩⟩
    | cons row later =>
      by_cases accepted : accepts row
      · simp only [List.head?_cons, accepted, if_true, List.filter_cons_of_pos]
        exact ⟨shown', .inl ⟨rfl, later, draws', rfl⟩⟩
      · rw [List.filter_cons_of_neg accepted]
        simp only [List.head?_cons, accepted]
        exact ih shown' draws' enough.enough_tail

theorem sift_plain (accepts : Row → Bool) (shown : shows e) (sifts : cur.Sifts still accepts rest) :
    Ensures (do find accepts (← turns source)) (cur, e) (Plain shows refusal sure (.ok rest.head?)
      (Sifts still accepts rest.tail) (Sifts still accepts rest)) := by
  obtain ⟨all, draws, rfl⟩ := sifts
  exact find_plain answers accepts _ shown draws (enough_turns answers shown draws.to_awaits)

/-- All rows are folded, unless one is refused. -/
theorem drain_plain (visit : β → Row → Except Fault β) (turns : Nat) (shown : shows e) (awaits : cur.Awaits still rest)
    (enough : Enough shows refusal turns rest) {acc last : β} (folded : rest.foldlM visit acc = .ok last) :
    Ensures (drain (fun acc row => Engine.ofExcept (visit acc row)) turns acc) (cur, e)
      (Plain shows refusal sure (.ok last) (Awaits still []) fun _ => True) := by
  induction turns generalizing cur e rest acc with
  | zero => exact .plain_full shown (enough.refusal_of_zero shown) trivial
  | succ turns ih =>
    refine (pull_plain answers shown awaits).plain_bind ?_ fun _ _ => trivial
    intro cur' e' shown' draws
    have awaits' := draws.to_awaits
    cases rest with
    | nil =>
      cases folded
      exact ⟨shown', .inl ⟨rfl, awaits'⟩⟩
    | cons row later =>
      obtain ⟨acc', visited, folded'⟩ := Except.bind_eq_ok folded
      have once : Ensures (Step.engine (Engine.ofExcept (visit acc row))) (cur', e')
          (Plain shows refusal sure (.ok acc') (Awaits still later) fun _ => True) := by
        rw [visited]
        exact .plain_pure shown' awaits'
      refine once.plain_bind ?_ fun _ _ => trivial
      exact fun cur'' e'' shown'' awaits'' => ih shown'' awaits'' enough.enough_tail folded'

theorem collect_plain (shown : shows e) (awaits : cur.Awaits still rest) :
    Ensures collect (cur, e) (Plain shows refusal sure (.ok rest) (Awaits still []) fun _ => True) := by
  have folded : ∀ (list before : List Row),
      list.foldlM (fun rows row => (.ok (row :: rows) : Except Fault (List Row))) before =
        .ok (list.reverse ++ before) := by
    intro list
    induction list with
    | nil => exact fun before => rfl
    | cons row list ih =>
      intro before
      rw [List.reverse_cons, List.append_assoc]
      exact ih (row :: before)
  have drained := drain_plain answers (fun rows row => .ok (row :: rows)) (source.limit e + 2) shown awaits
    (enough_turns answers shown awaits) (folded rest [])
  refine drained.plain_bind ?_ fun _ kept => kept
  intro cur' e' shown' awaits'
  refine ⟨shown', .inl ⟨?_, awaits'⟩⟩
  simp

/-- What was taken, when nothing was refused, ends where there are no more rows. -/
theorem take_plain (n : Nat) (shown : shows e) (awaits : cur.Awaits still rest) :
    Ensures (take n) (cur, e) fun answer after => shows after.2 ∧
      (answer = .ok (rest.take n, if n ≤ rest.length then none else some .noMoreRows) ∧
          after.1.Awaits still (rest.drop n) ∨
        ∃ given fault, answer = .ok (given, some fault) ∧ refusal fault after.2) := by
  induction n generalizing cur e rest with
  | zero => exact ⟨shown, .inl ⟨rfl, awaits⟩⟩
  | succ n ih =>
    have attempted : Ensures (attempt next) (cur, e) fun answer after => ∃ x, answer = .ok x ∧
        Plain shows refusal sure (rest.head?.elim (.error .noMoreRows) .ok) (Awaits still rest.tail) (Awaits still rest)
          x after := (next_plain answers shown awaits).attempt fun x _ done => ⟨x, rfl, done⟩
    refine attempted.bind ?_ fun _ _ failed => absurd failed (by simp)
    rintro x ⟨cur', e'⟩ ⟨_, ⟨⟩, shown', ⟨rfl, awaits'⟩ | ⟨⟨fault, rfl, refusal⟩, -⟩⟩
    · cases rest with
      | nil => exact ⟨shown', .inl ⟨rfl, awaits'⟩⟩
      | cons row later =>
        refine (ih shown' awaits').bind ?_ ?_
        · rintro _ ⟨cur'', e''⟩ ⟨shown'', ⟨⟨⟩, awaits''⟩ | ⟨given, fault, ⟨⟩, refusal⟩⟩
          · refine ⟨shown'', .inl ⟨?_, awaits''⟩⟩
            simp only [List.length_cons, Nat.add_le_add_iff_right, List.take_succ_cons]
            rfl
          · exact ⟨shown'', .inr ⟨row :: given, fault, rfl, refusal⟩⟩
        · rintro fault after ⟨-, ⟨other, -⟩ | ⟨_, _, other, -⟩⟩ <;> exact absurd other (by simp)
    · exact ⟨shown', .inr ⟨[], fault, rfl, refusal⟩⟩

end

end Cursor

end RowStore
