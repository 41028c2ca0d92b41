import Mathlib
import RowStore.Proofs.Lock.Search
/-!
# Searching in any order

A search that forgets no edge has to remember where it has been. It keeps a pile of transactions to look at, in which
one may lie many times, and takes them up one by one: those that it has seen it puts aside, those that are new it
marks, and puts those for whom they wait on the pile, in whatever order they come. Edges are followed once at most,
so there are no more turns than edges, and all searches from a transaction come to the same answer, which is that
of the search that forgets.
-/

namespace RowStore.WaitGraph

open Relation

def edgeCount (g : WaitGraph) : Nat := (g.edges.entries.map fun entry => entry.2.length).sum

/-- Without the edges that leave the transactions. -/
def forget (g : WaitGraph) (seen : List TxnId) : WaitGraph := seen.foldr (fun txn g => g.stopWaiting txn) g

/-! ### Edges that are left -/

theorem targets_forget (g : WaitGraph) (seen : List TxnId) (txn : TxnId) :
    (g.forget seen).targets txn = if txn ∈ seen then [] else g.targets txn := by
  induction seen with
  | nil => rfl
  | cons first seen ih =>
    rw [forget, List.foldr_cons, ← forget, targets_stopWaiting, ih]
    by_cases same : txn = first
    · rw [if_pos same, if_pos (List.mem_cons.mpr (.inl same))]
    · simp only [same, if_false, List.mem_cons, false_or]

theorem edgeCount_stopWaiting (g : WaitGraph) (txn : TxnId) :
    (g.stopWaiting txn).edgeCount + (g.targets txn).length = g.edgeCount := by
  obtain ⟨⟨entries, distinct⟩⟩ := g
  simp only [edgeCount, stopWaiting, targets, FinMap.erase, FinMap.filter, FinMap.get?]
  induction entries with
  | nil => rfl
  | cons entry rest ih =>
    obtain ⟨key, others⟩ := entry
    obtain ⟨first, distinct⟩ := List.pairwise_cons.mp distinct
    have later := ih distinct
    by_cases same : txn = key
    · subst same
      -- the key does not come again, so all of the rest is left
      have left : rest.filter (fun entry => decide (entry.1 ≠ txn)) = rest := by
        rw [List.filter_eq_self]
        intro entry among
        exact decide_eq_true fun same => first entry among same.symm
      simp only [List.filter_cons, ne_eq, not_true_eq_false, decide_false, Bool.false_eq_true, if_false,
        List.lookup_cons_self, Option.getD_some, List.map_cons, List.sum_cons] at left ⊢
      rw [left]
      omega
    · have differs : (txn == key) = false := by simpa using same
      have kept : decide (key ≠ txn) = true := by simpa using fun h => same h.symm
      simp only [List.filter_cons, kept, if_true, List.map_cons, List.sum_cons, List.lookup_cons, differs]
      omega

theorem length_targets_le (g : WaitGraph) (txn : TxnId) : (g.targets txn).length ≤ g.edgeCount := by
  have split := g.edgeCount_stopWaiting txn
  omega

/-! ### One turn -/

/-- A search on its way: the transactions to look at, the next one first, and those that it has seen. -/
structure Trace where
  pending : List TxnId
  seen : List TxnId

namespace Trace

variable {g : WaitGraph} {goal : TxnId} {t t' : Trace} {n : Nat}

/-- In the beginning the search is to look at those for whom the goal waits. -/
def Begins (g : WaitGraph) (goal : TxnId) (t : Trace) : Prop := t.seen = [] ∧ t.pending.Perm (g.targets goal)

/-- One transaction other than the goal is looked at. -/
inductive Turn (g : WaitGraph) (goal : TxnId) : Trace → Trace → Prop where
  | pass {txn : TxnId} {rest seen : List TxnId} (differs : txn ≠ goal) (known : txn ∈ seen) :
      Turn g goal ⟨txn :: rest, seen⟩ ⟨rest, seen⟩
  | follow {txn : TxnId} {rest seen others : List TxnId} (differs : txn ≠ goal) (new : txn ∉ seen)
      (all : others.Perm (g.targets txn)) : Turn g goal ⟨txn :: rest, seen⟩ ⟨others ++ rest, txn :: seen⟩

/-- So many turns lead from the one to the other. -/
inductive Turns (g : WaitGraph) (goal : TxnId) (t : Trace) : Nat → Trace → Prop where
  | none : Turns g goal t 0 t
  | more {n : Nat} {t' t'' : Trace} (before : Turns g goal t n t') (turn : Turn g goal t' t'') :
      Turns g goal t (n + 1) t''

/-- The search has an answer when the goal comes next, or nothing. -/
def answer? (goal : TxnId) (t : Trace) : Option Bool :=
  match t.pending with
  | [] => some false
  | txn :: _ => if txn = goal then some true else none

/-- From something that is still to be looked at there is a way to the goal, not by what has been seen. -/
def Open (g : WaitGraph) (goal : TxnId) (t : Trace) : Prop :=
  ∃ start ∈ t.pending, ReflTransGen (g.forget t.seen).Edge start goal

/-- The edges that may still be followed, and the transactions that they have brought up. -/
def ahead (g : WaitGraph) (t : Trace) : Nat := (g.forget t.seen).edgeCount + t.pending.length

theorem Turn.open_iff (turn : Turn g goal t t') : t'.Open g goal ↔ t.Open g goal := by
  cases turn with
  | pass differs known => exact (way_of_passed differs (by rw [targets_forget, if_pos known]) _).symm
  | @follow txn rest seen others differs new all =>
    have followed : (g.forget seen).targets txn = g.targets txn := by rw [targets_forget, if_neg new]
    simp only [Open]
    rw [way_of_followed differs, followed]
    simp only [List.mem_append, all.mem_iff]
    rfl

/-- Whatever is looked at, one thing less is ahead. -/
theorem Turn.ahead_eq (turn : Turn g goal t t') : t'.ahead g + 1 = t.ahead g := by
  cases turn with
  | pass => simp only [ahead, List.length_cons]; omega
  | @follow txn rest seen others differs new all =>
    have split := (g.forget seen).edgeCount_stopWaiting txn
    rw [targets_forget, if_neg new, ← all.length_eq] at split
    simp only [ahead, List.length_append, List.length_cons]
    rw [← split, forget, List.foldr_cons, ← forget]
    omega

theorem Turn.goal_unseen (turn : Turn g goal t t') (unseen : goal ∉ t.seen) : goal ∉ t'.seen := by
  cases turn with
  | pass => exact unseen
  | follow differs =>
    intro among
    rcases List.mem_cons.mp among with same | before
    · exact differs same.symm
    · exact unseen before

theorem answer?_eq_none_iff : t.answer? goal = none ↔ ∃ next, Turn g goal t next := by
  obtain ⟨pending, seen⟩ := t
  cases pending with
  | nil =>
    simp only [answer?, reduceCtorEq, false_iff]
    rintro ⟨next, turn⟩
    cases turn
  | cons txn rest =>
    simp only [answer?, ite_eq_right_iff, reduceCtorEq, imp_false]
    constructor
    · intro differs
      by_cases known : txn ∈ seen
      · exact ⟨_, .pass differs known⟩
      · exact ⟨_, .follow differs known (.refl _)⟩
    · rintro ⟨next, turn⟩
      cases turn <;> assumption

/-- Where the search has an answer it is open just if the goal has been found. -/
theorem answer_eq_true_iff {answer : Bool} (told : t.answer? goal = some answer) : answer = true ↔ t.Open g goal := by
  obtain ⟨pending, seen⟩ := t
  cases pending with
  | nil =>
    cases told
    simp [Open]
  | cons txn rest =>
    simp only [answer?, Option.ite_none_right_eq_some, Option.some_inj] at told
    obtain ⟨rfl, rfl⟩ := told
    simp only [true_iff]
    exact ⟨txn, List.mem_cons_self, .refl⟩

/-! ### Many turns -/

theorem Turns.open_iff (turns : Turns g goal t n t') : t'.Open g goal ↔ t.Open g goal := by
  induction turns with
  | none => exact Iff.rfl
  | more _ turn ih => exact turn.open_iff.trans ih

theorem Turns.ahead_eq (turns : Turns g goal t n t') : t'.ahead g + n = t.ahead g := by
  induction turns with
  | none => rfl
  | more _ turn ih =>
    have one := turn.ahead_eq
    omega

theorem Turns.goal_unseen (turns : Turns g goal t n t') (unseen : goal ∉ t.seen) : goal ∉ t'.seen := by
  induction turns with
  | none => exact unseen
  | more _ turn ih => exact turn.goal_unseen ih

theorem Turns.trans {t'' : Trace} {m : Nat} (turns : Turns g goal t n t') (onward : Turns g goal t' m t'') :
    Turns g goal t (n + m) t'' := by
  induction onward with
  | none => exact turns
  | more _ turn ih => exact .more ih turn

/-- From wherever the search is it can be brought to an answer. -/
theorem exists_answer (g : WaitGraph) (goal : TxnId) (t : Trace) :
    ∃ n t' answer, Turns g goal t n t' ∧ t'.answer? goal = some answer := by
  induction ahead_eq : t.ahead g using Nat.strongRecOn generalizing t with
  | ind ahead ih =>
    cases told : t.answer? goal with
    | some answer => exact ⟨0, t, answer, .none, told⟩
    | none =>
      obtain ⟨next, turn⟩ : ∃ next, Turn g goal t next := answer?_eq_none_iff.mp told
      have less := turn.ahead_eq
      obtain ⟨n, t', answer, turns, told'⟩ := ih _ (by omega) next rfl
      exact ⟨_, t', answer, (Turns.none.more turn).trans turns, told'⟩

theorem Begins.open_iff (begins : t.Begins g goal) : t.Open g goal ↔ TransGen g.Edge goal goal := by
  obtain ⟨pending, seen⟩ := t
  obtain ⟨nothing, all⟩ := begins
  change seen = [] at nothing
  subst nothing
  rw [TransGen.head'_iff]
  simp only [Open, all.mem_iff]
  rfl

/-- The edges of the goal itself are followed before the first turn and never again. -/
theorem Turns.le_edgeCount (begins : t.Begins g goal) (turns : Turns g goal t n t') : n ≤ g.edgeCount := by
  obtain ⟨pending, seen⟩ := t
  obtain ⟨nothing, all⟩ := begins
  change seen = [] at nothing
  subst nothing
  -- the goal is never marked, so its edges are ahead to the end
  have own := length_targets_le (g.forget t'.seen) goal
  rw [targets_forget, if_neg (turns.goal_unseen List.not_mem_nil)] at own
  have steps := turns.ahead_eq
  have pile : pending.length = (g.targets goal).length := all.length_eq
  have whole : (g.forget []).edgeCount = g.edgeCount := rfl
  simp only [ahead, whole] at steps
  omega

/-- Every answer is that of the search that forgets. -/
theorem Turns.answer_eq (begins : t.Begins g goal) (turns : Turns g goal t n t') {answer : Bool}
    (told : t'.answer? goal = some answer) : answer = g.onCycle goal := by
  rw [Bool.eq_iff_iff, answer_eq_true_iff told, turns.open_iff, begins.open_iff, onCycle_eq_true_iff]

end Trace

/-- Of every wait graph and transaction it is told rightly whether the transaction is on a circle. And in whatever
order edges come, when the search begins and whenever it follows some, it makes no more turns than there are edges,
it goes on as long as it has no answer, it comes to an answer from wherever it has got to, and the answer is always
the same. -/
theorem circles_are_found_in_any_order (g : WaitGraph) (txn : TxnId) :
    (g.onCycle txn = true ↔ TransGen g.Edge txn txn) ∧
    ∀ first turns last, Trace.Begins g txn first → Trace.Turns g txn first turns last →
      turns ≤ g.edgeCount ∧ (last.answer? txn = none ↔ ∃ next, Trace.Turn g txn last next) ∧
      (∀ answer, last.answer? txn = some answer → answer = g.onCycle txn) ∧
      ∃ more final, Trace.Turns g txn last more final ∧ final.answer? txn = some (g.onCycle txn) := by
  refine ⟨g.onCycle_eq_true_iff txn, ?_⟩
  intro first n last begins turns
  obtain ⟨more, final, answer, onward, told⟩ := Trace.exists_answer g txn last
  refine ⟨turns.le_edgeCount begins, Trace.answer?_eq_none_iff, fun _ => turns.answer_eq begins, more, final, onward, ?_⟩
  rw [told, (turns.trans onward).answer_eq begins told]

/-- The second waits for itself, the first and the third wait for it, and the fourth has no entry. -/
def besideCircle : WaitGraph :=
  ((empty.waitFor ⟨3⟩ [⟨2⟩, ⟨4⟩]).waitFor ⟨2⟩ [⟨2⟩]).waitFor ⟨1⟩ [⟨2⟩, ⟨3⟩]

/-- A search that takes the edges of each the other way round comes three times to the second, makes as many turns as
there are edges, and does not find the first, which is on no circle. -/
theorem first_is_beside_the_circle :
    besideCircle.edgeCount = 5 ∧ besideCircle.onCycle ⟨2⟩ = true ∧
    Trace.Begins besideCircle ⟨1⟩ ⟨[⟨3⟩, ⟨2⟩], []⟩ ∧
    Trace.Turns besideCircle ⟨1⟩ ⟨[⟨3⟩, ⟨2⟩], []⟩ 5 ⟨[], [⟨2⟩, ⟨4⟩, ⟨3⟩]⟩ ∧
    Trace.answer? ⟨1⟩ ⟨[], [⟨2⟩, ⟨4⟩, ⟨3⟩]⟩ = some false ∧ besideCircle.onCycle ⟨1⟩ = false := by
  have itself : besideCircle.Edge ⟨2⟩ ⟨2⟩ := by
    show (⟨2⟩ : TxnId) ∈ besideCircle.targets ⟨2⟩
    decide
  have begins : Trace.Begins besideCircle ⟨1⟩ ⟨[⟨3⟩, ⟨2⟩], []⟩ := ⟨rfl, .swap _ _ _⟩
  have third : Trace.Turn besideCircle ⟨1⟩ ⟨[⟨3⟩, ⟨2⟩], []⟩ ⟨[⟨4⟩, ⟨2⟩, ⟨2⟩], [⟨3⟩]⟩ :=
    @Trace.Turn.follow _ _ ⟨3⟩ [⟨2⟩] [] [⟨4⟩, ⟨2⟩] (by decide) (by decide) (.swap _ _ _)
  have fourth : Trace.Turn besideCircle ⟨1⟩ ⟨[⟨4⟩, ⟨2⟩, ⟨2⟩], [⟨3⟩]⟩ ⟨[⟨2⟩, ⟨2⟩], [⟨4⟩, ⟨3⟩]⟩ :=
    @Trace.Turn.follow _ _ ⟨4⟩ [⟨2⟩, ⟨2⟩] [⟨3⟩] [] (by decide) (by decide) .nil
  have second : Trace.Turn besideCircle ⟨1⟩ ⟨[⟨2⟩, ⟨2⟩], [⟨4⟩, ⟨3⟩]⟩ ⟨[⟨2⟩, ⟨2⟩], [⟨2⟩, ⟨4⟩, ⟨3⟩]⟩ :=
    @Trace.Turn.follow _ _ ⟨2⟩ [⟨2⟩] [⟨4⟩, ⟨3⟩] [⟨2⟩] (by decide) (by decide) (.refl _)
  have again : Trace.Turn besideCircle ⟨1⟩ ⟨[⟨2⟩, ⟨2⟩], [⟨2⟩, ⟨4⟩, ⟨3⟩]⟩ ⟨[⟨2⟩], [⟨2⟩, ⟨4⟩, ⟨3⟩]⟩ :=
    .pass (by decide) (by decide)
  have last : Trace.Turn besideCircle ⟨1⟩ ⟨[⟨2⟩], [⟨2⟩, ⟨4⟩, ⟨3⟩]⟩ ⟨[], [⟨2⟩, ⟨4⟩, ⟨3⟩]⟩ :=
    .pass (by decide) (by decide)
  have turns : Trace.Turns besideCircle ⟨1⟩ ⟨[⟨3⟩, ⟨2⟩], []⟩ 5 ⟨[], [⟨2⟩, ⟨4⟩, ⟨3⟩]⟩ :=
    ((((Trace.Turns.none.more third).more fourth).more second).more again).more last
  obtain ⟨-, every⟩ := circles_are_found_in_any_order besideCircle ⟨1⟩
  obtain ⟨-, -, answer, -⟩ := every _ _ _ begins turns
  exact ⟨by decide, (circles_are_found_in_any_order besideCircle ⟨2⟩).1.mpr (.single itself), begins, turns, rfl,
    (answer false rfl).symm⟩

end RowStore.WaitGraph
