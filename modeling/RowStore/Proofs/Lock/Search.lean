import Mathlib.Logic.Relation
import Mathlib.Order.WellFoundedSet
import RowStore.Lock.WaitGraph
import RowStore.Proofs.Maps
/-!
# Ways through a wait graph

The search from a transaction forgets its edges once it has followed them, and still misses no way,
since a way that comes by a transaction again has a shorter one that does not. So a request that finds
no way back to itself closes no circle, and in a graph without circles every way comes to an end.
-/

namespace RowStore.WaitGraph

open Relation

/-- The first transaction waits for the second. -/
def Edge (g : WaitGraph) (txn other : TxnId) : Prop := other ∈ g.targets txn

section Edges

variable (g : WaitGraph) (txn other : TxnId)

theorem targets_waitFor (others : List TxnId) :
    (g.waitFor txn others).targets other = if other = txn then others else g.targets other := by
  rw [targets, waitFor, FinMap.get?_insert]
  split
  · rfl
  · rfl

theorem targets_stopWaiting :
    (g.stopWaiting txn).targets other = if other = txn then [] else g.targets other := by
  rw [targets, stopWaiting, FinMap.get?_erase]
  split
  · rfl
  · rfl

theorem targets_remove : (g.remove txn).targets other =
    if other = txn then [] else (g.targets other).filter fun target => decide (target ≠ txn) := by
  rw [targets, remove, FinMap.get?_map, FinMap.get?_erase]
  split
  · rfl
  · rw [targets]
    cases g.edges.get? other with
    | none => rfl
    | some targets => rfl

theorem edge_stopWaiting (target : TxnId) :
    (g.stopWaiting txn).Edge other target ↔ other ≠ txn ∧ g.Edge other target := by
  rw [Edge, targets_stopWaiting]
  split
  · rename_i same
    simp [same]
  · rename_i differs
    simp [differs, Edge]

end Edges

/-! ### The search -/

/-- A way goes nowhere from the transaction, or it comes to it, and there is a way on from there that
does not come back. -/
theorem avoids_or_visits {g : WaitGraph} (txn : TxnId) {start goal : TxnId} (way : ReflTransGen g.Edge start goal) :
    ReflTransGen (g.stopWaiting txn).Edge start goal ∨
      ReflTransGen g.Edge start txn ∧
        ∃ next, g.Edge txn next ∧ ReflTransGen (g.stopWaiting txn).Edge next goal := by
  induction way using ReflTransGen.head_induction_on with
  | refl => exact .inl .refl
  | @head first second edge _ ih =>
    rcases ih with avoids | ⟨comes, leaves⟩
    · by_cases here : first = txn
      · rw [here] at edge ⊢
        exact .inr ⟨.refl, second, edge, avoids⟩
      · exact .inl (.head ((g.edge_stopWaiting txn first second).mpr ⟨here, edge⟩) avoids)
    · exact .inr ⟨.head edge comes, leaves⟩

theorem way_of_stopWaiting {g : WaitGraph} {txn start goal : TxnId}
    (way : ReflTransGen (g.stopWaiting txn).Edge start goal) : ReflTransGen g.Edge start goal :=
  ReflTransGen.mono (fun first second edge => ((g.edge_stopWaiting txn first second).mp edge).2) _ _ way

theorem way_of_passed {g : WaitGraph} {txn goal : TxnId} (differs : txn ≠ goal) (none : g.targets txn = [])
    (rest : List TxnId) :
    (∃ start ∈ txn :: rest, ReflTransGen g.Edge start goal) ↔ ∃ start ∈ rest, ReflTransGen g.Edge start goal := by
  have stays : ¬ReflTransGen g.Edge txn goal := by
    intro way
    rcases way.cases_head with same | ⟨next, edge, -⟩
    · exact differs same
    · rw [Edge, none] at edge
      exact absurd edge List.not_mem_nil
  simp only [List.mem_cons, exists_eq_or_imp, stays, false_or]

/-- Once the edges of a transaction have been followed they are not needed any more. -/
theorem way_of_followed {g : WaitGraph} {txn goal : TxnId} (differs : txn ≠ goal) (rest : List TxnId) :
    (∃ start ∈ txn :: rest, ReflTransGen g.Edge start goal) ↔
      ∃ start ∈ g.targets txn ++ rest, ReflTransGen (g.stopWaiting txn).Edge start goal := by
  constructor
  · rintro ⟨start, among, way⟩
    rcases avoids_or_visits txn way with avoids | ⟨-, next, edge, avoids⟩
    · rcases List.mem_cons.mp among with rfl | waiting
      · rcases avoids.cases_head with same | ⟨next, edge, -⟩
        · exact absurd same differs
        · exact absurd rfl ((edge_stopWaiting _ _ _ _).mp edge).1
      · exact ⟨start, List.mem_append_right _ waiting, avoids⟩
    · exact ⟨next, List.mem_append_left _ edge, avoids⟩
  · rintro ⟨start, among, way⟩
    have way : ReflTransGen g.Edge start goal := way_of_stopWaiting way
    rcases List.mem_append.mp among with followed | waiting
    · exact ⟨txn, List.mem_cons_self, .head followed way⟩
    · exact ⟨start, List.mem_cons_of_mem _ waiting, way⟩

/-- The search finds the goal exactly when there is a way to it from one of the transactions. -/
theorem reaches_eq_true_iff (goal : TxnId) (edges : FinMap TxnId (List TxnId)) (list : List TxnId) :
    reaches goal edges list = true ↔ ∃ txn ∈ list, ReflTransGen (Edge ⟨edges⟩) txn goal := by
  induction edges, list using reaches.induct goal with
  | case1 edges => simp [reaches]
  | case2 edges rest =>
    rw [reaches, if_pos rfl]
    simp only [true_iff]
    exact ⟨goal, List.mem_cons_self, .refl⟩
  | case3 edges txn rest differs none ih =>
    have nothing : targets ⟨edges⟩ txn = [] := by rw [targets, none, Option.getD_none]
    rw [reaches, if_neg differs]
    split
    · rw [ih, way_of_passed differs nothing]
    · rename_i others found
      rw [none] at found
      exact absurd found (by simp)
  | case4 edges txn rest differs others found ih =>
    have followed : targets ⟨edges⟩ txn = others := by rw [targets, found, Option.getD_some]
    rw [reaches, if_neg differs]
    split
    · rename_i none
      rw [none] at found
      exact absurd found (by simp)
    · rename_i others' found'
      rw [found] at found'
      cases found'
      rw [ih, way_of_followed differs, followed]
      rfl

/-- The transaction is on a circle when there is a way from it back to it. -/
theorem onCycle_eq_true_iff (g : WaitGraph) (txn : TxnId) : g.onCycle txn = true ↔ TransGen g.Edge txn txn := by
  rw [TransGen.head'_iff]
  exact reaches_eq_true_iff txn g.edges _

theorem way_back_of_onCycle_eq_false {g : WaitGraph} {txn : TxnId} (clear : g.onCycle txn = false) :
    ¬TransGen g.Edge txn txn := by
  rw [← onCycle_eq_true_iff, clear]
  exact Bool.false_ne_true

theorem turning_of_circle {g : WaitGraph} {txn : TxnId} (circle : TransGen g.Edge txn txn) :
    TransGen (fun first second => g.Edge first second ∧ ∃ third, g.Edge second third) txn txn := by
  obtain ⟨next, edge, -⟩ := TransGen.head'_iff.mp circle
  have turning : ∀ {start goal}, TransGen g.Edge start goal → (∃ third, g.Edge goal third) →
      TransGen (fun first second => g.Edge first second ∧ ∃ third, g.Edge second third) start goal := by
    intro start goal way leaves
    induction way with
    | single edge => exact .single ⟨edge, leaves⟩
    | tail _ edge ih => exact .tail (ih ⟨_, edge⟩) ⟨edge, leaves⟩
  exact turning circle ⟨next, edge⟩

/-! ### Graphs without circles -/

def Acyclic (g : WaitGraph) : Prop := ∀ txn, ¬TransGen g.Edge txn txn

namespace Acyclic

variable {g g' : WaitGraph}

theorem of_edges (acyclic : g.Acyclic) (fewer : ∀ txn other, g'.Edge txn other → g.Edge txn other) :
    g'.Acyclic := fun txn circle => acyclic txn (TransGen.mono fewer _ _ circle)

theorem acyclic_stopWaiting (acyclic : g.Acyclic) (txn : TxnId) : (g.stopWaiting txn).Acyclic :=
  acyclic.of_edges fun other target edge => ((g.edge_stopWaiting txn other target).mp edge).2

theorem acyclic_remove (acyclic : g.Acyclic) (txn : TxnId) : (g.remove txn).Acyclic := by
  apply acyclic.of_edges
  intro other target edge
  rw [Edge, targets_remove] at edge
  split at edge
  · exact absurd edge List.not_mem_nil
  · exact (List.mem_filter.mp edge).1

/-- A circle that closes when a transaction begins to wait goes through that transaction. -/
theorem acyclic_waitFor {txn : TxnId} {others : List TxnId} (acyclic : g.Acyclic)
    (clear : (g.waitFor txn others).onCycle txn = false) : (g.waitFor txn others).Acyclic := by
  have noWayBack := way_back_of_onCycle_eq_false clear
  have before : ∀ first second, ((g.waitFor txn others).stopWaiting txn).Edge first second →
      g.Edge first second := by
    intro first second edge
    obtain ⟨differs, edge⟩ := (edge_stopWaiting _ _ _ _).mp edge
    rw [Edge, targets_waitFor, if_neg differs] at edge
    exact edge
  intro first circle
  obtain ⟨second, edge, way⟩ := TransGen.head'_iff.mp circle
  by_cases here : first = txn
  · rw [here] at circle
    exact noWayBack circle
  · rcases avoids_or_visits txn way with avoids | ⟨comes, next, leaves, avoids⟩
    · have same : g.Edge first second :=
        before first second ((edge_stopWaiting _ _ _ _).mpr ⟨here, edge⟩)
      exact acyclic first (.head' same (ReflTransGen.mono before _ _ avoids))
    · have back : ReflTransGen (g.waitFor txn others).Edge next first := way_of_stopWaiting avoids
      exact noWayBack (.head' leaves (back.trans (.head edge comes)))

/-- What holds of a transaction whenever it holds of all that it waits for holds of every one. -/
theorem induction_on (acyclic : g.Acyclic) {motive : TxnId → Prop}
    (step : ∀ txn, (∀ other, g.Edge txn other → motive other) → motive txn) (txn : TxnId) :
    motive txn := by
  -- only finitely many transactions have edges, so there is no way that goes on for ever
  let later : TxnId → TxnId → Prop := fun other txn => TransGen g.Edge txn other
  have order : IsStrictOrder TxnId later :=
    { irrefl := acyclic
      trans := fun _ _ _ first second => second.trans first }
  have founded : {txn | txn ∈ g.edges.keys}.WellFoundedOn later := (List.finite_toSet _).wellFoundedOn
  have entry : ∀ {txn other}, g.Edge txn other → txn ∈ g.edges.keys := by
    intro txn other edge
    rw [FinMap.mem_keys_iff]
    rw [Edge, targets] at edge
    cases found : g.edges.get? txn with
    | some targets => exact ⟨targets, rfl⟩
    | none =>
      rw [found] at edge
      exact absurd edge List.not_mem_nil
  have waits : ∀ txn ∈ g.edges.keys, motive txn := by
    intro txn among
    refine founded.induction among ?_
    intro txn _ ih
    apply step
    intro other edge
    by_cases among' : other ∈ g.edges.keys
    · exact ih other among' (.single edge)
    · exact step other fun _ next => absurd (entry next) among'
  apply step
  intro other edge
  by_cases among : other ∈ g.edges.keys
  · exact waits other among
  · exact step other fun _ next => absurd (entry next) among

end Acyclic

theorem acyclic_empty : empty.Acyclic := by
  intro txn circle
  obtain ⟨next, edge, -⟩ := TransGen.head'_iff.mp circle
  exact absurd edge List.not_mem_nil

end RowStore.WaitGraph
