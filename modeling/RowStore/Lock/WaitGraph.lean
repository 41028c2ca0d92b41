import RowStore.Address
import RowStore.FinMap
/-!
# Who waits for whom

An edge from one transaction to another says that the first waits until the second gives up a lock.
A transaction that stands on a cycle of edges would wait for ever. `onCycle` follows edges from it,
never the edges of one transaction twice, until it finds its way back or nothing is left to follow.
-/

namespace RowStore

structure WaitGraph where
  edges : FinMap TxnId (List TxnId)

namespace WaitGraph

def empty : WaitGraph := ⟨.empty⟩

def targets (g : WaitGraph) (txn : TxnId) : List TxnId := (g.edges.get? txn).getD []

def waitFor (g : WaitGraph) (txn : TxnId) (others : List TxnId) : WaitGraph :=
  ⟨g.edges.insert txn others⟩

/-- Drops the edges that leave the transaction. -/
def stopWaiting (g : WaitGraph) (txn : TxnId) : WaitGraph := ⟨g.edges.erase txn⟩

/-- Drops the edges that leave the transaction and those that end in it. -/
def remove (g : WaitGraph) (txn : TxnId) : WaitGraph :=
  ⟨(g.edges.erase txn).map fun _ others => others.filter fun other => decide (other ≠ txn)⟩

/-- The nodes that have an entry, counted with the edges in it. -/
def weight (entries : List (TxnId × List TxnId)) : Nat :=
  entries.foldr (fun entry rest => 1 + entry.2.length + rest) 0

theorem weight_filter_le (entries : List (TxnId × List TxnId))
    (keep : TxnId × List TxnId → Bool) : weight (entries.filter keep) ≤ weight entries := by
  induction entries with
  | nil => exact Nat.le_refl _
  | cons entry rest ih =>
    simp only [weight, List.filter_cons, List.foldr_cons] at ih ⊢
    split
    · simp only [List.foldr_cons]
      omega
    · omega

theorem weight_erase_lt (edges : FinMap TxnId (List TxnId)) (txn : TxnId) (others : List TxnId)
    (found : edges.get? txn = some others) :
    weight (edges.erase txn).entries + others.length < weight edges.entries := by
  obtain ⟨entries, distinct⟩ := edges
  simp only [FinMap.get?, FinMap.erase, FinMap.filter] at found ⊢
  clear distinct
  induction entries with
  | nil => simp at found
  | cons entry rest ih =>
    obtain ⟨key, targets⟩ := entry
    by_cases same : txn = key
    · subst same
      simp only [List.lookup_cons_self, Option.some.injEq] at found
      subst found
      have smaller := weight_filter_le rest fun entry => decide (entry.1 ≠ txn)
      simp only [weight, List.filter_cons, List.foldr_cons, ne_eq, not_true_eq_false,
        decide_false, Bool.false_eq_true, if_false] at smaller ⊢
      omega
    · have differs : (txn == key) = false := by simpa using same
      have later := ih (by simpa [List.lookup_cons, differs] using found)
      have kept : decide (key ≠ txn) = true := by simpa using fun h => same h.symm
      simp only [weight, List.filter_cons, kept, if_true, List.foldr_cons] at later ⊢
      omega

/-- Whether an edge to `goal` is found from the transactions of the list. -/
def reaches (goal : TxnId) (edges : FinMap TxnId (List TxnId)) : List TxnId → Bool
  | [] => false
  | txn :: rest =>
    if txn = goal then true
    else
      match _ : edges.get? txn with
      | none => reaches goal edges rest
      | some others => reaches goal (edges.erase txn) (others ++ rest)
termination_by list => weight edges.entries + list.length
decreasing_by
  · simp
  · have smaller := weight_erase_lt edges txn others ‹_›
    simp only [List.length_append, List.length_cons]
    omega

def onCycle (g : WaitGraph) (txn : TxnId) : Bool := reaches txn g.edges (g.targets txn)

end WaitGraph

end RowStore
