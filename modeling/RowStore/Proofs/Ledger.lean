import RowStore.Address
import RowStore.Value
/-!
# What was committed and what is pending

Contents say what every row holds. A ledger has the contents that were committed, and for every
transaction what it has written since it last ended. A transaction sees what was committed with its
own writes over it.
-/

namespace RowStore

/-- One row got other values, or none. -/
structure Write where
  row : RowId
  content : Option (List Value)

abbrev Contents := RowId → Option (List Value)

namespace Contents

def write (c : Contents) (w : Write) : Contents := fun row => if row = w.row then w.content else c row

def replay (c : Contents) (writes : List Write) : Contents := writes.foldl write c

theorem replay_append (c : Contents) (writes : List Write) (w : Write) :
    c.replay (writes ++ [w]) = (c.replay writes).write w := by
  rw [replay, List.foldl_append]
  rfl

theorem replay_congr (c d : Contents) (writes : List Write) (row : RowId) (same : c row = d row) :
    c.replay writes row = d.replay writes row := by
  induction writes generalizing c d with
  | nil => exact same
  | cons w rest ih =>
    rw [replay, replay, List.foldl_cons, List.foldl_cons]
    apply ih
    rw [write, write, same]

theorem replay_of_untouched (c : Contents) (writes : List Write) (row : RowId)
    (untouched : ∀ w ∈ writes, w.row ≠ row) : c.replay writes row = c row := by
  induction writes generalizing c with
  | nil => rfl
  | cons w rest ih =>
    have later := ih (c.write w) fun w' among => untouched w' (List.mem_cons_of_mem _ among)
    rw [replay, List.foldl_cons, ← replay, later, write, if_neg]
    exact (untouched w List.mem_cons_self).symm

end Contents

/-- By page and then by slot. -/
def RowId.Before (row other : RowId) : Prop :=
  row.page.number < other.page.number ∨ (row.page.number = other.page.number ∧ row.slot < other.slot)

namespace Contents

/-- These are exactly the rows of the table, each once and in order. -/
structure Lists (c : Contents) (table : TableId) (rows : List (RowId × List Value)) : Prop where
  ordered : rows.Pairwise fun a b => a.1.Before b.1
  mem_iff : ∀ row values, (row, values) ∈ rows ↔ row.page.table = table ∧ c row = some values

/-- The rows in the first slots of a page. -/
def onPage (c : Contents) (slots : Nat) (p : PageId) : List (RowId × List Value) :=
  (List.range slots).filterMap fun slot => (c ⟨p, slot⟩).map fun values => (⟨p, slot⟩, values)

def inTable (c : Contents) (table : TableId) (pages slots : Nat) : List (RowId × List Value) :=
  (List.range pages).flatMap fun number => c.onPage slots ⟨table, number⟩

theorem mem_onPage_iff (c : Contents) (slots : Nat) (p : PageId) (row : RowId) (values : List Value) :
    (row, values) ∈ c.onPage slots p ↔ row.page = p ∧ row.slot < slots ∧ c row = some values := by
  rw [onPage, List.mem_filterMap]
  constructor
  · intro among
    obtain ⟨slot, inside, found⟩ := among
    obtain ⟨values', held, same⟩ := Option.map_eq_some_iff.mp found
    cases same
    exact ⟨rfl, List.mem_range.mp inside, held⟩
  · intro here
    obtain ⟨rfl, inside, held⟩ := here
    exact ⟨row.slot, List.mem_range.mpr inside, by rw [held]; rfl⟩

theorem ordered_onPage (c : Contents) (slots : Nat) (p : PageId) :
    (c.onPage slots p).Pairwise fun a b => a.1.Before b.1 := by
  rw [onPage, List.pairwise_filterMap]
  refine List.pairwise_lt_range.imp ?_
  intro slot other less a here b there
  obtain ⟨_, -, rfl⟩ := Option.map_eq_some_iff.mp here
  obtain ⟨_, -, rfl⟩ := Option.map_eq_some_iff.mp there
  exact .inr ⟨rfl, less⟩

/-- Where all rows of the table are on its first pages and in their first slots, these are all. -/
theorem lists_inTable (c : Contents) (table : TableId) (pages slots : Nat)
    (within : ∀ row values, row.page.table = table → c row = some values →
      row.page.number < pages ∧ row.slot < slots) : c.Lists table (c.inTable table pages slots) := by
  constructor
  case ordered =>
    rw [inTable, List.pairwise_flatMap]
    constructor
    · exact fun number _ => c.ordered_onPage slots ⟨table, number⟩
    · refine List.pairwise_lt_range.imp ?_
      intro number other less a here b there
      obtain ⟨same, -⟩ := (c.mem_onPage_iff _ _ _ _).mp here
      obtain ⟨same', -⟩ := (c.mem_onPage_iff _ _ _ _).mp there
      left
      rw [same, same']
      exact less
  case mem_iff =>
    intro row values
    rw [inTable, List.mem_flatMap]
    constructor
    · intro among
      obtain ⟨number, -, here⟩ := among
      obtain ⟨same, -, held⟩ := (c.mem_onPage_iff _ _ _ _).mp here
      exact ⟨by rw [same], held⟩
    · intro held
      obtain ⟨rfl, held⟩ := held
      obtain ⟨inside, below⟩ := within row values rfl held
      exact ⟨row.page.number, List.mem_range.mpr inside, (c.mem_onPage_iff _ _ _ _).mpr ⟨rfl, below, held⟩⟩

end Contents

structure Ledger where
  committed : Contents
  pending : TxnId → List Write

namespace Ledger

def empty : Ledger := ⟨fun _ => none, fun _ => []⟩

/-- What the transaction sees. -/
def seen (l : Ledger) (txn : TxnId) : Contents := l.committed.replay (l.pending txn)

def write (l : Ledger) (txn : TxnId) (w : Write) : Ledger :=
  { l with pending := fun other => if other = txn then l.pending txn ++ [w] else l.pending other }

def abort (l : Ledger) (txn : TxnId) : Ledger :=
  { l with pending := fun other => if other = txn then [] else l.pending other }

/-- What the transaction sees becomes what was committed. -/
def commit (l : Ledger) (txn : TxnId) : Ledger := { l.abort txn with committed := l.seen txn }

variable (l : Ledger) (txn other : TxnId)

theorem pending_write (w : Write) :
    (l.write txn w).pending other = if other = txn then l.pending txn ++ [w] else l.pending other := rfl

theorem pending_abort : (l.abort txn).pending other = if other = txn then [] else l.pending other := rfl

theorem seen_write_self (w : Write) : (l.write txn w).seen txn = (l.seen txn).write w := by
  rw [seen, pending_write, if_pos rfl, Contents.replay_append]
  rfl

theorem seen_write_of_ne (w : Write) (differs : other ≠ txn) : (l.write txn w).seen other = l.seen other := by
  rw [seen, pending_write, if_neg differs]
  rfl

theorem seen_abort_self : (l.abort txn).seen txn = l.committed := by
  rw [seen, pending_abort, if_pos rfl]
  rfl

theorem seen_abort_of_ne (differs : other ≠ txn) : (l.abort txn).seen other = l.seen other := by
  rw [seen, pending_abort, if_neg differs]
  rfl

theorem seen_of_untouched (row : RowId) (untouched : ∀ w ∈ l.pending txn, w.row ≠ row) :
    l.seen txn row = l.committed row :=
  l.committed.replay_of_untouched _ row untouched

end Ledger

end RowStore
