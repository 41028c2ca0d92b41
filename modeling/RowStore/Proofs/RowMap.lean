import RowStore.Proofs.Ledger
/-!
# A table as an ordered map

Seen from outside a table is a map from places to values, and places are ordered by page and then by
slot. A row goes to the least place that is free, and only when there is none does the table get
longer, by one page.
-/

namespace RowStore

/-- What a table holds, on pages that have the same number of slots. -/
@[ext]
structure RowMap where
  table : TableId
  pages : Nat
  slots : Nat
  rows : Contents

namespace RowMap

/-- The places on the pages there are, in order. -/
def places (m : RowMap) : List RowId :=
  (List.range m.pages).flatMap fun number =>
    (List.range m.slots).map fun slot => ⟨⟨m.table, number⟩, slot⟩

def free? (m : RowMap) : Option RowId := m.places.find? fun row => (m.rows row).isNone

def write (m : RowMap) (row : RowId) (content : Option (List Value)) : RowMap :=
  { m with rows := m.rows.write ⟨row, content⟩ }

/-- The map with a page more, and nothing on it. -/
def longer (m : RowMap) : RowMap := { m with pages := m.pages + 1 }

/-- Answers where the values are. -/
def insert (m : RowMap) (values : List Value) : RowId × RowMap :=
  match m.free? with
  | some row => (row, m.write row (some values))
  | none =>
    let row : RowId := ⟨⟨m.table, m.pages⟩, 0⟩
    (row, m.longer.write row (some values))

/-- There is no map without a row that was not there. -/
def delete (m : RowMap) (row : RowId) : Option RowMap :=
  if (m.rows row).isSome then some (m.write row none) else none

def entries (m : RowMap) : List (RowId × List Value) := m.rows.inTable m.table m.pages m.slots

theorem mem_places_iff (m : RowMap) (row : RowId) :
    row ∈ m.places ↔ row.page.table = m.table ∧ row.page.number < m.pages ∧ row.slot < m.slots := by
  simp only [places, List.mem_flatMap, List.mem_map, List.mem_range]
  constructor
  · intro among
    obtain ⟨number, inside, slot, below, rfl⟩ := among
    exact ⟨rfl, inside, below⟩
  · intro place
    obtain ⟨own, inside, below⟩ := place
    refine ⟨row.page.number, inside, row.slot, below, ?_⟩
    rw [← own]

theorem places_ordered (m : RowMap) : m.places.Pairwise RowId.Before := by
  rw [places, List.pairwise_flatMap]
  constructor
  · intro number _
    rw [List.pairwise_map]
    refine List.pairwise_lt_range.imp ?_
    intro slot other less
    exact .inr ⟨rfl, less⟩
  · refine List.pairwise_lt_range.imp ?_
    intro number other less row among row' among'
    obtain ⟨slot, -, rfl⟩ := List.mem_map.mp among
    obtain ⟨slot', -, rfl⟩ := List.mem_map.mp among'
    exact .inl less

theorem free?_eq_some {m : RowMap} {row : RowId} (place : row ∈ m.places) (free : m.rows row = none)
    (least : ∀ lower ∈ m.places, lower.Before row → m.rows lower ≠ none) : m.free? = some row := by
  obtain ⟨before, after, split⟩ := List.append_of_mem place
  rw [free?, List.find?_eq_some_iff_append]
  refine ⟨by rw [free]; rfl, before, after, split, ?_⟩
  intro lower among
  have ordered := m.places_ordered
  rw [split] at ordered
  have less := (List.pairwise_append.mp ordered).2.2 lower among row List.mem_cons_self
  have used := least lower (by rw [split]; exact List.mem_append_left _ among) less
  rw [Bool.not_eq_true', Option.isNone_eq_false_iff, Option.isSome_iff_ne_none]
  exact used

theorem free?_eq_none_iff (m : RowMap) : m.free? = none ↔ ∀ row ∈ m.places, m.rows row ≠ none := by
  rw [free?, List.find?_eq_none]
  apply forall_congr'
  intro row
  apply imp_congr_right
  intro _
  rw [Bool.not_eq_true, Option.isNone_eq_false_iff, Option.isSome_iff_ne_none]

theorem free?_longer {m : RowMap} (full : m.free? = none) (room : 0 < m.slots)
    (blank : m.rows ⟨⟨m.table, m.pages⟩, 0⟩ = none) : m.longer.free? = some ⟨⟨m.table, m.pages⟩, 0⟩ := by
  refine free?_eq_some ?_ blank ?_
  · rw [mem_places_iff]
    exact ⟨rfl, Nat.lt_succ_self _, room⟩
  · intro lower place before
    obtain ⟨own, -, below⟩ := (m.longer.mem_places_iff lower).mp place
    rcases before with earlier | ⟨-, earlier⟩
    · apply (m.free?_eq_none_iff.mp full) lower
      rw [mem_places_iff]
      exact ⟨own, earlier, below⟩
    · exact absurd earlier (Nat.not_lt_zero _)

end RowMap

end RowStore
