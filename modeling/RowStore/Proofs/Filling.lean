import Mathlib.Data.List.Perm.Basic
import Mathlib.Data.List.Range
import RowStore.Proofs.OrderedTable
/-!
# How a table fills up

Rows that are put in go to the first page with a free slot. So the pages before one that has taken rows are
full, and whether a page has taken any is known from how many there were: the free slots before it went first.
-/

namespace RowStore

theorem RowId.Before.not_before_self (row : RowId) : ¬row.Before row := by
  rintro (less | ⟨-, less⟩) <;> exact Nat.lt_irrefl _ less

theorem Contents.nodup_onPage (c : Contents) (slots : Nat) (p : PageId) : (c.onPage slots p).Nodup := by
  refine (c.ordered_onPage slots p).imp ?_
  rintro a b before rfl
  exact RowId.Before.not_before_self _ before

theorem Contents.Lists.nodup_rows {c : Contents} {table : TableId} {rows : List (RowId × List Value)}
    (lists : c.Lists table rows) : rows.Nodup := by
  refine lists.ordered.imp ?_
  rintro a b before rfl
  exact RowId.Before.not_before_self _ before

namespace RowMap

variable {m m' : RowMap}

def onPage (m : RowMap) (number : Nat) : List (RowId × List Value) := m.rows.onPage m.slots ⟨m.table, number⟩

def used (m : RowMap) (number : Nat) : Nat := (m.onPage number).length

def before (m : RowMap) (number : Nat) : List (RowId × List Value) := (List.range number).flatMap m.onPage

/-- There is room on a page, and the rows are at places that there are. -/
structure Within (m : RowMap) : Prop where
  room : 0 < m.slots
  place : ∀ row values, m.rows row = some values → row ∈ m.places

theorem before_succ (m : RowMap) (number : Nat) : m.before (number + 1) = m.before number ++ m.onPage number := by
  rw [before, List.range_succ, List.flatMap_append, List.flatMap_singleton, before]

theorem length_before_succ (m : RowMap) (number : Nat) :
    (m.before (number + 1)).length = (m.before number).length + m.used number := by
  rw [before_succ, List.length_append, used]

theorem used_le (m : RowMap) (number : Nat) : m.used number ≤ m.slots := by
  have fewer := List.length_filterMap_le (fun slot =>
    (m.rows ⟨⟨m.table, number⟩, slot⟩).map fun values => ((⟨⟨m.table, number⟩, slot⟩ : RowId), values))
    (List.range m.slots)
  rw [List.length_range] at fewer
  exact fewer

theorem length_before_le (m : RowMap) (number : Nat) : (m.before number).length ≤ number * m.slots := by
  induction number with
  | zero => exact Nat.le_of_eq (Nat.zero_mul _).symm
  | succ number ih =>
    have here := m.used_le number
    rw [length_before_succ, Nat.succ_mul]
    omega

theorem length_before_of_full (m : RowMap) (number : Nat) (full : ∀ lower < number, m.used lower = m.slots) :
    (m.before number).length = number * m.slots := by
  induction number with
  | zero => exact (Nat.zero_mul _).symm
  | succ number ih =>
    rw [length_before_succ, ih fun lower less => full lower (Nat.lt_succ_of_lt less), full number (Nat.lt_succ_self _),
      Nat.succ_mul]

theorem mem_onPage_iff (m : RowMap) (number : Nat) (row : RowId) (values : List Value) :
    (row, values) ∈ m.onPage number ↔ row.page = ⟨m.table, number⟩ ∧ row.slot < m.slots ∧ m.rows row = some values :=
  m.rows.mem_onPage_iff m.slots ⟨m.table, number⟩ row values

theorem used_eq_slots_iff (m : RowMap) (number : Nat) :
    m.used number = m.slots ↔ ∀ slot < m.slots, m.rows ⟨⟨m.table, number⟩, slot⟩ ≠ none := by
  rw [used, onPage, Contents.onPage, List.length_filterMap_eq_countP]
  have whole := List.countP_eq_length (p := fun slot =>
    ((m.rows ⟨⟨m.table, number⟩, slot⟩).map fun values => ((⟨⟨m.table, number⟩, slot⟩ : RowId), values)).isSome)
    (l := List.range m.slots)
  rw [List.length_range] at whole
  rw [whole]
  simp only [List.mem_range, Option.isSome_map, Option.isSome_iff_ne_none]

namespace Within

variable (within : m.Within)

include within

theorem lists_entries : m.rows.Lists m.table m.entries := by
  apply Contents.lists_inTable
  intro row values _ held
  obtain ⟨-, inside, below⟩ := (m.mem_places_iff row).mp (within.place row values held)
  exact ⟨inside, below⟩

theorem onPage_past {number : Nat} (past : m.pages ≤ number) : m.onPage number = [] := by
  apply List.eq_nil_iff_forall_not_mem.mpr
  rintro ⟨row, values⟩ among
  obtain ⟨page, -, held⟩ := (m.mem_onPage_iff number row values).mp among
  obtain ⟨-, inside, -⟩ := (m.mem_places_iff row).mp (within.place row values held)
  rw [page] at inside
  exact Nat.not_lt.mpr past inside

theorem before_past {number : Nat} (past : m.pages ≤ number) : m.before number = m.entries := by
  induction number, past using Nat.le_induction with
  | base => rfl
  | succ number past ih => rw [before_succ, ih, within.onPage_past past, List.append_nil]

end Within

theorem entries_longer (within : m.Within) : m.longer.entries = m.entries := within.before_past (Nat.le_succ _)

/-! ### Putting a row in -/

/-- The row has gone to a free place, on the first page that has one. -/
structure Took (m : RowMap) (row : RowId) (values : List Value) (m' : RowMap) : Prop where
  table : m'.table = m.table
  slots : m'.slots = m.slots
  pages : m.pages ≤ m'.pages
  rows : m'.rows = m.rows.write ⟨row, some values⟩
  place : row ∈ m'.places
  free : m.rows row = none
  full : ∀ lower < row.page.number, m.used lower = m.slots

theorem mem_places_of_pages (table : m'.table = m.table) (slots : m'.slots = m.slots) (pages : m.pages ≤ m'.pages)
    {row : RowId} (place : row ∈ m.places) : row ∈ m'.places := by
  rw [mem_places_iff] at place ⊢
  rw [table, slots]
  exact ⟨place.1, Nat.lt_of_lt_of_le place.2.1 pages, place.2.2⟩

theorem insert_took (within : m.Within) (values : List Value) :
    m.Took (m.insert values).1 values (m.insert values).2 := by
  rw [insert]
  cases found : m.free? with
  | some row =>
    obtain ⟨free, first, later, split, taken⟩ := List.find?_eq_some_iff_append.mp found
    have among : row ∈ m.places := by
      rw [split]
      simp
    refine ⟨rfl, rfl, Nat.le_refl _, rfl, among, Option.isNone_iff_eq_none.mp free, ?_⟩
    intro lower less
    rw [used_eq_slots_iff]
    intro slot below
    have inside := (m.mem_places_iff row).mp among
    have place : (⟨⟨m.table, lower⟩, slot⟩ : RowId) ∈ m.places :=
      (m.mem_places_iff _).mpr ⟨rfl, Nat.lt_trans less inside.2.1, below⟩
    -- the places are in order, so one on an earlier page comes before the one that was found
    have ordered := m.places_ordered
    rw [split] at place ordered
    have onward := (List.pairwise_cons.mp (List.pairwise_append.mp ordered).2.1).1
    rcases List.mem_append.mp place with earlier | here
    · have used := taken _ earlier
      rw [Bool.not_eq_true', Option.isNone_eq_false_iff, Option.isSome_iff_ne_none] at used
      exact used
    · rcases List.mem_cons.mp here with same | after
      · rw [← same] at less
        exact absurd less (Nat.lt_irrefl _)
      · rcases onward _ after with wrong | ⟨wrong, -⟩
        · exact absurd less (Nat.lt_asymm wrong)
        · exact absurd less (by rw [wrong]; exact Nat.lt_irrefl _)
  | none =>
    have full := m.free?_eq_none_iff.mp found
    refine ⟨rfl, rfl, Nat.le_succ _, rfl, ?_, ?_, ?_⟩
    · exact (mem_places_iff _ _).mpr ⟨rfl, Nat.lt_succ_self _, within.room⟩
    · cases held : m.rows ⟨⟨m.table, m.pages⟩, 0⟩ with
      | none => rfl
      | some values =>
        obtain ⟨-, inside, -⟩ := (m.mem_places_iff _).mp (within.place _ _ held)
        exact absurd inside (Nat.lt_irrefl _)
    · intro lower less
      rw [used_eq_slots_iff]
      intro slot below
      exact full _ ((m.mem_places_iff _).mpr ⟨rfl, less, below⟩)

namespace Took

variable {row : RowId} {values : List Value} (took : m.Took row values m')

include took

theorem rows_eq_some_iff (other : RowId) (held : List Value) :
    m'.rows other = some held ↔ (other = row ∧ held = values) ∨ m.rows other = some held := by
  rw [took.rows, Contents.write]
  by_cases same : other = row
  · rw [if_pos same, same, took.free]
    simp [eq_comm]
  · rw [if_neg same]
    simp [same]

theorem within_after (within : m.Within) : m'.Within := by
  refine ⟨by rw [took.slots]; exact within.room, ?_⟩
  intro other held found
  rcases (took.rows_eq_some_iff other held).mp found with ⟨rfl, -⟩ | old
  · exact took.place
  · exact mem_places_of_pages took.table took.slots took.pages (within.place other held old)

theorem entries_perm (within : m.Within) : m'.entries.Perm ((row, values) :: m.entries) := by
  have lists := within.lists_entries
  have lists' := (took.within_after within).lists_entries
  have fresh : (row, values) ∉ m.entries := by
    intro among
    have held := ((lists.mem_iff row values).mp among).2
    rw [took.free] at held
    exact absurd held (by simp)
  rw [List.perm_ext_iff_of_nodup lists'.nodup_rows (List.nodup_cons.mpr ⟨fresh, lists.nodup_rows⟩)]
  rintro ⟨other, held⟩
  have own := ((mem_places_iff _ _).mp took.place).1
  rw [List.mem_cons, lists'.mem_iff, lists.mem_iff, took.rows_eq_some_iff, Prod.mk.injEq, took.table]
  rw [took.table] at own
  constructor
  · rintro ⟨table, new | old⟩
    · exact .inl new
    · exact .inr ⟨table, old⟩
  · rintro (⟨rfl, rfl⟩ | ⟨table, old⟩)
    · exact ⟨own, .inl ⟨rfl, rfl⟩⟩
    · exact ⟨table, .inr old⟩

theorem used_after (number : Nat) :
    m'.used number = m.used number + if number = row.page.number then 1 else 0 := by
  obtain ⟨own, -, below⟩ := (mem_places_iff _ _).mp took.place
  have page : row.page = ⟨m'.table, row.page.number⟩ := by rw [← own]
  have mem_iff : ∀ other held, (other, held) ∈ m'.onPage number ↔
      (other = row ∧ held = values ∧ number = row.page.number) ∨ (other, held) ∈ m.onPage number := by
    intro other held
    rw [mem_onPage_iff, mem_onPage_iff, took.rows_eq_some_iff, took.table, took.slots]
    rw [took.table] at page
    rw [took.slots] at below
    constructor
    · rintro ⟨here, inside, ⟨rfl, rfl⟩ | old⟩
      · exact .inl ⟨rfl, rfl, by rw [here]⟩
      · exact .inr ⟨here, inside, old⟩
    · rintro (⟨rfl, rfl, rfl⟩ | ⟨here, inside, old⟩)
      · exact ⟨page, below, .inl ⟨rfl, rfl⟩⟩
      · exact ⟨here, inside, .inr old⟩
  have nodup : (m.onPage number).Nodup := Contents.nodup_onPage ..
  have nodup' : (m'.onPage number).Nodup := Contents.nodup_onPage ..
  by_cases here : number = row.page.number
  · have fresh : (row, values) ∉ m.onPage number := by
      intro among
      have held := ((mem_onPage_iff ..).mp among).2.2
      rw [took.free] at held
      exact absurd held (by simp)
    have perm : (m'.onPage number).Perm ((row, values) :: m.onPage number) := by
      rw [List.perm_ext_iff_of_nodup nodup' (List.nodup_cons.mpr ⟨fresh, nodup⟩)]
      rintro ⟨other, held⟩
      rw [mem_iff, List.mem_cons, Prod.mk.injEq]
      simp [here]
    rw [if_pos here, RowMap.used, perm.length_eq, List.length_cons, RowMap.used]
  · have perm : (m'.onPage number).Perm (m.onPage number) := by
      rw [List.perm_ext_iff_of_nodup nodup' nodup]
      rintro ⟨other, held⟩
      rw [mem_iff]
      simp [here]
    rw [if_neg here, RowMap.used, perm.length_eq, RowMap.used, Nat.add_zero]

theorem length_before (number : Nat) :
    (m'.before number).length = (m.before number).length + if row.page.number < number then 1 else 0 := by
  induction number with
  | zero => rfl
  | succ number ih =>
    rw [length_before_succ, length_before_succ, ih, took.used_after]
    split_ifs <;> omega

end Took

/-! ### Many rows, one after another -/

/-- Rows have been put in, that many, since the map was `base`. -/
structure Filled (base m : RowMap) (count : Nat) : Prop where
  table : m.table = base.table
  slots : m.slots = base.slots
  pages : base.pages ≤ m.pages
  within : m.Within
  keeps : ∀ row values, base.rows row = some values → m.rows row = some values
  used_le : ∀ number, base.used number ≤ m.used number
  total : ∀ number, m.pages ≤ number → (m.before number).length = (base.before number).length + count
  packed : ∀ lower number, lower < number → base.used number < m.used number → m.used lower = m.slots

namespace Filled

variable {base : RowMap} {count : Nat}

theorem refl (within : base.Within) : Filled base base 0 where
  table := rfl
  slots := rfl
  pages := Nat.le_refl _
  within := within
  keeps _ _ held := held
  used_le _ := Nat.le_refl _
  total _ _ := rfl
  packed _ _ _ less := absurd less (Nat.lt_irrefl _)

variable (filled : Filled base m count)

include filled

/-- Where the pages from one on have taken nothing, all rows have gone to those before it. -/
theorem length_before_of_untouched {number : Nat}
    (untouched : ∀ later, number ≤ later → m.used later = base.used later) :
    (m.before number).length = (base.before number).length + count := by
  have apart : ∀ later, number ≤ later → (m.before later).length + (base.before number).length =
      (base.before later).length + (m.before number).length := by
    intro later past
    induction later, past using Nat.le_induction with
    | base => exact Nat.add_comm ..
    | succ later past ih =>
      have same := untouched later past
      rw [length_before_succ, length_before_succ]
      omega
  have whole := filled.total (max m.pages number) (Nat.le_max_left ..)
  have rest := apart (max m.pages number) (Nat.le_max_right ..)
  omega

/-- A page that has taken rows has only full pages before it, so there were more rows than free slots there. -/
theorem lt_of_touched {number : Nat} (touched : base.used number < m.used number) :
    number * base.slots < (base.before number).length + count := by
  have here := m.length_before_of_full number fun lower less => filled.packed lower number less touched
  have more : ∀ later, number + 1 ≤ later → (m.before (number + 1)).length + (base.before later).length ≤
      (m.before later).length + (base.before (number + 1)).length := by
    intro later past
    induction later, past using Nat.le_induction with
    | base => exact Nat.le_refl _
    | succ later past ih =>
      have least := filled.used_le later
      have here := m.length_before_succ later
      have here' := base.length_before_succ later
      omega
  have whole := filled.total (max m.pages (number + 1)) (Nat.le_max_left ..)
  have rest := more (max m.pages (number + 1)) (Nat.le_max_right ..)
  rw [filled.slots] at here
  rw [length_before_succ, length_before_succ] at rest
  omega

theorem used_eq_iff (number : Nat) :
    m.used number = base.used number ↔
      (base.used number < base.slots → (base.before number).length + count ≤ number * base.slots) := by
  constructor
  · intro same free
    have untouched : ∀ later, number ≤ later → m.used later = base.used later := by
      intro later past
      rcases Nat.eq_or_lt_of_le past with rfl | after
      · exact same
      · by_contra differs
        have touched := Nat.lt_of_le_of_ne (filled.used_le later) (Ne.symm differs)
        have full := filled.packed number later after touched
        rw [same, filled.slots] at full
        exact Nat.ne_of_lt free full
    have least := m.length_before_le number
    rw [filled.length_before_of_untouched untouched, filled.slots] at least
    exact least
  · intro enough
    by_contra differs
    have touched := Nat.lt_of_le_of_ne (filled.used_le number) (Ne.symm differs)
    have most := m.used_le number
    rw [filled.slots] at most
    exact Nat.not_lt.mpr (enough (Nat.lt_of_lt_of_le touched most)) (filled.lt_of_touched touched)

end Filled

end RowMap

/-! ### Tables -/

namespace Engine

variable {e : Engine} {table : TableId} {entry : TableEntry} (coherent : e.Coherent)
  (found : e.catalog.find? table = some entry)

include coherent found

theorem rowMap_within : (e.rowMap table entry).Within := by
  obtain ⟨f, file, -, schema⟩ := coherent.opened found
  obtain ⟨size, room, -⟩ := coherent.sized file
  rw [size, schema] at room
  refine ⟨room, ?_⟩
  intro row values held
  have own : row.page.table = table := ((rowMap_rows_eq_some_iff ..).mp held).1
  have entered := ((lists_entries coherent found).mem_iff row values).mpr ⟨own, held⟩
  obtain ⟨number, inside, here⟩ := List.mem_flatMap.mp entered
  obtain ⟨page, below, -⟩ := (RowMap.mem_onPage_iff ..).mp here
  rw [RowMap.mem_places_iff, page]
  exact ⟨rfl, List.mem_range.mp inside, below⟩

/-- A row of the table's schema that is put in is there then, and one that is not leaves the rows as they were. -/
theorem insert_adds (txn : TxnId) (row : Row) (types : row.schema.sameTypes entry.schema)
    (fits : Row.Fits row.values row.schema.types) : Ensures (insert txn table row) e fun
    | .ok location, e' => e'.Coherent ∧ SameTables e e' ∧
        (e.rowMap table entry).Took location row.values (e'.rowMap table entry)
    | .error _, e' => e'.Coherent ∧ SameTables e e' ∧
        (e'.rowMap table entry).entries = (e.rowMap table entry).entries := by
  have within := rowMap_within coherent found
  refine ((insert_refines coherent found row types fits).and (insert_ensures coherent txn table row fits)).mono ?_
  intro answer e' done
  cases answer with
  | ok location =>
    obtain ⟨⟨coherent', tables, inserted⟩, -⟩ := done
    have took := RowMap.insert_took within row.values
    rw [inserted] at took
    exact ⟨coherent', tables, took⟩
  | error fault =>
    obtain ⟨⟨coherent', tables, -⟩, reason⟩ := done
    refine ⟨coherent', tables, ?_⟩
    rcases reason with ⟨f, -, -, sought, -⟩ | ⟨rfl, -⟩ | ⟨rfl, -⟩
    · rcases sought.rowMap_eq_or_longer coherent found with same | ⟨-, longer, -⟩
      · rw [same]
      · rw [longer, RowMap.entries_longer within]
    · rfl
    · rfl

end Engine

end RowStore
