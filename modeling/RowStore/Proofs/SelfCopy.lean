import Mathlib.Data.List.Perm.Subperm
import RowStore.Proofs.Filling
import RowStore.Proofs.Plan.Counting
/-!
# Copying a table into itself

While the rows of a table are read and put into the same table, copies go to pages that are read later, and
are then read and copied as well. Every row is copied, and it depends on how the free slots are spread over
the pages whether it is copied once.
-/

namespace RowStore

open Engine

namespace RowMap

/-- Wherever there is room on a page, and at the end of the table, the pages before are at most half full. -/
def Roomy (m : RowMap) : Prop :=
  ∀ number ≤ m.pages, m.used number < m.slots → 2 * (m.before number).length ≤ number * m.slots

instance (m : RowMap) : Decidable m.Roomy :=
  inferInstanceAs (Decidable (∀ number ≤ m.pages, m.used number < m.slots → 2 * (m.before number).length ≤ number * m.slots))

/-- The pages before that number have been read, what is pending has not been copied yet, and the copies have
been put in. -/
structure Copying (base : RowMap) (number : Nat) (pending : List (List Value)) (m : RowMap)
    (copies : List (RowId × List Value)) : Prop where
  filled : Filled base m copies.length
  entries : m.entries.Perm (base.entries ++ copies)
  held : ∀ values ∈ copies.map Prod.snd ++ pending, values ∈ base.entries.map Prod.snd
  every : ((base.before number).map Prod.snd).Subperm (copies.map Prod.snd ++ pending)
  once : copies.length + pending.length = (base.before number).length ↔
    ∀ earlier < number, base.used earlier < base.slots → 2 * (base.before earlier).length ≤ earlier * base.slots

namespace Copying

variable {base m m' : RowMap} {number : Nat} {pending : List (List Value)} {copies : List (RowId × List Value)}

theorem refl (within : base.Within) : Copying base 0 [] base [] where
  filled := .refl within
  entries := by rw [List.append_nil]
  held := by simp
  every := List.nil_subperm
  once := by simp [before]

theorem length_before_le_copies (copying : Copying base number pending m copies) :
    (base.before number).length ≤ copies.length + pending.length := by
  have fewer := copying.every.length_le
  rw [List.length_append, List.length_map, List.length_map] at fewer
  exact fewer

theorem subperm_onPage (filled : Filled base m copies.length) (number : Nat) :
    ((base.onPage number).map Prod.snd).Subperm ((m.onPage number).map Prod.snd) := by
  have among : base.onPage number ⊆ m.onPage number := by
    rintro ⟨row, values⟩ here
    rw [mem_onPage_iff] at here ⊢
    obtain ⟨page, inside, held⟩ := here
    rw [filled.table, filled.slots]
    exact ⟨page, inside, filled.keeps row values held⟩
  have nodup : (base.onPage number).Nodup := Contents.nodup_onPage ..
  obtain ⟨rows, perm, sublist⟩ := List.subperm_of_subset nodup among
  exact ⟨rows.map Prod.snd, perm.map _, sublist.map _⟩

theorem copying_next_page (copying : Copying base number [] m copies) (inside : number < m.pages) :
    Copying base (number + 1) ((m.onPage number).map Prod.snd) m copies where
  filled := copying.filled
  entries := copying.entries
  held values among := by
    rcases List.mem_append.mp among with copied | here
    · exact copying.held values (List.mem_append_left _ copied)
    · obtain ⟨entry, onPage, rfl⟩ := List.mem_map.mp here
      have entered : entry ∈ m.entries := List.mem_flatMap.mpr ⟨number, List.mem_range.mpr inside, onPage⟩
      rcases List.mem_append.mp (copying.entries.subset entered) with old | copied
      · exact List.mem_map_of_mem old
      · exact copying.held _ (List.mem_append_left _ (List.mem_map_of_mem copied))
  every := by
    have earlier := copying.every
    rw [List.append_nil] at earlier
    rw [before_succ, List.map_append]
    exact earlier.append (subperm_onPage copying.filled number)
  once := by
    have least := copying.length_before_le_copies
    have same := copying.filled.used_eq_iff number
    have more := copying.filled.used_le number
    have whole := base.length_before_succ number
    have once := copying.once
    rw [List.length_nil, Nat.add_zero] at least once
    rw [List.length_map, whole, ← RowMap.used]
    constructor
    · intro exactly earlier less
      rcases Nat.lt_succ_iff_lt_or_eq.mp less with before | rfl
      · exact once.mp (by omega) earlier before
      · have untouched := same.mp (by omega)
        intro room
        have enough := untouched room
        omega
    · intro roomy
      have exactly := once.mpr fun earlier before => roomy earlier (Nat.lt_succ_of_lt before)
      have untouched : m.used number = base.used number := same.mpr fun room => by
        have half := roomy number (Nat.lt_succ_self _) room
        omega
      omega

/-- One row on a page of three is copied once, and one of two rows is copied twice. -/
example : (⟨⟨1⟩, 1, 3, fun row => if row.page.number = 0 ∧ row.slot < 1 then some [] else none⟩ : RowMap).Roomy ∧
    ¬(⟨⟨1⟩, 1, 3, fun row => if row.page.number = 0 ∧ row.slot < 2 then some [] else none⟩ : RowMap).Roomy := by
  decide

end Copying

end RowMap

/-! ### Reading and putting in -/

namespace Engine

variable {e : Engine} {table : TableId} {entry : TableEntry}

/-- What is read on a page is what the map has there. -/
theorem values_rowsOn (coherent : e.Coherent) (found : e.catalog.find? table = some entry) (number : Nat) :
    (e.rowsOn ⟨table, number⟩).map Row.values = ((e.rowMap table entry).onPage number).map Prod.snd := by
  cases seen : e.view? ⟨table, number⟩ with
  | none =>
    have nothing : (e.rowMap table entry).onPage number = [] := by
      apply List.eq_nil_iff_forall_not_mem.mpr
      rintro ⟨row, values⟩ here
      obtain ⟨page, -, held⟩ := (RowMap.mem_onPage_iff ..).mp here
      obtain ⟨-, copy, found, -⟩ := (rowMap_rows_eq_some_iff ..).mp held
      rw [page] at found
      exact absurd (seen.symm.trans found) (by simp)
    rw [rowsOn, seen, nothing]
    rfl
  | some page =>
    have id := coherent.id_eq_of_view? seen
    have rows := page.rows_of_contents (e.rowMap table entry).rows (by
      rw [id]
      exact fun slot => (rowMap_rows e entry rfl seen slot).symm)
    rw [length_slots coherent found rfl seen, id] at rows
    rw [rowsOn, seen]
    show page.rows.map Row.values = _
    rw [rows, List.map_map]
    rfl

end Engine

/-- A scan has come that far with the table that is being copied into itself. -/
structure FileScan.Copies (base : RowMap) (of : ScanOf) (copies : List (RowId × List Value)) (number : Nat)
    (pending : List Row) (e : Engine) : Prop where
  coherent : e.Coherent
  found : e.catalog.find? of.table = some of.entry
  fit : ∀ row ∈ pending, Row.Fits row.values of.entry.schema.types
  copying : RowMap.Copying base number (pending.map Row.values) (e.rowMap of.table of.entry) copies

namespace FileScan.Copies

variable {base : RowMap} {of : ScanOf} {copies : List (RowId × List Value)} {number : Nat} {pending : List Row}
  {e e' : Engine}

theorem copies_of_browsed {txn : TxnId} (copied : Copies base of copies number pending e) (browsed : Browsed txn e e') :
    Copies base of copies number pending e' where
  coherent := browsed.coherent_after
  found := by rw [browsed.swapped.to_sameFiles.catalog, copied.found]
  fit := copied.fit
  copying := by
    rw [browsed.rowMap_eq]
    exact copied.copying

theorem copies_next_page (copied : Copies base of copies number [] e) (inside : number < e.pagesOf of.entry.file) :
    Copies base of copies (number + 1) (e.rowsOn ⟨of.table, number⟩) e where
  coherent := copied.coherent
  found := copied.found
  fit row among := by
    rw [rowsOn] at among
    cases seen : e.view? ⟨of.table, number⟩ with
    | none =>
      rw [seen] at among
      exact absurd among (by simp)
    | some page =>
      rw [seen] at among
      exact FileScan.gives_suiting e.catalog of.table e _ page copied.coherent rfl rfl seen row among _ copied.found
  copying := by
    rw [values_rowsOn copied.coherent copied.found]
    exact copied.copying.copying_next_page inside

/-- What the scan answers when it goes on to the next row, which is pending until it has been put in. -/
def Goes (base : RowMap) (of : ScanOf) (copies : List (RowId × List Value)) (s : FileScan) :
    Except Fault (Option Row) → FileScan × Engine → Prop
  | .ok (some row), left => FileScan.Alike s left.1 ∧
      Copies base of copies left.1.nextPage (row :: left.1.pending) left.2
  | .ok none, left => Copies base of copies left.1.nextPage [] left.2 ∧
      (left.2.rowMap of.table of.entry).pages ≤ left.1.nextPage
  | .error _, _ => True

theorem next_goes {s : FileScan} (copied : Copies base of copies s.nextPage s.pending e) (file : s.file = of.entry.file)
    (table : s.table = of.table) : Ensures FileScan.next (s, e) (Goes base of copies s) := by
  have finds : s.Finds (e.pagesOf s.file) (fun number given => given = e.rowsOn ⟨s.table, number⟩)
      (Browsed s.txn e) := by
    intro e₁ number browsed _
    refine (getPage_browses browsed.coherent_after s.txn ⟨s.table, number⟩ .shared).mono ?_
    rintro (fault | page) e₂ gotten
    · exact browsed.trans gotten.1
    · obtain ⟨browsed', seen, -⟩ := gotten
      refine ⟨browsed.trans browsed', ?_⟩
      show page.rows = e.rowsOn ⟨s.table, number⟩
      rw [rowsOn, ← browsed.swapped.view?_eq, seen]
      rfl
  have passes : ∀ number < e.pagesOf s.file, ∀ given, given = e.rowsOn ⟨s.table, number⟩ →
      Copies base of copies number [] e → Copies base of copies (number + 1) given e := by
    rintro number inside _ rfl here
    rw [file] at inside
    rw [table]
    exact here.copies_next_page inside
  have reads : Ensures FileScan.next (s, e) (FileScan.Reads (Browsed s.txn e)
      (fun number pending => Copies base of copies number pending e) (e.pagesOf s.file) s) :=
    FileScan.next_reads finds passes (fun e' browsed => browsed.swapped.to_sameFiles.pagesOf_eq s.file)
      (.refl copied.coherent) copied
  refine reads.mono ?_
  rintro (fault | _ | row) left read
  · trivial
  · obtain ⟨-, browsed, -, known, past⟩ := read
    refine ⟨known.copies_of_browsed browsed, ?_⟩
    rw [browsed.rowMap_eq]
    rw [file] at past
    exact past
  · obtain ⟨alike, browsed, known⟩ := read
    exact ⟨alike, known.copies_of_browsed browsed⟩

end FileScan.Copies

/-! ### The operator -/

/-- What has become of the table when all rows have been put in. -/
structure RowMap.Copied (base m : RowMap) (copies : List (RowId × List Value)) : Prop where
  entries : m.entries.Perm (base.entries ++ copies)
  held : ∀ copy ∈ copies, copy.2 ∈ base.entries.map Prod.snd
  every : (base.entries.map Prod.snd).Subperm (copies.map Prod.snd)
  once : (base.entries.map Prod.snd).Perm (copies.map Prod.snd) ↔ base.Roomy

namespace Source

variable {base : RowMap} {of : ScanOf} {e : Engine}

/-- The row says how many copies there are. -/
def Counts (base : RowMap) (of : ScanOf) (row : Row) (e : Engine) : Prop :=
  ∃ copies, ∃ n : Int32, row.values = [.int n] ∧ n.toInt = copies.length ∧
    base.Copied (e.rowMap of.table of.entry) copies

/-- The scan has been started, and nothing has been read. -/
def Fresh (base : RowMap) (of : ScanOf) (inner : Cursor (ofTable of)) (now : Engine) : Prop :=
  inner = ⟨true, none, some (.start of.entry.file of.table of.txn)⟩ ∧ FileScan.Copies base of [] 0 [] now

end Source

namespace Archive

/-- The numbers are put in, and then all numbers are put in again. -/
def putIn (numbers : List (List Value)) : List Command :=
  [.openPlan "a" (.insert ⟨1⟩ ⟨1⟩ (.rows ⟨[⟨none, .int⟩]⟩ numbers)), .usePlan "a" .start, .usePlan "a" .next]

def again : Command := .openPlan "b" (.insert ⟨1⟩ ⟨1⟩ (.scan ⟨1⟩ ⟨1⟩ none))

end Archive

end RowStore
