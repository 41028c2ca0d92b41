import Mathlib
import RowStore.Proofs.Engine.Growth
import RowStore.Proofs.Filling
/-!
# A file has as many pages as were ever needed

A page is added to the file of a table only when every slot of its pages is used, and pages are never taken away.
So the file is as long as the most rows that there have been in the table at one time have needed, and no longer:
every slot that a row has left, by being removed or by an abort, is used again before the file grows.
-/

namespace RowStore

/-! ### What putting a row in does to the pages -/

namespace RowMap

variable {m : RowMap}

theorem length_entries_le (m : RowMap) : m.entries.length ≤ m.pages * m.slots := m.length_before_le m.pages

theorem insert_grows (within : m.Within) (values : List Value) :
    (m.insert values).2.entries.length = m.entries.length + 1 ∧
      ((m.insert values).2.pages = m.pages ∨
        ((m.insert values).2.pages = m.pages + 1 ∧ m.entries.length = m.pages * m.slots)) := by
  have took := insert_took within values
  refine ⟨(took.entries_perm within).length_eq, ?_⟩
  rw [insert] at took ⊢
  cases found : m.free? with
  | some row => exact .inl rfl
  | none =>
    rw [found] at took
    exact .inr ⟨rfl, m.length_before_of_full m.pages took.full⟩

end RowMap

/-! ### Steps -/

/-- The step puts a row into the table. -/
def Op.InsertsInto (table : TableId) : Op → Prop
  | .insert _ other _ _ => other = table
  | _ => False

namespace Engine

def rowCount (e : Engine) (table : TableId) (entry : TableEntry) : Nat := (e.rowMap table entry).entries.length

def rowCounts (e : Engine) (table : TableId) (entry : TableEntry) : List Op → List Nat
  | [] => [e.rowCount table entry]
  | op :: rest => e.rowCount table entry :: (outcome op.act e).2.rowCounts table entry rest

variable {e e' : Engine} {txn : TxnId} {table other : TableId} {entry : TableEntry}

theorem Sought.pagesIn_eq_of_ne {f : TableFile} (sought : Sought txn other f e e') (differs : table ≠ other) :
    e'.pagesIn table = e.pagesIn table := by
  cases sought with
  | among browsed => exact browsed.swapped.to_sameFiles.pagesIn_eq table
  | beyond e₀ e₁ _ before grown after =>
    rw [after.swapped.to_sameFiles.pagesIn_eq, grown.pagesIn_after, if_neg differs,
      before.swapped.to_sameFiles.pagesIn_eq]

theorem Committed.pagesIn_eq (committed : Committed txn e e') (table : TableId) :
    e'.pagesIn table = e.pagesIn table := by
  have files := committed.files table
  rw [Engine.pagesIn, Engine.pagesIn]
  cases file : e.fileOf? table with
  | none =>
    rw [file, Option.map_none, Option.map_eq_none_iff] at files
    rw [files]
  | some f =>
    obtain ⟨g, file', -, pages⟩ := committed.fileOf?_kept file
    rw [file']
    exact pages

/-- What a step does to the pages of the table: nothing, or it has added the one page that it needed. -/
structure Frugal (table : TableId) (entry : TableEntry) (e e' : Engine) : Prop where
  coherent : e'.Coherent
  tables : SameTables e e'
  pages : e'.pagesIn table = e.pagesIn table ∨
    (e'.pagesIn table = e.pagesIn table + 1 ∧
      e'.rowCount table entry = e.pagesIn table * Page.capacity e.settings.pageSize entry.schema + 1)

namespace Frugal

theorem refl (coherent : e.Coherent) : Frugal table entry e e := ⟨coherent, .refl, .inl rfl⟩

theorem frugal_of_browsed (browsed : Browsed txn e e') : Frugal table entry e e' :=
  ⟨browsed.coherent_after, browsed.swapped.to_sameFiles.to_sameTables, .inl (browsed.swapped.to_sameFiles.pagesIn_eq
    table)⟩

theorem frugal_of_changed {e₁ : Engine} {page : Page} {slot : Nat} {content : Option (List Value)}
    (tables : SameTables e e₁)
    (same : e₁.pagesIn table = e.pagesIn table) (changed : Changed txn page slot content e₁ e') :
    Frugal table entry e e' :=
  ⟨changed.after, tables.trans changed.to_sameFiles.to_sameTables, .inl ((changed.to_sameFiles.pagesIn_eq table).trans
    same)⟩

end Frugal

section

variable (coherent : e.Coherent)
include coherent

/-- A row that goes to the table goes to a new page only when all slots were used. -/
theorem insert_frugal (found : e.catalog.find? table = some entry) (row : Row)
    (fits : Row.Fits row.values row.schema.types) : Ensures (insert txn table row) e fun
      | .ok _, e' => Frugal table entry e e'
      | .error _, _ => True := by
  obtain ⟨g, file, -, schema⟩ := coherent.opened found
  have within := rowMap_within coherent found
  by_cases types : row.schema.sameTypes entry.schema
  · refine (insert_refines coherent found row types fits).mono ?_
    intro answer e' done
    cases answer with
    | error fault => trivial
    | ok location =>
      obtain ⟨coherent', tables, inserted⟩ := done
      have found' : e'.catalog.find? table = some entry := by
        rw [tables.catalog]
        exact found
      obtain ⟨more, pages⟩ := RowMap.insert_grows within row.values
      rw [inserted] at more pages
      refine ⟨coherent', tables, ?_⟩
      rw [← coherent.pagesOf_eq_pagesIn found, ← coherent'.pagesOf_eq_pagesIn found']
      rcases pages with same | ⟨longer, full⟩
      · exact .inl same
      · exact .inr ⟨longer, by rw [rowCount, more, full]; rfl⟩
  · refine (insert_ensures coherent txn table row fits).mono ?_
    intro answer e' done
    cases answer with
    | error fault => trivial
    | ok location =>
      obtain ⟨f, -, -, -, file', same, -⟩ := done
      rw [file] at file'
      cases file'
      rw [schema] at same
      exact absurd same types

theorem insert_elsewhere_frugal (differs : table ≠ other) (row : Row) (fits : Row.Fits row.values row.schema.types) :
    Ensures (insert txn other row) e fun _ e' => Frugal table entry e e' := by
  refine (insert_ensures coherent txn other row fits).mono ?_
  intro answer e' done
  cases answer with
  | ok location =>
    obtain ⟨f, e₁, page, slot, -, -, sought, -, -, -, -, changed⟩ := done
    exact .frugal_of_changed sought.to_sameTables (sought.pagesIn_eq_of_ne differs) changed
  | error fault =>
    rcases done with ⟨f, -, -, sought, -⟩ | ⟨rfl, -⟩ | ⟨rfl, -⟩
    · exact ⟨sought.coherent_after, sought.to_sameTables, .inl (sought.pagesIn_eq_of_ne differs)⟩
    · exact .refl coherent
    · exact .refl coherent

theorem delete_frugal (row : Option RowId) : Ensures (delete txn row) e fun _ e' => Frugal table entry e e' := by
  cases row with
  | none => exact .refl coherent
  | some row =>
    refine (delete_ensures coherent txn row).mono ?_
    intro answer e' done
    cases answer with
    | ok p =>
      obtain ⟨e₁, page, browsed, -, -, -, changed⟩ := done
      exact .frugal_of_changed browsed.swapped.to_sameFiles.to_sameTables (browsed.swapped.to_sameFiles.pagesIn_eq
        table) changed
    | error fault => exact .frugal_of_browsed done.1

/-- Whatever the step, it adds no page that it does not need, unless it puts a row into the table and fails. -/
theorem act_frugal (found : e.catalog.find? table = some entry) (op : Op) : Ensures op.act e fun answer e' =>
    (op.InsertsInto table → ∃ a, answer = .ok a) → Frugal table entry e e' := by
  cases op with
  | insert txn other schema values =>
    by_cases same : other = table
    · subst same
      refine Op.insert_ensures (fun _ _ _ => .refl coherent) (insert_frugal coherent found ⟨schema, values, none⟩)
        (fun _ _ frugal _ => frugal) ?_
      intro fault e' _ granted
      obtain ⟨a, answered⟩ := granted rfl
      exact absurd answered (by simp)
    · exact Op.insert_ensures (fun _ _ _ => .refl coherent)
        (insert_elsewhere_frugal coherent (Ne.symm same) ⟨schema, values, none⟩)
        (fun _ _ frugal _ => frugal) fun _ _ frugal _ => frugal
  | delete txn row =>
    have removing : Ensures (delete txn row) e fun _ e' => Frugal table entry e e' := delete_frugal coherent row
    refine removing.bind ?_ ?_
    · intro p e' frugal
      exact .pure fun _ => frugal
    · intro fault e' frugal _
      exact frugal
  | read txn p mode =>
    refine (getPage_browses coherent txn p mode).bind ?_ ?_
    · intro page e' gotten
      exact .pure fun _ => .frugal_of_browsed gotten.1
    · intro fault e' failed _
      exact .frugal_of_browsed failed.1
  | scan s count =>
    exact FileScan.draw_ensures (FileScan.take_ensures coherent s count) (fun _ _ took _ =>
      .frugal_of_browsed took.browsed)
      fun _ _ => False.elim
  | commit txn =>
    refine (commit_ensures coherent txn).bind ?_ fun _ _ => False.elim
    intro _ e' committed
    exact .pure fun _ => ⟨committed.coherent, committed.tables, .inl (committed.pagesIn_eq table)⟩
  | abort txn =>
    refine (abort_ensures coherent txn).bind ?_ fun _ _ => False.elim
    intro _ e' aborted
    exact .pure fun _ => ⟨aborted.coherent, aborted.files.to_sameTables, .inl (aborted.files.pagesIn_eq table)⟩

end

/-! ### Many steps -/

/-- None of the steps that put a row into the table has failed. -/
def Granted (e : Engine) (table : TableId) (ops : List Op) : Prop :=
  ∀ taken ∈ ops.zip (e.perform ops).1, taken.1.InsertsInto table → ∃ a, taken.2 = .ok a

theorem rowCount_le (coherent : e.Coherent) (found : e.catalog.find? table = some entry) :
    e.rowCount table entry ≤ e.pagesIn table * Page.capacity e.settings.pageSize entry.schema := by
  rw [← coherent.pagesOf_eq_pagesIn found]
  exact RowMap.length_entries_le _

theorem rowCount_mem_rowCounts (e : Engine) (table : TableId) (entry : TableEntry) (ops : List Op) :
    e.rowCount table entry ∈ e.rowCounts table entry ops := by
  cases ops <;> exact List.mem_cons_self

/-- However many rows there have been at any time, the pages that there are in the end have room for them, and if
there are more than there were, then there have been rows at some time that all of them were needed for. -/
theorem perform_frugal (coherent : e.Coherent) (found : e.catalog.find? table = some entry) (ops : List Op)
    (granted : e.Granted table ops) :
    let e' := (e.perform ops).2
    let slots := Page.capacity e.settings.pageSize entry.schema
    e'.Coherent ∧ SameTables e e' ∧ e.pagesIn table ≤ e'.pagesIn table ∧
      (∀ count ∈ e.rowCounts table entry ops, count ≤ e'.pagesIn table * slots) ∧
      (e'.pagesIn table = e.pagesIn table ∨
        ∃ count ∈ e.rowCounts table entry ops, e'.pagesIn table * slots < count + slots) := by
  induction ops generalizing e with
  | nil =>
    refine ⟨coherent, .refl, Nat.le_refl _, ?_, .inl rfl⟩
    intro count among
    rw [List.mem_singleton.mp among]
    exact rowCount_le coherent found
  | cons op rest ih =>
    have frugal : Frugal table entry e (outcome op.act e).2 :=
      (act_frugal coherent found op).outcome (granted _ List.mem_cons_self)
    have more : e.pagesIn table ≤ (outcome op.act e).2.pagesIn table := by
      have pages := frugal.pages
      omega
    have found₁ : (outcome op.act e).2.catalog.find? table = some entry := by
      rw [frugal.tables.catalog]
      exact found
    obtain ⟨coherent', tables, longer, room, needed⟩ := ih frugal.coherent found₁
      fun taken among => granted taken (List.mem_cons_of_mem _ among)
    rw [frugal.tables.pageSize] at room needed
    refine ⟨coherent', frugal.tables.trans tables, Nat.le_trans more longer, ?_, ?_⟩
    · intro count among
      rcases List.mem_cons.mp among with rfl | later
      · exact Nat.le_trans (rowCount_le coherent found) (Nat.mul_le_mul_right _ (Nat.le_trans more longer))
      · exact room count later
    · rcases needed with same | ⟨count, among, enough⟩
      · rcases frugal.pages with same' | ⟨longer, held⟩
        · exact .inl (same.trans same')
        · refine .inr ⟨_, List.mem_cons_of_mem _ (rowCount_mem_rowCounts _ table entry rest), ?_⟩
          have last : (e.perform (op :: rest)).2.pagesIn table = e.pagesIn table + 1 := same.trans longer
          rw [last, held, Nat.succ_mul]
          omega
      · exact .inr ⟨count, List.mem_cons_of_mem _ among, enough⟩

def mostRows (e : Engine) (table : TableId) (entry : TableEntry) (ops : List Op) : Nat :=
  ((e.rowCounts table entry ops).max?).getD 0

theorem mostRows_spec (e : Engine) (table : TableId) (entry : TableEntry) (ops : List Op) :
    e.mostRows table entry ops ∈ e.rowCounts table entry ops ∧
      ∀ count ∈ e.rowCounts table entry ops, count ≤ e.mostRows table entry ops := by
  cases most : (e.rowCounts table entry ops).max? with
  | none =>
    have among := e.rowCount_mem_rowCounts table entry ops
    rw [List.max?_eq_none_iff.mp most] at among
    exact absurd among List.not_mem_nil
  | some count =>
    rw [mostRows, most, Option.getD_some]
    exact List.max?_eq_some_iff.mp most

end Engine

/-- Enough, and one less would not be. -/
theorem eq_ceilDiv {pages rows slots : Nat} (enough : rows ≤ pages * slots) (tight : pages * slots < rows + slots) :
    pages = rows ⌈/⌉ slots := by
  rw [Nat.ceilDiv_eq_add_pred_div]
  refine (Nat.div_eq_of_lt_le (Nat.le_sub_one_of_lt tight) ?_).symm
  rw [Nat.succ_mul]
  omega

/-- Transactions take any steps, on whatever tables, and none of those that put a row into one of the tables fails:
then the file of that table has as many pages as the most rows that have been in it at one time need, and nothing
beside them. -/
theorem Database.file_is_as_long_as_needed (d : Database) (table : TableId) (entry : TableEntry)
    (found : d.engine.catalog.find? table = some entry) (ops : List Op) (granted : d.engine.Granted table ops) :
    let e := (d.engine.perform ops).2
    let slots := Page.capacity d.settings.pageSize entry.schema
    0 < slots ∧ e.pagesOf entry.file = d.engine.mostRows table entry ops ⌈/⌉ slots ∧
      ∃ f, e.fileOf? table = some f ∧ (e.contentsOf f).length = e.pagesOf entry.file * d.settings.pageSize := by
  intro e slots
  have coherent := d.opened_engine.registered.coherent
  have settings : d.engine.settings = d.settings := d.opened_engine.settings
  obtain ⟨coherent', tables, -, room, needed⟩ := Engine.perform_frugal coherent found ops granted
  have found' : e.catalog.find? table = some entry := by
    rw [tables.catalog]
    exact found
  obtain ⟨f, file, -, schema⟩ := coherent'.opened found'
  obtain ⟨size, positive, length⟩ := coherent'.sized file
  have pageSize : f.pageSize = d.settings.pageSize := by rw [size, tables.pageSize, settings]
  rw [pageSize, schema] at positive
  refine ⟨positive, ?_, f, file, ?_⟩
  · have empty : d.engine.pagesIn table = 0 := by
      obtain ⟨g, file, -, -⟩ := coherent.opened found
      rw [Engine.pagesIn, file]
      exact d.fresh.pages_eq_zero d.opened_engine file
    obtain ⟨reached, most⟩ := d.engine.mostRows_spec table entry ops
    have enough := room _ reached
    have tight : e.pagesIn table * slots < d.engine.mostRows table entry ops + slots := by
      rcases needed with same | ⟨count, among, tight⟩
      · rw [show e.pagesIn table = 0 from same.trans empty, Nat.zero_mul]
        exact Nat.add_pos_right _ positive
      · rw [settings] at tight
        exact Nat.lt_of_lt_of_le tight (Nat.add_le_add_right (most count among) _)
    rw [settings] at enough
    rw [coherent'.pagesOf_eq_pagesIn found']
    exact eq_ceilDiv enough tight
  · rw [length, pageSize, Engine.pagesOf_of_fileOf? found' file]

/-- Four numbers take two pages. Two of them are removed, and two others take their places and are taken back: the
file stays as long as the four have made it. -/
theorem Database.numbers_need_two_pages :
    let ops : List Op :=
      [.insert ⟨1⟩ ⟨1⟩ ⟨[⟨none, .int⟩]⟩ [.int 1], .insert ⟨1⟩ ⟨1⟩ ⟨[⟨none, .int⟩]⟩ [.int 2],
        .insert ⟨1⟩ ⟨1⟩ ⟨[⟨none, .int⟩]⟩ [.int 3], .insert ⟨1⟩ ⟨1⟩ ⟨[⟨none, .int⟩]⟩ [.int 4], .commit ⟨1⟩,
        .delete ⟨2⟩ (some ⟨⟨⟨1⟩, 0⟩, 1⟩), .delete ⟨2⟩ (some ⟨⟨⟨1⟩, 1⟩, 0⟩), .commit ⟨2⟩,
        .insert ⟨3⟩ ⟨1⟩ ⟨[⟨none, .int⟩]⟩ [.int 5], .insert ⟨3⟩ ⟨1⟩ ⟨[⟨none, .int⟩]⟩ [.int 6], .abort ⟨3⟩]
    (numbers.engine.perform ops).2.rowCount ⟨1⟩ ⟨0, ⟨[⟨some "n", .int⟩]⟩, "t"⟩ = 2 ∧
      (numbers.engine.perform ops).2.pagesOf 0 = 4 ⌈/⌉ 3 := by
  intro ops
  have performed : (numbers.engine.perform ops).1 =
      [.ok (.stored ⟨⟨⟨1⟩, 0⟩, 0⟩), .ok (.stored ⟨⟨⟨1⟩, 0⟩, 1⟩), .ok (.stored ⟨⟨⟨1⟩, 0⟩, 2⟩),
        .ok (.stored ⟨⟨⟨1⟩, 1⟩, 0⟩), .ok .ended, .ok (.removed ⟨⟨1⟩, 0⟩), .ok (.removed ⟨⟨1⟩, 1⟩), .ok .ended,
        .ok (.stored ⟨⟨⟨1⟩, 0⟩, 1⟩), .ok (.stored ⟨⟨⟨1⟩, 1⟩, 0⟩), .ok .ended] := by cbv
  have most : numbers.engine.mostRows ⟨1⟩ ⟨0, ⟨[⟨some "n", .int⟩]⟩, "t"⟩ ops = 4 := by cbv
  have granted : numbers.engine.Granted ⟨1⟩ ops := by
    intro taken among _
    rw [performed] at among
    simp only [ops, List.zip_cons_cons, List.zip_nil_left, List.mem_cons, List.not_mem_nil, or_false] at among
    rcases among with rfl | rfl | rfl | rfl | rfl | rfl | rfl | rfl | rfl | rfl | rfl <;> exact ⟨_, rfl⟩
  obtain ⟨-, pages, -⟩ :=
    file_is_as_long_as_needed numbers ⟨1⟩ ⟨0, ⟨[⟨some "n", .int⟩]⟩, "t"⟩ (by cbv) ops granted
  rw [most] at pages
  exact ⟨by cbv, pages⟩

end RowStore
