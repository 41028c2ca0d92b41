import Mathlib
import RowStore.Proofs.Chronicle
import RowStore.Proofs.RowMap
/-!
# A table behaves as its map

What readers find in a table is an ordered map. A step of a transaction on the table answers what the
same step on the map answers and leaves the map that it leaves, unless somebody stands in its way or
there is no room in memory.
-/

namespace RowStore

open Engine

/-- What readers find in the table, whatever of it is in memory. -/
def Engine.rowMap (e : Engine) (table : TableId) (entry : TableEntry) : RowMap where
  table := table
  pages := e.pagesOf entry.file
  slots := Page.capacity e.settings.pageSize entry.schema
  rows := fun row =>
    if row.page.table = table then (e.view? row.page).bind fun page => page.valuesAt row.slot
    else none

namespace Engine

section

variable {e e' : Engine} {txn : TxnId} {table : TableId} {entry : TableEntry}

theorem rowMap_rows (e : Engine) (entry : TableEntry) {p : PageId} {page : Page} (own : p.table = table)
    (seen : e.view? p = some page) (slot : Nat) : (e.rowMap table entry).rows ⟨p, slot⟩ = page.valuesAt slot := by
  show (if p.table = table then _ else _) = _
  rw [if_pos own, seen, Option.bind_some]

theorem rowMap_rows_eq_some_iff (e : Engine) (entry : TableEntry) (row : RowId) (values : List Value) :
    (e.rowMap table entry).rows row = some values ↔
      row.page.table = table ∧ ∃ page, e.view? row.page = some page ∧ page.valuesAt row.slot = some values := by
  change (if row.page.table = table then _ else none) = some values ↔ _
  split
  · rename_i own
    rw [and_iff_right own, Option.bind_eq_some_iff]
  · rename_i other
    exact ⟨fun held => absurd held (by simp), fun held => absurd held.1 other⟩

/-- The rows of a table are known from how its pages are found. -/
theorem rowMap_congr (pages : e'.pagesOf entry.file = e.pagesOf entry.file)
    (size : e'.settings.pageSize = e.settings.pageSize) (view : ∀ p : PageId, p.table = table → e'.view? p = e.view? p) :
    e'.rowMap table entry = e.rowMap table entry := by
  ext1
  · rfl
  · exact pages
  · show Page.capacity e'.settings.pageSize _ = _
    rw [size]
    rfl
  · funext row
    exact ite_congr rfl (fun own => by rw [view row.page own]) fun _ => rfl

theorem Browsed.rowMap_eq (browsed : Browsed txn e e') : e'.rowMap table entry = e.rowMap table entry := by
  have files := browsed.swapped.to_sameFiles
  rw [Engine.rowMap, Engine.rowMap, files.pagesOf_eq, files.pageSize, browsed.swapped.view?_eq]

theorem SameFiles.rowMap_write (files : SameFiles e e') {row : RowId} {page changed : Page}
    {content : Option (List Value)} (own : row.page.table = table) (seen : e.view? row.page = some page)
    (view : ∀ p, e'.view? p = if p = row.page then some changed else e.view? p)
    (slots : ∀ slot, changed.valuesAt slot = if slot = row.slot then content else page.valuesAt slot) :
    e'.rowMap table entry = (e.rowMap table entry).write row content := by
  have rows : (e'.rowMap table entry).rows = (e.rowMap table entry).rows.write ⟨row, content⟩ := by
    funext other
    show (if other.page.table = table then _ else _) = if other = row then content else _
    rw [view]
    by_cases here : other.page = row.page
    · rw [if_pos (by rw [here]; exact own), if_pos here, Option.bind_some, slots]
      by_cases same : other.slot = row.slot
      · rw [if_pos same, if_pos (by cases other; cases row; cases here; cases same; rfl)]
      · rw [if_neg same, if_neg (fun located => same (congrArg RowId.slot located))]
        rw [← here] at seen
        exact (rowMap_rows e entry (by rw [here]; exact own) seen other.slot).symm
    · rw [if_neg here, if_neg (fun located => here (congrArg RowId.page located))]
      rfl
  ext1
  · rfl
  · exact files.pagesOf_eq entry.file
  · show Page.capacity e'.settings.pageSize _ = _
    rw [files.pageSize]
    rfl
  · exact rows

theorem Changed.rowMap_write {page : Page} {slot : Nat} {content : Option (List Value)}
    (changed : Changed txn page slot content e e') (own : page.id.table = table) :
    e'.rowMap table entry = (e.rowMap table entry).write (page.locate slot) content :=
  changed.to_sameFiles.rowMap_write own changed.owns.view?_eq_some changed.view?_after
    fun other => page.valuesAt_putAt slot other content changed.inside

theorem Grown.view?_added_eq_none {f : TableFile} (grown : Grown table f e e') : e.view? (f.pageId f.pages) = none := by
  cases seen : e.view? (f.pageId f.pages) with
  | none => rfl
  | some page =>
    obtain ⟨g, file, inside, -⟩ := grown.before.of_of_view? seen
    rw [TableFile.pageId, grown.before.table_eq_of_fileOf? grown.file, grown.file] at file
    cases file
    exact absurd inside (Nat.lt_irrefl _)

theorem Grown.rowMap_longer {f : TableFile} (grown : Grown table f e e') (found : e.catalog.find? table = some entry) :
    e'.rowMap table entry = (e.rowMap table entry).longer := by
  have found' : e'.catalog.find? table = some entry := by
    rw [grown.to_sameTables.catalog]
    exact found
  have file' : e'.fileOf? table = some { f with pages := f.pages + 1 } := by
    rw [grown.fileOf?_after, if_pos rfl]
  have pages := pagesOf_of_fileOf? found grown.file
  have pages' := pagesOf_of_fileOf? found' file'
  have rows : (e'.rowMap table entry).rows = (e.rowMap table entry).rows := by
    funext row
    show (if row.page.table = table then _ else _) = if row.page.table = table then _ else _
    rw [grown.view?_after]
    split
    · split
      · rename_i last
        rw [last, grown.view?_added_eq_none]
        exact Page.valuesAt_blank ..
      · rfl
    · rfl
  ext1
  · rfl
  · show e'.pagesOf entry.file = e.pagesOf entry.file + 1
    rw [pages, pages']
  · show Page.capacity e'.settings.pageSize _ = _
    rw [grown.to_sameTables.pageSize]
    rfl
  · exact rows

theorem Grown.full_mono {f : TableFile} (grown : Grown table f e e') {p : PageId} (full : e.Full p) : e'.Full p := by
  obtain ⟨page, seen, used⟩ := full
  refine ⟨page, ?_, used⟩
  rw [grown.view?_after, if_neg, seen]
  intro last
  rw [last, grown.view?_added_eq_none] at seen
  exact absurd seen (by simp)

theorem Sought.full_mono {f : TableFile} (sought : Sought txn table f e e') {p : PageId} (full : e.Full p) :
    e'.Full p := by
  cases sought with
  | among browsed => exact (browsed.full_iff p).mpr full
  | beyond e₀ e₁ _ before grown after =>
    exact (after.full_iff p).mpr (grown.full_mono ((before.full_iff p).mpr full))

/-! ### Where a row goes -/

section

variable (coherent : e.Coherent) (found : e.catalog.find? table = some entry)

include coherent found

theorem length_slots {p : PageId} {page : Page} (own : p.table = table) (seen : e.view? p = some page) :
    page.slots.length = (e.rowMap table entry).slots := by
  obtain ⟨f, file, -, schema⟩ := coherent.opened found
  obtain ⟨g, same, -, of⟩ := coherent.of_of_view? seen
  rw [own, file] at same
  cases same
  obtain ⟨size, -⟩ := coherent.sized file
  rw [of.sound.slots, of.schema, of.size, size, schema]
  rfl

theorem Full.rows_ne_none {row : RowId} (full : e.Full row.page) (place : row ∈ (e.rowMap table entry).places) :
    (e.rowMap table entry).rows row ≠ none := by
  obtain ⟨own, -, below⟩ := (RowMap.mem_places_iff _ row).mp place
  change row.page.table = table at own
  obtain ⟨page, seen, used⟩ := full
  rw [← length_slots coherent found own seen] at below
  have here := used row.slot below
  rw [Page.isUsed_eq, Option.isSome_iff_ne_none] at here
  have rows := rowMap_rows e entry own seen row.slot
  rw [show row = ⟨row.page, row.slot⟩ from rfl, rows]
  exact here

theorem free?_of_full {f : TableFile} (file : e.fileOf? table = some f)
    (full : ∀ number < f.pages, e.Full ⟨table, number⟩) : (e.rowMap table entry).free? = none := by
  rw [RowMap.free?_eq_none_iff]
  intro row place
  obtain ⟨own, inside, -⟩ := (RowMap.mem_places_iff _ row).mp place
  have pages : (e.rowMap table entry).pages = f.pages := pagesOf_of_fileOf? found file
  refine Full.rows_ne_none coherent found ?_ place
  have here := full row.page.number (by rw [← pages]; exact inside)
  rw [show row.page = ⟨row.page.table, row.page.number⟩ from rfl, own]
  exact here

/-- The lowest free slot of the first page that has one is the least free place. -/
theorem free?_of_room {page : Page} {slot : Nat} (own : page.id.table = table)
    (seen : e.view? page.id = some page) (room : Room page slot)
    (full : ∀ number < page.id.number, e.Full ⟨table, number⟩) :
    (e.rowMap table entry).free? = some (page.locate slot) := by
  obtain ⟨f, file, inside, -⟩ := coherent.of_of_view? seen
  rw [own] at file
  have pages : (e.rowMap table entry).pages = f.pages := pagesOf_of_fileOf? found file
  have slots := length_slots coherent found own seen
  apply RowMap.free?_eq_some
  · rw [RowMap.mem_places_iff, pages, ← slots]
    exact ⟨own, inside, room.inside⟩
  · exact (rowMap_rows e entry own seen slot).trans room.free
  · intro lower place before
    obtain ⟨own', -, -⟩ := (RowMap.mem_places_iff _ lower).mp place
    change lower.page.table = table at own'
    rcases before with earlier | ⟨number, earlier⟩
    · refine Full.rows_ne_none coherent found ?_ place
      have here := full lower.page.number earlier
      rw [show lower.page = ⟨lower.page.table, lower.page.number⟩ from rfl, own']
      exact here
    · have same : lower.page = page.id := by
        rw [show lower.page = ⟨lower.page.table, lower.page.number⟩ from rfl, own', number, ← own]
        rfl
      have here := room.lowest lower.slot earlier
      rw [Page.isUsed_eq, Option.isSome_iff_ne_none] at here
      have rows := rowMap_rows e entry own seen lower.slot
      rw [show lower = ⟨lower.page, lower.slot⟩ from rfl, same, rows]
      exact here

theorem Sought.rowMap_eq_or_longer {f : TableFile} (sought : Sought txn table f e e') :
    e'.rowMap table entry = e.rowMap table entry ∨
      ((e.rowMap table entry).free? = none ∧ e'.rowMap table entry = (e.rowMap table entry).longer ∧
        (e.rowMap table entry).rows ⟨⟨table, (e.rowMap table entry).pages⟩, 0⟩ = none) := by
  cases sought with
  | among browsed => exact .inl browsed.rowMap_eq
  | beyond e₀ e₁ full before grown after =>
    have found₀ : e₀.catalog.find? table = some entry := by
      rw [before.swapped.to_sameFiles.catalog]
      exact found
    have file : e.fileOf? table = some f := by
      rw [← before.fileOf?_eq]
      exact grown.file
    have pages : (e.rowMap table entry).pages = f.pages := pagesOf_of_fileOf? found file
    refine .inr ⟨free?_of_full coherent found file full, ?_, ?_⟩
    · rw [after.rowMap_eq, grown.rowMap_longer found₀, before.rowMap_eq]
    · have absent := grown.view?_added_eq_none
      rw [TableFile.pageId, grown.before.table_eq_of_fileOf? grown.file, before.swapped.view?_eq] at absent
      rw [pages]
      show (if table = table then _ else _) = none
      rw [if_pos rfl, absent, Option.bind_none]

theorem insert_refines (row : Row) (types : row.schema.sameTypes entry.schema)
    (fits : Row.Fits row.values row.schema.types) : Ensures (insert txn table row) e fun
    | .ok location, e' => e'.Coherent ∧ SameTables e e' ∧
        (e.rowMap table entry).insert row.values = (location, e'.rowMap table entry)
    | .error fault, e' => e'.Coherent ∧ SameTables e e' ∧ Interrupted txn fault e' := by
  obtain ⟨g, file, -, schema⟩ := coherent.opened found
  refine (insert_ensures coherent txn table row fits).mono ?_
  intro answer e' done
  cases answer with
  | error fault =>
    rcases done with ⟨f, -, -, sought, interrupted⟩ | ⟨-, unknown, -⟩ | ⟨-, f, file', differs, -⟩
    · exact ⟨sought.coherent_after, sought.to_sameTables, interrupted⟩
    · rw [file] at unknown
      exact absurd unknown (by simp)
    · rw [file] at file'
      cases file'
      rw [schema] at differs
      exact absurd types differs
  | ok location =>
    obtain ⟨f, e₁, page, slot, -, -, sought, room, own, full, rfl, changed⟩ := done
    have tables := sought.to_sameTables
    refine ⟨changed.after, tables.trans changed.to_sameFiles.to_sameTables, ?_⟩
    have found₁ : e₁.catalog.find? table = some entry := by
      rw [tables.catalog]
      exact found
    have free := free?_of_room changed.before found₁ own changed.owns.view?_eq_some room
      fun number lower => sought.full_mono (full number lower)
    rw [changed.rowMap_write own, RowMap.insert]
    rcases sought.rowMap_eq_or_longer coherent found with same | ⟨full, longer, blank⟩
    · rw [same] at free ⊢
      rw [free]
    · have slots := length_slots changed.before found₁ own changed.owns.view?_eq_some
      rw [longer] at free slots
      have positive : 0 < (e.rowMap table entry).slots := by
        have inside := room.inside
        rw [slots] at inside
        exact Nat.zero_lt_of_lt inside
      rw [RowMap.free?_longer full positive blank] at free
      rw [full, longer, ← Option.some.inj free]

theorem delete_refines (number slot : Nat) : Ensures (delete txn (some ⟨⟨table, number⟩, slot⟩)) e fun
    | .ok p, e' => e'.Coherent ∧ SameTables e e' ∧ p = ⟨table, number⟩ ∧
        (e.rowMap table entry).delete ⟨⟨table, number⟩, slot⟩ = some (e'.rowMap table entry)
    | .error fault, e' => e'.Coherent ∧ SameTables e e' ∧
        (Interrupted txn fault e' ∨
          (fault = .rowNotFound ⟨⟨table, number⟩, slot⟩ ∧
            (e.rowMap table entry).delete ⟨⟨table, number⟩, slot⟩ = none ∧
            e'.rowMap table entry = e.rowMap table entry)) := by
  refine (delete_ensures coherent txn ⟨⟨table, number⟩, slot⟩).mono ?_
  intro answer e' done
  cases answer with
  | error fault =>
    obtain ⟨browsed, reason⟩ := done
    refine ⟨browsed.coherent_after, browsed.swapped.to_sameFiles.to_sameTables, ?_⟩
    rcases reason with interrupted | ⟨-, unknown⟩ | ⟨fault, -, absent⟩
    · exact .inl interrupted
    · obtain ⟨f, file, -⟩ := coherent.opened found
      rw [file] at unknown
      exact absurd unknown (by simp)
    · refine .inr ⟨fault, ?_, browsed.rowMap_eq⟩
      have rows : (e.rowMap table entry).rows ⟨⟨table, number⟩, slot⟩ = none := by
        show (if table = table then _ else _) = none
        rw [if_pos rfl]
        cases seen : e.view? ⟨table, number⟩ with
        | none => rfl
        | some page => exact absent page seen
      rw [RowMap.delete, rows]
      rfl
  | ok p =>
    obtain ⟨e₁, page, browsed, id, same, used, changed⟩ := done
    refine ⟨changed.after, browsed.swapped.to_sameFiles.to_sameTables.trans changed.to_sameFiles.to_sameTables, same,
      ?_⟩
    have seen := changed.owns.view?_eq_some
    rw [id] at seen
    have rows := rowMap_rows e₁ entry rfl seen slot
    rw [browsed.rowMap_eq] at rows
    rw [changed.rowMap_write (by rw [id]), browsed.rowMap_eq, RowMap.delete, rows, if_pos used, Page.locate, id]

theorem scan_refines (n : Nat) : Ensures ((FileScan.start entry.file table txn).draw n) e fun
    | .ok (.rows rows none), e' => Browsed txn e e' ∧
        rows = (((e.rowMap table entry).entries.map (Row.stored entry.schema)).map some ++ [none]).take n
    | .ok (.rows _ (some fault)), e' => Browsed txn e e' ∧ Interrupted txn fault e'
    | _, _ => False := by
  obtain ⟨f, file, -, schema⟩ := coherent.opened found
  obtain ⟨size, -⟩ := coherent.sized file
  have pages := pagesOf_of_fileOf? found file
  refine FileScan.draw_ensures (FileScan.take_ensures coherent (.start entry.file table txn) n) ?_
    fun _ _ => False.elim
  rintro ⟨rows, fault⟩ left took
  have browsed : Browsed txn e left.2 := took.browsed
  cases fault with
  | none =>
    refine ⟨browsed, ?_⟩
    have content := coherent.rowsFrom_eq (e.rowMap table entry).rows file
      fun number page _ seen slot => (rowMap_rows e entry rfl seen slot).symm
    rw [size, schema, ← pages] at content
    rw [took.whole rfl, FileScan.remaining_start, content]
    rfl
  | some fault =>
    refine ⟨browsed, ?_⟩
    rcases (took.halted fault rfl).1 with interrupted | ⟨number, inside, absent, -⟩
    · exact interrupted
    · rw [browsed.swapped.to_sameFiles.pagesOf_eq] at inside
      change number < e.pagesOf entry.file at inside
      rw [pages] at inside
      obtain ⟨page, seen, -⟩ := coherent.exists_view (p := ⟨table, number⟩) file inside
      rw [browsed.swapped.view?_eq] at absent
      change e.view? ⟨table, number⟩ = none at absent
      rw [seen] at absent
      exact absurd absent (by simp)

/-- The entries of the map are all there is in the table, each once and in order. -/
theorem lists_entries : (e.rowMap table entry).rows.Lists table (e.rowMap table entry).entries := by
  refine Contents.lists_inTable _ _ _ _ ?_
  intro row values own held
  obtain ⟨-, page, seen, held⟩ := (rowMap_rows_eq_some_iff ..).mp held
  obtain ⟨f, file, inside, -⟩ := coherent.of_of_view? seen
  rw [own] at file
  have pages : (e.rowMap table entry).pages = f.pages := pagesOf_of_fileOf? found file
  refine ⟨by rw [pages]; exact inside, ?_⟩
  rw [← length_slots coherent found own seen]
  by_contra past
  rw [page.valuesAt_eq_none_of_length_le row.slot (Nat.not_lt.mp past)] at held
  exact absurd held (by simp)

end

end

end Engine

/-! ### Steps on one table -/

inductive TableOp where
  | insert (schema : Schema) (values : List Value)
  | delete (number slot : Nat)
  | scan (count : Nat)

namespace TableOp

def op (txn : TxnId) (table : TableId) (file : FileNo) : TableOp → Op
  | .insert schema values => .insert txn table schema values
  | .delete number slot => .delete txn (some ⟨⟨table, number⟩, slot⟩)
  | .scan count => .scan (.start file table txn) count

/-- Only rows of the table's schema are put in. -/
def Suits (schema : Schema) : TableOp → Prop
  | .insert own values => own.sameTypes schema ∧ ∃ row, Row.build own values = .ok row
  | _ => True

end TableOp

/-- The step on the map, and what a transaction is answered. -/
def RowMap.step (schema : Schema) (m : RowMap) : TableOp → Except Fault Answer × RowMap
  | .insert _ values => (.ok (.stored (m.insert values).1), (m.insert values).2)
  | .delete number slot =>
    let row : RowId := ⟨⟨m.table, number⟩, slot⟩
    match m.delete row with
    | some m => (.ok (.removed row.page), m)
    | none => (.error (.rowNotFound row), m)
  | .scan count =>
    (.ok (.rows (((m.entries.map (Row.stored schema)).map some ++ [none]).take count) none), m)

def RowMap.run (schema : Schema) (m : RowMap) : List TableOp → List (Except Fault Answer) × RowMap
  | [] => ([], m)
  | step :: rest =>
    let (answer, m) := m.step schema step
    let (answers, m) := m.run schema rest
    (answer :: answers, m)

/-- A map refuses nothing but to remove a row that is not there. -/
theorem RowMap.step_fault (schema : Schema) (m : RowMap) (step : TableOp) {fault : Fault}
    (stopped : Answer.fault? (m.step schema step).1 = some fault) : ∃ row, fault = .rowNotFound row := by
  cases step with
  | insert own values => exact absurd stopped (by simp [RowMap.step, Answer.fault?])
  | scan count => exact absurd stopped (by simp [RowMap.step, Answer.fault?])
  | delete number slot =>
    simp only [RowMap.step] at stopped
    split at stopped
    · exact absurd stopped (by simp [Answer.fault?])
    · exact ⟨_, (Option.some.inj stopped).symm⟩

/-- Takes the steps one after the other, whatever each comes to. -/
def Engine.perform (e : Engine) : List Op → List (Except Fault Answer) × Engine
  | [] => ([], e)
  | op :: rest =>
    let (answer, e) := outcome op.act e
    let (answers, e) := e.perform rest
    (answer :: answers, e)

namespace Engine

variable {e : Engine} {txn : TxnId} {table : TableId} {entry : TableEntry}

/-- What the map answers to a step the engine answers too, unless the step is interrupted. -/
theorem step_refines (txn : TxnId) (coherent : e.Coherent) (found : e.catalog.find? table = some entry)
    (step : TableOp) (suits : step.Suits entry.schema) :
    Ensures (step.op txn table entry.file).act e fun answer e' => e'.Coherent ∧ SameTables e e' ∧
      ((∃ fault, Answer.fault? answer = some fault ∧ Interrupted txn fault e') ∨
        (e.rowMap table entry).step entry.schema step = (answer, e'.rowMap table entry)) := by
  cases step with
  | insert schema values =>
    obtain ⟨types, row, built⟩ := suits
    refine Op.insert_ensures (fun fault refused => absurd (built.symm.trans refused) (by simp))
      (insert_refines coherent found ⟨schema, values, none⟩ types) ?_ ?_
    · intro location e' done
      obtain ⟨coherent', tables, inserted⟩ := done
      refine ⟨coherent', tables, .inr ?_⟩
      rw [RowMap.step, inserted]
    · intro fault e' failed
      obtain ⟨coherent', tables, interrupted⟩ := failed
      exact ⟨coherent', tables, .inl ⟨fault, rfl, interrupted⟩⟩
  | delete number slot =>
    have own : (e.rowMap table entry).table = table := rfl
    refine (delete_refines coherent found number slot).bind ?_ ?_
    · intro p e' done
      obtain ⟨coherent', tables, rfl, deleted⟩ := done
      refine .pure ⟨coherent', tables, .inr ?_⟩
      simp only [RowMap.step, own, deleted]
    · intro fault e' failed
      obtain ⟨coherent', tables, interrupted | ⟨rfl, absent, same⟩⟩ := failed
      · exact ⟨coherent', tables, .inl ⟨fault, rfl, interrupted⟩⟩
      · refine ⟨coherent', tables, .inr ?_⟩
        simp only [RowMap.step, same, own, absent]
  | scan count =>
    refine (scan_refines coherent found count).mono ?_
    rintro (fault | answer) e' done
    · exact done.elim
    · cases answer with
      | rows rows fault =>
        cases fault with
        | none =>
          obtain ⟨browsed, rfl⟩ := done
          refine ⟨browsed.coherent_after, browsed.swapped.to_sameFiles.to_sameTables, .inr ?_⟩
          rw [RowMap.step, browsed.rowMap_eq]
        | some fault =>
          obtain ⟨browsed, interrupted⟩ := done
          exact ⟨browsed.coherent_after, browsed.swapped.to_sameFiles.to_sameTables, .inl ⟨fault, rfl, interrupted⟩⟩
      | _ => exact done.elim

/-- Steps that nothing interrupts do to the table what they do to its map. -/
theorem perform_refines (coherent : e.Coherent) (found : e.catalog.find? table = some entry)
    (steps : List TableOp) (suit : ∀ step ∈ steps, step.Suits entry.schema)
    (undisturbed : ∀ answer ∈ (e.perform (steps.map (·.op txn table entry.file))).1,
      Answer.fault? answer ≠ some (.aborted txn) ∧ Answer.fault? answer ≠ some .poolFull) :
    (e.rowMap table entry).run entry.schema steps =
      ((e.perform (steps.map (·.op txn table entry.file))).1,
        (e.perform (steps.map (·.op txn table entry.file))).2.rowMap table entry) := by
  induction steps generalizing e with
  | nil => rfl
  | cons step rest ih =>
    let op := step.op txn table entry.file
    have refined := (step_refines txn coherent found step (suit step List.mem_cons_self)).outcome
    obtain ⟨coherent', tables, came⟩ := refined
    have found' : (outcome op.act e).2.catalog.find? table = some entry := by
      rw [tables.catalog]
      exact found
    have later := ih coherent' found' (fun other among => suit other (List.mem_cons_of_mem _ among))
      fun answer among => undisturbed answer (List.mem_cons_of_mem _ among)
    rcases came with ⟨fault, stopped, aborted | ⟨full, -⟩⟩ | same
    · rw [aborted] at stopped
      exact absurd stopped (undisturbed (outcome op.act e).1 List.mem_cons_self).1
    · rw [full] at stopped
      exact absurd stopped (undisturbed (outcome op.act e).1 List.mem_cons_self).2
    · rw [RowMap.run, same]
      change (_ :: (RowMap.run _ _ rest).1, (RowMap.run _ _ rest).2) = _
      rw [later]
      rfl

end Engine

/-- Whatever has been done before, a table is an ordered map, and a transaction that nobody stands in
the way of while it puts rows in, removes rows and scans is answered as by the map: a row goes to the
least free place, on a new page only when there is none; exactly a row that is there can be removed;
and a scan gives the rows in order. And memory is only full when every page in it is in use. -/
theorem Database.table_refines_map (d : Database) (ops : List Op) (txn : TxnId) (table : TableId)
    (entry : TableEntry) (found : (d.after ops).engine.catalog.find? table = some entry) :
    ((d.after ops).engine.rowMap table entry).rows.Lists table
      ((d.after ops).engine.rowMap table entry).entries ∧
    (∀ steps : List TableOp, (∀ step ∈ steps, step.Suits entry.schema) →
      (∀ answer ∈ ((d.after ops).engine.perform (steps.map (·.op txn table entry.file))).1,
        Answer.fault? answer ≠ some (.aborted txn) ∧ Answer.fault? answer ≠ some .poolFull) →
      ((d.after ops).engine.rowMap table entry).run entry.schema steps =
        (((d.after ops).engine.perform (steps.map (·.op txn table entry.file))).1,
          ((d.after ops).engine.perform (steps.map (·.op txn table entry.file))).2.rowMap table entry)) ∧
    ∀ step : TableOp, step.Suits entry.schema →
      Answer.fault? (outcome (step.op txn table entry.file).act (d.after ops).engine).1 = some .poolFull →
      (outcome (step.op txn table entry.file).act (d.after ops).engine).2.Stuck := by
  obtain ⟨faithful, -⟩ := d.faithful_after ops
  have coherent := faithful.coherent
  refine ⟨lists_entries coherent found, fun steps => perform_refines coherent found steps, ?_⟩
  intro step suits full
  obtain ⟨-, -, came⟩ := (step_refines txn coherent found step suits).outcome
  rcases came with ⟨fault, stopped, aborted | ⟨-, stuck⟩⟩ | same
  · rw [full, aborted] at stopped
    exact absurd stopped (by simp)
  · exact stuck
  · obtain ⟨row, refused⟩ := RowMap.step_fault entry.schema _ step (by rw [same]; exact full)
    exact absurd refused (by simp)

/-- A row goes where one was removed, and to a new page when the first one is full. -/
theorem Database.numbers_refine_map :
    (((numbers.after halfway).engine.rowMap ⟨1⟩ ⟨0, ⟨[⟨some "n", .int⟩]⟩, "t"⟩).run ⟨[⟨some "n", .int⟩]⟩
      [.insert ⟨[⟨none, .int⟩]⟩ [.int 9], .delete 0 0, .insert ⟨[⟨none, .int⟩]⟩ [.int 5],
        .insert ⟨[⟨none, .int⟩]⟩ [.int 6], .delete 3 0]).1 =
      [.ok (.stored ⟨⟨⟨1⟩, 0⟩, 2⟩), .ok (.removed ⟨⟨1⟩, 0⟩), .ok (.stored ⟨⟨⟨1⟩, 0⟩, 0⟩),
        .ok (.stored ⟨⟨⟨1⟩, 1⟩, 0⟩), .error (.rowNotFound ⟨⟨⟨1⟩, 3⟩, 0⟩)] := by
  let steps : List TableOp := [.insert ⟨[⟨none, .int⟩]⟩ [.int 9], .delete 0 0,
    .insert ⟨[⟨none, .int⟩]⟩ [.int 5], .insert ⟨[⟨none, .int⟩]⟩ [.int 6], .delete 3 0]
  have performed : ((numbers.after halfway).engine.perform (steps.map (·.op ⟨2⟩ ⟨1⟩ 0))).1 =
      [.ok (.stored ⟨⟨⟨1⟩, 0⟩, 2⟩), .ok (.removed ⟨⟨1⟩, 0⟩), .ok (.stored ⟨⟨⟨1⟩, 0⟩, 0⟩),
        .ok (.stored ⟨⟨⟨1⟩, 1⟩, 0⟩), .error (.rowNotFound ⟨⟨⟨1⟩, 3⟩, 0⟩)] := by cbv
  obtain ⟨-, runs, -⟩ := table_refines_map numbers halfway ⟨2⟩ ⟨1⟩ ⟨0, ⟨[⟨some "n", .int⟩]⟩, "t"⟩ (by cbv)
  have suit : ∀ step ∈ steps, step.Suits ⟨[⟨some "n", .int⟩]⟩ := by
    simp only [steps, List.forall_mem_cons, TableOp.Suits]
    exact ⟨⟨rfl, _, rfl⟩, trivial, ⟨rfl, _, rfl⟩, ⟨rfl, _, rfl⟩, trivial, by simp⟩
  have refined := runs steps suit (by
    rw [performed]
    simp [Answer.fault?])
  rw [refined]
  dsimp only
  exact performed

end RowStore
