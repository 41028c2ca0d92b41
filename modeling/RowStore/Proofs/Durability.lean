import Mathlib
import RowStore.Proofs.Chronicle
import RowStore.Proofs.Engine.Lone
/-!
# What the files hold

Whatever steps have been taken, a page in its file is what it was in memory when the last transaction
that had changed it committed. So when everything in memory is dropped, between any two steps, and the
files are opened again, the tables have the rows that were committed and no others.
-/

namespace RowStore

open Engine

section

variable (d : Database) (ops : List Op)

namespace Database

theorem file_of_has {t : TableSpec} {table : TableId} (has : d.engine.Has d.settings d.volume t table) :
    ∃ f, (d.after ops).engine.fileOf? table = some f ∧ t.fileName? = some f.name ∧ f.schema = t.schema ∧
      f.pageSize = d.settings.pageSize ∧ 0 < Page.capacity d.settings.pageSize t.schema ∧
      (d.after ops).engine.volume.number? f.name = some table := by
  obtain ⟨fileName, located, room, before⟩ := has
  obtain ⟨-, tables⟩ := d.faithful_after ops
  have files := tables.files table
  rw [before, Option.map_some] at files
  obtain ⟨f, here, same⟩ := Option.map_eq_some_iff.mp files
  have name : f.bare.name = fileName := by rw [same]; rfl
  have schema : f.bare.schema = t.schema := by rw [same]; rfl
  have pageSize : f.bare.pageSize = d.settings.pageSize := by rw [same]; rfl
  refine ⟨f, here, ?_, schema, pageSize, room, ?_⟩
  · rw [located]
    exact congrArg some name.symm
  · have number := d.opened_engine.registered.numbered before
    rw [Volume.number?, ← tables.tables] at number
    rw [Volume.number?, show f.name = fileName from name]
    exact number

end Database

end

/-- What a table's file holds can be read again, under whatever number the table then has. -/
theorem Engine.Coherent.readable_ofContents {e : Engine} (coherent : e.Coherent) {table : TableId} {f : TableFile}
    (file : e.fileOf? table = some f) (other : TableId) :
    (TableFile.ofContents other f.name f.schema f.pageSize (e.contentsOf f)).pages = f.pages ∧
      (TableFile.ofContents other f.name f.schema f.pageSize (e.contentsOf f)).Readable (e.contentsOf f) := by
  obtain ⟨-, room, length⟩ := coherent.sized file
  have positive : 0 < f.pageSize := by
    rcases Nat.eq_zero_or_pos f.pageSize with zero | positive
    · rw [zero, Page.capacity, Nat.zero_mul, Nat.zero_div] at room
      exact absurd room (Nat.lt_irrefl 0)
    · exact positive
  have pages : (TableFile.ofContents other f.name f.schema f.pageSize (e.contentsOf f)).pages = f.pages := by
    rw [TableFile.ofContents, length]
    exact Nat.mul_div_cancel _ positive
  refine ⟨pages, ?_, ?_⟩
  · rw [pages]
    exact length
  · intro number inside
    rw [pages] at inside
    obtain ⟨page, stored, of⟩ := coherent.stored (p := ⟨table, number⟩) file inside
    rw [stored?_eq file, bytes?, file, Option.bind_some, if_pos inside, Option.bind_some] at stored
    refine ⟨{ page with id := ⟨other, number⟩ }, ?_, rfl, of.schema, of.size, ?_⟩
    · have read := Page.decode?_id ⟨table, number⟩ ⟨other, number⟩ f.schema
        ((e.contentsOf f).region (f.offset number) f.pageSize)
      rw [stored] at read
      exact read
    · exact ⟨of.sound.slots, of.sound.spare, of.sound.fits⟩

/-- A table as it is found when its file, as another engine has left it, is opened again. -/
structure Engine.Reopened (old : Engine) (table : TableId) (f g : TableFile) (new : Engine) : Prop where
  here : old.fileOf? table = some f
  there : new.fileOf? table = some g
  pages : g.pages = f.pages
  schema : g.schema = f.schema
  pageSize : g.pageSize = f.pageSize
  contents : new.contentsOf g = old.contentsOf f

theorem Engine.Reopened.stored?_after {old new : Engine} {table : TableId} {f g : TableFile}
    (reopened : Reopened old table f g new) (number : Nat) :
    new.stored? ⟨table, number⟩ = old.stored? ⟨table, number⟩ := by
  rw [stored?_eq reopened.there, stored?_eq reopened.here, bytes?, reopened.there, bytes?, reopened.here,
    Option.bind_some, Option.bind_some, reopened.pages, reopened.schema, reopened.contents,
    TableFile.offset, reopened.pageSize]
  rfl

namespace Database

variable (d : Database) (ops : List Op) {settings : Settings}
  (pageSize : settings.pageSize = d.settings.pageSize)

include pageSize

theorem openTables_again : ∃ e, openTables d.tables (.start settings (d.after ops).engine.volume) = .ok d.ids e ∧
    Opened d.tables d.ids (.start settings (d.after ops).engine.volume) e := by
  let old := (d.after ops).engine
  have coherent : old.Coherent := (d.faithful_after ops).1.coherent
  have fits : ∀ t ∈ d.tables, ∃ fileName, Fits (.start settings old.volume) t fileName := by
    intro t among
    obtain ⟨i, inside, rfl⟩ := List.getElem_of_mem among
    have has := d.opened_engine.each.get inside (by rw [← d.opened_engine.each.length_eq]; exact inside)
    obtain ⟨f, file, located, schema, size, room, -⟩ := d.file_of_has ops has
    refine ⟨f.name, located, ?_, ?_, ?_, ?_⟩
    · show 0 < Page.capacity settings.pageSize _
      rw [pageSize]
      exact room
    · intro table g here
      exact absurd here (by simp [fileOf?, start, Catalog.find?, Catalog.empty])
    · intro table entry found
      exact absurd found (by simp [start, Catalog.find?, Catalog.empty])
    · intro table
      have readable := (coherent.readable_ofContents file table).2
      rw [schema, size, ← pageSize] at readable
      exact readable
  have registered := registered_start settings old.volume
  have ensured := openTables_ensures registered d.tables d.fresh.apart fits
  cases done : openTables d.tables (.start settings old.volume) with
  | error fault e => exact (ensured.of_error done).elim
  | ok ids e =>
    have opened := ensured.of_ok done
    have same : ids = d.ids := by
      apply List.ext_getElem
      · rw [← opened.each.length_eq, d.opened_engine.each.length_eq]
      · intro i inside within
        have listed : i < d.tables.length := by
          rw [d.opened_engine.each.length_eq]
          exact within
        obtain ⟨f, -, located, -, -, -, number⟩ := d.file_of_has ops (d.opened_engine.each.get listed within)
        obtain ⟨fileName, located', -, here⟩ := opened.each.get listed inside
        simp only [List.get_eq_getElem] at located located' here number
        rw [located] at located'
        cases located'
        have again := opened.registered.numbered here
        have before := opened.numbers number
        exact Option.some.inj (again.symm.trans before)
    subst same
    exact ⟨e, rfl, opened⟩

omit pageSize in
theorem committed_within {table : TableId} {f : TableFile}
    (file : (d.after ops).engine.fileOf? table = some f) (row : RowId) (values : List Value)
    (own : row.page.table = table) (held : (d.after ops).ledger.committed row = some values) :
    row.page.number < f.pages ∧ row.slot < Page.capacity f.pageSize f.schema := by
  obtain ⟨faithful, -⟩ := d.faithful_after ops
  subst own
  obtain ⟨g, here, inside⟩ := faithful.placed held
  rw [file] at here
  cases here
  refine ⟨inside, ?_⟩
  obtain ⟨page, stored, of⟩ := faithful.coherent.stored file inside
  have content := faithful.stored stored row.slot
  rw [← of.schema, ← of.size, ← of.sound.slots]
  by_contra past
  rw [page.valuesAt_eq_none_of_length_le row.slot (Nat.not_lt.mp past), held] at content
  exact absurd content (by simp)

theorem reopened_of_mem {e : Engine}
    (opened : Opened d.tables d.ids (.start settings (d.after ops).engine.volume) e) {table : TableId}
    (among : table ∈ d.ids) : ∃ f g, Reopened (d.after ops).engine table f g e := by
  obtain ⟨faithful, -⟩ := d.faithful_after ops
  obtain ⟨i, inside, rfl⟩ := List.getElem_of_mem among
  have listed : i < d.tables.length := by
    rw [d.opened_engine.each.length_eq]
    exact inside
  obtain ⟨f, here, located, schema, size, -, -⟩ := d.file_of_has ops (d.opened_engine.each.get listed inside)
  obtain ⟨fileName, located', -, there⟩ := opened.each.get listed inside
  rw [located] at located'
  cases located'
  simp only [List.get_eq_getElem] at here there schema
  have pages := (faithful.coherent.readable_ofContents here d.ids[i]).1
  rw [schema, size, ← pageSize] at pages
  exact ⟨f, _, here, there, pages, schema.symm, pageSize.trans size.symm, opened.contents f.name⟩

omit pageSize in
/-- A table that has been opened again has the rows that were committed, and a scan gives them. -/
theorem reads_committed {e : Engine} (registered : Registered e) {table : TableId} {f g : TableFile}
    (reopened : Reopened (d.after ops).engine table f g e) :
    ∃ entry rows, e.catalog.find? table = some entry ∧ entry.schema = f.schema ∧
      (d.after ops).ledger.committed.Lists table rows ∧
      ∀ txn n, Ensures (FileScan.take n) (.start entry.file table txn, e) fun
        | .ok (answer, none), _ =>
            answer = ((rows.map (Row.stored f.schema)).map some ++ [none]).take n
        | .ok (answer, some fault), _ => fault = .poolFull ∧ e.settings.poolPages < f.pages ∧
            ∃ given rest, answer = given.map some ∧ rows.map (Row.stored f.schema) = given ++ rest
        | .error _, _ => False := by
  obtain ⟨faithful, -⟩ := d.faithful_after ops
  have coherent := registered.coherent
  obtain ⟨entry, -, found, -, -⟩ := (e.fileOf?_eq_some_iff _ _).mp reopened.there
  obtain ⟨g', file, -, schema⟩ := coherent.opened found
  rw [reopened.there] at file
  cases file
  have content : ∀ number page, number < g.pages → e.view? ⟨table, number⟩ = some page →
      ∀ slot, page.valuesAt slot = (d.after ops).ledger.committed ⟨⟨table, number⟩, slot⟩ := by
    intro number page _ seen
    have absent : e.resident.get? ⟨table, number⟩ = none := by
      rw [registered.empty]
      rfl
    rw [view?_of_absent absent, reopened.stored?_after] at seen
    exact faithful.stored seen
  have rows := coherent.rowsFrom_eq (d.after ops).ledger.committed reopened.there content
  rw [reopened.pages, reopened.pageSize, reopened.schema] at rows
  refine ⟨entry, _, found, ?_, Contents.lists_inTable _ _ _ _ (d.committed_within ops reopened.here), ?_⟩
  · exact schema.symm.trans reopened.schema
  intro txn n
  have alone : Alone txn table entry g e.settings e := by
    refine ⟨coherent, found, reopened.there, rfl, ?_, ?_⟩
    · intro other p mode held
      rw [registered.unlocked] at held
      exact absurd held (by simp [LockTable.mode?, LockTable.empty])
    · intro p page copy
      rw [registered.empty] at copy
      exact absurd copy (by simp)
  refine (alone.take_ensures n).mono ?_
  rw [reopened.pages, rows]
  intro answer _ took
  rcases answer with fault | ⟨answer, _ | fault⟩
  · exact took
  · exact took
  · exact took

end Database

/-- Between any two steps the files hold every page as it was in memory when the last transaction that
had changed it committed, or nothing but zeros if none ever has. And when then everything but the
files is dropped and the tables are opened again, every one has its number and its pages, and the rows
that were committed, in order; a scan of it gives these, unless the table has more pages than there
may be in memory. -/
theorem Database.files_hold_committed (d : Database) (ops : List Op) :
    (∀ table f, (d.after ops).engine.fileOf? table = some f →
      ((d.after ops).engine.contentsOf f).length = f.pages * f.pageSize ∧
        ∀ number < f.pages, ((d.after ops).engine.contentsOf f).region (f.offset number) f.pageSize =
          ((d.after ops).saved ⟨table, number⟩).getD (Bytes.zeros f.pageSize)) ∧
    ∀ settings : Settings, settings.pageSize = d.settings.pageSize →
      ∃ e, openTables d.tables (.start settings (d.after ops).engine.volume) = .ok d.ids e ∧
        ∀ table ∈ d.ids, ∃ f g entry rows, Reopened (d.after ops).engine table f g e ∧
          e.catalog.find? table = some entry ∧ entry.schema = f.schema ∧
          (d.after ops).ledger.committed.Lists table rows ∧
          ∀ txn n, Ensures (FileScan.take n) (.start entry.file table txn, e) fun
            | .ok (answer, none), _ =>
                answer = ((rows.map (Row.stored f.schema)).map some ++ [none]).take n
            | .ok (answer, some fault), _ => fault = .poolFull ∧ settings.poolPages < f.pages ∧
                ∃ given rest, answer = given.map some ∧ rows.map (Row.stored f.schema) = given ++ rest
            | .error _, _ => False := by
  constructor
  · intro table f file
    obtain ⟨faithful, -⟩ := d.faithful_after ops
    obtain ⟨size, -, length⟩ := faithful.coherent.sized file
    refine ⟨length, ?_⟩
    intro number inside
    rw [size]
    apply faithful.bytes
    rw [bytes?, file, Option.bind_some, if_pos inside, size]
  · intro settings pageSize
    obtain ⟨e, done, opened⟩ := d.openTables_again ops pageSize
    refine ⟨e, done, ?_⟩
    intro table among
    obtain ⟨f, g, reopened⟩ := d.reopened_of_mem ops pageSize opened among
    obtain ⟨entry, rows, found, schema, lists, takes⟩ := d.reads_committed ops opened.registered reopened
    rw [opened.settings] at takes
    exact ⟨f, g, entry, rows, reopened, found, schema, lists, takes⟩

/-- Only the number that has been committed is there, and the table can be opened again with less
memory than before. -/
theorem Database.numbers_hold_committed :
    (numbers.after halfway).ledger.committed ⟨⟨⟨1⟩, 0⟩, 0⟩ = some [.int 7] ∧
      (numbers.after halfway).ledger.committed ⟨⟨⟨1⟩, 0⟩, 1⟩ = none ∧
      ∃ e, openTables numbers.tables (.start { pageSize := 16, poolPages := 1 }
          (numbers.after halfway).engine.volume) = .ok [⟨1⟩] e ∧
        ∃ f g, Reopened (numbers.after halfway).engine ⟨1⟩ f g e := by
  obtain ⟨e, done, each⟩ :=
    (files_hold_committed numbers halfway).2 { pageSize := 16, poolPages := 1 } rfl
  obtain ⟨f, g, _, _, reopened, -⟩ := each ⟨1⟩ List.mem_cons_self
  refine ⟨?_, ?_, e, done, f, g, reopened⟩
  · cbv
  · cbv

end RowStore
