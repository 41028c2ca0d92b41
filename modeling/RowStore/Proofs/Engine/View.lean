import RowStore.Engine.Rows
import RowStore.Proofs.Actions
import RowStore.Proofs.Locks
import RowStore.Proofs.Pages
/-!
# What a reader finds

A page is in memory or only in its file. What a reader finds is the copy in memory if there is one,
and the engine is coherent when a copy without changes is what the file has, so that it makes no
difference to a reader which of them are in memory. The surface of an engine is all that does not
depend on it.
-/

namespace RowStore

/-- The page is one of a table file, under that number. -/
structure Page.Of (page : Page) (f : TableFile) (number : Nat) : Prop where
  id : page.id = f.pageId number
  schema : page.schema = f.schema
  size : page.size = f.pageSize
  sound : page.Sound

/-- The file, had nothing been read from it. -/
def TableFile.unread (f : TableFile) : TableFile := { f with reads := 0 }

namespace TableFile

variable {f f' : TableFile} {contents : Bytes}

theorem checkBounds_eq_ok_iff (f : TableFile) (p : PageId) :
    f.checkBounds p = .ok () ↔ p.table = f.table ∧ p.number < f.pages := by
  by_cases own : p.table = f.table
  · by_cases inside : p.number < f.pages
    · simp [checkBounds, own, inside, Nat.not_le.mpr inside]
    · simp [checkBounds, own, inside, Nat.not_lt.mp inside]
  · simp [checkBounds, own]

theorem checkBounds_bind_eq_ok_iff {α : Type} {p : PageId} {next : Except Fault α} {a : α} :
    (f.checkBounds p >>= fun _ => next) = .ok a ↔ p.table = f.table ∧ p.number < f.pages ∧ next = .ok a := by
  have bounds := f.checkBounds_eq_ok_iff p
  cases checked : f.checkBounds p with
  | error fault =>
    simp only [checked, reduceCtorEq, false_iff] at bounds
    simp only [bind, Except.bind, reduceCtorEq, false_iff]
    exact fun ⟨table, inside, _⟩ => bounds ⟨table, inside⟩
  | ok _ =>
    obtain ⟨table, inside⟩ := bounds.mp checked
    simp only [bind, Except.bind, table, inside, true_and]

theorem length_page {number : Nat} (inside : number < f.pages) (whole : f.pages * f.pageSize ≤ contents.length) :
    (contents.region (f.offset number) f.pageSize).length = f.pageSize := by
  have next : (number + 1) * f.pageSize ≤ f.pages * f.pageSize := Nat.mul_le_mul_right _ inside
  rw [Nat.succ_mul] at next
  rw [Bytes.length_region, offset]
  omega

/-- What is read are the bytes of the page, and the file counts that. -/
theorem read_eq_ok_iff {p : PageId} {page : Page} : f.read contents p = .ok (page, f') ↔
    p.table = f.table ∧ p.number < f.pages ∧
      (contents.region (f.offset p.number) f.pageSize).length = f.pageSize ∧
      Page.decode? p f.schema (contents.region (f.offset p.number) f.pageSize) = some page ∧
      f' = { f with reads := f.reads + 1 } := by
  have length := Bytes.length_region contents (f.offset p.number) f.pageSize
  rw [read, checkBounds_bind_eq_ok_iff]
  refine and_congr_right fun _ => and_congr_right fun _ => ?_
  dsimp only
  split
  · simp only [reduceCtorEq, false_iff]
    omega
  · have whole : (contents.region (f.offset p.number) f.pageSize).length = f.pageSize := by omega
    cases Page.decode? p f.schema (contents.region (f.offset p.number) f.pageSize) with
    | none => simp
    | some loaded => simp [whole, Pure.pure, Except.pure, eq_comm]

theorem write_eq_ok_iff {page : Page} {written : Bytes} : f.write contents page = .ok (written, f') ↔
    page.id.table = f.table ∧ page.id.number < f.pages ∧
      written = contents.overwrite (f.offset page.id.number) page.encode ∧
      f' = { f with writes := f.writes + 1 } := by
  rw [write, checkBounds_bind_eq_ok_iff]
  simp only [Pure.pure, Except.pure, Except.ok.injEq, Prod.mk.injEq, eq_comm]

theorem write_eq {page : Page} (own : page.id.table = f.table) (inside : page.id.number < f.pages) :
    f.write contents page =
      .ok (contents.overwrite (f.offset page.id.number) page.encode, { f with writes := f.writes + 1 }) :=
  write_eq_ok_iff.mpr ⟨own, inside, rfl, rfl⟩

end TableFile

structure Surface where
  pageSize : Nat
  volume : Volume
  catalog : Catalog
  files : List TableFile
  locks : LockTable
  view : PageId → Option Page

def Surface.set (s : Surface) (p : PageId) (found : Option Page) : Surface :=
  { s with view := fun other => if other = p then found else s.view other }

namespace Engine

/-- The open file of a registered table, had nothing been read from it. -/
def fileOf? (e : Engine) (table : TableId) : Option TableFile :=
  (e.catalog.find? table).bind fun entry => (e.files.map TableFile.unread)[entry.file]?

def bytes? (e : Engine) (p : PageId) : Option Bytes :=
  (e.fileOf? p.table).bind fun f =>
    if p.number < f.pages then some ((e.contentsOf f).region (f.offset p.number) f.pageSize) else none

def stored? (e : Engine) (p : PageId) : Option Page :=
  (e.fileOf? p.table).bind fun f => (e.bytes? p).bind (Page.decode? p f.schema)

/-- The page as a reader finds it. -/
def view? (e : Engine) (p : PageId) : Option Page := (e.resident.get? p).or (e.stored? p)

def surface (e : Engine) : Surface where
  pageSize := e.settings.pageSize
  volume := e.volume
  catalog := e.catalog
  files := e.files.map TableFile.unread
  locks := e.locks
  view := e.view?

structure Coherent (e : Engine) : Prop where
  opened : ∀ {table entry}, e.catalog.find? table = some entry →
    ∃ f, e.fileOf? table = some f ∧ f.table = table ∧ f.schema = entry.schema
  sized : ∀ {table f}, e.fileOf? table = some f → f.pageSize = e.settings.pageSize ∧
    0 < Page.capacity f.pageSize f.schema ∧ (e.contentsOf f).length = f.pages * f.pageSize
  apart : ∀ {table other f g}, e.fileOf? table = some f → e.fileOf? other = some g →
    f.name = g.name → table = other
  stored : ∀ {p f}, e.fileOf? p.table = some f → p.number < f.pages →
    ∃ page, e.stored? p = some page ∧ page.Of f p.number
  resident : ∀ {p page}, e.resident.get? p = some page →
    ∃ f, e.fileOf? p.table = some f ∧ p.number < f.pages ∧ page.Of f p.number ∧
      (page.dirtier = none → e.stored? p = some page)

/-! ### Files -/

theorem fileOf?_eq_some_iff (e : Engine) (table : TableId) (f : TableFile) :
    e.fileOf? table = some f ↔
      ∃ entry g, e.catalog.find? table = some entry ∧ e.files[entry.file]? = some g ∧ g.unread = f := by
  simp only [fileOf?, Option.bind_eq_some_iff, List.getElem?_map, Option.map_eq_some_iff,
    exists_and_left]

theorem pagesOf_of_fileOf? {e : Engine} {table : TableId} {entry : TableEntry} {f : TableFile}
    (found : e.catalog.find? table = some entry) (file : e.fileOf? table = some f) :
    e.pagesOf entry.file = f.pages := by
  obtain ⟨entry', g, same, opened, rfl⟩ := (e.fileOf?_eq_some_iff table f).mp file
  rw [found] at same
  cases same
  rw [pagesOf, opened]
  rfl

theorem bytes?_eq {e : Engine} {p : PageId} {g : TableFile} (file : e.fileOf? p.table = some g.unread) :
    e.bytes? p =
      if p.number < g.pages then some ((e.contentsOf g).region (g.offset p.number) g.pageSize)
      else none := by
  rw [bytes?, file]
  rfl

theorem stored?_eq {e : Engine} {p : PageId} {f : TableFile} (file : e.fileOf? p.table = some f) :
    e.stored? p = (e.bytes? p).bind (Page.decode? p f.schema) := by
  rw [stored?, file, Option.bind_some]

theorem bytes?_inside (e : Engine) (p : PageId) (bytes : Bytes) (found : e.bytes? p = some bytes) :
    ∃ f, e.fileOf? p.table = some f ∧ p.number < f.pages := by
  rw [bytes?, Option.bind_eq_some_iff] at found
  obtain ⟨f, file, found⟩ := found
  split at found
  · exact ⟨f, file, ‹_›⟩
  · exact absurd found (by simp)

theorem stored?_eq_some_iff (e : Engine) (p : PageId) (page : Page) :
    e.stored? p = some page ↔
      ∃ f bytes, e.fileOf? p.table = some f ∧ e.bytes? p = some bytes ∧
        Page.decode? p f.schema bytes = some page := by
  simp only [stored?, Option.bind_eq_some_iff, exists_and_left]

theorem stored?_dirtier (e : Engine) (p : PageId) (page : Page) (stored : e.stored? p = some page) :
    page.dirtier = none := by
  obtain ⟨f, bytes, -, -, decoded⟩ := (e.stored?_eq_some_iff p page).mp stored
  exact (Page.frame_of_decode? decoded).2

theorem stored?_inside (e : Engine) (p : PageId) (page : Page) (stored : e.stored? p = some page) :
    ∃ f, e.fileOf? p.table = some f ∧ p.number < f.pages := by
  obtain ⟨f, bytes, -, found, -⟩ := (e.stored?_eq_some_iff p page).mp stored
  exact e.bytes?_inside p bytes found

/-! ### Views -/

theorem view?_of_resident {e : Engine} {p : PageId} {page : Page}
    (resident : e.resident.get? p = some page) : e.view? p = some page := by
  rw [view?, resident, Option.some_or]

theorem view?_of_absent {e : Engine} {p : PageId} (absent : e.resident.get? p = none) :
    e.view? p = e.stored? p := by
  rw [view?, absent, Option.none_or]

theorem resident_of_dirty {e : Engine} {p : PageId} {page : Page} (seen : e.view? p = some page)
    (dirty : page.dirtier ≠ none) : e.resident.get? p = some page := by
  cases resident : e.resident.get? p with
  | some copy =>
    rw [view?_of_resident resident] at seen
    exact seen
  | none =>
    rw [view?_of_absent resident] at seen
    exact absurd (stored?_dirtier e p page seen) dirty

theorem view?_eq_none_iff (e : Engine) (p : PageId) :
    e.view? p = none ↔ e.resident.get? p = none ∧ e.stored? p = none := by
  rw [view?, Option.or_eq_none_iff]

namespace Coherent

variable {e : Engine} (coherent : e.Coherent)

include coherent

theorem table_eq_of_fileOf? {table : TableId} {f : TableFile} (file : e.fileOf? table = some f) : f.table = table := by
  obtain ⟨entry, _, found, -⟩ := (e.fileOf?_eq_some_iff table f).mp file
  obtain ⟨g, same, table, -⟩ := coherent.opened found
  rw [file] at same
  cases same
  exact table

theorem table_of_unread {table : TableId} {g : TableFile} (file : e.fileOf? table = some g.unread) :
    g.table = table := by
  have table := coherent.table_eq_of_fileOf? file
  exact table

theorem length_contentsOf {table : TableId} {g : TableFile} (file : e.fileOf? table = some g.unread) :
    (e.contentsOf g).length = g.pages * g.pageSize := by
  obtain ⟨-, -, length⟩ := coherent.sized file
  exact length

theorem of_of_view? {p : PageId} {page : Page} (seen : e.view? p = some page) :
    ∃ f, e.fileOf? p.table = some f ∧ p.number < f.pages ∧ page.Of f p.number := by
  cases resident : e.resident.get? p with
  | some copy =>
    rw [view?_of_resident resident] at seen
    cases seen
    obtain ⟨f, file, inside, of, -⟩ := coherent.resident resident
    exact ⟨f, file, inside, of⟩
  | none =>
    rw [view?_of_absent resident] at seen
    obtain ⟨f, file, inside⟩ := stored?_inside e p page seen
    obtain ⟨found, same, of⟩ := coherent.stored file inside
    rw [seen] at same
    cases same
    exact ⟨f, file, inside, of⟩

theorem exists_view {p : PageId} {f : TableFile} (file : e.fileOf? p.table = some f)
    (inside : p.number < f.pages) : ∃ page, e.view? p = some page ∧ page.Of f p.number := by
  cases resident : e.resident.get? p with
  | some copy =>
    obtain ⟨g, same, -, of, -⟩ := coherent.resident resident
    rw [file] at same
    cases same
    exact ⟨copy, view?_of_resident resident, of⟩
  | none =>
    rw [view?_of_absent resident]
    exact coherent.stored file inside

theorem id_eq_of_view? {p : PageId} {page : Page} (seen : e.view? p = some page) : page.id = p := by
  obtain ⟨f, file, -, of⟩ := coherent.of_of_view? seen
  rw [of.id, TableFile.pageId, coherent.table_eq_of_fileOf? file]

theorem stored?_of_clean {p : PageId} {page : Page} (seen : e.view? p = some page) (clean : page.dirtier = none) :
    e.stored? p = some page := by
  cases resident : e.resident.get? p with
  | some copy =>
    rw [view?_of_resident resident] at seen
    cases seen
    obtain ⟨f, -, -, -, same⟩ := coherent.resident resident
    exact same clean
  | none =>
    rw [view?_of_absent resident] at seen
    exact seen

end Coherent

/-! ### The same files, other pages in memory -/

structure SameFiles (e e' : Engine) : Prop where
  pageSize : e'.settings.pageSize = e.settings.pageSize
  volume : e'.volume = e.volume
  catalog : e'.catalog = e.catalog
  files : e'.files.map TableFile.unread = e.files.map TableFile.unread

theorem SameFiles.of_surface {e e' : Engine} (same : e'.surface = e.surface) : SameFiles e e' where
  pageSize := congrArg Surface.pageSize same
  volume := congrArg Surface.volume same
  catalog := congrArg Surface.catalog same
  files := congrArg Surface.files same

theorem SameFiles.sameFiles_setFile {e : Engine} {file : FileNo} {g : TableFile} (opened : e.files[file]? = some g)
    (reads : Nat) : SameFiles e (e.setFile file { g with reads }) := by
  refine ⟨rfl, rfl, rfl, ?_⟩
  have same : (e.files.map TableFile.unread)[file]? = some g.unread := by
    rw [List.getElem?_map, opened, Option.map_some]
  obtain ⟨inside, same⟩ := List.getElem?_eq_some_iff.mp same
  calc
    (e.files.set file { g with reads }).map TableFile.unread = (e.files.map TableFile.unread).set file g.unread :=
      List.map_set
    _ = e.files.map TableFile.unread := by rw [← same, List.set_getElem_self]

namespace SameFiles

variable {e e' : Engine} (same : SameFiles e e')

include same

theorem fileOf?_kept (table : TableId) : e'.fileOf? table = e.fileOf? table := by
  rw [Engine.fileOf?, Engine.fileOf?, same.catalog, same.files]

theorem contentsOf_kept (f : TableFile) : e'.contentsOf f = e.contentsOf f := by
  rw [Engine.contentsOf, Engine.contentsOf, same.volume]

theorem bytes?_kept (p : PageId) : e'.bytes? p = e.bytes? p := by
  rw [Engine.bytes?, Engine.bytes?, same.fileOf?_kept]
  simp only [same.contentsOf_kept]

theorem stored?_kept (p : PageId) : e'.stored? p = e.stored? p := by
  rw [Engine.stored?, Engine.stored?, same.fileOf?_kept, same.bytes?_kept]

/-- It makes no difference to a reader which pages are in memory, as long as all that are there are
what was seen before and the changed ones are among them. -/
theorem view?_eq_of_copies (copies : ∀ p page, e'.resident.get? p = some page → e.view? p = some page)
    (changes : ∀ p page, e.view? p = some page → page.dirtier ≠ none → e'.resident.get? p = some page)
    (coherent : e.Coherent) (p : PageId) : e'.view? p = e.view? p := by
  cases resident : e'.resident.get? p with
  | some page => rw [view?_of_resident resident, copies p page resident]
  | none =>
    rw [view?_of_absent resident, same.stored?_kept]
    cases seen : e.view? p with
    | none => exact ((e.view?_eq_none_iff p).mp seen).2
    | some page =>
      apply coherent.stored?_of_clean seen
      by_contra dirty
      rw [changes p page seen dirty] at resident
      exact absurd resident (by simp)

theorem coherent_of_copies (copies : ∀ p page, e'.resident.get? p = some page → e.view? p = some page)
    (coherent : e.Coherent) : e'.Coherent where
  opened found := by
    rw [same.catalog] at found
    rw [same.fileOf?_kept]
    exact coherent.opened found
  sized file := by
    rw [same.fileOf?_kept] at file
    rw [same.pageSize, same.contentsOf_kept]
    exact coherent.sized file
  apart first second := by
    rw [same.fileOf?_kept] at first second
    exact coherent.apart first second
  stored file := by
    rw [same.fileOf?_kept] at file
    rw [same.stored?_kept]
    exact coherent.stored file
  resident resident := by
    have seen := copies _ _ resident
    obtain ⟨f, file, inside, of⟩ := coherent.of_of_view? seen
    rw [same.fileOf?_kept, same.stored?_kept]
    exact ⟨f, file, inside, of, coherent.stored?_of_clean seen⟩

theorem surface_eq_of_view? (seen : e'.view? = e.view?) : e'.surface = { e.surface with locks := e'.locks } := by
  rw [Engine.surface, Engine.surface, same.pageSize, same.volume, same.catalog, same.files, seen]

end SameFiles

/-! ### Putting a row on a page -/

theorem checkSchema_ensures (expected found : Schema) (e : Engine) :
    Ensures (checkSchema expected found) e fun _ e' => e' = e := by
  rw [checkSchema]
  split <;> rfl

/-- The row goes to the lowest free slot of the page, which stays in memory with it. A row of the page's
schema is refused only when there is no such slot. -/
theorem place_ensures (page : Page) (row : Row) (e : Engine) : Ensures (place page row) e fun
    | .ok location, e' => ∃ slot < page.slots.length, row.schema.sameTypes page.schema ∧
        page.valuesAt slot = none ∧ (∀ lower < slot, page.isUsed lower) ∧ location = page.locate slot ∧
        e' = { e with resident := e.resident.insert page.id (page.putAt slot (some row.values)) }
    | .error _, e' => e' = e ∧ (row.schema.sameTypes page.schema → page.freeSlots = 0) := by
  rw [place]
  rcases page.insert_cases row with ⟨differs, refused⟩ | ⟨-, used, refused⟩ |
    ⟨slot, inside, same, free, lowest, done⟩
  · rw [refused]
    exact .throw ⟨rfl, fun same => absurd same differs⟩
  · rw [refused]
    exact .throw ⟨rfl, fun _ => page.freeSlots_eq_zero_iff.mpr used⟩
  · rw [done]
    exact ⟨slot, inside, same, free, lowest, rfl, rfl⟩

/-! ### Writing a page back -/

theorem flush_of_dirty {e : Engine} {p : PageId} {page : Page} (here : e.resident.get? p = some page)
    (dirty : page.isDirty) : flush p e = writeBack p page e := by
  rw [flush, here]
  exact if_pos dirty

/-- A page is written if it is in memory with a change, and else nothing is done. -/
theorem flush_cases (e : Engine) (p : PageId) :
    (flush p e = .ok () e ∧ ∀ page, e.resident.get? p = some page → page.dirtier = none) ∨
      ∃ page txn, e.resident.get? p = some page ∧ page.dirtier = some txn ∧ flush p e = writeBack p page e := by
  cases here : e.resident.get? p with
  | none => exact .inl ⟨by rw [flush, here], fun _ found => absurd found (by simp)⟩
  | some page =>
    cases dirtier : page.dirtier with
    | none =>
      left
      refine ⟨by simp [flush, here, Page.isDirty, dirtier], ?_⟩
      rintro copy ⟨⟩
      exact dirtier
    | some txn => exact .inr ⟨page, txn, rfl, dirtier, flush_of_dirty here (by rw [Page.isDirty, dirtier]; rfl)⟩

end Engine

end RowStore
