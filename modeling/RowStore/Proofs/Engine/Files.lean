import RowStore.Proofs.Engine.Access
/-!
# Changing a file

The file of one table changes when it grows and when a page is written back. Every table has a file
of its own, so nothing changes for the others.
-/

namespace RowStore

theorem Volume.contents_put (v : Volume) (name other : String) (bytes : Bytes) :
    (v.put name bytes).contents other = if other = name then bytes else v.contents other := by
  rw [contents, put, FinMap.get?_insert]
  split <;> rfl

namespace Surface

def grow (s : Surface) (file : FileNo) (f : TableFile) : Surface :=
  { s with
    volume := s.volume.put f.name (s.volume.contents f.name ++ Bytes.zeros f.pageSize)
    files := s.files.set file { f with pages := f.pages + 1 } }.set
      (f.pageId f.pages) (some (Page.blank (f.pageId f.pages) f.schema f.pageSize))

def writeBack (s : Surface) (file : FileNo) (f : TableFile) (page : Page) : Surface :=
  { s with
    volume := s.volume.put f.name
      ((s.volume.contents f.name).overwrite (f.offset page.id.number) page.encode)
    files := s.files.set file { f with writes := f.writes + 1 } }.set page.id (some page.markClean)

end Surface

/-- What never changes about an open file. -/
def TableFile.bare (f : TableFile) : TableFile := { f with pages := 0, reads := 0, writes := 0 }

namespace Engine

/-- The same tables in the same files, whatever has become of these. -/
structure SameTables (e e' : Engine) : Prop where
  pageSize : e'.settings.pageSize = e.settings.pageSize
  catalog : e'.catalog = e.catalog
  tables : e'.volume.tables = e.volume.tables
  files : ∀ table, (e'.fileOf? table).map TableFile.bare = (e.fileOf? table).map TableFile.bare

namespace SameTables

variable {e e' e'' : Engine}

theorem refl : SameTables e e := ⟨rfl, rfl, rfl, fun _ => rfl⟩

theorem trans (first : SameTables e e') (second : SameTables e' e'') : SameTables e e'' where
  pageSize := second.pageSize.trans first.pageSize
  catalog := second.catalog.trans first.catalog
  tables := second.tables.trans first.tables
  files table := (second.files table).trans (first.files table)

end SameTables

theorem SameFiles.to_sameTables {e e' : Engine} (same : SameFiles e e') : SameTables e e' where
  pageSize := same.pageSize
  catalog := same.catalog
  tables := congrArg Volume.tables same.volume
  files table := by rw [same.fileOf?_kept]

def rewrite (e : Engine) (file : FileNo) (g : TableFile) (contents : Bytes) : Engine :=
  { e.setFile file g with volume := e.volume.put g.name contents }

structure SameFile (g g' : TableFile) : Prop where
  table : g'.table = g.table
  name : g'.name = g.name
  schema : g'.schema = g.schema
  pageSize : g'.pageSize = g.pageSize

theorem SameFile.of_same {g g' : TableFile} (same : SameFile g g') {page : Page} {number : Nat}
    (of : page.Of g number) : page.Of g' number where
  id := by rw [of.id, TableFile.pageId, TableFile.pageId, same.table]
  schema := by rw [of.schema, same.schema]
  size := by rw [of.size, same.pageSize]
  sound := of.sound

section Rewrite

variable {e : Engine} {table : TableId} {entry : TableEntry} {g g' : TableFile}
  (found : e.catalog.find? table = some entry) (opened : e.files[entry.file]? = some g)

include found opened

theorem fileOf?_self : e.fileOf? table = some g.unread :=
  (e.fileOf?_eq_some_iff table g.unread).mpr ⟨entry, g, found, opened, rfl⟩

variable (contents : Bytes)

theorem fileOf?_rewrite_self : (e.rewrite entry.file g' contents).fileOf? table = some g'.unread := by
  apply (fileOf?_eq_some_iff _ _ _).mpr
  obtain ⟨inside, -⟩ := List.getElem?_eq_some_iff.mp opened
  refine ⟨entry, g', found, ?_, rfl⟩
  exact List.getElem?_set_self inside

variable (coherent : e.Coherent)

include coherent

theorem Coherent.fileOf?_rewrite_of_ne (other : TableId) (differs : other ≠ table) :
    (e.rewrite entry.file g' contents).fileOf? other = e.fileOf? other := by
  cases foundOther : e.catalog.find? other with
  | none => simp [fileOf?, rewrite, setFile, foundOther]
  | some entry' =>
    have apart : entry.file ≠ entry'.file := by
      intro same
      have own := coherent.table_eq_of_fileOf? (fileOf?_self found opened)
      rw [same] at opened
      have others := coherent.table_eq_of_fileOf? (fileOf?_self foundOther opened)
      exact differs (others.symm.trans own)
    simp [fileOf?, rewrite, setFile, foundOther, List.getElem?_set_ne apart]

theorem Coherent.fileOf?_rewrite (other : TableId) :
    (e.rewrite entry.file g' contents).fileOf? other =
      if other = table then some g'.unread else e.fileOf? other := by
  split
  · rename_i same
    rw [same, fileOf?_rewrite_self found opened]
  · exact coherent.fileOf?_rewrite_of_ne found opened contents other ‹_›

variable (same : SameFile g g')

include same

theorem Coherent.contentsOf_rewrite_of_ne {other : TableId} {f : TableFile}
    (file : e.fileOf? other = some f) (differs : other ≠ table) :
    (e.rewrite entry.file g' contents).contentsOf f = e.contentsOf f := by
  rw [contentsOf, rewrite, Volume.contents_put, if_neg, contentsOf]
  intro shared
  exact differs (coherent.apart file (fileOf?_self found opened) (shared.trans same.name))

theorem Coherent.bytes?_rewrite_of_ne (p : PageId) (differs : p.table ≠ table) :
    (e.rewrite entry.file g' contents).bytes? p = e.bytes? p := by
  rw [bytes?, coherent.fileOf?_rewrite_of_ne found opened contents p.table differs, bytes?]
  cases file : e.fileOf? p.table with
  | none => rfl
  | some f =>
    rw [Option.bind_some, Option.bind_some,
      coherent.contentsOf_rewrite_of_ne found opened contents same file differs]

theorem Coherent.stored?_rewrite_of_ne (p : PageId) (differs : p.table ≠ table) :
    (e.rewrite entry.file g' contents).stored? p = e.stored? p := by
  rw [stored?, coherent.fileOf?_rewrite_of_ne found opened contents p.table differs, stored?,
    coherent.bytes?_rewrite_of_ne found opened contents same p differs]

omit coherent in
theorem bytes?_rewrite_self (p : PageId) (own : p.table = table) :
    (e.rewrite entry.file g' contents).bytes? p =
      if p.number < g'.pages then some (contents.region (p.number * g.pageSize) g.pageSize)
      else none := by
  subst own
  have written : (e.rewrite entry.file g' contents).contentsOf g' = contents := by
    rw [contentsOf, rewrite, Volume.contents_put, if_pos rfl]
  rw [bytes?_eq (fileOf?_rewrite_self found opened contents), written, TableFile.offset, same.pageSize]

omit coherent in
theorem stored?_rewrite_self (p : PageId) (own : p.table = table) :
    (e.rewrite entry.file g' contents).stored? p =
      ((e.rewrite entry.file g' contents).bytes? p).bind (Page.decode? p g.schema) := by
  subst own
  rw [stored?_eq (fileOf?_rewrite_self found opened contents)]
  rw [← same.schema]
  rfl

/-- A file may be rewritten when its pages can still be read and what is in memory without changes
is still what the file has. -/
theorem Coherent.coherent_rewrite (length : contents.length = g'.pages * g.pageSize) (longer : g.pages ≤ g'.pages)
    (stored : ∀ p : PageId, p.table = table → p.number < g'.pages →
      ∃ page, (e.rewrite entry.file g' contents).stored? p = some page ∧ page.Of g.unread p.number)
    (clean : ∀ p page, p.table = table → e.resident.get? p = some page → page.dirtier = none →
      (e.rewrite entry.file g' contents).stored? p = some page) :
    (e.rewrite entry.file g' contents).Coherent := by
  have self := fileOf?_self found opened
  have name : g'.name = g.name := same.name
  have file : ∀ other, (e.rewrite entry.file g' contents).fileOf? other =
      if other = table then some g'.unread else e.fileOf? other :=
    coherent.fileOf?_rewrite found opened contents
  have unread : SameFile g.unread g'.unread := ⟨same.table, same.name, same.schema, same.pageSize⟩
  constructor
  case opened =>
    intro other entry' foundOther
    obtain ⟨f, fileOther, table', schema⟩ := coherent.opened foundOther
    rw [file]
    split
    · rename_i own
      subst own
      rw [self] at fileOther
      cases fileOther
      exact ⟨g'.unread, rfl, same.table.trans table', same.schema.trans schema⟩
    · exact ⟨f, fileOther, table', schema⟩
  case sized =>
    intro other f fileOther
    rw [file] at fileOther
    split at fileOther
    · cases fileOther
      obtain ⟨size, room, -⟩ := coherent.sized self
      refine ⟨same.pageSize.trans size, ?_, ?_⟩
      · change 0 < Page.capacity g'.pageSize g'.schema
        rw [same.pageSize, same.schema]
        exact room
      · change List.length ((e.volume.put g'.name contents).contents g'.name) = g'.pages * g'.pageSize
        rw [Volume.contents_put, if_pos rfl, length, same.pageSize]
    · obtain ⟨size, room, length⟩ := coherent.sized fileOther
      rw [coherent.contentsOf_rewrite_of_ne found opened contents same fileOther ‹_›]
      exact ⟨size, room, length⟩
  case apart =>
    intro first second f₁ f₂ file₁ file₂ shared
    rw [file] at file₁ file₂
    split at file₁ <;> split at file₂
    · rename_i own₁ own₂
      rw [own₁, own₂]
    · cases file₁
      rename_i own₁ _
      rw [own₁]
      exact coherent.apart self file₂ (name.symm.trans shared)
    · cases file₂
      rename_i own₂
      rw [own₂]
      exact coherent.apart file₁ self (shared.trans name)
    · exact coherent.apart file₁ file₂ shared
  case stored =>
    intro p f fileP inside
    rw [file] at fileP
    split at fileP
    · cases fileP
      obtain ⟨page, found, of⟩ := stored p ‹_› inside
      exact ⟨page, found, unread.of_same of⟩
    · rw [coherent.stored?_rewrite_of_ne found opened contents same p ‹_›]
      exact coherent.stored fileP inside
  case resident =>
    intro p page resident
    obtain ⟨f, fileP, inside, of, unchanged⟩ := coherent.resident resident
    rw [file]
    split
    · rename_i own
      rw [own, self] at fileP
      cases fileP
      exact ⟨_, rfl, Nat.lt_of_lt_of_le inside longer, unread.of_same of, clean p page own resident⟩
    · rw [coherent.stored?_rewrite_of_ne found opened contents same p ‹_›]
      exact ⟨f, fileP, inside, of, unchanged⟩

omit found opened coherent same in
theorem view?_rewrite (p : PageId)
    (stored : e.resident.get? p = none → (e.rewrite entry.file g' contents).stored? p = e.stored? p) :
    (e.rewrite entry.file g' contents).view? p = e.view? p := by
  cases resident : e.resident.get? p with
  | some page => rw [view?_of_resident resident, view?_of_resident (e := e.rewrite ..) resident]
  | none => rw [view?_of_absent resident, view?_of_absent (e := e.rewrite ..) resident, stored resident]

end Rewrite

/-! ### Growing -/

section Grow

variable {e : Engine} (coherent : e.Coherent) {table : TableId} {entry : TableEntry} {g : TableFile}
  (found : e.catalog.find? table = some entry) (opened : e.files[entry.file]? = some g)

include coherent found opened

def grown (e : Engine) (file : FileNo) (g : TableFile) : Engine :=
  e.rewrite file { g with pages := g.pages + 1 } (e.contentsOf g ++ Bytes.zeros g.pageSize)

theorem Coherent.bytes?_grown (p : PageId) :
    (e.grown entry.file g).bytes? p =
      if p = g.pageId g.pages then some (Bytes.zeros g.pageSize) else e.bytes? p := by
  have self := fileOf?_self found opened
  have table' : g.table = table := coherent.table_of_unread self
  have length := coherent.length_contentsOf self
  have same : SameFile g { g with pages := g.pages + 1 } := ⟨rfl, rfl, rfl, rfl⟩
  by_cases own : p.table = table
  · have file : e.fileOf? p.table = some g.unread := by rw [own, self]
    rw [grown, bytes?_rewrite_self found opened _ same p own, bytes?_eq file]
    by_cases last : p = g.pageId g.pages
    · have number : p.number = g.pages := by rw [last, TableFile.pageId]
      have zeros := Bytes.region_append_right (e.contentsOf g) (Bytes.zeros g.pageSize)
      rw [length, Bytes.length_zeros] at zeros
      rw [if_pos last, number, if_pos (Nat.lt_succ_self _), zeros]
    · have differs : p.number ≠ g.pages := by
        intro number
        apply last
        rw [TableFile.pageId, table', ← own, ← number]
      rw [if_neg last, TableFile.offset]
      by_cases inside : p.number < g.pages
      · have within : p.number * g.pageSize + g.pageSize ≤ (e.contentsOf g).length := by
          rw [length, ← Nat.succ_mul]
          exact Nat.mul_le_mul_right _ inside
        rw [if_pos inside, if_pos (Nat.lt_succ_of_lt inside), Bytes.region_append_left _ _ _ _ within]
      · rw [if_neg inside, if_neg]
        change ¬p.number < g.pages + 1
        omega
  · rw [grown, coherent.bytes?_rewrite_of_ne found opened _ same p own, if_neg]
    intro last
    apply own
    rw [last]
    exact table'

theorem Coherent.stored?_grown (p : PageId) :
    (e.grown entry.file g).stored? p =
      if p = g.pageId g.pages then some (Page.blank (g.pageId g.pages) g.schema g.pageSize)
      else e.stored? p := by
  have self := fileOf?_self found opened
  have bytes := coherent.bytes?_grown found opened p
  have same : SameFile g { g with pages := g.pages + 1 } := ⟨rfl, rfl, rfl, rfl⟩
  rw [grown] at bytes ⊢
  by_cases own : p.table = table
  · have file : e.fileOf? p.table = some g.unread := by rw [own, self]
    rw [stored?_rewrite_self found opened _ same p own, bytes]
    by_cases last : p = g.pageId g.pages
    · rw [if_pos last, if_pos last, Option.bind_some, Page.decode?_zeros, last]
    · rw [if_neg last, if_neg last, stored?_eq file]
      rfl
  · rw [coherent.stored?_rewrite_of_ne found opened _ same p own, if_neg]
    intro last
    apply own
    rw [last]
    exact coherent.table_of_unread self

theorem Coherent.coherent_grown : (e.grown entry.file g).Coherent := by
  have self := fileOf?_self found opened
  have table' : g.table = table := coherent.table_of_unread self
  have same : SameFile g { g with pages := g.pages + 1 } := ⟨rfl, rfl, rfl, rfl⟩
  apply coherent.coherent_rewrite found opened _ same
  · rw [List.length_append, Bytes.length_zeros, coherent.length_contentsOf self, Nat.succ_mul]
  · exact Nat.le_succ _
  · intro p own inside
    have stored := coherent.stored?_grown found opened p
    rw [Engine.grown] at stored
    rw [stored]
    split
    · rename_i last
      refine ⟨_, rfl, ?_, rfl, rfl, Page.sound_blank _ _ _⟩
      rw [last]
      rfl
    · rename_i last
      have file : e.fileOf? p.table = some g.unread := by rw [own, self]
      apply coherent.stored file
      change p.number < g.pages
      have differs : p.number ≠ g.pages := by
        intro number
        apply last
        rw [TableFile.pageId, table', ← own, ← number]
      change p.number < g.pages + 1 at inside
      omega
  · intro p page own resident clean
    have stored := coherent.stored?_grown found opened p
    rw [Engine.grown] at stored
    obtain ⟨f, file, inside, -, unchanged⟩ := coherent.resident resident
    rw [own, self] at file
    cases file
    rw [stored, if_neg, unchanged clean]
    rintro rfl
    exact Nat.lt_irrefl _ inside

theorem Coherent.view?_grown (p : PageId) :
    (e.grown entry.file g).view? p =
      if p = g.pageId g.pages then some (Page.blank (g.pageId g.pages) g.schema g.pageSize)
      else e.view? p := by
  have self := fileOf?_self found opened
  have stored := coherent.stored?_grown found opened p
  by_cases last : p = g.pageId g.pages
  · have absent : e.resident.get? p = none := by
      by_contra present
      obtain ⟨page, resident⟩ := Option.ne_none_iff_exists'.mp present
      obtain ⟨f, file, inside, -⟩ := coherent.resident resident
      rw [last, TableFile.pageId, coherent.table_of_unread self, self] at file
      cases file
      rw [last] at inside
      exact Nat.lt_irrefl _ inside
    rw [view?_of_absent (e := e.grown ..) absent, stored, if_pos last, if_pos last]
  · rw [if_neg last] at stored ⊢
    rw [Engine.grown] at stored ⊢
    exact view?_rewrite _ p fun _ => stored

theorem Coherent.surface_grown :
    (e.grown entry.file g).surface = e.surface.grow entry.file g.unread := by
  have view := funext (coherent.view?_grown found opened)
  rw [surface, view, Surface.grow, Surface.set]
  simp only [surface, Engine.grown]
  congr 1
  exact List.map_set

end Grow

/-- The file of the table has got one more page, of zeros. -/
structure Grown (table : TableId) (f : TableFile) (e e' : Engine) : Prop where
  before : e.Coherent
  after : e'.Coherent
  file : e.fileOf? table = some f
  surface : ∃ entry, e.catalog.find? table = some entry ∧ e'.surface = e.surface.grow entry.file f

namespace Grown

variable {e e' : Engine} {table : TableId} {f : TableFile} (grown : Grown table f e e')

include grown

/-- Nothing in memory matters for what has become of the file. -/
theorem surface_eq_grown : ∃ entry g, e.catalog.find? table = some entry ∧ e.files[entry.file]? = some g ∧
    g.unread = f ∧ e'.surface = (e.grown entry.file g).surface := by
  obtain ⟨entry, found, surface⟩ := grown.surface
  obtain ⟨entry', g, same, opened, rfl⟩ := (e.fileOf?_eq_some_iff table f).mp grown.file
  rw [found] at same
  cases same
  exact ⟨entry, g, found, opened, rfl, surface.trans (grown.before.surface_grown found opened).symm⟩

theorem locks_eq : e'.locks = e.locks := by
  obtain ⟨entry, -, surface⟩ := grown.surface
  exact congrArg Surface.locks surface

theorem fileOf?_after (other : TableId) :
    e'.fileOf? other = if other = table then some { f with pages := f.pages + 1 } else e.fileOf? other := by
  obtain ⟨entry, g, found, opened, rfl, surface⟩ := grown.surface_eq_grown
  rw [(SameFiles.of_surface surface).fileOf?_kept, Engine.grown,
    grown.before.fileOf?_rewrite found opened]
  rfl

theorem to_sameTables : SameTables e e' := by
  obtain ⟨entry, -, surface⟩ := grown.surface
  constructor
  case pageSize => exact congrArg Surface.pageSize surface
  case catalog => exact congrArg Surface.catalog surface
  case tables => exact congrArg (Volume.tables ∘ Surface.volume) surface
  case files =>
    intro other
    rw [grown.fileOf?_after]
    split
    · rename_i own
      rw [own, grown.file]
      rfl
    · rfl

theorem bytes?_after (p : PageId) :
    e'.bytes? p = if p = f.pageId f.pages then some (Bytes.zeros f.pageSize) else e.bytes? p := by
  obtain ⟨entry, g, found, opened, rfl, surface⟩ := grown.surface_eq_grown
  rw [(SameFiles.of_surface surface).bytes?_kept, grown.before.bytes?_grown found opened]
  rfl

theorem stored?_after (p : PageId) :
    e'.stored? p =
      if p = f.pageId f.pages then some (Page.blank (f.pageId f.pages) f.schema f.pageSize)
      else e.stored? p := by
  obtain ⟨entry, g, found, opened, rfl, surface⟩ := grown.surface_eq_grown
  rw [(SameFiles.of_surface surface).stored?_kept, grown.before.stored?_grown found opened]
  rfl

theorem view?_after (p : PageId) :
    e'.view? p =
      if p = f.pageId f.pages then some (Page.blank (f.pageId f.pages) f.schema f.pageSize)
      else e.view? p := by
  obtain ⟨entry, -, surface⟩ := grown.surface
  exact congrFun (congrArg Surface.view surface) p

end Grown

/-- A file that is open grows, whatever room there is in memory. -/
theorem extendFile_ensures {e : Engine} (coherent : e.Coherent) (table : TableId) (entry : TableEntry)
    (found : e.catalog.find? table = some entry) : Ensures (extendFile entry.file table) e fun
    | .ok p, e' => ∃ f, p = f.pageId f.pages ∧ Grown table f e e'
    | .error _, _ => False := by
  refine (openFile_ensures coherent table table entry found).bind ?_ fun _ _ => False.elim
  rintro g e ⟨rfl, opened, file⟩
  refine .get_bind ?_
  have length := coherent.length_contentsOf file
  have extended : g.extend (e.contentsOf g) =
      (e.contentsOf g ++ Bytes.zeros g.pageSize, { g with pages := g.pages + 1 }) := by
    rw [TableFile.extend, TableFile.offset, ← length, Bytes.overwrite_end]
  rw [extended]
  have surface := coherent.surface_grown found opened
  exact ⟨g.unread, rfl, coherent, coherent.coherent_grown found opened, file, entry, found, surface⟩

/-! ### Writing a page back -/

section WriteBack

variable {e : Engine} (coherent : e.Coherent) {table : TableId} {entry : TableEntry} {g : TableFile}
  (found : e.catalog.find? table = some entry) (opened : e.files[entry.file]? = some g)
  {page : Page} (of : page.Of g page.id.number) (inside : page.id.number < g.pages)

include coherent found opened of inside

def written (e : Engine) (file : FileNo) (g : TableFile) (page : Page) : Engine :=
  e.rewrite file { g with writes := g.writes + 1 }
    ((e.contentsOf g).overwrite (g.offset page.id.number) page.encode)

theorem Coherent.offset_add_le : g.offset page.id.number + page.encode.length ≤ (e.contentsOf g).length := by
  rw [of.sound.length_encode, of.size, coherent.length_contentsOf (fileOf?_self found opened), TableFile.offset,
    ← Nat.succ_mul]
  exact Nat.mul_le_mul_right _ inside

theorem Coherent.bytes?_written (p : PageId) :
    (e.written entry.file g page).bytes? p = if p = page.id then some page.encode else e.bytes? p := by
  have self := fileOf?_self found opened
  have table' : g.table = table := coherent.table_of_unread self
  have within := coherent.offset_add_le found opened of inside
  have size : page.encode.length = g.pageSize := by rw [of.sound.length_encode, of.size]
  have same : SameFile g { g with writes := g.writes + 1 } := ⟨rfl, rfl, rfl, rfl⟩
  have id : page.id = ⟨table, page.id.number⟩ := by
    conv => lhs; rw [of.id, TableFile.pageId, table']
  by_cases own : p.table = table
  · have file : e.fileOf? p.table = some g.unread := by rw [own, self]
    rw [written, bytes?_rewrite_self found opened _ same p own]
    by_cases this : p = page.id
    · have again := Bytes.region_overwrite_self (e.contentsOf g) page.encode (g.offset page.id.number)
        (by omega)
      rw [size] at again
      rw [if_pos this, this, if_pos inside, ← TableFile.offset, again]
    · have differs : p.number ≠ page.id.number := by
        intro number
        apply this
        rw [id, ← own, ← number]
      have apart : p.number * g.pageSize + g.pageSize ≤ g.offset page.id.number ∨
          g.offset page.id.number + page.encode.length ≤ p.number * g.pageSize := by
        rw [size, TableFile.offset, ← Nat.succ_mul, ← Nat.succ_mul]
        rcases Nat.lt_or_gt_of_ne differs with before | after
        · exact .inl (Nat.mul_le_mul_right _ before)
        · exact .inr (Nat.mul_le_mul_right _ after)
      rw [if_neg this, bytes?_eq file, Bytes.region_overwrite_apart _ _ _ _ _ (by omega) apart,
        TableFile.offset]
  · rw [written, coherent.bytes?_rewrite_of_ne found opened _ same p own, if_neg]
    intro this
    rw [this, id] at own
    exact own rfl

theorem Coherent.stored?_written (p : PageId) :
    (e.written entry.file g page).stored? p =
      if p = page.id then some page.markClean else e.stored? p := by
  have self := fileOf?_self found opened
  have bytes := coherent.bytes?_written found opened of inside p
  have same : SameFile g { g with writes := g.writes + 1 } := ⟨rfl, rfl, rfl, rfl⟩
  rw [written] at bytes ⊢
  by_cases own : p.table = table
  · have file : e.fileOf? p.table = some g.unread := by rw [own, self]
    rw [stored?_rewrite_self found opened _ same p own, bytes]
    by_cases this : p = page.id
    · rw [if_pos this, if_pos this, this, Option.bind_some, ← of.schema]
      exact of.sound.decode?_encode
    · rw [if_neg this, if_neg this, stored?_eq file]
      rfl
  · rw [coherent.stored?_rewrite_of_ne found opened _ same p own, if_neg]
    intro this
    apply own
    rw [this, of.id]
    exact coherent.table_of_unread self

variable (resident : e.resident.get? page.id = some page) (dirty : page.dirtier ≠ none)

include resident dirty

theorem Coherent.coherent_written : (e.written entry.file g page).Coherent := by
  have self := fileOf?_self found opened
  have stored := coherent.stored?_written found opened of inside
  have within := coherent.offset_add_le found opened of inside
  have same : SameFile g { g with writes := g.writes + 1 } := ⟨rfl, rfl, rfl, rfl⟩
  rw [Engine.written] at stored ⊢
  apply coherent.coherent_rewrite found opened _ same
  · rw [Bytes.length_overwrite _ _ _ (by omega), coherent.length_contentsOf self] at *
    exact Nat.max_eq_left within
  · exact Nat.le_refl _
  · intro p own within
    rw [stored]
    split
    · rename_i this
      refine ⟨_, rfl, ?_, of.schema, of.size, of.sound.sound_markClean⟩
      rw [this]
      exact of.id
    · exact coherent.stored (by rw [own, self]) within
  · intro p copy _ found clean
    obtain ⟨-, -, -, -, unchanged⟩ := coherent.resident found
    rw [stored, if_neg, unchanged clean]
    rintro rfl
    rw [resident] at found
    cases found
    exact dirty clean

theorem Coherent.coherent_settled {e' : Engine} (same : SameFiles (e.written entry.file g page) e')
    (locks : e'.locks = e.locks)
    (kept : ∀ q, e'.resident.get? q =
      if q = page.id then some page.markClean else e.resident.get? q) :
    e'.Coherent ∧ e'.surface = e.surface.writeBack entry.file g.unread page := by
  have coherent₁ := coherent.coherent_written found opened of inside resident dirty
  have stored := coherent.stored?_written found opened of inside
  let gone : Engine := { e.written entry.file g page with resident := e.resident.erase page.id }
  have same₁ : SameFiles (e.written entry.file g page) gone := ⟨rfl, rfl, rfl, rfl⟩
  obtain ⟨coherent₂, view₂⟩ :=
    coherent₁.coherent_erased same₁ page.id (FinMap.get?_erase e.resident page.id)
  have clean : gone.view? page.id = some page.markClean := by
    rw [view₂, if_pos rfl, stored, if_pos rfl]
  have back : Swapped gone e' := by
    refine coherent₂.swapped_insert ?_ page.id page.markClean ?_ clean
    · exact ⟨same.pageSize, same.volume, same.catalog, same.files⟩
    intro q
    rw [kept]
    split
    · rfl
    · exact (FinMap.get?_erase_of_ne e.resident page.id q ‹_›).symm
  have view : e'.view? = fun q => if q = page.id then some page.markClean else e.view? q := by
    funext q
    rw [back.view?_eq, view₂, stored, if_pos rfl]
    split
    · rfl
    · have unchanged := stored q
      rw [if_neg ‹_›, Engine.written] at unchanged
      exact view?_rewrite _ q fun _ => unchanged
  refine ⟨back.coherent, ?_⟩
  rw [surface, view, same.pageSize, same.volume, same.catalog, same.files, locks, Surface.writeBack,
    Surface.set]
  congr 1
  exact List.map_set

end WriteBack

theorem writePage_ensures {e : Engine} (coherent : e.Coherent) (entry : TableEntry) (page : Page)
    (found : e.catalog.find? page.id.table = some entry) (f : TableFile)
    (file : e.fileOf? page.id.table = some f) (inside : page.id.number < f.pages) :
    Ensures (writePage entry.file page) e fun
    | .ok _, e' => ∃ g, e.files[entry.file]? = some g ∧ g.unread = f ∧ e' = e.written entry.file g page
    | .error _, _ => False := by
  refine (openFile_ensures coherent page.id.table page.id.table entry found).bind ?_ fun _ _ => False.elim
  rintro g e ⟨rfl, opened, same⟩
  rw [file] at same
  cases same
  refine .get_bind ?_
  change page.id.number < g.pages at inside
  have table := coherent.table_of_unread file
  have done : g.write (e.contentsOf g) page =
      .ok ((e.contentsOf g).overwrite (g.offset page.id.number) page.encode,
        { g with writes := g.writes + 1 }) := TableFile.write_eq table.symm inside
  rw [done]
  exact ⟨g, opened, rfl, rfl⟩

/-- A page with changes has been written to its file, and has none any more. -/
structure WrittenBack (page : Page) (e e' : Engine) : Prop where
  before : e.Coherent
  after : e'.Coherent
  seen : e.view? page.id = some page
  dirty : page.dirtier ≠ none
  surface : ∃ entry f, e.catalog.find? page.id.table = some entry ∧ e.fileOf? page.id.table = some f ∧
    e'.surface = e.surface.writeBack entry.file f page

def settled (e : Engine) (file : FileNo) (g : TableFile) (page : Page) : Engine :=
  { e.written file g page with resident := e.resident.insert page.id page.markClean }

theorem Coherent.writtenBack_settled {e : Engine} (coherent : e.Coherent) {entry : TableEntry} {g : TableFile}
    {page : Page} (found : e.catalog.find? page.id.table = some entry)
    (opened : e.files[entry.file]? = some g) (resident : e.resident.get? page.id = some page)
    (dirty : page.dirtier ≠ none) : WrittenBack page e (e.settled entry.file g page) := by
  have file := fileOf?_self found opened
  obtain ⟨f, same, inside, of, -⟩ := coherent.resident resident
  rw [file] at same
  cases same
  have of' : page.Of g page.id.number := ⟨of.id, of.schema, of.size, of.sound⟩
  have same : SameFiles (e.written entry.file g page) (e.settled entry.file g page) :=
    ⟨rfl, rfl, rfl, rfl⟩
  obtain ⟨after, surface⟩ := coherent.coherent_settled found opened of' inside resident dirty same rfl
    fun q => FinMap.get?_insert e.resident page.id q page.markClean
  exact ⟨coherent, after, view?_of_resident resident, dirty, entry, g.unread, found, file, surface⟩

namespace WrittenBack

variable {page : Page} {e e' : Engine} (written : WrittenBack page e e')

include written

theorem sameFiles_written : ∃ entry g, e.catalog.find? page.id.table = some entry ∧ e.files[entry.file]? = some g ∧
    page.Of g page.id.number ∧ page.id.number < g.pages ∧
    SameFiles (e.written entry.file g page) e' := by
  obtain ⟨entry, f, found, file, surface⟩ := written.surface
  obtain ⟨entry', g, same, opened, rfl⟩ := (e.fileOf?_eq_some_iff page.id.table f).mp file
  rw [found] at same
  cases same
  have resident := resident_of_dirty written.seen written.dirty
  obtain ⟨f, same, inside, of, -⟩ := written.before.resident resident
  rw [file] at same
  cases same
  obtain ⟨entry', f, same, file', surface'⟩ :=
    (written.before.writtenBack_settled found opened resident written.dirty).surface
  rw [found] at same
  cases same
  rw [file] at file'
  cases file'
  have files := SameFiles.of_surface (surface.trans surface'.symm)
  exact ⟨entry, g, found, opened, ⟨of.id, of.schema, of.size, of.sound⟩, inside,
    files.pageSize, files.volume, files.catalog, files.files⟩

theorem locks_eq : e'.locks = e.locks := by
  obtain ⟨entry, f, -, -, surface⟩ := written.surface
  exact congrArg Surface.locks surface

theorem view?_after (p : PageId) :
    e'.view? p = if p = page.id then some page.markClean else e.view? p := by
  obtain ⟨entry, f, -, -, surface⟩ := written.surface
  exact congrFun (congrArg Surface.view surface) p

theorem fileOf?_after (other : TableId) :
    e'.fileOf? other = (e.fileOf? other).map fun f =>
      if other = page.id.table then { f with writes := f.writes + 1 } else f := by
  obtain ⟨entry, g, found, opened, -, -, files⟩ := written.sameFiles_written
  rw [files.fileOf?_kept, Engine.written, written.before.fileOf?_rewrite found opened]
  split
  · rename_i own
    rw [own, fileOf?_self found opened]
    rfl
  · exact (Option.map_id' ..).symm

theorem to_sameTables : SameTables e e' := by
  obtain ⟨entry, f, -, -, surface⟩ := written.surface
  constructor
  case pageSize => exact congrArg Surface.pageSize surface
  case catalog => exact congrArg Surface.catalog surface
  case tables => exact congrArg (Volume.tables ∘ Surface.volume) surface
  case files =>
    intro other
    rw [written.fileOf?_after]
    cases e.fileOf? other with
    | none => rfl
    | some g =>
      rw [Option.map_some, Option.map_some, Option.map_some]
      split <;> rfl

theorem bytes?_after (p : PageId) : e'.bytes? p = if p = page.id then some page.encode else e.bytes? p := by
  obtain ⟨entry, g, found, opened, of, inside, files⟩ := written.sameFiles_written
  rw [files.bytes?_kept, written.before.bytes?_written found opened of inside]

end WrittenBack

/-- A page is written when it holds a change, and then it holds none. -/
theorem flush_ensures {e : Engine} (coherent : e.Coherent) (p : PageId) : Ensures (flush p) e fun
    | .ok _, e' => (e' = e ∧ ∀ page, e.view? p = some page → page.dirtier = none) ∨
        ∃ page, page.id = p ∧ WrittenBack page e e'
    | .error _, _ => False := by
  rcases e.flush_cases p with ⟨same, clean⟩ | ⟨page, txn, resident, dirtier, same⟩
  · rw [Ensures, same]
    refine .inl ⟨rfl, fun page seen => ?_⟩
    by_contra dirty
    exact dirty (clean page (resident_of_dirty seen dirty))
  · refine .congr same ?_
    obtain ⟨f, file, inside, -⟩ := coherent.resident resident
    obtain rfl : page.id = p := coherent.id_eq_of_view? (view?_of_resident resident)
    refine (resolve_ensures page.id.table).bind ?_ ?_
    · rintro entry e ⟨rfl, found⟩
      refine (writePage_ensures coherent entry page found f file inside).bind ?_ fun _ _ => False.elim
      rintro - _ ⟨g, opened, rfl, rfl⟩
      have dirty : page.dirtier ≠ none := by simp [dirtier]
      exact .inr ⟨page, rfl, coherent.writtenBack_settled found opened resident dirty⟩
    · rintro fault e ⟨-, -, none⟩
      rw [file] at none
      exact absurd none (by simp)

end Engine

end RowStore
