import RowStore.Proofs.Engine.Shelves
import RowStore.Proofs.PageHistory
/-!
# A file that nobody else has written

A file that was empty at first, or had rows for certain column types only, and is always opened with these column
types has nothing in it but pages of such rows: what is written there has nothing else on it. So it is with the
copies of its pages that are in memory.
-/

namespace RowStore

namespace Page

variable {page : Page} {schema : Schema}

def under (page : Page) (id : PageId) (schema : Schema) : Page := { page with id, schema }

theorem encode_under (page : Page) (id : PageId) (types : schema.types = page.schema.types) :
    (page.under id schema).encode = page.encode := by
  have records : page.slots.flatMap (encodeSlot schema) = page.slots.flatMap (encodeSlot page.schema) :=
    List.flatMap_congr fun slot _ => encodeSlot_congr types slot
  exact congrArg (fun records => (Bitmap.pack page.bits ++ records).rightpad page.size 0) records

theorem Sound.sound_under (sound : page.Sound) (id : PageId) (types : schema.types = page.schema.types) :
    (page.under id schema).Sound where
  slots := sound.slots.trans (capacity_congr types page.size).symm
  spare := sound.spare
  fits values used := by
    show Row.Fits values schema.types
    rw [types]
    exact sound.fits values used

/-- A page that was written is sound when it is read for the same column types. -/
theorem Sound.read_as (sound : page.Sound) {id : PageId} {read : Page} (types : schema.types = page.schema.types)
    (decoded : decode? id schema page.encode = some read) : read.Sound := by
  have same := (sound.sound_under id types).decode?_encode
  rw [encode_under page id types] at same
  cases same.symm.trans decoded
  exact (sound.sound_under id types).sound_markClean

end Page

namespace Engine

/-- Read for the column types, the bytes are those of a page with rows for them. -/
def PageBytes (types : List ColType) (bytes : Bytes) : Prop :=
  ∀ (id : PageId) (schema : Schema) (page : Page), schema.types = types → Page.decode? id schema bytes = some page →
    page.Sound

theorem pageBytes_encode {page : Page} (sound : page.Sound) : PageBytes page.schema.types page.encode :=
  fun _ _ _ types decoded => sound.read_as types decoded

/-- The file of that name is opened with these column types only, and there are no other rows in it. -/
structure OwnFile (name : String) (types : List ColType) (e : Engine) : Prop where
  files : ∀ {file : FileNo} {g : TableFile}, e.files[file]? = some g → g.name = name → g.schema.types = types
  stored : ∀ number < e.extent name, PageBytes types (e.pageBytes name number)
  copies : ∀ {p page}, e.resident.get? p = some page → e.volume.number? name = some p.table →
    page.Sound ∧ page.schema.types = types

theorem ownFile_of_stored {settings : Settings} {volume : Volume} {name : String} {types : List ColType}
    (stored : ∀ number < (start settings volume).extent name,
      PageBytes types ((start settings volume).pageBytes name number)) : OwnFile name types (start settings volume) where
  files opened := absurd opened (by simp [start])
  stored := stored
  copies here := absurd here (by simp [start])

theorem ownFile_start (settings : Settings) {volume : Volume} {name : String} (types : List ColType)
    (empty : volume.contents name = []) : OwnFile name types (start settings volume) := by
  apply ownFile_of_stored
  intro number inside
  rw [extent, start, empty, List.length_nil, Nat.zero_div] at inside
  exact absurd inside (Nat.not_lt_zero number)

theorem pageBytes_zeros (schema : Schema) (size : Nat) : PageBytes schema.types (Bytes.zeros size) := by
  rw [← Page.encode_blank ⟨⟨0⟩, 0⟩ schema size]
  exact pageBytes_encode (Page.sound_blank _ _ _)

namespace OwnFile

variable {name : String} {types : List ColType} {e e' : Engine} (own : OwnFile name types e)

include own

theorem files_set {file other : FileNo} {g g' h : TableFile} (opened : e.files[file]? = some g) (same : SameFile g g')
    (there : (e.files.set file g')[other]? = some h) (named : h.name = name) : h.schema.types = types := by
  obtain ⟨inside, -⟩ := List.getElem?_eq_some_iff.mp opened
  by_cases here : file = other
  · subst here
    rw [List.getElem?_set_self inside] at there
    cases there
    rw [same.schema]
    exact own.files opened (same.name.symm.trans named)
  · rw [List.getElem?_set_ne here] at there
    exact own.files there named

theorem copies_insert {page : Page}
    (good : e.volume.number? name = some page.id.table → page.Sound ∧ page.schema.types = types) {p : PageId}
    {copy : Page} (here : (e.resident.insert page.id page).get? p = some copy) (numbered : e.volume.number? name = some p.table) :
    copy.Sound ∧ copy.schema.types = types := by
  rw [FinMap.get?_insert] at here
  split at here
  · rename_i same
    cases here
    rw [same] at numbered
    exact good numbered
  · exact own.copies here numbered

variable (shelved : e.Shelved)

include shelved

/-- What is read from the file was written there. -/
theorem types_of_read {file : FileNo} {g g' : TableFile} {p : PageId} {page : Page} (opened : e.files[file]? = some g)
    (named : g.name = name) (reads : g.read (e.contentsOf g) p = .ok (page, g')) :
    page.Sound ∧ page.schema.types = types := by
  have shelf := shelved.files opened
  obtain ⟨-, inside, -, decoded, -⟩ := TableFile.read_eq_ok_iff.mp reads
  have stored := own.stored p.number (named ▸ Nat.lt_of_lt_of_le inside shelf.pages)
  rw [contentsOf, TableFile.offset, shelf.pageSize, named, ← pageBytes] at decoded
  have columns := own.files opened named
  obtain ⟨-, -, schema, -⟩ := Page.of_decode?_eq_some decoded
  exact ⟨stored p g.schema page columns decoded, by rw [schema, columns]⟩

/-- A page that is written has rows for the column types on it. -/
theorem copy_of_written {p : PageId} {page : Page} {file : FileNo} {g g' : TableFile} {contents : Bytes}
    (here : e.resident.get? p = some page) (opened : e.files[file]? = some g)
    (writes : g.write (e.contentsOf g) page = .ok (contents, g')) (named : name = g.name) :
    page.Sound ∧ page.schema.types = types := by
  obtain ⟨table, -⟩ := TableFile.write_eq_ok_iff.mp writes
  have number := (shelved.files opened).number
  rw [← named, ← table, (shelved.pages here).id] at number
  exact own.copies here number

theorem stored_written {p : PageId} {page : Page} {file : FileNo} {g g' : TableFile} {contents : Bytes}
    (here : e.resident.get? p = some page) (opened : e.files[file]? = some g)
    (writes : g.write (e.contentsOf g) page = .ok (contents, g')) {number : Nat} (inside : number < e.extent name) :
    PageBytes types (({ e with volume := e.volume.put g.name contents } : Engine).pageBytes name number) := by
  rw [pageBytes, Volume.contents_put]
  split
  · rename_i named
    rw [shelved.region_written here opened writes number]
    split
    · obtain ⟨sound, columns⟩ := own.copy_of_written shelved here opened writes named
      rw [← columns]
      exact pageBytes_encode sound
    · rw [contentsOf, ← named]
      exact own.stored number inside
  · exact own.stored number inside

theorem stored_extended {table : TableId} {entry : TableEntry} {g : TableFile}
    (found : e.catalog.find? table = some entry) (opened : e.files[entry.file]? = some g) {number : Nat}
    (inside : number < if name = g.name then g.pages + 1 else e.extent name) :
    PageBytes types
      (({ e with volume := e.volume.put g.name (g.extend (e.contentsOf g)).1 } : Engine).pageBytes name number) := by
  rw [pageBytes, Volume.contents_put]
  split
  · rename_i named
    rw [if_pos named] at inside
    rw [shelved.region_extended found opened inside]
    split
    · rw [← own.files opened named.symm]
      exact pageBytes_zeros _ _
    · have extent : g.pages = e.extent name := named ▸ shelved.pages_eq_extent found opened
      rw [contentsOf, ← named]
      exact own.stored number (by omega)
  · rename_i other
    rw [if_neg other] at inside
    exact own.stored number inside

theorem ownFile_of_effect (effect : Effect e e') : OwnFile name types e' := by
  cases effect with
  | aside recency locks => exact ⟨own.files, own.stored, own.copies⟩
  | dropped p =>
    refine ⟨own.files, own.stored, ?_⟩
    intro q page here
    rw [FinMap.get?_erase] at here
    split at here
    · exact absurd here (by simp)
    · exact own.copies here
  | @edited p page edited here edit =>
    refine ⟨own.files, own.stored, own.copies_insert fun numbered => ?_⟩
    obtain ⟨id, schema, -⟩ := edit.frame_eq
    rw [id, (shelved.pages here).id] at numbered
    obtain ⟨sound, columns⟩ := own.copies here numbered
    exact ⟨edit.sound_edited sound, by rw [schema, columns]⟩
  | @loaded p entry g g' page found opened reads =>
    refine ⟨own.files_set opened ?_, own.stored, own.copies_insert fun numbered => ?_⟩
    · obtain ⟨-, -, -, -, rfl⟩ := TableFile.read_eq_ok_iff.mp reads
      exact ⟨rfl, rfl, rfl, rfl⟩
    · obtain ⟨table, -, -, decoded, -⟩ := TableFile.read_eq_ok_iff.mp reads
      obtain ⟨-, id, -⟩ := Page.of_decode?_eq_some decoded
      rw [id, table] at numbered
      exact own.types_of_read shelved opened (Volume.number?_inj (shelved.files opened).number numbered) reads
  | @written p page entry g g' contents here found opened writes =>
    have extent := shelved.extent_written here opened writes name
    refine ⟨own.files_set opened ?_, ?_, own.copies_insert fun numbered => ?_⟩
    · obtain ⟨-, -, -, rfl⟩ := TableFile.write_eq_ok_iff.mp writes
      exact ⟨rfl, rfl, rfl, rfl⟩
    · exact fun number inside => own.stored_written shelved here opened writes (Nat.lt_of_lt_of_eq inside extent)
    · obtain ⟨sound, columns⟩ := own.copies here ((shelved.pages here).id ▸ numbered)
      exact ⟨sound.sound_markClean, columns⟩
  | @extended table entry g found opened =>
    have extent := shelved.extent_extended found opened name
    refine ⟨own.files_set opened ⟨rfl, rfl, rfl, rfl⟩, ?_, own.copies⟩
    exact fun number inside => own.stored_extended shelved found opened (Nat.lt_of_lt_of_eq inside extent)

/-- The pages in memory are of files that were open before. -/
theorem ownFile_added {schema : Schema} {fileName : String} (tableName : String)
    (agrees : fileName = name → schema.types = types) : OwnFile name types (e.added schema tableName fileName) where
  files opened named := by
    rw [files_added] at opened
    split at opened
    · cases opened
      exact agrees named
    · exact own.files opened named
  stored number inside := by
    rw [extent_added] at inside
    show PageBytes types (Bytes.region ((e.volume.openTable fileName).2.contents name) _ _)
    rw [e.volume.contents_openTable fileName name]
    exact own.stored number inside
  copies {p page} here numbered := by
    obtain ⟨other, numbered', -⟩ := (shelved.pages here).inside
    have still := e.volume.number?_openTable fileName other p.table numbered'
    obtain rfl := Volume.number?_inj numbered still
    exact own.copies here numbered'

end OwnFile

end Engine

end RowStore
