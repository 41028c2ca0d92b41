import Mathlib.Data.List.Induction
import RowStore.Proofs.Custody
import RowStore.Proofs.Engine.Effects
import RowStore.Proofs.Rereading
/-!
# Where the files stand

However tables are registered in each other's place, every file that has been opened is known to the volume under
the number of its table, the file that the catalog names has all the pages that there are, and a page in memory is
one of a file, and of its size. So a page whose table is registered can always be written back.
-/

namespace RowStore

namespace Page

variable {page edited : Page}

theorem Shaped.shaped_putAt (shaped : page.Shaped) (slot : Nat) (content : Option (List Value))
    (typed : ∀ values, content = some values → Row.Typed values page.schema.types) :
    (page.putAt slot content).Shaped where
  slots := by rw [Page.putAt, List.length_set, shaped.slots]
  spare := by
    have spare := shaped.spare
    simpa only [Page.putAt, List.length_set] using spare
  typed values used := by
    rcases List.mem_or_eq_of_mem_set used with old | new
    · exact shaped.typed values old
    · exact typed values new.symm

namespace Edit

variable (edit : page.Edit edited)

include edit

theorem frame_eq : edited.id = page.id ∧ edited.schema = page.schema ∧ edited.size = page.size := by
  cases edit <;> exact ⟨rfl, rfl, rfl⟩

theorem shaped_edited (shaped : page.Shaped) : edited.Shaped := by
  cases edit with
  | put slot content fits => exact shaped.shaped_putAt slot content fun values held => (fits values held).to_typed
  | mark dirtier => exact ⟨shaped.slots, shaped.spare, shaped.typed⟩

theorem sound_edited (sound : page.Sound) : edited.Sound := by
  cases edit with
  | put slot content fits => exact sound.sound_putAt slot content fits
  | mark dirtier => exact ⟨sound.slots, sound.spare, sound.fits⟩

end Edit

end Page

namespace Engine

/-- How many whole pages there are in the file of that name. -/
def extent (e : Engine) (name : String) : Nat := (e.volume.contents name).length / e.settings.pageSize

def pageBytes (e : Engine) (name : String) (number : Nat) : Bytes :=
  (e.volume.contents name).region (number * e.settings.pageSize) e.settings.pageSize

theorem apart_of_ne {number other size i : Nat} (differs : number ≠ other) (start : number * size ≤ i)
    (stop : i < (number + 1) * size) : i < other * size ∨ (other + 1) * size ≤ i := by
  rcases Nat.lt_or_gt_of_ne differs with before | after
  · exact .inl (Nat.lt_of_lt_of_le stop (Nat.mul_le_mul_right _ before))
  · exact .inr (Nat.le_trans (Nat.mul_le_mul_right _ after) start)

theorem extent_put (e : Engine) (name other : String) (bytes : Bytes) :
    ({ e with volume := e.volume.put name bytes } : Engine).extent other =
      if other = name then bytes.length / e.settings.pageSize else e.extent other := by
  rw [extent, Volume.contents_put]
  split <;> rfl

/-- A file that has been opened, under the number it has in the volume. -/
structure Shelf (e : Engine) (g : TableFile) : Prop where
  pageSize : g.pageSize = e.settings.pageSize
  positive : 0 < e.settings.pageSize
  number : e.volume.number? g.name = some g.table
  pages : g.pages ≤ e.extent g.name

/-- A page in memory that is one of a file. -/
structure Homed (e : Engine) (p : PageId) (page : Page) : Prop where
  id : page.id = p
  shaped : page.Shaped
  size : page.size = e.settings.pageSize
  inside : ∃ name, e.volume.number? name = some p.table ∧ p.number < e.extent name

structure Shelved (e : Engine) : Prop where
  files : ∀ {file : FileNo} {g : TableFile}, e.files[file]? = some g → e.Shelf g
  current : ∀ {table entry}, e.catalog.find? table = some entry → ∃ g, e.files[entry.file]? = some g ∧
    g.table = table ∧ g.schema = entry.schema ∧ g.pages = e.extent g.name
  pages : ∀ {p page}, e.resident.get? p = some page → e.Homed p page

theorem shelved_start (settings : Settings) (volume : Volume) : (start settings volume).Shelved where
  files opened := absurd opened (by simp [start])
  current found := absurd found (by simp [start, Catalog.find?, Catalog.empty])
  pages here := absurd here (by simp [start])

/-- The files are as long as they were, or longer. -/
structure Longer (e e' : Engine) : Prop where
  settings : e'.settings = e.settings
  number : ∀ {name table}, e.volume.number? name = some table → e'.volume.number? name = some table
  extent : ∀ name, e.extent name ≤ e'.extent name

namespace Longer

variable {e e' : Engine}

theorem of_volume (settings : e'.settings = e.settings) (volume : e'.volume = e.volume) : Longer e e' where
  settings := settings
  number numbered := by rw [volume]; exact numbered
  extent name := by rw [Engine.extent, Engine.extent, settings, volume]

variable (longer : Longer e e')

include longer

theorem shelf_mono {g : TableFile} (shelf : e.Shelf g) : e'.Shelf g where
  pageSize := by rw [longer.settings, shelf.pageSize]
  positive := by rw [longer.settings]; exact shelf.positive
  number := longer.number shelf.number
  pages := Nat.le_trans shelf.pages (longer.extent g.name)

theorem homed_mono {p : PageId} {page : Page} (homed : e.Homed p page) : e'.Homed p page where
  id := homed.id
  shaped := homed.shaped
  size := by rw [longer.settings, homed.size]
  inside := by
    obtain ⟨name, numbered, inside⟩ := homed.inside
    exact ⟨name, longer.number numbered, Nat.lt_of_lt_of_le inside (longer.extent name)⟩

end Longer

namespace Shelved

variable {e e' : Engine} (shelved : e.Shelved)

include shelved

theorem of_pages (settings : e'.settings = e.settings) (volume : e'.volume = e.volume) (files : e'.files = e.files)
    (catalog : e'.catalog = e.catalog) (pages : ∀ p page, e'.resident.get? p = some page → e.Homed p page) :
    e'.Shelved := by
  have longer := Longer.of_volume settings volume
  have extent : ∀ name, e'.extent name = e.extent name := fun name => by rw [extent, extent, settings, volume]
  refine ⟨?_, ?_, fun here => longer.homed_mono (pages _ _ here)⟩
  · intro file g opened
    rw [files] at opened
    exact longer.shelf_mono (shelved.files opened)
  · intro table entry found
    rw [catalog] at found
    rw [files]
    simp only [extent]
    exact shelved.current found

/-- The file that the catalog names is another, and it has all the pages that there are. -/
theorem of_file {table : TableId} {entry : TableEntry} {g g' : TableFile}
    (found : e.catalog.find? table = some entry) (opened : e.files[entry.file]? = some g) (same : SameFile g g')
    (longer : Longer e e') (files : e'.files = e.files.set entry.file g') (catalog : e'.catalog = e.catalog)
    (whole : g'.pages = e'.extent g.name) (others : ∀ name, name ≠ g.name → e'.extent name = e.extent name)
    (pages : ∀ p page, e'.resident.get? p = some page → e.Homed p page) : e'.Shelved := by
  obtain ⟨inside, -⟩ := List.getElem?_eq_some_iff.mp opened
  refine ⟨?_, ?_, fun here => longer.homed_mono (pages _ _ here)⟩
  · intro file h openedAfter
    rw [files] at openedAfter
    by_cases here : entry.file = file
    · subst here
      rw [List.getElem?_set_self inside] at openedAfter
      cases openedAfter
      have shelf := longer.shelf_mono (shelved.files opened)
      refine ⟨same.pageSize.trans shelf.pageSize, shelf.positive, ?_, ?_⟩
      · rw [same.name, same.table]
        exact shelf.number
      · rw [same.name, whole]
    · rw [List.getElem?_set_ne here] at openedAfter
      exact longer.shelf_mono (shelved.files openedAfter)
  · intro table' entry' found'
    rw [catalog] at found'
    obtain ⟨h, opened', table_h, schema, whole'⟩ := shelved.current found'
    obtain ⟨g₀, opened₀, table_g, -, -⟩ := shelved.current found
    obtain rfl : g = g₀ := Option.some.inj (opened.symm.trans opened₀)
    rw [files]
    by_cases here : entry.file = entry'.file
    · rw [← here] at opened' ⊢
      obtain rfl : g = h := Option.some.inj (opened.symm.trans opened')
      exact ⟨g', List.getElem?_set_self inside, same.table.trans table_h, same.schema.trans schema,
        by rw [same.name, whole]⟩
    · refine ⟨h, by rw [List.getElem?_set_ne here, opened'], table_h, schema, ?_⟩
      -- Two files of one name have one table, and the catalog names one file for it.
      have differs : h.name ≠ g.name := by
        intro name
        have number := (shelved.files opened').number
        rw [name, (shelved.files opened).number, table_g, table_h] at number
        cases number
        rw [found] at found'
        cases found'
        exact here rfl
      rw [others h.name differs, whole']

theorem pages_eq_extent {table : TableId} {entry : TableEntry} {g : TableFile}
    (found : e.catalog.find? table = some entry)
    (opened : e.files[entry.file]? = some g) : g.pages = e.extent g.name := by
  obtain ⟨g₀, opened₀, -, -, whole⟩ := shelved.current found
  cases opened.symm.trans opened₀
  exact whole

/-! ### Every effect leaves the files where they stand -/

theorem homed_insert {page : Page} (homed : e.Homed page.id page) (p : PageId) (found : Page)
    (here : (e.resident.insert page.id page).get? p = some found) : e.Homed p found := by
  rw [FinMap.get?_insert] at here
  split at here
  · rename_i same
    cases here
    rw [same]
    exact homed
  · exact shelved.pages here

theorem homed_of_edit {p : PageId} {page edited : Page} (here : e.resident.get? p = some page)
    (edit : page.Edit edited) : e.Homed edited.id edited := by
  have homed := shelved.pages here
  obtain ⟨id, -, size⟩ := edit.frame_eq
  refine ⟨rfl, edit.shaped_edited homed.shaped, size.trans homed.size, ?_⟩
  rw [id, homed.id]
  exact homed.inside

theorem homed_of_read {p : PageId} {g g' : TableFile} {page : Page} {file : FileNo} (opened : e.files[file]? = some g)
    (reads : g.read (e.contentsOf g) p = .ok (page, g')) : e.Homed page.id page := by
  have shelf := shelved.files opened
  obtain ⟨own, inside, length, decoded, -⟩ := TableFile.read_eq_ok_iff.mp reads
  obtain ⟨shaped, id, -, size, -⟩ := Page.of_decode?_eq_some decoded
  refine ⟨rfl, shaped, by rw [size, length, shelf.pageSize], g.name, ?_, ?_⟩
  · rw [id, own]
    exact shelf.number
  · rw [id]
    exact Nat.lt_of_lt_of_le inside shelf.pages

/-- A page that is written is written over a page of its file. -/
theorem offset_add_le {p : PageId} {page : Page} {file : FileNo} {g : TableFile} (here : e.resident.get? p = some page)
    (opened : e.files[file]? = some g) (inside : page.id.number < g.pages) :
    g.offset page.id.number + page.encode.length ≤ (e.contentsOf g).length := by
  have homed := shelved.pages here
  have shelf := shelved.files opened
  have whole := Nat.div_mul_le_self (e.contentsOf g).length e.settings.pageSize
  have before := Nat.mul_le_mul_right e.settings.pageSize (Nat.le_trans inside shelf.pages)
  rw [homed.shaped.length_encode, homed.size, TableFile.offset, shelf.pageSize, ← Nat.succ_mul]
  exact Nat.le_trans before whole

section Written

variable {p : PageId} {page : Page} {file : FileNo} {g g' : TableFile} {contents : Bytes}
  (here : e.resident.get? p = some page) (opened : e.files[file]? = some g)
  (writes : g.write (e.contentsOf g) page = .ok (contents, g'))

include here opened writes

theorem length_written : contents.length = (e.contentsOf g).length := by
  obtain ⟨-, inside, rfl, -⟩ := TableFile.write_eq_ok_iff.mp writes
  have within := shelved.offset_add_le here opened inside
  rw [Bytes.length_overwrite _ _ _ (by omega)]
  omega

theorem extent_written (name : String) :
    ({ e with volume := e.volume.put g.name contents } : Engine).extent name = e.extent name := by
  rw [extent_put, shelved.length_written here opened writes]
  split
  · rename_i same
    rw [same]
    rfl
  · rfl

theorem getElem?_written {i : Nat} (apart : i < p.number * e.settings.pageSize ∨
    (p.number + 1) * e.settings.pageSize ≤ i) : contents[i]? = (e.contentsOf g)[i]? := by
  obtain ⟨-, inside, rfl, -⟩ := TableFile.write_eq_ok_iff.mp writes
  have within := shelved.offset_add_le here opened inside
  have homed := shelved.pages here
  rw [homed.shaped.length_encode, homed.size] at within
  rw [TableFile.offset, (shelved.files opened).pageSize, homed.id] at within ⊢
  rw [Nat.succ_mul] at apart
  refine Bytes.getElem?_overwrite_apart _ _ _ (by omega) ?_
  rw [homed.shaped.length_encode, homed.size]
  exact apart

theorem region_written_self :
    contents.region (p.number * e.settings.pageSize) e.settings.pageSize = page.encode := by
  obtain ⟨-, inside, rfl, -⟩ := TableFile.write_eq_ok_iff.mp writes
  have within := shelved.offset_add_le here opened inside
  have homed := shelved.pages here
  have size : page.encode.length = e.settings.pageSize := by rw [homed.shaped.length_encode, homed.size]
  rw [TableFile.offset, (shelved.files opened).pageSize, homed.id] at within ⊢
  have again := Bytes.region_overwrite_self (e.contentsOf g) page.encode (p.number * e.settings.pageSize) (by omega)
  rw [size] at again
  exact again

theorem region_written (number : Nat) :
    contents.region (number * e.settings.pageSize) e.settings.pageSize =
      if number = p.number then page.encode
      else (e.contentsOf g).region (number * e.settings.pageSize) e.settings.pageSize := by
  split
  · rename_i same
    rw [same]
    exact shelved.region_written_self here opened writes
  · rename_i differs
    apply Bytes.region_congr
    intro i start stop
    rw [← Nat.succ_mul] at stop
    exact shelved.getElem?_written here opened writes (apart_of_ne differs start stop)

end Written

section Extended

variable {table : TableId} {entry : TableEntry} {g : TableFile} (found : e.catalog.find? table = some entry)
  (opened : e.files[entry.file]? = some g)

include found opened

theorem length_before : g.pages * e.settings.pageSize ≤ (e.contentsOf g).length ∧
    (e.contentsOf g).length < (g.pages + 1) * e.settings.pageSize := by
  have whole : g.pages = (e.contentsOf g).length / e.settings.pageSize := shelved.pages_eq_extent found opened
  rw [whole, Nat.succ_mul]
  exact ⟨Nat.div_mul_le_self .., Nat.lt_div_mul_add (shelved.files opened).positive⟩

theorem extent_extended (name : String) :
    ({ e with volume := e.volume.put g.name (g.extend (e.contentsOf g)).1 } : Engine).extent name =
      if name = g.name then g.pages + 1 else e.extent name := by
  have shelf := shelved.files opened
  obtain ⟨start, rest⟩ := shelved.length_before found opened
  have length : (g.extend (e.contentsOf g)).1.length = (g.pages + 1) * e.settings.pageSize := by
    rw [TableFile.extend, TableFile.offset, shelf.pageSize, Bytes.length_overwrite _ _ _ start, Bytes.length_zeros,
      ← Nat.succ_mul]
    exact Nat.max_eq_right (Nat.le_of_lt rest)
  rw [extent_put, length, Nat.mul_div_cancel _ shelf.positive]

theorem region_extended {number : Nat} (inside : number < g.pages + 1) :
    (g.extend (e.contentsOf g)).1.region (number * e.settings.pageSize) e.settings.pageSize =
      if number = g.pages then Bytes.zeros e.settings.pageSize
      else (e.contentsOf g).region (number * e.settings.pageSize) e.settings.pageSize := by
  obtain ⟨start, -⟩ := shelved.length_before found opened
  rw [TableFile.extend, TableFile.offset, (shelved.files opened).pageSize]
  split
  · rename_i last
    have again := Bytes.region_overwrite_self (e.contentsOf g) (Bytes.zeros e.settings.pageSize)
      (g.pages * e.settings.pageSize) start
    rw [Bytes.length_zeros] at again
    rw [last, again]
  · refine Bytes.region_overwrite_apart _ _ _ _ _ start (.inl ?_)
    rw [← Nat.succ_mul]
    exact Nat.mul_le_mul_right _ (by omega)

end Extended

theorem shelved_of_effect (effect : Effect e e') : e'.Shelved := by
  cases effect with
  | aside recency locks => exact shelved.of_pages rfl rfl rfl rfl fun _ _ => shelved.pages
  | dropped p =>
    refine shelved.of_pages rfl rfl rfl rfl fun q page here => ?_
    rw [FinMap.get?_erase] at here
    split at here
    · exact absurd here (by simp)
    · exact shelved.pages here
  | edited here edit => exact shelved.of_pages rfl rfl rfl rfl (shelved.homed_insert (shelved.homed_of_edit here edit))
  | @loaded p entry g g' page found opened reads =>
    obtain ⟨-, -, -, -, rfl⟩ := TableFile.read_eq_ok_iff.mp reads
    have same : SameFile g { g with reads := g.reads + 1 } := ⟨rfl, rfl, rfl, rfl⟩
    have whole := shelved.pages_eq_extent found opened
    exact shelved.of_file found opened same (.of_volume rfl rfl) rfl rfl whole
      (fun _ _ => rfl) (shelved.homed_insert (shelved.homed_of_read opened reads))
  | @written p page entry g g' contents here found opened writes =>
    have extent := shelved.extent_written here opened writes
    obtain ⟨-, -, -, rfl⟩ := TableFile.write_eq_ok_iff.mp writes
    have same : SameFile g { g with writes := g.writes + 1 } := ⟨rfl, rfl, rfl, rfl⟩
    exact shelved.of_file found opened same ⟨rfl, id, fun name => Nat.le_of_eq (extent name).symm⟩ rfl rfl
      ((shelved.pages_eq_extent found opened).trans (extent g.name).symm) (fun name _ => extent name)
      (shelved.homed_insert (shelved.homed_of_edit here (.mark none)))
  | @extended table entry g found opened =>
    have extent := shelved.extent_extended found opened
    have same : SameFile g (g.extend (e.contentsOf g)).2 := ⟨rfl, rfl, rfl, rfl⟩
    refine shelved.of_file found opened same ⟨rfl, id, fun name => ?_⟩ rfl rfl ?_ ?_ fun _ _ => shelved.pages
    · refine Nat.le_trans ?_ (Nat.le_of_eq (extent name).symm)
      split
      · rename_i same
        rw [same, ← shelved.pages_eq_extent found opened]
        exact Nat.le_succ _
      · exact Nat.le_refl _
    · exact ((extent g.name).trans (if_pos rfl)).symm
    · exact fun name differs => (extent name).trans (if_neg differs)

end Shelved

/-! ### Another table -/

/-- Registering a table fails and changes nothing, or it opens one more file. -/
theorem createTable_cases (path : String) (schema : Schema) (name : String) (e : Engine) :
    (outcome (createTable path schema name) e).2 = e ∨
      ∃ fileName, e.volume.locate path = .ok fileName ∧ 0 < Page.capacity e.settings.pageSize schema ∧
        (outcome (createTable path schema name) e).2 = e.added schema name fileName := by
  rw [outcome, createTable, checkPageSize]
  by_cases small : Page.capacity e.settings.pageSize schema = 0
  · rw [if_pos small]
    exact .inl rfl
  · rw [if_neg small]
    cases located : e.volume.locate path with
    | error cause => exact .inl rfl
    | ok fileName =>
      refine .inr ⟨fileName, rfl, Nat.pos_of_ne_zero small, ?_⟩
      simp only [added, newFile, e.volume.contents_openTable fileName fileName]

theorem positive_of_capacity {size : Nat} {schema : Schema} (some : 0 < Page.capacity size schema) : 0 < size := by
  by_contra none
  rw [Nat.eq_zero_of_not_pos none, Page.capacity, Nat.zero_mul, Nat.zero_div] at some
  exact absurd some (Nat.lt_irrefl 0)

theorem longer_added (e : Engine) (schema : Schema) (name fileName : String) :
    Longer e (e.added schema name fileName) where
  settings := rfl
  number := e.volume.number?_openTable fileName _ _
  extent other := by
    rw [extent, extent, added, e.volume.contents_openTable fileName other]

theorem extent_added (e : Engine) (schema : Schema) (name fileName other : String) :
    (e.added schema name fileName).extent other = e.extent other := by
  rw [extent, extent, added, e.volume.contents_openTable fileName other]

theorem files_added (e : Engine) (schema : Schema) (name fileName : String) (file : FileNo) :
    (e.added schema name fileName).files[file]? =
      if file = e.files.length then some (e.newFile schema fileName) else e.files[file]? := by
  show (e.files ++ [e.newFile schema fileName])[file]? = _
  rw [List.getElem?_append]
  rcases Nat.lt_trichotomy file e.files.length with old | rfl | past
  · rw [if_pos old, if_neg (Nat.ne_of_lt old)]
  · rw [if_neg (Nat.lt_irrefl _), if_pos rfl, Nat.sub_self]
    rfl
  · rw [if_neg (by omega), if_neg (Nat.ne_of_gt past), List.getElem?_eq_none (by rw [List.length_singleton]; omega),
      List.getElem?_eq_none (by omega)]

theorem Shelved.shelved_added {e : Engine} (shelved : e.Shelved) {schema : Schema} (name fileName : String)
    (some : 0 < Page.capacity e.settings.pageSize schema) : (e.added schema name fileName).Shelved := by
  have longer := e.longer_added schema name fileName
  have extent := e.extent_added schema name fileName
  refine ⟨?_, ?_, fun here => longer.homed_mono (shelved.pages here)⟩
  · intro file g opened
    rw [files_added] at opened
    split at opened
    · cases opened
      exact ⟨rfl, positive_of_capacity some, e.volume.number?_openTable_self fileName,
        Nat.le_of_eq (extent fileName).symm⟩
    · exact longer.shelf_mono (shelved.files opened)
  · intro table entry found
    rcases Catalog.find?_register_cases _ _ _ found with ⟨rfl, rfl⟩ | before
    · exact ⟨e.newFile schema fileName, by rw [files_added, if_pos rfl], rfl, rfl, (extent fileName).symm⟩
    · obtain ⟨g, opened, table, schema, whole⟩ := shelved.current before
      obtain ⟨inside, -⟩ := List.getElem?_eq_some_iff.mp opened
      refine ⟨g, ?_, table, schema, whole.trans (extent g.name).symm⟩
      rw [files_added, if_neg (Nat.ne_of_lt inside), opened]

theorem Shelved.shelved_createTable {e : Engine} (shelved : e.Shelved) (path : String) (schema : Schema)
    (name : String) :
    (outcome (Engine.createTable path schema name) e).2.Shelved := by
  rcases createTable_cases path schema name e with same | ⟨fileName, -, some, same⟩
  · rw [same]
    exact shelved
  · rw [same]
    exact shelved.shelved_added name fileName some

end Engine

/-! ### Any number of moves -/

open Engine

namespace Course

theorem after_concat (settings : Settings) (volume : Volume) (moves : List Move) (move : Move) :
    after settings volume (moves ++ [move]) = (after settings volume moves).next move := by
  rw [after, List.foldl_append]
  rfl

theorem Kept.effects_step {c : Course} (kept : c.Kept) (op : Op) : Effects c.engine (c.next (.step op)).engine :=
  (op.act_unfolds c.engine kept.regular.tidy).outcome.2

theorem shelved_next {c : Course} (kept : c.Kept) (shelved : c.engine.Shelved) (move : Move) :
    (c.next move).engine.Shelved := by
  cases move with
  | register path schema name => exact shelved.shelved_createTable path schema name
  | step op => exact preserved_of_effects Shelved.shelved_of_effect (kept.effects_step op) shelved

theorem shelved_after (settings : Settings) (volume : Volume) (moves : List Move) :
    (after settings volume moves).engine.Shelved := by
  induction moves using List.reverseRecOn with
  | nil => exact shelved_start settings volume
  | append_singleton moves move ih =>
    rw [after_concat]
    exact shelved_next (kept_after settings volume moves) ih move

end Course

end RowStore
