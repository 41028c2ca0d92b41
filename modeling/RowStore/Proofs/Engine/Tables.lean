import RowStore.Proofs.Engine.Files
/-!
# Opening tables

A file keeps the number it got when it was first opened, so a table that is opened again is found
under the same number. Tables with files and names of their own can be opened one after another, each
beside those before it, and what was in the files is what a reader finds.
-/

namespace RowStore

namespace Volume

/-- The number of a file that has been opened. -/
def number? (v : Volume) (name : String) : Option TableId := (v.tables.idxOf? name).map fun i => ⟨i + 1⟩

theorem number?_inj {v : Volume} {name other : String} {table : TableId} (first : v.number? name = some table)
    (second : v.number? other = some table) : name = other := by
  obtain ⟨i, here, same⟩ := Option.map_eq_some_iff.mp first
  obtain ⟨j, there, rfl⟩ := Option.map_eq_some_iff.mp second
  obtain rfl : i = j := by simpa using same
  obtain ⟨_, found, -⟩ := List.idxOf?_eq_some_iff.mp here
  obtain ⟨_, found', -⟩ := List.idxOf?_eq_some_iff.mp there
  rw [← found, ← found']

theorem openTable_of_known (v : Volume) (name : String) (i : Nat) (known : v.tables.idxOf? name = some i) :
    v.openTable name = (⟨i + 1⟩, v.put name (v.contents name)) := by
  have known' : (v.put name (v.contents name)).tables.idxOf? name = some i := known
  rw [openTable]
  simp only [known']

theorem openTable_of_new (v : Volume) (name : String) (new : v.tables.idxOf? name = none) :
    v.openTable name = (⟨v.tables.length + 1⟩,
      { v.put name (v.contents name) with tables := v.tables ++ [name] }) := by
  have new' : (v.put name (v.contents name)).tables.idxOf? name = none := new
  rw [openTable]
  simp only [new']
  rfl

theorem contents_openTable (v : Volume) (name other : String) :
    (v.openTable name).2.contents other = v.contents other := by
  have put : (v.put name (v.contents name)).contents other = v.contents other := by
    rw [contents_put]
    split
    · rename_i same
      rw [same]
    · rfl
  cases known : v.tables.idxOf? name with
  | some i =>
    rw [openTable_of_known v name i known]
    exact put
  | none =>
    rw [openTable_of_new v name known]
    exact put

theorem number?_openTable_self (v : Volume) (name : String) :
    (v.openTable name).2.number? name = some (v.openTable name).1 := by
  cases known : v.tables.idxOf? name with
  | some i =>
    rw [openTable_of_known v name i known]
    show (v.tables.idxOf? name).map _ = _
    rw [known, Option.map_some]
  | none =>
    rw [openTable_of_new v name known]
    have absent := List.idxOf?_eq_none_iff.mp known
    have last : (v.tables ++ [name]).idxOf? name = some v.tables.length := by
      rw [List.idxOf?_eq_some_iff]
      refine ⟨by simp, by simp, ?_⟩
      intro j before same
      rw [List.getElem_append_left before] at same
      exact absent (same ▸ List.getElem_mem before)
    show ((v.tables ++ [name]).idxOf? name).map _ = _
    rw [last, Option.map_some]

theorem number?_openTable (v : Volume) (name other : String) (table : TableId)
    (numbered : v.number? other = some table) : (v.openTable name).2.number? other = some table := by
  cases known : v.tables.idxOf? name with
  | some i =>
    rw [openTable_of_known v name i known]
    exact numbered
  | none =>
    rw [openTable_of_new v name known]
    obtain ⟨i, found, rfl⟩ := Option.map_eq_some_iff.mp numbered
    obtain ⟨inside, here, before⟩ := List.idxOf?_eq_some_iff.mp found
    have still : (v.tables ++ [name]).idxOf? other = some i := by
      rw [List.idxOf?_eq_some_iff]
      refine ⟨by rw [List.length_append]; omega, by rw [List.getElem_append_left inside, here], ?_⟩
      intro j less
      rw [List.getElem_append_left (by omega)]
      exact before j less
    show ((v.tables ++ [name]).idxOf? other).map _ = _
    rw [still, Option.map_some]

/-- Where a path leads does not depend on what files there are. -/
theorem walk_eq_ok (v w : Volume) (slashAtEnd within : Bool) (parts : List String) (name : String)
    (found : v.walk slashAtEnd within parts = .ok name) : w.walk slashAtEnd within parts = .ok name := by
  induction parts generalizing within with
  | nil => exact absurd found (by simp [walk])
  | cons part rest ih =>
    rw [walk] at found ⊢
    split
    · rw [if_pos ‹_›] at found
      exact ih within found
    · rw [if_neg ‹_›] at found
      split
      · rw [if_pos ‹_›] at found
        exact ih false found
      · rw [if_neg ‹_›] at found
        split
        · rw [if_pos ‹_›] at found
          exact absurd found (by simp)
        · rw [if_neg ‹_›] at found
          exact found

theorem locate_eq_ok (v w : Volume) (path name : String) (found : v.locate path = .ok name) :
    w.locate path = .ok name := by
  rw [locate] at found ⊢
  split
  · rw [if_pos ‹_›] at found
    exact absurd found (by simp)
  · rw [if_neg ‹_›] at found
    split
    · rw [if_pos ‹_›] at found
      exact absurd found (by simp)
    · rw [if_neg ‹_›] at found
      exact v.walk_eq_ok w _ _ _ name found

end Volume

namespace Catalog

variable {c : Catalog} {table : TableId} {entry : TableEntry}

theorem register_of_new (new : c.find? table = none) (unused : c.named? entry.name = none) :
    c.register table entry = ⟨c.entries.insert table entry, c.names.insert entry.name table⟩ := by
  have kept : c.dropTable table = c := by rw [dropTable, new]
  have kept' : c.dropName entry.name = c := by rw [dropName, unused]
  rw [register, kept, kept']

end Catalog

structure TableSpec where
  path : String
  schema : Schema
  name : String
deriving DecidableEq

namespace TableSpec

def fileName? (t : TableSpec) : Option String := (Volume.empty.locate t.path).toOption

/-- The two tables share neither a file nor a name. -/
structure Apart (t u : TableSpec) : Prop where
  file : t.fileName? ≠ u.fileName?
  name : t.name ≠ u.name

theorem fileName?_eq_some_iff (t : TableSpec) (v : Volume) (name : String) :
    t.fileName? = some name ↔ v.locate t.path = .ok name := by
  rw [fileName?]
  constructor
  · intro found
    cases located : Volume.empty.locate t.path with
    | error cause =>
      rw [located] at found
      exact absurd found (by simp [Except.toOption])
    | ok other =>
      rw [located] at found
      cases found
      exact Volume.locate_eq_ok _ v _ _ located
  · intro located
    rw [Volume.locate_eq_ok v Volume.empty _ _ located]
    rfl

end TableSpec

/-- The bytes can be read as the pages of the file. -/
structure TableFile.Readable (f : TableFile) (contents : Bytes) : Prop where
  length : contents.length = f.pages * f.pageSize
  pages : ∀ number < f.pages, ∃ page,
    Page.decode? (f.pageId number) f.schema (contents.region (f.offset number) f.pageSize) = some page ∧
      page.Of f number

theorem TableFile.readable_empty (table : TableId) (name : String) (schema : Schema) (pageSize : Nat) :
    (ofContents table name schema pageSize []).Readable [] := by
  have pages : (ofContents table name schema pageSize []).pages = 0 := Nat.zero_div _
  refine ⟨?_, ?_⟩
  · rw [pages, Nat.zero_mul, List.length_nil]
  · intro number inside
    rw [pages] at inside
    exact absurd inside (Nat.not_lt_zero number)

namespace Engine

def openTables : List TableSpec → Action (List TableId)
  | [] => pure []
  | t :: rest => do
    let table ← createTable t.path t.schema t.name
    let tables ← openTables rest
    return table :: tables

/-- Tables have been registered, and nothing has been done with them so far. -/
structure Registered (e : Engine) : Prop where
  coherent : e.Coherent
  empty : e.resident = .empty
  unlocked : e.locks = .empty
  numbered : ∀ {table f}, e.fileOf? table = some f → e.volume.number? f.name = some table
  named : ∀ {name table}, e.catalog.named? name = some table →
    ∃ entry, e.catalog.find? table = some entry ∧ entry.name = name

theorem registered_start (settings : Settings) (volume : Volume) : Registered (start settings volume) where
  coherent :=
    { opened := fun found => absurd found (by simp [start, Catalog.find?, Catalog.empty])
      sized := fun file => absurd file (by simp [fileOf?, start, Catalog.find?, Catalog.empty])
      apart := fun file => absurd file (by simp [fileOf?, start, Catalog.find?, Catalog.empty])
      stored := fun file => absurd file (by simp [fileOf?, start, Catalog.find?, Catalog.empty])
      resident := fun found => absurd found (by simp [start]) }
  empty := rfl
  unlocked := rfl
  numbered := fun file => absurd file (by simp [fileOf?, start, Catalog.find?, Catalog.empty])
  named := fun found => absurd found (by simp [start, Catalog.named?, Catalog.empty])

/-- One more table is registered, and nothing else is different. -/
structure Added (table : TableId) (f : TableFile) (name : String) (e e' : Engine) : Prop where
  registered : Registered e'
  new : e.fileOf? table = none
  fileOf? : ∀ other, e'.fileOf? other = if other = table then some f else e.fileOf? other
  names : ∀ other entry, e'.catalog.find? other = some entry →
    entry.name = name ∨ e.catalog.find? other = some entry
  contents : ∀ name, e'.volume.contents name = e.volume.contents name
  numbers : ∀ {name other}, e.volume.number? name = some other → e'.volume.number? name = some other
  settings : e'.settings = e.settings

section Create

variable {e : Engine} (registered : Registered e) (t : TableSpec) {fileName : String}

def newFile (e : Engine) (schema : Schema) (fileName : String) : TableFile :=
  .ofContents (e.volume.openTable fileName).1 fileName schema e.settings.pageSize
    (e.volume.contents fileName)

def added (e : Engine) (schema : Schema) (name fileName : String) : Engine :=
  { e with
    volume := (e.volume.openTable fileName).2
    files := e.files ++ [e.newFile schema fileName]
    catalog := e.catalog.register (e.volume.openTable fileName).1 ⟨e.files.length, schema, name⟩ }

theorem createTable_eq (room : 0 < Page.capacity e.settings.pageSize t.schema)
    (located : t.fileName? = some fileName) :
    createTable t.path t.schema t.name e =
      .ok (e.volume.openTable fileName).1 (e.added t.schema t.name fileName) := by
  have enough : checkPageSize e.settings.pageSize t.schema = .ok () := if_neg (Nat.ne_of_gt room)
  rw [createTable, enough, (t.fileName?_eq_some_iff e.volume fileName).mp located]
  simp only [added, newFile, ← e.volume.contents_openTable fileName fileName]

variable (ownFile : ∀ table f, e.fileOf? table = some f → f.name ≠ fileName)

include registered ownFile

theorem Registered.fileOf?_new : e.fileOf? (e.volume.openTable fileName).1 = none := by
  cases file : e.fileOf? (e.volume.openTable fileName).1 with
  | none => rfl
  | some f =>
    have before := e.volume.number?_openTable fileName f.name _ (registered.numbered file)
    have after := e.volume.number?_openTable_self fileName
    exact absurd (Volume.number?_inj before after) (ownFile _ f file)

variable (ownName : ∀ table entry, e.catalog.find? table = some entry → entry.name ≠ t.name)

include ownName

theorem Registered.catalog_added :
    (e.added t.schema t.name fileName).catalog =
      ⟨e.catalog.entries.insert (e.volume.openTable fileName).1 ⟨e.files.length, t.schema, t.name⟩,
        e.catalog.names.insert t.name (e.volume.openTable fileName).1⟩ := by
  apply Catalog.register_of_new
  · cases found : e.catalog.find? (e.volume.openTable fileName).1 with
    | none => rfl
    | some entry =>
      obtain ⟨f, file, -⟩ := registered.coherent.opened found
      rw [registered.fileOf?_new ownFile] at file
      exact absurd file (by simp)
  · cases found : e.catalog.named? t.name with
    | none => rfl
    | some table =>
      obtain ⟨entry, known, same⟩ := registered.named found
      exact absurd same (ownName table entry known)

theorem Registered.find?_added (other : TableId) :
    (e.added t.schema t.name fileName).catalog.find? other =
      if other = (e.volume.openTable fileName).1 then some ⟨e.files.length, t.schema, t.name⟩
      else e.catalog.find? other := by
  rw [registered.catalog_added t ownFile ownName, Catalog.find?, FinMap.get?_insert]
  rfl

theorem Registered.fileOf?_added (other : TableId) :
    (e.added t.schema t.name fileName).fileOf? other =
      if other = (e.volume.openTable fileName).1 then some (e.newFile t.schema fileName)
      else e.fileOf? other := by
  rw [fileOf?, registered.find?_added t ownFile ownName]
  split
  · rw [Option.bind_some]
    simp only [added, List.map_append, List.getElem?_append_right, List.length_map, Nat.le_refl,
      Nat.sub_self]
    rfl
  · cases found : e.catalog.find? other with
    | none => rw [fileOf?, found, Option.bind_none, Option.bind_none]
    | some entry =>
      obtain ⟨f, file, -⟩ := registered.coherent.opened found
      obtain ⟨entry', g, same, opened, -⟩ := (e.fileOf?_eq_some_iff other f).mp file
      rw [found] at same
      cases same
      obtain ⟨inside, -⟩ := List.getElem?_eq_some_iff.mp opened
      rw [fileOf?, found, Option.bind_some, Option.bind_some]
      simp only [added, List.map_append]
      rw [List.getElem?_append_left (by rw [List.length_map]; exact inside)]

omit registered ownFile ownName in
theorem contentsOf_added (f : TableFile) :
    (e.added t.schema t.name fileName).contentsOf f = e.contentsOf f :=
  e.volume.contents_openTable fileName f.name

theorem Registered.bytes?_added (p : PageId) (other : p.table ≠ (e.volume.openTable fileName).1) :
    (e.added t.schema t.name fileName).bytes? p = e.bytes? p := by
  rw [bytes?, registered.fileOf?_added t ownFile ownName, if_neg other, bytes?]
  simp only [contentsOf_added]

variable (readable : (e.newFile t.schema fileName).Readable (e.volume.contents fileName))
  (room : 0 < Page.capacity e.settings.pageSize t.schema)

include readable room

theorem Registered.coherent_added : (e.added t.schema t.name fileName).Coherent := by
  have file := registered.fileOf?_added t ownFile ownName
  have old := registered.coherent
  constructor
  case opened =>
    intro table entry found
    rw [registered.find?_added t ownFile ownName] at found
    rw [file]
    split at found
    · rename_i own
      cases found
      rw [if_pos own]
      exact ⟨_, rfl, own.symm, rfl⟩
    · rw [if_neg ‹_›]
      exact old.opened found
  case sized =>
    intro table f here
    rw [file] at here
    rw [contentsOf_added]
    split at here
    · cases here
      exact ⟨rfl, room, readable.length⟩
    · exact old.sized here
  case apart =>
    intro table other f g first second shared
    rw [file] at first second
    split at first <;> split at second
    · rename_i own own'
      rw [own, own']
    · cases first
      exact absurd shared.symm (ownFile other g second)
    · cases second
      exact absurd shared (ownFile table f first)
    · exact old.apart first second shared
  case stored =>
    intro p f here inside
    rw [stored?, here, Option.bind_some]
    have here' := here
    rw [file] at here
    split at here
    · rename_i own
      cases here
      obtain ⟨page, decoded, of⟩ := readable.pages p.number inside
      refine ⟨page, ?_, of⟩
      have id : (e.newFile t.schema fileName).pageId p.number = p := by
        rw [TableFile.pageId]
        show PageId.mk (e.volume.openTable fileName).1 p.number = p
        rw [← own]
      rw [bytes?, here', Option.bind_some, if_pos inside, Option.bind_some, contentsOf_added]
      rw [id] at decoded
      exact decoded
    · rw [registered.bytes?_added t ownFile ownName p ‹_›]
      have stored := old.stored here inside
      rw [stored?, here, Option.bind_some] at stored
      exact stored
  case resident =>
    intro p page resident
    have copy : e.resident.get? p = some page := resident
    rw [registered.empty, FinMap.get?_empty] at copy
    exact absurd copy (by simp)

theorem Registered.registered_added : Registered (e.added t.schema t.name fileName) where
  coherent := registered.coherent_added t ownFile ownName readable room
  empty := registered.empty
  unlocked := registered.unlocked
  numbered := by
    intro table f file
    rw [registered.fileOf?_added t ownFile ownName] at file
    split at file
    · rename_i own
      cases file
      rw [own]
      exact e.volume.number?_openTable_self fileName
    · exact e.volume.number?_openTable fileName f.name table (registered.numbered file)
  named := by
    intro name table found
    rw [registered.catalog_added t ownFile ownName, Catalog.named?, FinMap.get?_insert] at found
    rw [registered.find?_added t ownFile ownName]
    split at found
    · rename_i own
      cases found
      rw [if_pos rfl]
      exact ⟨_, rfl, own.symm⟩
    · obtain ⟨entry, known, same⟩ := registered.named found
      rw [if_neg]
      · exact ⟨entry, known, same⟩
      · intro own
        obtain ⟨f, file, -⟩ := registered.coherent.opened known
        rw [own, registered.fileOf?_new ownFile] at file
        exact absurd file (by simp)

theorem Registered.added_newFile :
    Added (e.volume.openTable fileName).1 (e.newFile t.schema fileName) t.name e
      (e.added t.schema t.name fileName) where
  registered := registered.registered_added t ownFile ownName readable room
  new := registered.fileOf?_new ownFile
  fileOf? := registered.fileOf?_added t ownFile ownName
  names := by
    intro other entry found
    rw [registered.find?_added t ownFile ownName] at found
    split at found
    · cases found
      exact .inl rfl
    · exact .inr found
  contents := e.volume.contents_openTable fileName
  numbers := e.volume.number?_openTable fileName _ _
  settings := rfl

end Create

/-- The table is registered with what was in its file. -/
def Has (e : Engine) (settings : Settings) (volume : Volume) (t : TableSpec) (table : TableId) : Prop :=
  ∃ fileName, t.fileName? = some fileName ∧ 0 < Page.capacity settings.pageSize t.schema ∧
    e.fileOf? table =
      some (.ofContents table fileName t.schema settings.pageSize (volume.contents fileName))

/-- The tables have been registered, beside those that were registered before. -/
structure Opened (tables : List TableSpec) (ids : List TableId) (e e' : Engine) : Prop where
  registered : Registered e'
  settings : e'.settings = e.settings
  contents : ∀ name, e'.volume.contents name = e.volume.contents name
  numbers : ∀ {name other}, e.volume.number? name = some other → e'.volume.number? name = some other
  each : List.Forall₂ (e'.Has e.settings e.volume) tables ids
  kept : ∀ {table f}, e.fileOf? table = some f → e'.fileOf? table = some f
  only : ∀ {table f}, e'.fileOf? table = some f → table ∈ ids ∨ e.fileOf? table = some f

/-- What a table needs to be registered beside those that are there. -/
structure Fits (e : Engine) (t : TableSpec) (fileName : String) : Prop where
  located : t.fileName? = some fileName
  room : 0 < Page.capacity e.settings.pageSize t.schema
  file : ∀ table f, e.fileOf? table = some f → f.name ≠ fileName
  name : ∀ table entry, e.catalog.find? table = some entry → entry.name ≠ t.name
  readable : ∀ table, (TableFile.ofContents table fileName t.schema e.settings.pageSize
    (e.volume.contents fileName)).Readable (e.volume.contents fileName)

theorem Fits.fits_of_added {e e' : Engine} {t u : TableSpec} {fileName other : String} {table : TableId}
    {f : TableFile} (fits : Fits e u other) (added : Added table f t.name e e') (apart : t.Apart u)
    (named : f.name = fileName) (located : t.fileName? = some fileName) : Fits e' u other where
  located := fits.located
  room := by
    rw [added.settings]
    exact fits.room
  file := by
    intro table' g file
    rw [added.fileOf?] at file
    split at file
    · cases file
      intro same
      apply apart.file
      rw [located, fits.located, ← named, same]
    · exact fits.file table' g file
  name := by
    intro table' entry found
    rcases added.names table' entry found with same | before
    · rw [same]
      exact apart.name
    · exact fits.name table' entry before
  readable := by
    intro table'
    rw [added.contents, added.settings]
    exact fits.readable table'

/-- One table is registered before the others. -/
theorem Opened.cons {e e₁ e' : Engine} {t : TableSpec} {rest : List TableSpec} {table : TableId} {ids : List TableId}
    {fileName : String} (here : Fits e t fileName)
    (added : Added table (.ofContents table fileName t.schema e.settings.pageSize (e.volume.contents fileName)) t.name
      e e₁) (opened : Opened rest ids e₁ e') : Opened (t :: rest) (table :: ids) e e' where
  registered := opened.registered
  settings := opened.settings.trans added.settings
  contents name := (opened.contents name).trans (added.contents name)
  numbers known := opened.numbers (added.numbers known)
  each := by
    have file : e'.fileOf? table =
        some (.ofContents table fileName t.schema e.settings.pageSize (e.volume.contents fileName)) :=
      opened.kept (by rw [added.fileOf?, if_pos rfl])
    refine .cons ⟨fileName, here.located, here.room, file⟩ (opened.each.imp ?_)
    rintro u other ⟨name, located, room, has⟩
    rw [added.settings, added.contents] at has
    rw [added.settings] at room
    exact ⟨name, located, room, has⟩
  kept := by
    intro other f before
    apply opened.kept
    rw [added.fileOf?, if_neg]
    · exact before
    · rintro rfl
      rw [added.new] at before
      exact absurd before (by simp)
  only := by
    intro other f after
    rcases opened.only after with among | before
    · exact .inl (List.mem_cons_of_mem _ among)
    · rw [added.fileOf?] at before
      split at before
      · rename_i own
        rw [own]
        exact .inl List.mem_cons_self
      · exact .inr before

theorem openTables_ensures {e : Engine} (registered : Registered e) (tables : List TableSpec)
    (apart : tables.Pairwise TableSpec.Apart) (fits : ∀ t ∈ tables, ∃ fileName, Fits e t fileName) :
    Ensures (openTables tables) e fun
    | .ok ids, e' => Opened tables ids e e'
    | .error _, _ => False := by
  induction tables generalizing e with
  | nil =>
    exact .pure ⟨registered, rfl, fun _ => rfl, fun known => known, .nil, fun file => file, .inr⟩
  | cons t rest ih =>
    obtain ⟨apartHere, apartRest⟩ := List.pairwise_cons.mp apart
    obtain ⟨fileName, here⟩ := fits t List.mem_cons_self
    have created := createTable_eq t here.room here.located
    have added := registered.added_newFile t here.file here.name (here.readable _) here.room
    have first : Ensures (createTable t.path t.schema t.name) e fun
        | .ok table, e' => Added table (.ofContents table fileName t.schema e.settings.pageSize
            (e.volume.contents fileName)) t.name e e'
        | .error _, _ => False := by
      rw [Ensures, created]
      exact added
    refine first.bind ?_ fun _ _ => False.elim
    intro table e₁ added
    have fitsRest : ∀ u ∈ rest, ∃ other, Fits e₁ u other := by
      intro u among
      obtain ⟨other, there⟩ := fits u (List.mem_cons_of_mem _ among)
      exact ⟨other, there.fits_of_added added (apartHere u among) rfl here.located⟩
    refine (ih added.registered apartRest fitsRest).bind ?_ fun _ _ => False.elim
    exact fun ids e' opened => .pure (opened.cons here added)

/-- A table that could be registered has a file and room for a row on its pages. -/
theorem openTables_ok {e e' : Engine} {tables : List TableSpec} {ids : List TableId}
    (opened : openTables tables e = .ok ids e') :
    ∀ t ∈ tables, ∃ fileName, t.fileName? = some fileName ∧
      0 < Page.capacity e.settings.pageSize t.schema := by
  have each : Ensures (openTables tables) e fun
      | .ok _, e' => e'.settings = e.settings ∧ ∀ t ∈ tables, ∃ fileName,
          t.fileName? = some fileName ∧ 0 < Page.capacity e.settings.pageSize t.schema
      | .error _, _ => True := by
    clear opened
    induction tables generalizing e with
    | nil => exact .pure ⟨rfl, by simp⟩
    | cons t rest ih =>
      have first : Ensures (createTable t.path t.schema t.name) e fun
          | .ok _, e' => e'.settings = e.settings ∧ ∃ fileName, t.fileName? = some fileName ∧
              0 < Page.capacity e.settings.pageSize t.schema
          | .error _, _ => True := by
        rw [Ensures, createTable]
        cases checked : checkPageSize e.settings.pageSize t.schema with
        | error fault => trivial
        | ok =>
          cases located : e.volume.locate t.path with
          | error cause => trivial
          | ok fileName =>
            have file := (t.fileName?_eq_some_iff e.volume fileName).mpr located
            refine ⟨rfl, fileName, file, Nat.pos_of_ne_zero ?_⟩
            intro none
            rw [checkPageSize, if_pos none] at checked
            exact absurd checked (by simp)
      refine first.bind ?_ fun _ _ _ => trivial
      intro table e₁ created
      obtain ⟨settings, found⟩ := created
      refine ih.bind ?_ fun _ _ _ => trivial
      intro ids e' later
      obtain ⟨settings', found'⟩ := later
      refine .pure ⟨settings'.trans settings, ?_⟩
      intro u among
      rcases List.mem_cons.mp among with rfl | later
      · exact found
      · rw [← settings]
        exact found' u later
  exact (each.of_ok opened).2

/-- Tables with files and names of their own can be opened when what is in the files can be read. -/
theorem opened_of_readable {settings : Settings} {volume : Volume} {tables : List TableSpec} {ids : List TableId}
    {e : Engine} (apart : tables.Pairwise TableSpec.Apart)
    (readable : ∀ t ∈ tables, ∀ name, t.fileName? = some name → ∀ table,
      (TableFile.ofContents table name t.schema settings.pageSize (volume.contents name)).Readable (volume.contents name))
    (done : openTables tables (start settings volume) = .ok ids e) : Opened tables ids (start settings volume) e := by
  refine (openTables_ensures (registered_start settings volume) tables apart ?_).of_ok done
  intro t among
  obtain ⟨fileName, located, room⟩ := openTables_ok done t among
  refine ⟨fileName, located, room, ?_, ?_, readable t among fileName located⟩
  · intro table f file
    exact absurd file (by simp [fileOf?, start, Catalog.find?, Catalog.empty])
  · intro table entry found
    exact absurd found (by simp [start, Catalog.find?, Catalog.empty])

/-- The tables have files and names of their own, and there is nothing in the files. -/
structure Fresh (volume : Volume) (tables : List TableSpec) : Prop where
  apart : tables.Pairwise TableSpec.Apart
  empty : ∀ t ∈ tables, ∀ name, t.fileName? = some name → volume.contents name = []

theorem Fresh.opened_of_done {settings : Settings} {volume : Volume} {tables : List TableSpec} {ids : List TableId}
    {e : Engine} (fresh : Fresh volume tables) (done : openTables tables (start settings volume) = .ok ids e) :
    Opened tables ids (start settings volume) e := by
  refine opened_of_readable fresh.apart ?_ done
  intro t among name located table
  rw [fresh.empty t among name located]
  exact TableFile.readable_empty ..

theorem Opened.exists_has_of_fileOf? {settings : Settings} {volume : Volume} {tables : List TableSpec}
    {ids : List TableId}
    {e : Engine} (opened : Opened tables ids (start settings volume) e) {table : TableId} {f : TableFile}
    (file : e.fileOf? table = some f) : ∃ t ∈ tables, e.Has settings volume t table := by
  rcases opened.only file with among | before
  · obtain ⟨i, inside, rfl⟩ := List.getElem_of_mem among
    have length := opened.each.length_eq
    refine ⟨tables[i], List.getElem_mem _, ?_⟩
    exact opened.each.get (by omega) inside
  · exact absurd before (by simp [fileOf?, start, Catalog.find?, Catalog.empty])

theorem Fresh.pages_eq_zero {settings : Settings} {volume : Volume} {tables : List TableSpec} {ids : List TableId}
    {e : Engine} (fresh : Fresh volume tables) (opened : Opened tables ids (start settings volume) e)
    {table : TableId} {f : TableFile} (file : e.fileOf? table = some f) : f.pages = 0 := by
  obtain ⟨t, among, fileName, located, -, here⟩ := opened.exists_has_of_fileOf? file
  rw [file] at here
  cases here
  rw [TableFile.ofContents, fresh.empty t among fileName located]
  exact Nat.zero_div _

end Engine

end RowStore
