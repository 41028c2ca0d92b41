import RowStore.Proofs.Engine.Shelves
import RowStore.Proofs.FullPool
/-!
# Looking, and no more

A step that looks for a page changes nothing that it does not own up to: the files keep their bytes, copies with
changes stay in memory as they are, and what comes into memory is what the file has. Nothing of another table is
locked or brought in. An insert that finds every page full adds a page of zeros besides, and only a step that does
not fail goes on to put another version of one page in memory.
-/

namespace RowStore

namespace Engine

/-- No copy in memory holds a change of the page. -/
def Unchanged (e : Engine) (p : PageId) : Prop := ∀ page, e.resident.get? p = some page → page.dirtier = none

/-- The copy of the page in memory is the one that was there, or it had no changes: then it may have been given up, and
where the page is of these tables it may have been read again. -/
def Copied (mine : TableId → Prop) (p : PageId) (e e' : Engine) : Prop :=
  e'.resident.get? p = e.resident.get? p ∨
    e.Unchanged p ∧ (e'.resident.get? p = none ∨ mine p.table ∧ e'.resident.get? p = e.stored? p)

/-- A reader finds the page as before, unless a copy without changes was in memory: then he may find what the file
has. -/
def Seen (p : PageId) (e e' : Engine) : Prop := e'.view? p = e.view? p ∨
  (∃ page, e.resident.get? p = some page ∧ page.dirtier = none) ∧ e'.view? p = e.stored? p

namespace Copied

variable {mine : TableId → Prop} {p : PageId} {e e' e'' : Engine}

theorem trans (first : Copied mine p e e') (second : Copied mine p e' e'') (stored : e'.stored? p = e.stored? p) :
    Copied mine p e e'' := by
  rcases first with same | ⟨unchanged, came⟩
  · have stays : e'.Unchanged p → e.Unchanged p := fun unchanged page here => unchanged page (same.trans here)
    rcases second with same' | ⟨unchanged, left | ⟨own, read⟩⟩
    · exact .inl (same'.trans same)
    · exact .inr ⟨stays unchanged, .inl left⟩
    · exact .inr ⟨stays unchanged, .inr ⟨own, by rw [read, stored]⟩⟩
  · refine .inr ⟨unchanged, ?_⟩
    rcases second with same' | ⟨-, left | ⟨own, read⟩⟩
    · rw [same']
      exact came
    · exact .inl left
    · exact .inr ⟨own, by rw [read, stored]⟩

theorem seen_of_stored (copied : Copied mine p e e') (stored : e'.stored? p = e.stored? p) : Seen p e e' := by
  cases here : e.resident.get? p with
  | none =>
    left
    rw [view?_of_absent here]
    rcases copied with same | ⟨-, left | ⟨-, read⟩⟩
    · rw [view?_of_absent (same.trans here), stored]
    · rw [view?_of_absent left, stored]
    · rw [Engine.view?, read, stored, Option.or_self]
  | some page =>
    rcases copied with same | ⟨unchanged, left | ⟨-, read⟩⟩
    · left
      rw [view?_of_resident here, view?_of_resident (same.trans here)]
    · exact .inr ⟨⟨page, here, unchanged page here⟩, by rw [view?_of_absent left, stored]⟩
    · refine .inr ⟨⟨page, here, unchanged page here⟩, ?_⟩
      rw [Engine.view?, read, stored, Option.or_self]

variable {page : Page}

theorem held_before (copied : Copied mine p e e') (here : e'.resident.get? p = some page) :
    e.resident.get? p = some page ∨ e.stored? p = some page := by
  rcases copied with same | ⟨-, left | ⟨-, read⟩⟩
  · exact .inl (same.symm.trans here)
  · exact absurd (left.symm.trans here) (by simp)
  · exact .inr (read.symm.trans here)

theorem held_changed (copied : Copied mine p e e') (here : e'.resident.get? p = some page) {txn : TxnId}
    (dirty : page.dirtier = some txn) : e.resident.get? p = some page := by
  rcases copied.held_before here with before | stored
  · exact before
  · exact absurd ((e.stored?_dirtier p page stored).symm.trans dirty) (by simp)

end Copied

/-- Pages of these tables have been looked at. -/
structure Glanced (mine : TableId → Prop) (e e' : Engine) : Prop extends SameFiles e e' where
  copies : ∀ p, Copied mine p e e'
  locks : ∀ p holder, ¬mine p.table → e'.locks.mode? holder p = e.locks.mode? holder p

namespace Glanced

variable {mine : TableId → Prop} {e e' e'' : Engine}

theorem refl : Glanced mine e e := ⟨⟨rfl, rfl, rfl, rfl⟩, fun _ => .inl rfl, fun _ _ _ => rfl⟩

theorem trans (first : Glanced mine e e') (second : Glanced mine e' e'') : Glanced mine e e'' where
  pageSize := second.pageSize.trans first.pageSize
  volume := second.volume.trans first.volume
  catalog := second.catalog.trans first.catalog
  files := second.files.trans first.files
  locks p holder other := (second.locks p holder other).trans (first.locks p holder other)
  copies p := (first.copies p).trans (second.copies p) (first.stored?_kept p)

end Glanced

/-! ### A page is looked at -/

section

variable {mine : TableId → Prop} {p : PageId}

theorem lock_glances (own : mine p.table) (txn : TxnId) (mode : LockMode) (e : Engine) :
    Ensures (lock txn p mode) e fun _ e' => Glanced mine e e' ∧ e'.resident = e.resident := by
  have relocked : ∀ locks : LockTable, (∀ q holder, q ≠ p → locks.mode? holder q = e.locks.mode? holder q) →
      Glanced mine e { e with locks } := by
    intro locks others
    refine ⟨⟨rfl, rfl, rfl, rfl⟩, fun _ => .inl rfl, ?_⟩
    rintro q holder other
    apply others
    rintro rfl
    exact other own
  refine (lock_ensures txn p mode).mono ?_
  rintro (fault | _) e'
  · rintro ⟨-, -, rfl⟩
    exact ⟨relocked _ fun _ _ _ => rfl, rfl⟩
  · rintro ⟨-, rfl⟩
    refine ⟨relocked _ fun q holder differs => ?_, rfl⟩
    rw [LockTable.mode?_grant, if_neg fun same => differs same.1]

theorem unlockUnless_glances (own : mine p.table) (held : Bool) (txn : TxnId) (e : Engine) :
    Ensures (unlockUnless held txn p) e fun _ e' => Glanced mine e e' := by
  cases held with
  | true => exact .refl
  | false =>
    refine ⟨⟨rfl, rfl, rfl, rfl⟩, fun _ => .inl rfl, ?_⟩
    intro q holder other
    refine (LockTable.mode?_release ..).trans (if_neg ?_)
    rintro ⟨rfl, -⟩
    exact other own

theorem makeRoom_glances (mine : TableId → Prop) (e : Engine) : Ensures makeRoom e fun _ e' =>
    Glanced mine e e' ∧ ∀ p, e.resident.get? p = none → e'.resident.get? p = none := by
  refine (makeRoom_gives_up e).mono ?_
  rintro (fault | _) e' made
  · obtain ⟨-, rfl, -⟩ := made
    exact ⟨.refl, fun _ absent => absent⟩
  · obtain ⟨-, ⟨-, rfl⟩ | ⟨-, victim, recency, ⟨page, here, clean, -⟩, rfl⟩⟩ := made
    · exact ⟨.refl, fun _ absent => absent⟩
    · have left : ∀ q, (e.resident.erase victim).get? q = if q = victim then none else e.resident.get? q :=
        FinMap.get?_erase e.resident victim
      refine ⟨⟨⟨rfl, rfl, rfl, rfl⟩, fun q => ?_, fun _ _ _ => rfl⟩, fun q absent => ?_⟩
      · by_cases same : q = victim
        · refine .inr ⟨?_, .inl ((left q).trans (if_pos same))⟩
          intro copy found
          rw [same, here] at found
          cases found
          simpa [Page.isDirty] using clean
        · exact .inl ((left q).trans (if_neg same))
      · refine (left q).trans ?_
        rw [absent, ite_self]

theorem stored?_of_read {e : Engine} {entry : TableEntry} {g g' : TableFile} {page : Page}
    (found : e.catalog.find? p.table = some entry) (opened : e.files[entry.file]? = some g)
    (reads : g.read (e.contentsOf g) p = .ok (page, g')) : e.stored? p = some page := by
  obtain ⟨-, inside, -, decoded, -⟩ := TableFile.read_eq_ok_iff.mp reads
  have file : e.fileOf? p.table = some g.unread := (e.fileOf?_eq_some_iff _ _).mpr ⟨entry, g, found, opened, rfl⟩
  rw [stored?_eq file, bytes?_eq file, if_pos inside]
  exact decoded

theorem sameFiles_of_read {e : Engine} {file : FileNo} {g g' : TableFile} {contents : Bytes} {page : Page}
    (opened : e.files[file]? = some g) (reads : g.read contents p = .ok (page, g')) : SameFiles e (e.setFile file g') := by
  obtain ⟨-, -, -, -, rfl⟩ := TableFile.read_eq_ok_iff.mp reads
  exact .sameFiles_setFile opened _

theorem load_glances (own : mine p.table) {e : Engine} (absent : e.resident.get? p = none) :
    Ensures (load p) e fun answer e' => Glanced mine e e' ∧ ∀ page, answer = .ok page → e.stored? p = some page := by
  refine (makeRoom_glances mine e).bind ?_ fun _ _ failed => ⟨failed.1, by simp⟩
  rintro _ e₁ ⟨glanced, still⟩
  refine (resolve_ensures p.table).bind ?_ ?_
  · rintro entry e₁ ⟨rfl, found⟩
    refine (readPage_ok entry.file p e₁).bind ?_ ?_
    · rintro page e₂ ⟨g, g', opened, reads, rfl⟩
      have stored := stored?_of_read found opened reads
      have same := sameFiles_of_read opened reads
      obtain ⟨-, -, -, decoded, -⟩ := TableFile.read_eq_ok_iff.mp reads
      obtain ⟨id, -⟩ := Page.frame_of_decode? decoded
      have kept : Glanced mine e₁ { e₁.setFile entry.file g' with
          resident := e₁.resident.insert page.id page, recency := e₁.recency.touch p } := by
        refine ⟨⟨same.pageSize, same.volume, same.catalog, same.files⟩, fun q => ?_, fun _ _ _ => rfl⟩
        have inserted := FinMap.get?_insert e₁.resident page.id q page
        rw [id] at inserted
        by_cases this : q = p
        · rw [this, if_pos rfl] at inserted
          refine .inr ⟨?_, .inr ⟨this ▸ own, ?_⟩⟩
          · intro copy found'
            rw [this, still p absent] at found'
            exact absurd found' (by simp)
          · rw [this, stored, id]
            exact inserted
        · rw [if_neg this] at inserted
          exact .inl (by rw [id]; exact inserted)
      refine ⟨glanced.trans kept, ?_⟩
      rintro found' ⟨⟩
      rw [← glanced.stored?_kept]
      exact stored
    · rintro fault e₂ rfl
      exact ⟨glanced, by simp⟩
  · rintro fault e₂ ⟨rfl, -⟩
    exact ⟨glanced, by simp⟩

theorem getPage_glances (own : mine p.table) (txn : TxnId) (mode : LockMode) (e : Engine) :
    Ensures (getPage txn p mode) e fun answer e' =>
      Glanced mine e e' ∧ ∀ page, answer = .ok page → e.view? p = some page := by
  refine (lock_glances own txn mode e).bind ?_ fun _ _ failed => ⟨failed.1, by simp⟩
  rintro _ e₁ ⟨locked, resident⟩
  refine .get_bind ?_
  cases here : e₁.resident.get? p with
  | some page =>
    refine ⟨locked.trans ⟨⟨rfl, rfl, rfl, rfl⟩, fun _ => .inl rfl, fun _ _ _ => rfl⟩, ?_⟩
    rintro found ⟨⟩
    rw [resident] at here
    exact view?_of_resident here
  | none =>
    refine (load_glances own here).mono ?_
    rintro answer e₂ ⟨glanced, loaded⟩
    refine ⟨locked.trans glanced, fun page done => ?_⟩
    rw [resident] at here
    rw [view?_of_absent here, ← locked.stored?_kept]
    exact loaded page done

end

/-! ### A file grows -/

/-- What is known of the file of a registered table. -/
structure Filed (e : Engine) (table : TableId) (f : TableFile) : Prop where
  own : f.table = table
  number : e.volume.number? f.name = some table
  pageSize : f.pageSize = e.settings.pageSize
  positive : 0 < e.settings.pageSize
  pages : f.pages = e.extent f.name
  schema : ∃ entry, e.catalog.find? table = some entry ∧ entry.schema = f.schema

/-- The file of the table has one page more, which is of zeros. -/
structure Lengthened (table : TableId) (f : TableFile) (e e' : Engine) : Prop where
  file : e.fileOf? table = some f
  shelved : e'.Shelved
  pageSize : e'.settings.pageSize = e.settings.pageSize
  catalog : e'.catalog = e.catalog
  tables : e'.volume.tables = e.volume.tables
  resident : e'.resident = e.resident
  locks : e'.locks = e.locks
  fileOf? : ∀ other, e'.fileOf? other =
    if other = table then some { f with pages := f.pages + 1 } else e.fileOf? other
  contents : ∀ name, e'.volume.contents name =
    if name = f.name then (f.extend (e.contentsOf f)).1 else e.volume.contents name
  stored? : ∀ q, e'.stored? q = if q = ⟨table, f.pages⟩ then some (.blank q f.schema f.pageSize) else e.stored? q

/-- Every table that is registered has room for a row on a page. -/
def Roomy (e : Engine) : Prop :=
  ∀ table entry, e.catalog.find? table = some entry → 0 < Page.capacity e.settings.pageSize entry.schema

/-- Memory, files and catalog are as they should be. -/
structure Sturdy (e : Engine) : Prop where
  tidy : e.Tidy
  shelved : e.Shelved
  roomy : e.Roomy

/-- No effect alters the settings or opens a file. -/
theorem settings_of_effects {e e' : Engine} (effects : Effects e e') :
    e'.settings = e.settings ∧ e'.volume.tables = e.volume.tables := by
  refine @preserved_of_effects (fun e' => e'.settings = e.settings ∧ e'.volume.tables = e.volume.tables) ?_ e e'
    effects ⟨rfl, rfl⟩
  intro e₁ e₂ same last
  cases last <;> exact same

theorem Sturdy.of_effects {e e' : Engine} (sturdy : e.Sturdy) (tidy : e'.Tidy) (effects : Effects e e') :
    e'.Sturdy where
  tidy := tidy
  shelved := preserved_of_effects Shelved.shelved_of_effect effects sturdy.shelved
  roomy := by
    rw [Roomy, catalog_of_effects effects, (settings_of_effects effects).1]
    exact sturdy.roomy

theorem Sturdy.sturdy_start (settings : Settings) (volume : Volume) : (start settings volume).Sturdy where
  tidy := tidy_start settings volume
  shelved := shelved_start settings volume
  roomy _ _ found := absurd found (by simp [Engine.start, Catalog.find?, Catalog.empty])

theorem Sturdy.sturdy_added {e : Engine} (sturdy : e.Sturdy) {schema : Schema} (name fileName : String)
    (some : 0 < Page.capacity e.settings.pageSize schema) : (e.added schema name fileName).Sturdy where
  tidy := (sturdy.tidy.orderly_of_same_memory rfl rfl rfl : Orderly e (e.added schema name fileName)).tidy
  shelved := sturdy.shelved.shelved_added name fileName some
  roomy table entry found := by
    rcases Catalog.find?_register_cases _ _ _ found with ⟨rfl, rfl⟩ | before
    · exact some
    · exact sturdy.roomy table entry before

namespace Shelved

variable {e : Engine} (shelved : e.Shelved)

include shelved

theorem filed_of_fileOf? {table : TableId} {f : TableFile} (file : e.fileOf? table = some f) : e.Filed table f := by
  obtain ⟨entry, g, found, opened, rfl⟩ := (e.fileOf?_eq_some_iff table f).mp file
  obtain ⟨g₀, opened₀, own, schema, whole⟩ := shelved.current found
  cases opened.symm.trans opened₀
  have shelf := shelved.files opened
  exact ⟨own, own ▸ shelf.number, shelf.pageSize, shelf.positive, whole, entry, found, schema.symm⟩

theorem name_ne_of_ne {table other : TableId} {f g : TableFile} (file : e.fileOf? table = some f)
    (file' : e.fileOf? other = some g) (differs : other ≠ table) : g.name ≠ f.name := by
  intro same
  have number := (shelved.filed_of_fileOf? file').number
  rw [same, (shelved.filed_of_fileOf? file).number] at number
  exact differs (Option.some.inj number).symm

theorem stored?_eq {p : PageId} {f : TableFile} (file : e.fileOf? p.table = some f) : e.stored? p =
    if p.number < f.pages then Page.decode? p f.schema (e.pageBytes f.name p.number) else none := by
  have filed := shelved.filed_of_fileOf? file
  rw [Engine.stored?_eq file, Engine.bytes?, file, Option.bind_some, TableFile.offset, filed.pageSize]
  split
  · rfl
  · rfl

/-- When another file is put in the place of a table's, the other tables have theirs still. -/
theorem fileOf?_set {table : TableId} {entry : TableEntry} {g g' : TableFile}
    (found : e.catalog.find? table = some entry) (opened : e.files[entry.file]? = some g) (other : TableId) :
    (e.setFile entry.file g').fileOf? other = if other = table then some g'.unread else e.fileOf? other := by
  obtain ⟨inside, -⟩ := List.getElem?_eq_some_iff.mp opened
  have inside' : entry.file < (e.files.map TableFile.unread).length := by rwa [List.length_map]
  have there : (e.setFile entry.file g').fileOf? other = (e.catalog.find? other).bind fun found =>
      ((e.files.map TableFile.unread).set entry.file g'.unread)[found.file]? := by
    rw [Engine.fileOf?, setFile, List.map_set]
  rw [there]
  by_cases same : other = table
  · rw [if_pos same, same, found, Option.bind_some, List.getElem?_set_self inside']
  · rw [if_neg same, Engine.fileOf?]
    cases found' : e.catalog.find? other with
    | none => rfl
    | some entry' =>
      obtain ⟨g₀, opened₀, own, -⟩ := shelved.current found
      obtain ⟨h, opened', own', -⟩ := shelved.current found'
      have elsewhere : entry.file ≠ entry'.file := by
        intro here
        rw [← here, opened₀] at opened'
        cases opened'
        exact same (own'.symm.trans own)
      rw [Option.bind_some, Option.bind_some, List.getElem?_set_ne elsewhere]

theorem lengthened_extend {table : TableId} {entry : TableEntry} {g : TableFile}
    (found : e.catalog.find? table = some entry) (opened : e.files[entry.file]? = some g) :
    Lengthened table g.unread e { e.setFile entry.file (g.extend (e.contentsOf g)).2 with
      volume := e.volume.put g.name (g.extend (e.contentsOf g)).1 } := by
  let e' : Engine := { e.setFile entry.file (g.extend (e.contentsOf g)).2 with
    volume := e.volume.put g.name (g.extend (e.contentsOf g)).1 }
  let f' : TableFile := { g.unread with pages := g.pages + 1 }
  have longer : e'.Shelved := shelved.shelved_of_effect (.extended found opened)
  have file : e.fileOf? table = some g.unread := (e.fileOf?_eq_some_iff _ _).mpr ⟨entry, g, found, opened, rfl⟩
  have contents : ∀ name, e'.volume.contents name =
      if name = g.name then (g.extend (e.contentsOf g)).1 else e.volume.contents name :=
    fun name => e.volume.contents_put g.name name _
  have files : ∀ other, e'.fileOf? other = if other = table then some f' else e.fileOf? other :=
    fun other => shelved.fileOf?_set found opened other
  have stored : ∀ q, e'.stored? q =
      if q = ⟨table, g.pages⟩ then some (.blank q g.schema g.pageSize) else e.stored? q := by
    intro q
    by_cases own : q.table = table
    · have there : e.fileOf? q.table = some g.unread := by rw [own, file]
      have before := shelved.stored?_eq there
      change e.stored? q =
        if q.number < g.pages then Page.decode? q g.schema (e.pageBytes g.name q.number) else none at before
      have after : e'.stored? q =
          if q.number < g.pages + 1 then Page.decode? q g.schema (e'.pageBytes g.name q.number) else none :=
        longer.stored?_eq (by rw [files, if_pos own])
      have bytes : q.number < g.pages + 1 → e'.pageBytes g.name q.number =
          if q.number = g.pages then Bytes.zeros e.settings.pageSize else e.pageBytes g.name q.number := by
        intro inside
        rw [pageBytes, contents, if_pos rfl]
        exact shelved.region_extended found opened inside
      by_cases last : q.number = g.pages
      · have this : q = ⟨table, g.pages⟩ := by rw [← own, ← last]
        rw [if_pos this, after, if_pos (by omega), bytes (by omega), if_pos last, ← (shelved.files opened).pageSize]
        exact Page.decode?_zeros _ _ _
      · have other : q ≠ ⟨table, g.pages⟩ := fun same => last (congrArg PageId.number same)
        rw [if_neg other, before, after]
        by_cases inside : q.number < g.pages
        · rw [if_pos (by omega), if_pos inside, bytes (by omega), if_neg last]
        · rw [if_neg (by omega), if_neg inside]
    · have other : q ≠ ⟨table, g.pages⟩ := fun same => own (congrArg PageId.table same)
      have same : e'.fileOf? q.table = e.fileOf? q.table := by rw [files, if_neg own]
      rw [if_neg other]
      cases file' : e.fileOf? q.table with
      | none => rw [Engine.stored?, Engine.stored?, same, file', Option.bind_none, Option.bind_none]
      | some f =>
        have apart := shelved.name_ne_of_ne file file' own
        change f.name ≠ g.name at apart
        rw [shelved.stored?_eq file', longer.stored?_eq (same.trans file'), pageBytes, pageBytes, contents,
          if_neg apart]
        rfl
  exact ⟨file, longer, rfl, rfl, rfl, rfl, rfl, files, contents, stored⟩

theorem extendFile_lengthens {table : TableId} {entry : TableEntry} (found : e.catalog.find? table = some entry) :
    Ensures (extendFile entry.file table) e fun
      | .ok p, e' => ∃ f, Lengthened table f e e' ∧ p = ⟨table, f.pages⟩
      | .error _, _ => False := by
  obtain ⟨g, opened, own, -⟩ := shelved.current found
  have openFile : openFile entry.file table e = .ok g e := by rw [openFile, opened]
  refine (?_ : Ensures (Engine.openFile entry.file table) e fun answer e' => answer = .ok g ∧ e' = e).bind ?_ ?_
  · rw [Ensures, openFile]
    exact ⟨rfl, rfl⟩
  · rintro _ e ⟨⟨⟩, rfl⟩
    exact ⟨g.unread, shelved.lengthened_extend found opened, congrArg (PageId.mk · g.pages) own⟩
  · rintro fault e ⟨⟨⟩, -⟩

theorem absent_of_past {table : TableId} {f : TableFile} (file : e.fileOf? table = some f) {number : Nat}
    (past : f.pages ≤ number) : e.resident.get? ⟨table, number⟩ = none := by
  rw [Option.eq_none_iff_forall_ne_some]
  intro page here
  obtain ⟨name, numbered, inside⟩ := (shelved.pages here).inside
  have filed := shelved.filed_of_fileOf? file
  have same : f.name = name := Volume.number?_inj filed.number numbered
  rw [← same, ← filed.pages] at inside
  exact absurd inside (Nat.not_lt.mpr past)

theorem roomy_of_lengthened {table : TableId} {f : TableFile} {e' : Engine} (roomy : e.Roomy)
    (longer : Lengthened table f e e') {page : Page} (seen : e'.view? ⟨table, f.pages⟩ = some page) :
    page.freeSlots ≠ 0 := by
  intro full
  have absent : e'.resident.get? ⟨table, f.pages⟩ = none := by
    rw [longer.resident]
    exact shelved.absent_of_past longer.file (Nat.le_refl _)
  rw [view?_of_absent absent, longer.stored?, if_pos rfl] at seen
  cases seen
  have filed := shelved.filed_of_fileOf? longer.file
  obtain ⟨entry, found, columns⟩ := filed.schema
  have room := roomy table entry found
  rw [columns, ← filed.pageSize] at room
  have used := (Page.freeSlots_eq_zero_iff _).mp full 0 (by simpa only [Page.blank, List.length_replicate] using room)
  rw [Page.isUsed_eq, Page.valuesAt_blank] at used
  exact absurd used (by simp)

/-- The page as the file has it could be in memory. -/
theorem homed_of_stored {p : PageId} {page : Page} (stored : e.stored? p = some page) : e.Homed p page := by
  obtain ⟨f, file, inside⟩ := stored?_inside e p page stored
  have filed := shelved.filed_of_fileOf? file
  rw [shelved.stored?_eq file, if_pos inside] at stored
  obtain ⟨shaped, id, -, size, -⟩ := Page.of_decode?_eq_some stored
  have inside' : p.number < e.extent f.name := by rwa [← filed.pages]
  refine ⟨id, shaped, ?_, f.name, filed.number, inside'⟩
  have within : (p.number + 1) * e.settings.pageSize ≤ (e.volume.contents f.name).length :=
    Nat.le_trans (Nat.mul_le_mul_right _ inside') (Nat.div_mul_le_self _ _)
  rw [Nat.succ_mul] at within
  rw [size, pageBytes, Bytes.length_region]
  omega

theorem shelved_of_glanced {mine : TableId → Prop} {e' : Engine} (glanced : Glanced mine e e') : e'.Shelved := by
  have extent : ∀ name, e'.extent name = e.extent name := fun name => by
    rw [Engine.extent, Engine.extent, glanced.volume, glanced.pageSize]
  have opens : ∀ file : FileNo, (e'.files[file]?).map TableFile.unread = (e.files[file]?).map TableFile.unread := by
    intro file
    rw [← List.getElem?_map, ← List.getElem?_map, glanced.files]
  have homed : ∀ {p page}, e.Homed p page → e'.Homed p page := by
    rintro p page ⟨id, shaped, size, name, numbered, inside⟩
    exact ⟨id, shaped, size.trans glanced.pageSize.symm, name, glanced.volume ▸ numbered, extent name ▸ inside⟩
  refine ⟨?_, ?_, ?_⟩
  · intro file g opened
    have same := opens file
    rw [opened, Option.map_some] at same
    obtain ⟨g₀, opened₀, unread⟩ := Option.map_eq_some_iff.mp same.symm
    obtain ⟨pageSize, positive, number, pages⟩ := shelved.files opened₀
    obtain ⟨table, name, schema, size, count, reads, writes⟩ := g
    obtain ⟨_, _, _, _, _, _, _⟩ := g₀
    cases unread
    refine ⟨pageSize.trans glanced.pageSize.symm, glanced.pageSize ▸ positive, ?_, ?_⟩
    · rw [glanced.volume]
      exact number
    · rw [extent]
      exact pages
  · intro table entry found
    rw [glanced.catalog] at found
    obtain ⟨g₀, opened₀, own, schema, whole⟩ := shelved.current found
    have same := opens entry.file
    rw [opened₀, Option.map_some] at same
    obtain ⟨g, opened, unread⟩ := Option.map_eq_some_iff.mp same
    refine ⟨g, opened, ?_⟩
    obtain ⟨_, _, _, _, _, _, _⟩ := g
    obtain ⟨_, _, _, _, _, _, _⟩ := g₀
    cases unread
    exact ⟨own, schema, by rw [extent]; exact whole⟩
  · intro p page here
    rcases (glanced.copies p).held_before here with before | stored
    · exact homed (shelved.pages before)
    · exact homed (shelved.homed_of_stored stored)

end Shelved

/-! ### Rows -/

/-- After what has been looked at, one page that is in memory has been put there in another version. -/
def Replaced (looked : Engine → Prop) (p : PageId) (e' : Engine) : Prop :=
  ∃ e₁ page changed, looked e₁ ∧ e₁.resident.get? p = some page ∧ changed.id = p ∧ changed.schema = page.schema ∧
    e' = e₁.keeping changed

/-- After what has been looked at, one slot of a page that is in memory has got other contents: a free one those of a
row, or one with a row none. -/
def Refilled (looked : Engine → Prop) (row : RowId) (content : Option (List Value)) (e' : Engine) : Prop :=
  ∃ e₁ page, looked e₁ ∧ e₁.resident.get? row.page = some page ∧ page.id = row.page ∧ row.slot < page.slots.length ∧
    (page.valuesAt row.slot).isSome = content.isNone ∧ e' = e₁.keeping (page.putAt row.slot content)

namespace Refilled

variable {looked looked' : Engine → Prop} {row : RowId} {content : Option (List Value)} {e : Engine}

theorem mono (refilled : Refilled looked row content e) (more : ∀ e₁, looked e₁ → looked' e₁) :
    Refilled looked' row content e := by
  obtain ⟨e₁, page, before, rest⟩ := refilled
  exact ⟨e₁, page, more e₁ before, rest⟩

theorem to_replaced (refilled : Refilled looked row content e) : Replaced looked row.page e := by
  obtain ⟨e₁, page, before, here, id, -, -, same⟩ := refilled
  exact ⟨e₁, page, page.putAt row.slot content, before, here, id, rfl, same⟩

end Refilled

section Rows

variable {mine : TableId → Prop} {e e' : Engine} (tidy : e.Tidy) (txn : TxnId) (row : Row)

include tidy

omit tidy in
theorem place_refills {base : Engine} {page : Page} (glanced : Glanced mine base e)
    (here : e.resident.get? page.id = some page) : Ensures (place page row) e fun
      | .ok location, e' => location.page = page.id ∧ Refilled (Glanced mine base) location (some row.values) e'
      | .error _, e' => Glanced mine base e' := by
  refine (place_ensures page row e).mono ?_
  rintro (fault | location) e' placed
  · obtain ⟨rfl, -⟩ := placed
    exact glanced
  · obtain ⟨slot, inside, -, free, -, rfl, rfl⟩ := placed
    exact ⟨rfl, e, page, glanced, here, rfl, inside, congrArg Option.isSome free, rfl⟩

theorem insertOn_refills {p : PageId} (own : mine p.table) : Ensures (insertOn txn p row) e fun
    | .ok none, e' => Glanced mine e e' ∧ ∃ page, e.view? p = some page ∧ page.freeSlots = 0
    | .ok (some location), e' => location.page = p ∧ Refilled (Glanced mine e) location (some row.values) e'
    | .error _, e' => Glanced mine e e' := by
  refine .get_bind (((getPage_glances own txn .exclusive e).and (getPage_keeps tidy txn p .exclusive)).bind ?_
    fun _ _ failed => failed.1.1)
  rintro page e₁ ⟨⟨glanced, seen⟩, -, here⟩
  obtain ⟨id, resident⟩ := here page rfl
  by_cases full : page.freeSlots = 0
  · rw [if_pos full]
    refine (unlockUnless_glances own _ txn e₁).bind ?_ fun _ _ failed => glanced.trans failed
    intro _ e₂ unlocked
    exact .pure ⟨glanced.trans unlocked, page, seen page rfl, full⟩
  · rw [if_neg full]
    subst id
    exact (place_refills row glanced resident).map (fun _ _ done => done) fun _ _ failed => failed

theorem insertOnFirst_refills (pages : List PageId) (own : ∀ p ∈ pages, mine p.table) :
    Ensures (insertOnFirst txn row pages) e fun
      | .ok none, e' => Glanced mine e e'
      | .ok (some location), e' => location.page ∈ pages ∧ Refilled (Glanced mine e) location (some row.values) e'
      | .error _, e' => Glanced mine e e' := by
  induction pages generalizing e with
  | nil => exact .pure .refl
  | cons p rest ih =>
    refine ((insertOn_refills tidy txn row (own p List.mem_cons_self)).and
      (insertOn_tidies txn p row e tidy)).bind ?_ fun _ _ failed => failed.1
    rintro (_ | location) e₁ ⟨tried, orderly⟩
    · obtain ⟨glanced, -⟩ := tried
      refine (ih orderly.tidy fun q later => own q (List.mem_cons_of_mem _ later)).mono ?_
      rintro (fault | _ | location) e₂ later
      · exact glanced.trans later
      · exact glanced.trans later
      · exact ⟨List.mem_cons_of_mem _ later.1, later.2.mono fun _ more => glanced.trans more⟩
    · obtain ⟨rfl, refilled⟩ := tried
      exact .pure ⟨List.mem_cons_self, refilled⟩

/-- Pages of these tables have been looked at, and where that was not enough a page has been added and looked at. -/
inductive Searched (mine : TableId → Prop) (e e' : Engine) : Prop
  | among (glanced : Glanced mine e e')
  | beyond {table : TableId} (own : mine table) (f : TableFile) (e₀ e₁ : Engine) (before : Glanced mine e e₀)
      (longer : Lengthened table f e₀ e₁) (after : Glanced mine e₁ e')

omit tidy in
/-- At most one page comes into being, at the end of its file, and it is empty. -/
theorem Searched.seen_or_extended (searched : Searched mine e e') (shelved : e.Shelved) :
    (e'.volume = e.volume ∧ ∀ p, Seen p e e') ∨
      ∃ table f, mine table ∧ e.fileOf? table = some f ∧ (∀ name, e'.volume.contents name =
          if name = f.name then (f.extend (e.contentsOf f)).1 else e.volume.contents name) ∧
        e.view? ⟨table, f.pages⟩ = none ∧
        e'.view? ⟨table, f.pages⟩ = some (.blank ⟨table, f.pages⟩ f.schema f.pageSize) ∧
        ∀ p, p ≠ ⟨table, f.pages⟩ → Seen p e e' := by
  cases searched with
  | among glanced => exact .inl ⟨glanced.volume, fun p => (glanced.copies p).seen_of_stored (glanced.stored?_kept p)⟩
  | @beyond table own f e₀ e₁ before longer after =>
    let new : PageId := ⟨table, f.pages⟩
    have file : e.fileOf? table = some f := by rw [← before.fileOf?_kept, longer.file]
    have past : e₀.resident.get? new = none := (shelved.shelved_of_glanced before).absent_of_past longer.file
      (Nat.le_refl _)
    have unstored : e.stored? new = none := by
      rw [shelved.stored?_eq file, if_neg (Nat.lt_irrefl _)]
    refine .inr ⟨table, f, own, file, ?_, ?_, ?_, ?_⟩
    · intro name
      rw [after.volume, longer.contents, before.volume, contentsOf, contentsOf, before.volume]
    · rw [view?_of_absent (shelved.absent_of_past file (Nat.le_refl _)), unstored]
    · have absent : e₁.resident.get? new = none := longer.resident ▸ past
      rcases (after.copies new).seen_of_stored (after.stored?_kept new) with same | ⟨⟨page, here, -⟩, -⟩
      · rw [same, view?_of_absent absent, longer.stored?, if_pos rfl]
      · exact absurd (absent.symm.trans here) (by simp)
    · intro p differs
      have stored : e₁.stored? p = e.stored? p := by rw [longer.stored?, if_neg differs, before.stored?_kept]
      have copied : Copied mine p e e₁ :=
        (before.copies p).trans (.inl (by rw [longer.resident])) (before.stored?_kept p)
      exact (copied.trans (after.copies p) stored).seen_of_stored (by rw [after.stored?_kept, stored])

variable {table : TableId} {entry : TableEntry}

/-- The first page that is added has room. -/
theorem insertOnNew_refills (own : mine table) (shelved : e.Shelved) (roomy : e.Roomy)
    (found : e.catalog.find? table = some entry) (tries : Nat) :
    Ensures (insertOnNew txn entry.file table row (tries + 1)) e fun
      | .ok location, e' => location.page.table = table ∧ ∃ f e₀, Lengthened table f e e₀ ∧
          Refilled (Glanced mine e₀) location (some row.values) e'
      | .error _, e' => ∃ f e₀, Lengthened table f e e₀ ∧ Glanced mine e₀ e' := by
  refine ((shelved.extendFile_lengthens found).and (extendFile_tidies entry.file table e tidy)).bind ?_
    fun _ _ failed => failed.1.elim
  rintro p e₀ ⟨⟨f, longer, rfl⟩, orderly⟩
  refine (insertOn_refills orderly.tidy txn row own).bind ?_ fun _ _ failed => ⟨f, e₀, longer, failed⟩
  rintro (_ | location) e₁ tried
  · obtain ⟨-, page, seen, full⟩ := tried
    exact absurd full (shelved.roomy_of_lengthened roomy longer seen)
  · obtain ⟨on, refilled⟩ := tried
    exact .pure ⟨congrArg PageId.table on, f, e₀, longer, refilled⟩

theorem insertInFile_refills (own : mine table) (shelved : e.Shelved) (roomy : e.Roomy)
    (found : e.catalog.find? table = some entry) : Ensures (insertInFile txn entry.file table row) e fun
      | .ok location, e' => location.page.table = table ∧ Refilled (Searched mine e) location (some row.values) e'
      | .error _, e' => Searched mine e e' := by
  let pages := (List.range (e.pagesOf entry.file)).map fun number => PageId.mk table number
  have same : ∀ p ∈ pages, p.table = table := by
    intro p among
    obtain ⟨number, -, rfl⟩ := List.mem_map.mp among
    rfl
  refine .get_bind (((insertOnFirst_refills tidy txn row pages fun p among => (same p among).symm ▸ own).and
    (insertOnFirst_tidies txn row pages e tidy)).bind ?_ fun _ _ failed => .among failed.1)
  rintro (_ | location) e₁ ⟨tried, orderly⟩
  · have roomy₁ : e₁.Roomy := by
      rw [Roomy, tried.catalog, tried.pageSize]
      exact roomy
    rw [← tried.catalog] at found
    refine .get_bind ((insertOnNew_refills orderly.tidy txn row own (shelved.shelved_of_glanced tried) roomy₁ found
      _).mono ?_)
    rintro (fault | location) e₂ done
    · obtain ⟨f, e₀, longer, glanced⟩ := done
      exact .beyond own f e₁ e₀ tried longer glanced
    · obtain ⟨on, f, e₀, longer, refilled⟩ := done
      exact ⟨on, refilled.mono fun _ after => .beyond own f e₁ e₀ tried longer after⟩
  · obtain ⟨among, refilled⟩ := tried
    exact .pure ⟨same _ among, refilled.mono fun _ => .among⟩

theorem insertInFile_glances (own : mine table) (shelved : e.Shelved) (roomy : e.Roomy)
    (found : e.catalog.find? table = some entry) : Ensures (insertInFile txn entry.file table row) e fun
      | .ok location, e' => location.page.table = table ∧ Replaced (Searched mine e) location.page e'
      | .error _, e' => Searched mine e e' := by
  refine (insertInFile_refills tidy txn row own shelved roomy found).mono ?_
  rintro (fault | location) e' done
  · exact done
  · exact ⟨done.1, done.2.to_replaced⟩

theorem deleteInFile_refills (row : RowId) (file : FileNo) (own : mine row.page.table) :
    Ensures (deleteInFile txn file row.page.table (some row)) e fun
      | .ok p, e' => p = row.page ∧ Refilled (Glanced mine e) row none e'
      | .error _, e' => Glanced mine e e' := by
  refine .get_bind ?_
  by_cases outside : row.page.table ≠ row.page.table ∨ e.pagesOf file ≤ row.page.number
  · rw [if_pos outside]
    exact .throw .refl
  · rw [if_neg outside]
    refine ((getPage_glances own txn .exclusive e).and (getPage_keeps tidy txn row.page .exclusive)).bind ?_
      fun _ _ failed => failed.1.1
    rintro page e₁ ⟨⟨glanced, -⟩, -, here⟩
    obtain ⟨id, resident⟩ := here page rfl
    rcases page.delete_cases row with ⟨-, used, inside, done⟩ | ⟨-, refused⟩
    · rw [done]
      exact ⟨rfl, e₁, page, glanced, resident, id, inside, used, rfl⟩
    · rw [refused]
      exact .throw glanced

theorem deleteInFile_glances (row : RowId) (file : FileNo) (own : mine row.page.table) :
    Ensures (deleteInFile txn file row.page.table (some row)) e fun
      | .ok p, e' => p = row.page ∧ Replaced (Searched mine e) p e'
      | .error _, e' => Glanced mine e e' := by
  refine (deleteInFile_refills tidy txn row file own).mono ?_
  rintro (fault | p) e' done
  · exact done
  · obtain ⟨rfl, refilled⟩ := done
    exact ⟨rfl, (refilled.mono fun _ => .among).to_replaced⟩

/-- The copy of the page in memory has become one with changes of the transaction. -/
structure Rewritten (txn : TxnId) (p : PageId) (e e' : Engine) : Prop extends SameFiles e e' where
  locks : e'.locks = e.locks
  copies : ∃ page changed, e.resident.get? p = some page ∧ changed.schema = page.schema ∧
    changed.dirtier = some txn ∧ ∀ q, e'.resident.get? q = if q = p then some changed else e.resident.get? q

/-- One slot of a page in memory has got other contents, and the page is one with changes of the transaction. -/
structure Filled (txn : TxnId) (row : RowId) (content : Option (List Value)) (e e' : Engine) : Prop
    extends SameFiles e e' where
  locks : e'.locks = e.locks
  copies : ∃ page, e.resident.get? row.page = some page ∧ row.slot < page.slots.length ∧
    (page.valuesAt row.slot).isSome = content.isNone ∧ ∀ q, e'.resident.get? q =
      if q = row.page then some ((page.putAt row.slot content).markDirty txn) else e.resident.get? q

omit tidy in
theorem Filled.to_rewritten {row : RowId} {content : Option (List Value)} (filled : Filled txn row content e e') :
    Rewritten txn row.page e e' := by
  obtain ⟨page, here, -, -, copies⟩ := filled.copies
  exact ⟨filled.toSameFiles, filled.locks, page, (page.putAt row.slot content).markDirty txn, here, rfl, rfl, copies⟩

/-- After pages of these tables have been looked at, one may have been changed. -/
def Stepped (mine : TableId → Prop) (txn : TxnId) (e e' : Engine) : Prop :=
  ∃ e₁, Searched mine e e₁ ∧ (e' = e₁ ∨ ∃ p, mine p.table ∧ Rewritten txn p e₁ e')

omit tidy in
theorem Refilled.markDirty_fills {looked : Engine → Prop} {row : RowId} {content : Option (List Value)}
    (refilled : Refilled looked row content e) : Ensures (markDirty txn (.current row.page)) e fun answer e' =>
      answer = .ok () ∧ ∃ e₁, looked e₁ ∧ Filled txn row content e₁ e' := by
  obtain ⟨e₁, page, before, here, id, inside, other, rfl⟩ := refilled
  let changed := page.putAt row.slot content
  have resident : (e₁.keeping changed).resident.get? row.page = some changed := by
    rw [← id]
    exact FinMap.get?_insert_self ..
  have done : markDirty txn (.current row.page) (e₁.keeping changed) =
      .ok () ((e₁.keeping changed).keeping (changed.markDirty txn)) := by
    rw [markDirty_current, resident]
    rfl
  rw [Ensures, done]
  refine ⟨rfl, e₁, before, ⟨rfl, rfl, rfl, rfl⟩, rfl, page, here, inside, other, fun q => ?_⟩
  have marked : ((e₁.keeping changed).keeping (changed.markDirty txn)).resident.get? q =
      if q = changed.id then some (changed.markDirty txn) else (e₁.keeping changed).resident.get? q :=
    FinMap.get?_insert _ (changed.markDirty txn).id q _
  have same : changed.id = row.page := id
  rw [marked, same]
  split
  · rfl
  · rename_i differs
    rw [← same] at differs
    exact FinMap.get?_insert_of_ne _ _ _ _ differs

theorem insert_fills (own : mine table) (shelved : e.Shelved) (roomy : e.Roomy) :
    Ensures (insert txn table row) e fun
      | .ok location, e' => location.page.table = table ∧
          ∃ e₁, Searched mine e e₁ ∧ Filled txn location (some row.values) e₁ e'
      | .error _, e' => Searched mine e e' := by
  refine (resolve_ensures table).bind ?_ ?_
  · rintro entry e₀ ⟨rfl, found⟩
    refine (checkSchema_ensures entry.schema row.schema e₀).bind ?_ fun _ _ same => same ▸ .among .refl
    rintro _ e₀ rfl
    refine (insertInFile_refills tidy txn row own shelved roomy found).bind ?_ fun _ _ failed => failed
    rintro location e₁ ⟨on, refilled⟩
    refine (refilled.markDirty_fills txn).bind ?_ (by simp)
    rintro _ e₂ ⟨-, e₃, searched, filled⟩
    exact .pure ⟨on, e₃, searched, filled⟩
  · rintro fault e₀ ⟨rfl, -⟩
    exact .among .refl

theorem insert_glances (own : mine table) (shelved : e.Shelved) (roomy : e.Roomy) :
    Ensures (insert txn table row) e fun
      | .ok _, e' => Stepped mine txn e e'
      | .error _, e' => Searched mine e e' := by
  refine (insert_fills tidy txn row own shelved roomy).mono ?_
  rintro (fault | location) e' done
  · exact done
  · obtain ⟨on, e₁, searched, filled⟩ := done
    exact ⟨e₁, searched, .inr ⟨location.page, on ▸ own, filled.to_rewritten⟩⟩

theorem delete_fills (row : Option RowId) (own : ∀ location, row = some location → mine location.page.table) :
    Ensures (delete txn row) e fun
      | .ok p, e' => ∃ location, row = some location ∧ p = location.page ∧
          ∃ e₁, Glanced mine e e₁ ∧ Filled txn location none e₁ e'
      | .error _, e' => Glanced mine e e' := by
  cases row with
  | none => exact .throw .refl
  | some location =>
    refine (resolve_ensures location.page.table).bind ?_ ?_
    · rintro entry e₀ ⟨rfl, -⟩
      refine (deleteInFile_refills tidy txn location entry.file (own location rfl)).bind ?_ fun _ _ failed => failed
      rintro p e₁ ⟨rfl, refilled⟩
      refine (refilled.markDirty_fills txn).bind ?_ (by simp)
      rintro _ e₂ ⟨-, e₃, glanced, filled⟩
      exact .pure ⟨location, rfl, rfl, e₃, glanced, filled⟩
    · rintro fault e₀ ⟨rfl, -⟩
      exact .refl

theorem delete_glances (row : Option RowId) (own : ∀ location, row = some location → mine location.page.table) :
    Ensures (delete txn row) e fun
      | .ok _, e' => Stepped mine txn e e'
      | .error _, e' => Glanced mine e e' := by
  refine (delete_fills tidy txn row own).mono ?_
  rintro (fault | p) e' done
  · exact done
  · obtain ⟨location, same, rfl, e₁, glanced, filled⟩ := done
    exact ⟨e₁, .among glanced, .inr ⟨location.page, own location same, filled.to_rewritten⟩⟩

end Rows

/-! ### Any step that goes on -/

end Engine

open Engine

/-- Rows of the table are drawn, and all that is done is to look at its pages. -/
theorem FileScan.take_glances {mine : TableId → Prop} (s : FileScan) (own : mine s.table) (e : Engine) (count : Nat) :
    Ensures (take count) (s, e) fun answer left => (∃ taken, answer = .ok taken) ∧ Alike s left.1 ∧
      Glanced mine e left.2 := by
  have pages : s.Fetches (e.pagesOf s.file) (Glanced mine e) fun _ _ => True := by
    intro e₁ number before _
    refine (getPage_glances (p := ⟨s.table, number⟩) own s.txn .shared e₁).mono ?_
    rintro (fault | page) e₂ ⟨looked, -⟩
    · exact ⟨before.trans looked, trivial⟩
    · exact before.trans looked
  refine (take_keeps (fun e₁ before => before.toSameFiles.pagesOf_eq s.file) pages .refl ⟨rfl, rfl, rfl⟩ count).mono ?_
  rintro (fault | taken) left done
  · exact done.elim
  · exact ⟨⟨taken, rfl⟩, done.1, done.2.1⟩

/-- So they are whatever has been done. -/
theorem Course.sturdy_after (settings : Settings) (volume : Volume) (moves : List Move) :
    (after settings volume moves).engine.Sturdy := by
  induction moves using List.reverseRecOn with
  | nil => exact .sturdy_start settings volume
  | append_singleton moves move ih =>
    have kept := kept_after settings volume moves
    rw [after_concat]
    cases move with
    | register path schema name =>
      rcases createTable_cases path schema name (after settings volume moves).engine with same |
        ⟨fileName, -, some, same⟩
      · rw [next, same]
        exact ih
      · rw [next, same]
        exact ih.sturdy_added name fileName some
    | step op => exact ih.of_effects (kept.kept_next (.step op)).regular.tidy (kept.effects_step op)

namespace Op

def table? : Op → Option TableId
  | .insert _ table _ _ => some table
  | .delete _ row => row.map fun location => location.page.table
  | .read _ page _ => some page.table
  | .scan s _ => some s.table
  | .commit _ => none
  | .abort _ => none

theorem act_glances {mine : TableId → Prop} (op : Op) (own : ∀ table, op.table? = some table → mine table)
    (looking : op.looks = true) (e : Engine) : Ensures op.act e fun _ e' => Glanced mine e e' := by
  cases op with
  | read txn page mode =>
    refine (getPage_glances (own page.table rfl) txn mode e).bind ?_ ?_
    · exact fun _ _ done => .pure done.1
    · exact fun _ _ failed => failed.1
  | scan s count =>
    exact FileScan.draw_ensures (s.take_glances (own s.table rfl) e count) (fun _ _ done => done.2.2)
      fun _ _ failed => failed.2.2
  | insert txn table schema values => exact absurd looking (by simp [looks])
  | delete txn row => exact absurd looking (by simp [looks])
  | commit txn => exact absurd looking (by simp [looks])
  | abort txn => exact absurd looking (by simp [looks])

def removes? : Op → Except Fault Answer → Option RowId
  | .delete _ row, .ok _ => row
  | _, _ => none

/-- After pages of these tables have been looked at, a row may have been written, and a row that is no more is the one
that has been deleted. -/
theorem act_fills {e : Engine} (sturdy : e.Sturdy) {mine : TableId → Prop} (op : Op)
    (own : ∀ table, op.table? = some table → mine table) (goesOn : op.ends = false) :
    Ensures op.act e fun answer e' => ∃ e₁, Searched mine e e₁ ∧ (e' = e₁ ∨ ∃ row content, mine row.page.table ∧
      Filled op.txn row content e₁ e' ∧ (content = none → op.removes? answer = some row)) := by
  cases op with
  | insert txn table schema values =>
    refine Op.insert_ensures (fun _ _ => ⟨e, .among .refl, .inl rfl⟩)
      (fun _ => insert_fills sturdy.tidy txn _ (own table rfl) sturdy.shelved sturdy.roomy) ?_
      fun _ e' failed => ⟨e', failed, .inl rfl⟩
    rintro location e' ⟨on, e₁, searched, filled⟩
    exact ⟨e₁, searched, .inr ⟨location, some values, on ▸ own table rfl, filled, by simp⟩⟩
  | delete txn row =>
    have about : ∀ location, row = some location → mine location.page.table :=
      fun location same => own _ (by rw [same]; rfl)
    refine (delete_fills sturdy.tidy txn row about).bind ?_ ?_
    · rintro p e' ⟨location, same, -, e₁, glanced, filled⟩
      exact .pure ⟨e₁, .among glanced, .inr ⟨location, none, about location same, filled, fun _ => same⟩⟩
    · exact fun _ e' failed => ⟨e', .among failed, .inl rfl⟩
  | read txn page mode =>
    exact (act_glances (.read txn page mode) own rfl e).mono fun _ e' looked => ⟨e', .among looked, .inl rfl⟩
  | scan s count =>
    exact (act_glances (.scan s count) own rfl e).mono fun _ e' looked => ⟨e', .among looked, .inl rfl⟩
  | commit txn => exact absurd goesOn (by simp [ends])
  | abort txn => exact absurd goesOn (by simp [ends])

theorem act_steps {e : Engine} (sturdy : e.Sturdy) {mine : TableId → Prop} (op : Op)
    (own : ∀ table, op.table? = some table → mine table) (goesOn : op.ends = false) :
    Ensures op.act e fun _ e' => Stepped mine op.txn e e' := by
  refine (op.act_fills sturdy own goesOn).mono ?_
  rintro answer e' ⟨e₁, searched, rfl | ⟨row, content, about, filled, -⟩⟩
  · exact ⟨e', searched, .inl rfl⟩
  · exact ⟨e₁, searched, .inr ⟨row.page, about, filled.to_rewritten⟩⟩

end Op

end RowStore
