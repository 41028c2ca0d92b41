import RowStore.Proofs.Engine.Memory
import RowStore.Proofs.Engine.Scan
import RowStore.Proofs.Lock.Runs
/-!
# What is left to the others

An action in the name of one transaction leaves to the others what they hold: their locks, the copies in
memory of the pages that they have locked, and, once they have locked its first page, the length of a
file. A page comes to hold changes of the transaction only while the transaction has it to itself. That
is so whatever tables have been registered under which numbers, as long as the pages in memory have their
own numbers and the catalog names files of the right tables.
-/

namespace RowStore

namespace LockTable

theorem isLocked_of_mode? {t : LockTable} {txn : TxnId} {page : PageId} (held : t.mode? txn page ≠ none) :
    t.isLocked page = true := by
  obtain ⟨mode, found⟩ := Option.ne_none_iff_exists'.mp held
  exact (t.isLocked_eq_true_iff page).mpr ⟨txn, mode, found⟩

theorem Extends.still_held {t t' : LockTable} {txn : TxnId} (more : Extends txn t t') {holder : TxnId}
    {page : PageId} (held : t.mode? holder page ≠ none) : t'.mode? holder page ≠ none := by
  by_cases own : holder = txn
  · subst own
    exact more.kept page held
  · rw [more.others holder page own]
    exact held

theorem Extends.isLocked_mono {t t' : LockTable} {txn : TxnId} {page : PageId} (more : Extends txn t t')
    (locked : t.isLocked page = true) : t'.isLocked page = true := by
  obtain ⟨holder, mode, held⟩ := (t.isLocked_eq_true_iff page).mp locked
  exact isLocked_of_mode? (more.still_held (by rw [held]; exact Option.some_ne_none mode))

end LockTable

end RowStore

namespace RowStore.Engine

def tableOf? (e : Engine) (file : FileNo) : Option TableId := e.files[file]?.map TableFile.table

/-- What holds of an engine whatever has been done to it. -/
structure Regular (e : Engine) : Prop where
  tidy : e.Tidy
  compatible : e.locks.Compatible
  filed : ∀ {table entry}, e.catalog.find? table = some entry → e.tableOf? entry.file = some table

theorem regular_start (settings : Settings) (volume : Volume) : (start settings volume).Regular where
  tidy := tidy_start settings volume
  compatible := LockTable.compatible_empty
  filed found := absurd found (by simp [start, Catalog.find?, Catalog.empty])

/-- The same tables are registered, in the same files. -/
structure SameFiling (e e' : Engine) : Prop where
  catalog : e'.catalog = e.catalog
  tables : ∀ file, e'.tableOf? file = e.tableOf? file

/-- The files are moreover as long as they were. -/
structure SameLengths (e e' : Engine) : Prop extends SameFiling e e' where
  lengths : ∀ file, e'.pagesOf file = e.pagesOf file

theorem SameFiling.trans {e e' e'' : Engine} (first : SameFiling e e') (second : SameFiling e' e'') :
    SameFiling e e'' where
  catalog := second.catalog.trans first.catalog
  tables file := (second.tables file).trans (first.tables file)

theorem SameFiling.regular_of_tidy {e e' : Engine} (same : SameFiling e e') (regular : e.Regular) (tidy : e'.Tidy)
    (compatible : e'.locks.Compatible) : e'.Regular where
  tidy := tidy
  compatible := compatible
  filed found := by
    rw [same.catalog] at found
    rw [same.tables]
    exact regular.filed found

theorem SameLengths.refl {e : Engine} : SameLengths e e := ⟨⟨rfl, fun _ => rfl⟩, fun _ => rfl⟩

theorem SameLengths.trans {e e' e'' : Engine} (first : SameLengths e e') (second : SameLengths e' e'') :
    SameLengths e e'' :=
  ⟨first.toSameFiling.trans second.toSameFiling, fun file => (second.lengths file).trans (first.lengths file)⟩

/-- Only what is not about files is different. -/
theorem SameLengths.of_files {e e' : Engine} (catalog : e'.catalog = e.catalog) (files : e'.files = e.files) :
    SameLengths e e' :=
  ⟨⟨catalog, fun file => by rw [tableOf?, files, tableOf?]⟩, fun file => by rw [pagesOf, files, pagesOf]⟩

/-! ### A file is written over with what it has become -/

section SetFile

variable {e e' : Engine} {file : FileNo} {g g' : TableFile}
  (opened : e.files[file]? = some g) (files : e'.files = e.files.set file g')

include opened files

theorem tableOf?_of_set (same : g'.table = g.table) (other : FileNo) :
    e'.tableOf? other = e.tableOf? other := by
  obtain ⟨inside, -⟩ := List.getElem?_eq_some_iff.mp opened
  rw [tableOf?, tableOf?, files]
  by_cases here : file = other
  · subst here
    rw [List.getElem?_set_self inside, opened, Option.map_some, Option.map_some, same]
  · rw [List.getElem?_set_ne here]

theorem pagesOf_of_set (other : FileNo) :
    e'.pagesOf other = if other = file then g'.pages else e.pagesOf other := by
  obtain ⟨inside, -⟩ := List.getElem?_eq_some_iff.mp opened
  rw [pagesOf, pagesOf, files]
  by_cases here : file = other
  · subst here
    rw [List.getElem?_set_self inside, if_pos rfl]
    rfl
  · rw [List.getElem?_set_ne here, if_neg (Ne.symm here)]

/-- Having been read or written, a file is as long as it was. -/
theorem SameLengths.of_set (catalog : e'.catalog = e.catalog) (same : g'.table = g.table)
    (pages : g'.pages = g.pages) : SameLengths e e' := by
  refine ⟨⟨catalog, tableOf?_of_set opened files same⟩, ?_⟩
  intro other
  rw [pagesOf_of_set opened files]
  split
  · rename_i here
    rw [here, pages, pagesOf, opened]
    rfl
  · rfl

end SetFile

/-! ### Looking at pages -/

/-- The transaction has looked at pages: what anybody has locked is in memory as it was. -/
structure Looked (txn : TxnId) (e e' : Engine) : Prop extends SameLengths e e' where
  locks : LockTable.Extends txn e.locks e'.locks
  copies : ∀ {p page}, e.locks.isLocked p = true → e.resident.get? p = some page →
    e'.resident.get? p = some page
  changes : ∀ {p page other}, e'.resident.get? p = some page → page.dirtier = some other →
    e.resident.get? p = some page

/-- The transaction has done something, and what the others hold is as it was. -/
structure Spared (txn : TxnId) (e e' : Engine) : Prop extends SameFiling e e' where
  locks : LockTable.Extends txn e.locks e'.locks
  copies : ∀ {p page other}, other ≠ txn → e.locks.mode? other p ≠ none → e.resident.get? p = some page →
    e'.resident.get? p = some page
  changes : ∀ {p page other}, e'.resident.get? p = some page → page.dirtier = some other →
    (other = txn ∧ e'.locks.mode? txn p = some .exclusive) ∨
      ∃ before, e.resident.get? p = some before ∧ before.dirtier = some other
  longer : ∀ file, e.pagesOf file ≤ e'.pagesOf file
  lengths : ∀ {file table other}, e.tableOf? file = some table → 0 < e.pagesOf file → other ≠ txn →
    e.locks.mode? other ⟨table, 0⟩ ≠ none → e'.pagesOf file = e.pagesOf file

namespace Looked

variable {txn : TxnId} {e e' e'' : Engine}

theorem of_resident (same : SameLengths e e') (locks : LockTable.Extends txn e.locks e'.locks)
    (resident : e'.resident = e.resident) : Looked txn e e' where
  toSameLengths := same
  locks := locks
  copies _ here := by
    rw [resident]
    exact here
  changes here _ := by
    rw [resident] at here
    exact here

theorem refl : Looked txn e e := .of_resident .refl .refl rfl

theorem trans (first : Looked txn e e') (second : Looked txn e' e'') : Looked txn e e'' where
  toSameLengths := first.toSameLengths.trans second.toSameLengths
  locks := first.locks.trans second.locks
  copies locked here := second.copies (first.locks.isLocked_mono locked) (first.copies locked here)
  changes here dirty := first.changes (second.changes here dirty) dirty

theorem of_locks {locks : LockTable} (more : LockTable.Extends txn e.locks locks) :
    Looked txn e { e with locks } := .of_resident (.of_files rfl rfl) more rfl

theorem to_spared (looked : Looked txn e e') : Spared txn e e' where
  toSameFiling := looked.toSameFiling
  locks := looked.locks
  copies _ held here := looked.copies (LockTable.isLocked_of_mode? held) here
  changes here dirty := .inr ⟨_, looked.changes here dirty, dirty⟩
  longer file := Nat.le_of_eq (looked.lengths file).symm
  lengths _ _ _ _ := looked.lengths _

end Looked

namespace Spared

variable {txn : TxnId} {e e' e'' : Engine}

theorem refl : Spared txn e e := Looked.refl.to_spared

theorem trans (first : Spared txn e e') (second : Spared txn e' e'') : Spared txn e e'' where
  toSameFiling := first.toSameFiling.trans second.toSameFiling
  locks := first.locks.trans second.locks
  copies differs held here :=
    second.copies differs (first.locks.still_held held) (first.copies differs held here)
  changes here dirty := by
    rcases second.changes here dirty with own | ⟨between, here', dirty'⟩
    · exact .inl own
    · rcases first.changes here' dirty' with ⟨same, exclusive⟩ | before
      · exact .inl ⟨same, second.locks.exclusive _ exclusive⟩
      · exact .inr before
  longer file := Nat.le_trans (first.longer file) (second.longer file)
  lengths table some differs held := by
    have same := first.lengths table some differs held
    rw [← same]
    exact second.lengths (by rw [first.tables]; exact table) (by rw [same]; exact some) differs
      (first.locks.still_held held)

theorem regular_of_tidy (spared : Spared txn e e') (regular : e.Regular) (tidy : e'.Tidy) : e'.Regular :=
  spared.toSameFiling.regular_of_tidy regular tidy (spared.locks.compatible regular.compatible)

end Spared

/-! ### Getting a page -/

theorem makeRoom_looked (txn : TxnId) (e : Engine) : Ensures makeRoom e fun _ e' =>
    Looked txn e e' ∧ e'.locks = e.locks ∧ ∀ p, e.resident.get? p = none → e'.resident.get? p = none := by
  refine (makeRoom_cases e).mono ?_
  rintro (fault | _) e' made
  · obtain ⟨-, rfl, -⟩ := made
    exact ⟨.refl, rfl, fun _ absent => absent⟩
  · obtain ⟨-, ⟨-, rfl⟩ | ⟨-, victim, page, free, -, -, rfl⟩⟩ := made
    · exact ⟨.refl, rfl, fun _ absent => absent⟩
    · have left : ∀ q, (e.resident.erase victim).get? q = if q = victim then none else e.resident.get? q :=
        FinMap.get?_erase e.resident victim
      refine ⟨⟨.of_files rfl rfl, .refl, ?_, ?_⟩, rfl, ?_⟩
      · intro p page locked here
        refine (left p).trans ((if_neg ?_).trans here)
        rintro rfl
        rw [free] at locked
        exact Bool.false_ne_true locked
      · intro p page other here _
        have here : (e.resident.erase victim).get? p = some page := here
        rw [left] at here
        split at here
        · exact absurd here (by simp)
        · exact here
      · intro p absent
        exact (left p).trans (by rw [absent, ite_self])

theorem openFile_opens (file : FileNo) (table : TableId) (e : Engine) :
    Ensures (openFile file table) e fun answer e' => e' = e ∧
      ∀ g, answer = .ok g → e.files[file]? = some g := by
  rw [Ensures, openFile]
  cases opened : e.files[file]? with
  | none => exact ⟨rfl, fun _ failed => absurd failed (by simp)⟩
  | some f =>
    refine ⟨rfl, ?_⟩
    intro g same
    cases same
    rfl

/-- Reading touches nothing but the counts of the file. -/
theorem readPage_reads (file : FileNo) (p : PageId) (e : Engine) :
    Ensures (readPage file p) e fun answer e' => SameLengths e e' ∧ e'.locks = e.locks ∧
      e'.resident = e.resident ∧ ∀ page, answer = .ok page → page.id = p ∧ page.dirtier = none := by
  refine (openFile_opens file p.table e).bind ?_ ?_
  · rintro g e ⟨rfl, opened⟩
    have opened := opened g rfl
    refine .get_bind ?_
    cases done : g.read (e.contentsOf g) p with
    | error fault => exact ⟨.refl, rfl, rfl, fun _ failed => absurd failed (by simp)⟩
    | ok read =>
      obtain ⟨loaded, g'⟩ := read
      obtain ⟨-, -, -, decoded, rfl⟩ := TableFile.read_eq_ok_iff.mp done
      have files : (e.setFile file { g with reads := g.reads + 1 }).files =
        e.files.set file { g with reads := g.reads + 1 } := rfl
      refine ⟨.of_set opened files rfl rfl rfl, rfl, rfl, ?_⟩
      intro page same
      cases same
      exact Page.frame_of_decode? decoded
  · rintro fault e ⟨rfl, -⟩
    exact ⟨.refl, rfl, rfl, fun _ failed => absurd failed (by simp)⟩

theorem load_looked (txn : TxnId) {e : Engine} {p : PageId} (absent : e.resident.get? p = none) :
    Ensures (load p) e fun _ e' => Looked txn e e' ∧ e'.locks = e.locks := by
  refine (makeRoom_looked txn e).bind ?_ fun _ _ failed => ⟨failed.1, failed.2.1⟩
  intro _ e₁ made
  obtain ⟨looked, locks, still⟩ := made
  refine (resolve_ensures p.table).bind ?_ ?_
  · rintro entry e₁ ⟨rfl, -⟩
    refine (readPage_reads entry.file p e₁).bind ?_ ?_
    · intro page e₂ read
      obtain ⟨lengths, locks₂, resident, own⟩ := read
      obtain ⟨rfl, clean⟩ := own page rfl
      have inserted : ∀ q, (e₂.resident.insert page.id page).get? q =
          if q = page.id then some page else e₁.resident.get? q := by
        intro q
        rw [resident, FinMap.get?_insert]
      refine ⟨looked.trans ⟨lengths.trans (.of_files rfl rfl), ?_, ?_, ?_⟩, locks₂.trans locks⟩
      · exact .of_grants (congrArg LockTable.grants locks₂)
      · intro q copy _ here
        refine (inserted q).trans ((if_neg ?_).trans here)
        rintro rfl
        rw [still _ absent] at here
        exact absurd here (by simp)
      · intro q copy other here dirty
        have here := (inserted q).symm.trans here
        split at here
        · cases here
          rw [clean] at dirty
          exact absurd dirty (by simp)
        · exact here
    · rintro fault e₂ ⟨lengths, locks₂, resident, -⟩
      have read : Looked txn e₁ e₂ := .of_resident lengths (.of_grants (congrArg LockTable.grants locks₂)) resident
      exact ⟨looked.trans read, locks₂.trans locks⟩
  · rintro fault e₁ ⟨rfl, -⟩
    exact ⟨looked, locks⟩

theorem getPage_looked (txn : TxnId) (p : PageId) (mode : LockMode) (e : Engine) :
    Ensures (getPage txn p mode) e fun answer e' => Looked txn e e' ∧ ∀ page, answer = .ok page →
      e.locks.blockers ⟨txn, p, mode⟩ = [] ∧ e'.locks = e.locks.grant ⟨txn, p, mode⟩ := by
  refine (lock_ensures txn p mode).bind ?_ ?_
  · rintro _ e₁ ⟨clear, rfl⟩
    have granted : Looked txn e { e with locks := e.locks.grant ⟨txn, p, mode⟩ } :=
      .of_locks (.extends_grant p mode clear)
    refine .get_bind ?_
    cases resident : e.resident.get? p with
    | some page =>
      refine ⟨granted.trans ?_, fun _ _ => ⟨clear, rfl⟩⟩
      exact .of_resident (.of_files rfl rfl) .refl rfl
    | none =>
      have loaded := load_looked txn (e := { e with locks := e.locks.grant ⟨txn, p, mode⟩ }) resident
      refine Ensures.congr rfl (loaded.mono ?_)
      rintro answer e₂ ⟨looked, locks⟩
      exact ⟨granted.trans looked, fun _ _ => ⟨clear, locks⟩⟩
  · rintro fault e₁ ⟨-, -, rfl⟩
    exact ⟨.of_locks .extends_giveUp, fun _ failed => absurd failed (by simp)⟩

theorem getPage_looks {e : Engine} (regular : e.Regular) (txn : TxnId) (p : PageId) (mode : LockMode) :
    Ensures (getPage txn p mode) e fun answer e' => e'.Regular ∧ Looked txn e e' ∧
      ∀ page, answer = .ok page → page.id = p ∧ e'.resident.get? p = some page ∧
        e.locks.blockers ⟨txn, p, mode⟩ = [] ∧ e'.locks = e.locks.grant ⟨txn, p, mode⟩ := by
  refine ((getPage_keeps regular.tidy txn p mode).and (getPage_looked txn p mode e)).mono ?_
  rintro answer e' ⟨⟨orderly, here⟩, looked, granted⟩
  refine ⟨looked.to_spared.regular_of_tidy regular orderly.tidy, looked, ?_⟩
  intro page done
  exact ⟨(here page done).1, (here page done).2, granted page done⟩

end RowStore.Engine
