import RowStore.Proofs.Engine.View
import RowStore.Proofs.Recency
/-!
# Getting a page

Getting a page changes locks of the one transaction that asks and what is in memory, and nothing
else: a reader finds the same pages after it as before, whichever page was given up for the new one.
-/

namespace RowStore.Engine

/-- There are as many pages in memory as there may be, and each is locked or holds a change. -/
def Stuck (e : Engine) : Prop := e.isFull ∧ e.recency.evict e.mayEvict = none

theorem mayEvict_iff (e : Engine) (p : PageId) : e.mayEvict p = true ↔
    e.locks.isLocked p = false ∧ ∃ page, e.resident.get? p = some page ∧ page.dirtier = none := by
  cases here : e.resident.get? p <;> simp [mayEvict, here, Page.isDirty]

/-- There is room already, or one page is given up that may be, and nothing else happens. -/
theorem makeRoom_cases (e : Engine) : Ensures makeRoom e fun
    | .ok _, e' => ¬e.Stuck ∧ (¬e.isFull ∧ e' = e ∨ e.isFull ∧ ∃ victim page, e.locks.isLocked victim = false ∧
        e.resident.get? victim = some page ∧ page.dirtier = none ∧
        e' = { e with resident := e.resident.erase victim, recency := e.recency.forget victim })
    | .error fault, e' => fault = .poolFull ∧ e' = e ∧ e.Stuck := by
  by_cases full : e.isFull
  · refine Ensures.congr (show makeRoom e = evict e from if_pos full) ?_
    rw [Ensures, evict]
    cases chosen : e.recency.evict e.mayEvict with
    | none => exact ⟨rfl, rfl, full, chosen⟩
    | some victim =>
      obtain ⟨victim, recency⟩ := victim
      obtain ⟨free, page, here, clean⟩ := (e.mayEvict_iff victim).mp (Recency.eligible_of_evict _ _ _ _ chosen)
      obtain rfl := Recency.eq_forget_of_evict chosen
      refine ⟨fun stuck => absurd (chosen.symm.trans stuck.2) (by simp), .inr ⟨full, ?_⟩⟩
      exact ⟨victim, page, free, here, clean, rfl⟩
  · rw [Ensures, show makeRoom e = .ok () e from if_neg full]
    exact ⟨fun stuck => full stuck.1, .inl ⟨full, rfl⟩⟩

def missing (e : Engine) (p : PageId) : Fault :=
  match e.fileOf? p.table with
  | none => .unknownTable p.table
  | some f => .pastEnd p f.name

/-- The engine is as it was but for the locks and for what is in memory. -/
structure Swapped (e e' : Engine) : Prop where
  coherent : e'.Coherent
  surface : e'.surface = { e.surface with locks := e'.locks }

namespace Swapped

variable {e e' e'' : Engine}

theorem refl (coherent : e.Coherent) : Swapped e e := ⟨coherent, rfl⟩

theorem trans (first : Swapped e e') (second : Swapped e' e'') : Swapped e e'' where
  coherent := second.coherent
  surface := by rw [second.surface, first.surface]

theorem view?_eq (swapped : Swapped e e') : e'.view? = e.view? := congrArg Surface.view swapped.surface

theorem to_sameFiles (swapped : Swapped e e') : SameFiles e e' where
  pageSize := congrArg Surface.pageSize swapped.surface
  volume := congrArg Surface.volume swapped.surface
  catalog := congrArg Surface.catalog swapped.surface
  files := congrArg Surface.files swapped.surface

theorem missing_eq (swapped : Swapped e e') (p : PageId) : e'.missing p = e.missing p := by
  rw [Engine.missing, Engine.missing, swapped.to_sameFiles.fileOf?_kept]

end Swapped

/-- No page but that one has come into memory, and there is room for as many as before. -/
structure Narrow (p : PageId) (e e' : Engine) : Prop where
  settings : e'.settings = e.settings
  absent : ∀ q, q ≠ p → e.resident.get? q = none → e'.resident.get? q = none

theorem Narrow.refl {p : PageId} {e : Engine} : Narrow p e e := ⟨rfl, fun _ _ absent => absent⟩

theorem Narrow.trans {p : PageId} {e e' e'' : Engine} (first : Narrow p e e') (second : Narrow p e' e'') :
    Narrow p e e'' where
  settings := second.settings.trans first.settings
  absent q differs absent := second.absent q differs (first.absent q differs absent)

section Memory

variable {e : Engine} (coherent : e.Coherent)

include coherent

theorem Coherent.swapped_of_copies {e' : Engine} (same : SameFiles e e')
    (copies : ∀ p page, e'.resident.get? p = some page → e.view? p = some page)
    (changes : ∀ p page, e.view? p = some page → page.dirtier ≠ none → e'.resident.get? p = some page) :
    Swapped e e' :=
  ⟨same.coherent_of_copies copies coherent, same.surface_eq_of_view?
    (funext (same.view?_eq_of_copies copies changes coherent))⟩

theorem Coherent.swapped_same {e' : Engine} (same : SameFiles e e')
    (resident : e'.resident = e.resident) : Swapped e e' := by
  apply coherent.swapped_of_copies same
  · intro p page copy
    rw [resident] at copy
    exact view?_of_resident copy
  · intro p page seen dirty
    rw [resident]
    exact resident_of_dirty seen dirty

/-- Only a page without changes is given up. -/
theorem Coherent.swapped_erase {e' : Engine} (same : SameFiles e e') (p : PageId)
    (erased : ∀ q, e'.resident.get? q = if q = p then none else e.resident.get? q)
    (unchanged : ∀ page, e.resident.get? p = some page → page.dirtier = none) : Swapped e e' := by
  apply coherent.swapped_of_copies same
  · intro other page resident
    rw [erased] at resident
    split at resident
    · exact absurd resident (by simp)
    · exact view?_of_resident resident
  · intro other page seen dirty
    have resident := resident_of_dirty seen dirty
    rw [erased, if_neg]
    · exact resident
    · intro given
      rw [given] at resident
      exact dirty (unchanged page resident)

theorem Coherent.coherent_erased {e' : Engine} (same : SameFiles e e') (p : PageId)
    (erased : ∀ q, e'.resident.get? q = if q = p then none else e.resident.get? q) :
    e'.Coherent ∧ ∀ q, e'.view? q = if q = p then e.stored? p else e.view? q := by
  constructor
  · refine same.coherent_of_copies ?_ coherent
    intro q page resident
    rw [erased] at resident
    split at resident
    · exact absurd resident (by simp)
    · exact view?_of_resident resident
  · intro q
    rw [view?, erased, same.stored?_kept]
    split
    · rename_i this
      rw [this, Option.none_or]
    · rfl

/-- A page is kept beside the others when it is what a reader finds. -/
theorem Coherent.swapped_insert {e' : Engine} (same : SameFiles e e') (p : PageId) (page : Page)
    (inserted : ∀ q, e'.resident.get? q = if q = p then some page else e.resident.get? q)
    (seen : e.view? p = some page) :
    Swapped e e' := by
  apply coherent.swapped_of_copies same
  · intro other copy resident
    rw [inserted] at resident
    split at resident
    · rename_i found
      rw [found, seen, resident]
    · exact view?_of_resident resident
  · intro other copy found dirty
    rw [inserted]
    split
    · rename_i same
      rw [same, seen] at found
      exact found
    · exact resident_of_dirty found dirty

omit coherent in
theorem resolve_ensures (table : TableId) : Ensures (resolve table) e fun
    | .ok entry, e' => e' = e ∧ e.catalog.find? table = some entry
    | .error fault, e' => e' = e ∧ fault = .unknownTable table ∧ e.fileOf? table = none := by
  rw [Ensures, resolve]
  cases found : e.catalog.find? table with
  | some entry => exact ⟨rfl, rfl⟩
  | none => exact ⟨rfl, rfl, by rw [fileOf?, found, Option.bind_none]⟩

/-! ### Making room -/

theorem makeRoom_ensures : Ensures makeRoom e fun
    | .ok _, e' => Swapped e e' ∧ e'.locks = e.locks ∧ e'.settings = e.settings ∧
        ∀ p, e.resident.get? p = none → e'.resident.get? p = none
    | .error fault, e' => e' = e ∧ fault = .poolFull ∧ e.Stuck := by
  refine (makeRoom_cases e).mono ?_
  rintro (fault | _) e' made
  · obtain ⟨full, same, stuck⟩ := made
    exact ⟨same, full, stuck⟩
  · obtain ⟨-, ⟨-, rfl⟩ | ⟨-, victim, page, -, here, clean, rfl⟩⟩ := made
    · exact ⟨.refl coherent, rfl, rfl, fun p absent => absent⟩
    · refine ⟨coherent.swapped_erase ⟨rfl, rfl, rfl, rfl⟩ victim ?_ ?_, rfl, rfl, ?_⟩
      · exact FinMap.get?_erase e.resident victim
      · intro copy resident
        cases here.symm.trans resident
        exact clean
      · intro p absent
        simp only [FinMap.get?_erase, absent, ite_self]

/-! ### Reading from a file -/

theorem openFile_ensures (table other : TableId) (entry : TableEntry)
    (found : e.catalog.find? table = some entry) : Ensures (openFile entry.file other) e fun
    | .ok g, e' => e' = e ∧ e.files[entry.file]? = some g ∧ e.fileOf? table = some g.unread
    | .error _, _ => False := by
  obtain ⟨f, file, -, -⟩ := coherent.opened found
  obtain ⟨entry', g, same, opened, rfl⟩ := (e.fileOf?_eq_some_iff table f).mp file
  rw [found] at same
  cases same
  rw [Ensures, openFile, opened]
  exact ⟨rfl, rfl, file⟩

/-- A page is read if it is within the file, whatever has been read before. -/
theorem Coherent.read_eq (p : PageId) (g : TableFile) (file : e.fileOf? p.table = some g.unread) :
    (e.stored? p = none ∧ g.read (e.contentsOf g) p = .error (e.missing p)) ∨
    (∃ page, e.stored? p = some page ∧
      g.read (e.contentsOf g) p = .ok (page, { g with reads := g.reads + 1 })) := by
  have table := coherent.table_of_unread file
  have stored := stored?_eq file
  rw [bytes?_eq file] at stored
  by_cases inside : p.number < g.pages
  · right
    obtain ⟨page, found, -⟩ := coherent.stored file inside
    refine ⟨page, found, ?_⟩
    rw [if_pos inside, Option.bind_some, found] at stored
    change some page = Page.decode? p g.schema _ at stored
    have whole := TableFile.length_page inside (Nat.le_of_eq (coherent.length_contentsOf file).symm)
    exact TableFile.read_eq_ok_iff.mpr ⟨table.symm, inside, whole, stored.symm, rfl⟩
  · left
    constructor
    · rw [stored, if_neg inside, Option.bind_none]
    · simp only [TableFile.read, TableFile.checkBounds, table, ne_eq, not_true_eq_false, if_false,
        Nat.not_lt.mp inside, if_true, bind, Except.bind, missing, file]
      rfl

theorem readPage_ensures (p : PageId) (entry : TableEntry)
    (found : e.catalog.find? p.table = some entry) : Ensures (readPage entry.file p) e fun
    | .ok page, e' => e.stored? p = some page ∧ SameFiles e e' ∧ e'.resident = e.resident ∧
        e'.locks = e.locks ∧ e'.settings = e.settings
    | .error fault, e' => e' = e ∧ e.stored? p = none ∧ fault = e.missing p := by
  refine (openFile_ensures coherent p.table p.table entry found).bind ?_ fun _ _ => False.elim
  rintro g e ⟨rfl, opened, file⟩
  refine .get_bind ?_
  rcases coherent.read_eq p g file with ⟨absent, failed⟩ | ⟨page, stored, done⟩
  · rw [failed]
    exact ⟨rfl, absent, rfl⟩
  · rw [done]
    exact ⟨stored, .sameFiles_setFile opened _, rfl, rfl, rfl⟩

theorem load_ensures (p : PageId) (absent : e.resident.get? p = none) : Ensures (load p) e fun
    | .ok page, e' => e.view? p = some page ∧ Swapped e e' ∧ e'.locks = e.locks ∧
        e'.resident.get? p = some page ∧ Narrow p e e'
    | .error fault, e' => Swapped e e' ∧ e'.locks = e.locks ∧ Narrow p e e' ∧
        e'.resident.get? p = none ∧
        ((fault = .poolFull ∧ e'.Stuck) ∨ (e.view? p = none ∧ fault = e.missing p)) := by
  refine (makeRoom_ensures coherent).bind ?_ ?_
  · intro _ e₁ made
    obtain ⟨roomy, locks, settings, still⟩ := made
    have seen := view?_of_absent (still p absent)
    have narrow : Narrow p e e₁ := ⟨settings, fun q _ => still q⟩
    rw [roomy.view?_eq] at seen
    refine (resolve_ensures p.table).bind ?_ ?_
    · intro entry e₁ resolved
      obtain ⟨rfl, found⟩ := resolved
      refine (readPage_ensures roomy.coherent p entry found).bind ?_ ?_
      · intro page e₂ read
        obtain ⟨stored, same, resident, locks', settings'⟩ := read
        have inView : e₁.view? p = some page := by rw [roomy.view?_eq, seen, stored]
        have id := roomy.coherent.id_eq_of_view? inView
        have inserted : ∀ q, (e₂.resident.insert page.id page).get? q =
            if q = p then some page else e₁.resident.get? q := by
          intro q
          rw [id, resident, FinMap.get?_insert]
        refine ⟨seen.trans stored, roomy.trans ?_, locks'.trans locks, ?_, narrow.trans ⟨settings', ?_⟩⟩
        · refine roomy.coherent.swapped_insert ?_ p page inserted inView
          exact ⟨same.pageSize, same.volume, same.catalog, same.files⟩
        · exact (inserted p).trans (if_pos rfl)
        · intro q differs absent
          exact (inserted q).trans ((if_neg differs).trans absent)
      · intro fault e₂ failed
        obtain ⟨rfl, stored, fault⟩ := failed
        refine ⟨roomy, locks, narrow, still p absent, .inr ⟨seen.trans stored, ?_⟩⟩
        rw [fault, roomy.missing_eq]
    · intro fault e₂ failed
      obtain ⟨rfl, fault, file⟩ := failed
      refine ⟨roomy, locks, narrow, still p absent, .inr ⟨?_, ?_⟩⟩
      · rw [seen, stored?, file, Option.bind_none]
      · rw [fault, ← roomy.missing_eq, missing, file]
  · intro fault e₁ failed
    obtain ⟨rfl, rfl, stuck⟩ := failed
    exact ⟨.refl coherent, rfl, .refl, absent, .inl ⟨rfl, stuck⟩⟩

omit coherent in
theorem lock_ensures (txn : TxnId) (p : PageId) (mode : LockMode) : Ensures (lock txn p mode) e fun
    | .ok _, e' => e.locks.blockers ⟨txn, p, mode⟩ = [] ∧
        e' = { e with locks := e.locks.grant ⟨txn, p, mode⟩ }
    | .error fault, e' => e.locks.blockers ⟨txn, p, mode⟩ ≠ [] ∧ fault = .aborted txn ∧
        e' = { e with locks := e.locks.giveUp txn } := by
  rw [Ensures, lock, LockTable.requestNow]
  by_cases clear : e.locks.blockers ⟨txn, p, mode⟩ = []
  · rw [clear]
    exact ⟨rfl, rfl⟩
  · rw [List.isEmpty_eq_false_iff.mpr clear]
    exact ⟨clear, rfl, rfl⟩

/-- A page is had when nobody stands in the way, it exists, and there is room for it. -/
theorem getPage_ensures (txn : TxnId) (p : PageId) (mode : LockMode) :
    Ensures (getPage txn p mode) e fun
    | .ok page, e' => e.locks.blockers ⟨txn, p, mode⟩ = [] ∧ e.view? p = some page ∧ Swapped e e' ∧
        e'.locks = e.locks.grant ⟨txn, p, mode⟩ ∧ e'.resident.get? p = some page ∧ Narrow p e e'
    | .error fault, e' => Swapped e e' ∧ Narrow p e e' ∧
        ((e.locks.blockers ⟨txn, p, mode⟩ ≠ [] ∧ fault = .aborted txn ∧
            e'.locks = e.locks.giveUp txn) ∨
          (e.locks.blockers ⟨txn, p, mode⟩ = [] ∧ e'.locks = e.locks.grant ⟨txn, p, mode⟩ ∧
            e'.resident.get? p = none ∧
            ((fault = .poolFull ∧ e'.Stuck) ∨ (e.view? p = none ∧ fault = e.missing p)))) := by
  refine (lock_ensures txn p mode).bind ?_ ?_
  · intro _ e₁ locked
    obtain ⟨clear, rfl⟩ := locked
    have relocked : Swapped e { e with locks := e.locks.grant ⟨txn, p, mode⟩ } :=
      coherent.swapped_same ⟨rfl, rfl, rfl, rfl⟩ rfl
    have narrow : Narrow p e { e with locks := e.locks.grant ⟨txn, p, mode⟩ } :=
      ⟨rfl, fun _ _ absent => absent⟩
    refine .get_bind ?_
    cases resident : e.resident.get? p with
    | some page =>
      refine ⟨clear, view?_of_resident resident, relocked.trans ?_, rfl, resident, rfl, narrow.absent⟩
      exact relocked.coherent.swapped_same ⟨rfl, rfl, rfl, rfl⟩ rfl
    | none =>
      refine (load_ensures relocked.coherent p resident).mono ?_
      intro answer e' loaded
      cases answer with
      | error fault =>
        obtain ⟨swapped, locks, narrow', absent, reason⟩ := loaded
        rw [relocked.view?_eq, relocked.missing_eq] at reason
        exact ⟨relocked.trans swapped, narrow.trans narrow', .inr ⟨clear, locks, absent, reason⟩⟩
      | ok page =>
        obtain ⟨seen, swapped, locks, found, narrow'⟩ := loaded
        rw [relocked.view?_eq] at seen
        exact ⟨clear, seen, relocked.trans swapped, locks, found, narrow.trans narrow'⟩
  · intro fault e₁ failed
    obtain ⟨blocked, fault, rfl⟩ := failed
    have relocked : Swapped e { e with locks := e.locks.giveUp txn } :=
      coherent.swapped_same ⟨rfl, rfl, rfl, rfl⟩ rfl
    exact ⟨relocked, ⟨rfl, fun _ _ absent => absent⟩, .inl ⟨blocked, fault, rfl⟩⟩

end Memory

end RowStore.Engine
