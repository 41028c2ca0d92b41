import RowStore.Proofs.Engine.Access
import RowStore.Engine.Rows
import RowStore.Proofs.Recency
/-!
# What is in memory

The pages in memory are those that are tracked, every one is there under its own number, and there are
never more than there may be. So when there is no room for one more, every page in memory is locked or
holds changes.
-/

namespace RowStore

namespace Engine

structure Tidy (e : Engine) : Prop where
  own : ∀ {p page}, e.resident.get? p = some page → page.id = p
  tracked : ∀ p, (e.recency.uses.get? p).isSome = (e.resident.get? p).isSome
  bounded : e.resident.size ≤ e.settings.poolPages

/-- Memory is as it should be, and the engine runs with the same settings as before. -/
structure Orderly (e e' : Engine) : Prop where
  tidy : e'.Tidy
  settings : e'.settings = e.settings

/-- Whatever comes of it, the action leaves memory as it should be. -/
def Tidies {α : Type} (act : Action α) : Prop := ∀ e, e.Tidy → Ensures act e fun _ e' => Orderly e e'

theorem Orderly.trans {e e' e'' : Engine} (first : Orderly e e') (second : Orderly e' e'') : Orderly e e'' :=
  ⟨second.tidy, second.settings.trans first.settings⟩

namespace Tidy

variable {e : Engine} (tidy : e.Tidy)

include tidy

theorem refl : Orderly e e := ⟨tidy, rfl⟩

/-- What is not in memory does not matter. -/
theorem orderly_of_same_memory {e' : Engine} (settings : e'.settings = e.settings) (resident : e'.resident = e.resident)
    (recency : e'.recency = e.recency) : Orderly e e' := by
  refine ⟨⟨?_, ?_, ?_⟩, settings⟩
  · rw [resident]
    exact tidy.own
  · rw [resident, recency]
    exact tidy.tracked
  · rw [resident, settings]
    exact tidy.bounded

theorem own_insert (page : Page) {p : PageId} {copy : Page}
    (found : (e.resident.insert page.id page).get? p = some copy) : copy.id = p := by
  rw [FinMap.get?_insert] at found
  split at found
  · rename_i same
    cases found
    exact same.symm
  · exact tidy.own found

theorem orderly_replace (page : Page) (present : (e.resident.get? page.id).isSome) :
    Orderly e { e with resident := e.resident.insert page.id page } := by
  refine ⟨⟨tidy.own_insert page, ?_, ?_⟩, rfl⟩
  · intro p
    rw [tidy.tracked, FinMap.get?_insert]
    split
    · rename_i same
      rw [same, present]
      rfl
    · rfl
  · show (e.resident.insert page.id page).size ≤ _
    rw [FinMap.size_insert_of_present page present]
    exact tidy.bounded

theorem orderly_touch (p : PageId) (present : (e.resident.get? p).isSome) :
    Orderly e { e with recency := e.recency.touch p } := by
  refine ⟨⟨tidy.own, ?_, tidy.bounded⟩, rfl⟩
  intro q
  show ((e.recency.uses.insert p _).get? q).isSome = _
  rw [FinMap.get?_insert, ← tidy.tracked]
  split
  · rename_i same
    rw [same, tidy.tracked, present]
    rfl
  · rfl

theorem orderly_forget (p : PageId) :
    Orderly e { e with resident := e.resident.erase p, recency := e.recency.forget p } := by
  refine ⟨⟨?_, ?_, ?_⟩, rfl⟩
  · intro q page found
    rw [FinMap.get?_erase] at found
    split at found
    · exact absurd found (by simp)
    · exact tidy.own found
  · intro q
    show ((e.recency.uses.erase p).get? q).isSome = ((e.resident.erase p).get? q).isSome
    rw [FinMap.get?_erase, FinMap.get?_erase]
    split
    · rfl
    · exact tidy.tracked q
  · exact Nat.le_trans (FinMap.size_filter_le _ _) tidy.bounded

theorem orderly_load (page : Page) (absent : e.resident.get? page.id = none)
    (room : e.resident.size < e.settings.poolPages) :
    Orderly e { e with resident := e.resident.insert page.id page, recency := e.recency.touch page.id } := by
  refine ⟨⟨tidy.own_insert page, ?_, ?_⟩, rfl⟩
  · intro q
    show ((e.recency.uses.insert page.id _).get? q).isSome = ((e.resident.insert page.id page).get? q).isSome
    rw [FinMap.get?_insert, FinMap.get?_insert]
    split
    · rfl
    · exact tidy.tracked q
  · show (e.resident.insert page.id page).size ≤ _
    rw [FinMap.size_insert, FinMap.size_erase_of_absent absent]
    exact room

/-- When no page can be given up, there are as many as there may be, and all are in use. -/
theorem stuck_iff : e.Stuck ↔ e.resident.size = e.settings.poolPages ∧
    ∀ p page, e.resident.get? p = some page → e.locks.isLocked p ∨ page.isDirty := by
  have used : ∀ p page, e.resident.get? p = some page →
      (e.mayEvict p = false ↔ e.locks.isLocked p ∨ page.isDirty) := by
    intro p page found
    rw [mayEvict, found]
    cases e.locks.isLocked p <;> simp
  rw [Stuck, isFull, decide_eq_true_eq, Recency.evict_eq_none_iff]
  constructor
  · intro stuck
    refine ⟨Nat.le_antisymm tidy.bounded stuck.1, ?_⟩
    intro p page found
    have tracked := tidy.tracked p
    rw [found] at tracked
    exact (used p page found).mp (stuck.2 p tracked)
  · intro stuck
    refine ⟨Nat.le_of_eq stuck.1.symm, ?_⟩
    intro p tracked
    rw [tidy.tracked] at tracked
    obtain ⟨page, found⟩ := Option.isSome_iff_exists.mp tracked
    exact (used p page found).mpr (stuck.2 p page found)

end Tidy

namespace Tidies

variable {α β : Type} {act : Action α} {next : α → Action β}

theorem pure (a : α) : Tidies (Pure.pure a : Action α) := fun _ tidy => tidy.refl

theorem throw (fault : Fault) : Tidies (MonadExcept.throw fault : Action α) := fun _ tidy => tidy.refl

theorem get_bind {next : Engine → Action β} (later : ∀ e, Tidies (next e)) : Tidies (get >>= next) :=
  fun e tidy => later e e tidy

theorem bind (first : Tidies act) (later : ∀ a, Tidies (next a)) : Tidies (act >>= next) := by
  intro e tidy
  refine (first e tidy).bind ?_ fun _ _ orderly => orderly
  intro a e' orderly
  exact (later a e' orderly.tidy).mono fun _ _ => orderly.trans

/-- What the action does it does not do in memory. -/
theorem of_untouched (same : ∀ e, Ensures act e fun _ e' =>
    e'.settings = e.settings ∧ e'.resident = e.resident ∧ e'.recency = e.recency) : Tidies act :=
  fun e tidy => (same e).mono fun _ _ ⟨settings, resident, recency⟩ => tidy.orderly_of_same_memory settings resident
    recency

end Tidies

theorem resolve_tidies (table : TableId) : Tidies (resolve table) := by
  intro e tidy
  rw [Ensures, resolve]
  cases e.catalog.find? table with
  | some entry => exact tidy.refl
  | none => exact tidy.refl

theorem openFile_untouched (file : FileNo) (table : TableId) (e : Engine) :
    Ensures (openFile file table) e fun _ e' => e' = e := by
  rw [Ensures, openFile]
  cases e.files[file]? <;> rfl

theorem extendFile_tidies (file : FileNo) (table : TableId) : Tidies (extendFile file table) := by
  refine .of_untouched fun e => (openFile_untouched file table e).bind ?_ ?_
  · intro f e' same
    subst same
    exact ⟨rfl, rfl, rfl⟩
  · intro fault e' same
    subst same
    exact ⟨rfl, rfl, rfl⟩

theorem lock_tidies (txn : TxnId) (p : PageId) (mode : LockMode) : Tidies (lock txn p mode) := by
  refine .of_untouched fun e => ?_
  rw [Ensures, lock]
  obtain ⟨verdict, locks⟩ := e.locks.requestNow ⟨txn, p, mode⟩
  cases verdict <;> exact ⟨rfl, rfl, rfl⟩

theorem unlockUnless_tidies (held : Bool) (txn : TxnId) (p : PageId) : Tidies (unlockUnless held txn p) := by
  cases held with
  | true => exact .pure ()
  | false => exact .of_untouched fun e => ⟨rfl, rfl, rfl⟩

/-! ### Pages come and go -/

section

variable {e : Engine} (tidy : e.Tidy)

include tidy

theorem makeRoom_tidies : Ensures makeRoom e fun
    | .ok _, e' => Orderly e e' ∧ e'.resident.size < e'.settings.poolPages ∧
        ∀ p, e.resident.get? p = none → e'.resident.get? p = none
    | .error _, e' => e' = e := by
  refine (makeRoom_cases e).mono ?_
  rintro (fault | _) e' made
  · exact made.2.1
  · obtain ⟨-, ⟨free, rfl⟩ | ⟨-, victim, page, -, here, -, rfl⟩⟩ := made
    · rw [isFull, decide_eq_true_eq] at free
      exact ⟨tidy.refl, Nat.not_le.mp free, fun _ absent => absent⟩
    · refine ⟨tidy.orderly_forget victim, ?_, ?_⟩
      · have fewer := FinMap.size_erase_of_present (show (e.resident.get? victim).isSome by rw [here]; rfl)
        have bounded := tidy.bounded
        show (e.resident.erase victim).size < e.settings.poolPages
        omega
      · intro q absent
        exact (FinMap.get?_erase ..).trans (by rw [absent, ite_self])

omit tidy in
theorem readPage_untouched (file : FileNo) (p : PageId) (e : Engine) : Ensures (readPage file p) e fun answer e' =>
    e'.settings = e.settings ∧ e'.resident = e.resident ∧ e'.recency = e.recency ∧
      ∀ page, answer = .ok page → page.id = p := by
  refine (openFile_untouched file p.table e).bind ?_ ?_
  · intro f e' same
    subst same
    refine .get_bind ?_
    cases done : f.read (e'.contentsOf f) p with
    | error fault => exact ⟨rfl, rfl, rfl, fun _ failed => absurd failed (by simp)⟩
    | ok read =>
      obtain ⟨loaded, f'⟩ := read
      refine ⟨rfl, rfl, rfl, ?_⟩
      intro page same
      cases same
      obtain ⟨-, -, -, decoded, -⟩ := TableFile.read_eq_ok_iff.mp done
      exact (Page.frame_of_decode? decoded).1
  · intro fault e' same
    subst same
    exact ⟨rfl, rfl, rfl, fun _ failed => absurd failed (by simp)⟩

omit tidy in
theorem writePage_untouched (file : FileNo) (page : Page) (e : Engine) :
    Ensures (writePage file page) e fun _ e' =>
      e'.settings = e.settings ∧ e'.resident = e.resident ∧ e'.recency = e.recency := by
  refine (openFile_untouched file page.id.table e).bind ?_ ?_
  · intro f e' same
    subst same
    refine .get_bind ?_
    cases f.write (e'.contentsOf f) page with
    | error fault => exact ⟨rfl, rfl, rfl⟩
    | ok written => exact ⟨rfl, rfl, rfl⟩
  · intro fault e' same
    subst same
    exact ⟨rfl, rfl, rfl⟩

theorem load_tidies (p : PageId) (absent : e.resident.get? p = none) : Ensures (load p) e fun answer e' =>
    Orderly e e' ∧ ∀ page, answer = .ok page → page.id = p ∧ e'.resident.get? p = some page := by
  refine (makeRoom_tidies tidy).bind ?_ ?_
  · intro _ e₁ made
    obtain ⟨orderly, room, still⟩ := made
    refine (resolve_ensures p.table).bind ?_ ?_
    · intro entry e₂ resolved
      obtain ⟨rfl, -⟩ := resolved
      refine (readPage_untouched entry.file p e₂).bind ?_ ?_
      · intro page e₃ read
        obtain ⟨settings, resident, recency, own⟩ := read
        have unread := orderly.tidy.orderly_of_same_memory settings resident recency
        have own := own page rfl
        have absent' : e₃.resident.get? page.id = none := by
          rw [resident, own]
          exact still p absent
        have room' : e₃.resident.size < e₃.settings.poolPages := by
          rw [resident, settings]
          exact room
        have kept := unread.tidy.orderly_load page absent' room'
        refine ⟨orderly.trans (unread.trans ?_), ?_⟩
        · rw [← own]
          exact kept
        · intro given same
          cases same
          refine ⟨own, ?_⟩
          show (e₃.resident.insert page.id page).get? p = some page
          rw [own, FinMap.get?_insert_self]
      · intro fault e₃ failed
        obtain ⟨settings, resident, recency, -⟩ := failed
        have unread := orderly.tidy.orderly_of_same_memory settings resident recency
        exact ⟨orderly.trans unread, fun _ failed => absurd failed (by simp)⟩
    · intro fault e₂ failed
      obtain ⟨rfl, -⟩ := failed
      exact ⟨orderly, fun _ failed => absurd failed (by simp)⟩
  · intro fault e₁ same
    subst same
    exact ⟨tidy.refl, fun _ failed => absurd failed (by simp)⟩

theorem getPage_keeps (txn : TxnId) (p : PageId) (mode : LockMode) : Ensures (getPage txn p mode) e fun answer e' =>
    Orderly e e' ∧ ∀ page, answer = .ok page → page.id = p ∧ e'.resident.get? p = some page := by
  refine (lock_tidies txn p mode e tidy).bind ?_ ?_
  · intro _ e₁ locked
    refine .get_bind ?_
    cases resident : e₁.resident.get? p with
    | some page =>
      refine ⟨locked.trans (locked.tidy.orderly_touch p (by rw [resident]; rfl)), ?_⟩
      intro given same
      cases same
      exact ⟨locked.tidy.own resident, resident⟩
    | none =>
      refine (load_tidies locked.tidy p resident).mono ?_
      intro answer e₂ loaded
      exact ⟨locked.trans loaded.1, loaded.2⟩
  · intro fault e₁ failed
    exact ⟨failed, fun _ failed => absurd failed (by simp)⟩

theorem keep_tidies {page changed : Page} {p : PageId} (same : changed.id = p)
    (resident : e.resident.get? p = some page) : Ensures (keep changed) e fun _ e' => Orderly e e' := by
  refine tidy.orderly_replace changed ?_
  rw [same, resident]
  rfl

end

theorem getPage_tidies (txn : TxnId) (p : PageId) (mode : LockMode) : Tidies (getPage txn p mode) := by
  intro e tidy
  exact (getPage_keeps tidy txn p mode).mono fun _ _ kept => kept.1

theorem handBack_tidies (txn : TxnId) (copy : Page) : Tidies (handBack txn copy) := by
  intro e tidy
  refine .get_bind ?_
  cases resident : e.resident.get? copy.id with
  | some page =>
    have present : (e.resident.get? copy.id).isSome := by rw [resident]; rfl
    have replaced := tidy.orderly_replace (copy.markDirty txn) present
    have placed : (e.resident.insert copy.id (copy.markDirty txn)).get? copy.id = some (copy.markDirty txn) :=
      FinMap.get?_insert_self ..
    exact replaced.trans (replaced.tidy.orderly_touch copy.id (Option.isSome_of_eq_some placed))
  | none =>
    refine (makeRoom_tidies tidy).bind ?_ ?_
    · rintro _ e₁ ⟨orderly, room, still⟩
      exact orderly.trans (orderly.tidy.orderly_load (copy.markDirty txn) (still copy.id resident) room)
    · rintro fault e₁ rfl
      exact tidy.refl

theorem markDirty_tidies (txn : TxnId) (handle : Handle) : Tidies (markDirty txn handle) := by
  cases handle with
  | stray copy => exact handBack_tidies txn copy
  | current p =>
    intro e tidy
    rw [Ensures, markDirty_current]
    cases resident : e.resident.get? p with
    | none => exact tidy.refl
    | some page =>
      have own := tidy.own resident
      exact keep_tidies tidy (show (page.markDirty txn).id = p from own) resident

/-! ### Rows -/

theorem insertOn_tidies (txn : TxnId) (p : PageId) (row : Row) : Tidies (insertOn txn p row) := by
  refine .get_bind fun before => ?_
  intro e tidy
  refine (getPage_keeps tidy txn p .exclusive).bind ?_ ?_
  · intro page e₁ gotten
    obtain ⟨orderly, here⟩ := gotten
    obtain ⟨own, resident⟩ := here page rfl
    by_cases full : page.freeSlots = 0
    · rw [if_pos full]
      have ended : Tidies (do
          unlockUnless (before.locks.holds txn p) txn p
          return none : Action (Option RowId)) :=
        (unlockUnless_tidies _ txn p).bind fun _ => .pure none
      exact (ended e₁ orderly.tidy).mono fun _ _ => orderly.trans
    · rw [if_neg full]
      have placed : Ensures (place page row) e₁ fun _ e₂ => Orderly e e₂ := by
        refine (place_ensures page row e₁).mono ?_
        rintro (fault | location) e₂ placed
        · obtain ⟨rfl, -⟩ := placed
          exact orderly
        · obtain ⟨slot, -, -, -, -, -, rfl⟩ := placed
          have kept : Ensures (keep (page.putAt slot (some row.values))) e₁ fun _ e₂ => Orderly e₁ e₂ :=
            keep_tidies orderly.tidy own resident
          exact orderly.trans kept
      exact placed.map (fun _ _ done => done) fun _ _ failed => failed
  · intro fault e₁ failed
    exact failed.1

theorem insertOnFirst_tidies (txn : TxnId) (row : Row) (pages : List PageId) :
    Tidies (insertOnFirst txn row pages) := by
  induction pages with
  | nil => exact .pure none
  | cons p rest ih =>
    refine (insertOn_tidies txn p row).bind fun answer => ?_
    cases answer with
    | some location => exact .pure (some location)
    | none => exact ih

theorem insertOnNew_tidies (txn : TxnId) (file : FileNo) (table : TableId) (row : Row) (tries : Nat) :
    Tidies (insertOnNew txn file table row tries) := by
  induction tries with
  | zero => exact .throw .poolFull
  | succ tries ih =>
    refine (extendFile_tidies file table).bind fun p => (insertOn_tidies txn p row).bind fun answer => ?_
    cases answer with
    | some location => exact .pure location
    | none => exact ih

theorem insertInFile_tidies (txn : TxnId) (file : FileNo) (table : TableId) (row : Row) :
    Tidies (insertInFile txn file table row) := by
  refine .get_bind fun e => (insertOnFirst_tidies txn row _).bind fun answer => ?_
  cases answer with
  | some location => exact .pure location
  | none => exact .get_bind fun e => insertOnNew_tidies txn file table row _

theorem insert_tidies (txn : TxnId) (table : TableId) (row : Row) : Tidies (insert txn table row) := by
  refine (resolve_tidies table).bind fun entry => .bind ?_ fun _ => .bind ?_ fun location => ?_
  · rw [checkSchema]
    split
    · exact .pure ()
    · exact .throw _
  · exact insertInFile_tidies txn entry.file table row
  · exact (markDirty_tidies txn (.current location.page)).bind fun _ => .pure location

theorem deleteInFile_tidies (txn : TxnId) (file : FileNo) (table : TableId) (row : RowId) :
    Tidies (deleteInFile txn file table (some row)) := by
  refine .get_bind fun before => ?_
  by_cases outside : row.page.table ≠ table ∨ before.pagesOf file ≤ row.page.number
  · rw [if_pos outside]
    exact .throw _
  · rw [if_neg outside]
    intro e tidy
    refine (getPage_keeps tidy txn row.page .exclusive).bind ?_ ?_
    · intro page e₁ gotten
      obtain ⟨orderly, here⟩ := gotten
      obtain ⟨own, resident⟩ := here page rfl
      cases done : page.delete (some row) with
      | error fault => exact orderly
      | ok changed =>
        obtain rfl := Page.delete_eq_ok done
        have kept : Ensures (keep (page.putAt row.slot none)) e₁ fun _ e₂ => Orderly e₁ e₂ :=
          keep_tidies orderly.tidy own resident
        exact orderly.trans kept
    · intro fault e₁ failed
      exact failed.1

theorem delete_tidies (txn : TxnId) (row : Option RowId) : Tidies (delete txn row) := by
  cases row with
  | none => exact .throw _
  | some row =>
    refine (resolve_tidies row.page.table).bind fun entry => ?_
    refine (deleteInFile_tidies txn entry.file row.page.table row).bind fun p => ?_
    exact (markDirty_tidies txn (.current p)).bind fun _ => .pure p

/-! ### Pages are written and dropped -/

theorem writeBack_tidies {e : Engine} (tidy : e.Tidy) {p : PageId} {page : Page}
    (resident : e.resident.get? p = some page) : Ensures (writeBack p page) e fun _ e' => Orderly e e' := by
  refine (resolve_ensures p.table).bind ?_ ?_
  · intro entry e₁ resolved
    obtain ⟨rfl, -⟩ := resolved
    refine (writePage_untouched entry.file page e₁).bind ?_ ?_
    · intro _ e₂ written
      obtain ⟨settings, same, recency⟩ := written
      have untouched := tidy.orderly_of_same_memory settings same recency
      rw [← same] at resident
      have own := untouched.tidy.own resident
      refine (keep_tidies untouched.tidy (show page.markClean.id = p from own) resident).mono ?_
      intro _ e₃ kept
      exact untouched.trans kept
    · intro fault e₂ failed
      exact tidy.orderly_of_same_memory failed.1 failed.2.1 failed.2.2
  · intro fault e₁ failed
    obtain ⟨rfl, -⟩ := failed
    exact tidy.refl

theorem flush_tidies (p : PageId) : Tidies (flush p) := by
  intro e tidy
  rcases e.flush_cases p with ⟨same, -⟩ | ⟨page, txn, resident, -, same⟩
  · rw [Ensures, same]
    exact tidy.refl
  · exact .congr same (writeBack_tidies tidy resident)

theorem flushEach_tidies (pages : List PageId) : Tidies (flushEach pages) := by
  induction pages with
  | nil => exact .pure ()
  | cons p rest ih => exact (flush_tidies p).bind fun _ => ih

theorem discard_tidies (p : PageId) : Tidies (discard p) := fun _ tidy => tidy.orderly_forget p

theorem discardEach_tidies (pages : List PageId) : Tidies (discardEach pages) := by
  induction pages with
  | nil => exact .pure ()
  | cons p rest ih => exact (discard_tidies p).bind fun _ => ih

theorem ending_tidies {act : Action Unit} (tidies : Tidies act) (txn : TxnId) : Tidies (ending txn act) := by
  intro e tidy
  have done := tidies e tidy
  rw [Ensures, ending]
  cases result : act e with
  | ok _ e' =>
    have orderly := done.of_ok result
    exact orderly.trans (orderly.tidy.orderly_of_same_memory rfl rfl rfl)
  | error fault e' =>
    have orderly := done.of_error result
    exact orderly.trans (orderly.tidy.orderly_of_same_memory rfl rfl rfl)

theorem commit_tidies (txn : TxnId) : Tidies (commit txn) := by
  refine ending_tidies (.bind ?_ fun _ => .pure ()) txn
  exact .get_bind fun e => (flushEach_tidies _).bind fun _ => .pure _

theorem abort_tidies (txn : TxnId) : Tidies (abort txn) :=
  ending_tidies (.get_bind fun e => discardEach_tidies (e.dirtyPages txn)) txn

/-! ### The beginning -/

theorem tidy_start (settings : Settings) (volume : Volume) : (start settings volume).Tidy :=
  ⟨fun found => absurd found (by simp [start]), fun _ => rfl, Nat.zero_le _⟩

theorem createTable_tidies (path : String) (schema : Schema) (name : String) :
    Tidies (createTable path schema name) := by
  intro e tidy
  rw [Ensures, createTable]
  cases checkPageSize e.settings.pageSize schema with
  | error fault => exact tidy.refl
  | ok _ =>
    cases e.volume.locate path with
    | error cause => exact tidy.refl
    | ok fileName => exact tidy.orderly_of_same_memory rfl rfl rfl

end Engine

end RowStore
