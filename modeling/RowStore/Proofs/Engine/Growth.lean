import RowStore.Proofs.Engine.Memory
import RowStore.Proofs.Engine.Rows
/-!
# How far a file can grow

Between two ends of transactions a file grows only by pages that hold changes and stay in memory. So
there is a bound that no step exceeds and no step raises: the pages of the file and the pages in memory
that could still come to hold changes. And whoever says that there is no room in memory is right.
-/

namespace RowStore.Engine

def pagesIn (e : Engine) (table : TableId) : Nat := (e.fileOf? table).elim 0 TableFile.pages

def dirtyCount (e : Engine) : Nat := (e.resident.filter fun _ page => page.isDirty).size

/-- How many pages the table can come to have before a transaction ends. -/
def reach (e : Engine) (table : TableId) : Nat := e.pagesIn table + (e.settings.poolPages - e.dirtyCount)

theorem Tidy.dirtyCount_le {e : Engine} (tidy : e.Tidy) : e.dirtyCount ≤ e.settings.poolPages :=
  Nat.le_trans (FinMap.size_filter_le _ _) tidy.bounded

theorem Coherent.pagesOf_eq_pagesIn {e : Engine} (coherent : e.Coherent) {table : TableId} {entry : TableEntry}
    (found : e.catalog.find? table = some entry) : e.pagesOf entry.file = e.pagesIn table := by
  obtain ⟨f, file, -, -⟩ := coherent.opened found
  rw [pagesOf_of_fileOf? found file, pagesIn, file]
  rfl

theorem pagesIn_le_reach (e : Engine) (table : TableId) : e.pagesIn table ≤ e.reach table := Nat.le_add_right _ _

theorem isSome_dirty (e : Engine) (p : PageId) :
    ((e.resident.filter fun _ page => page.isDirty).get? p).isSome = (e.view? p).any Page.isDirty := by
  rw [FinMap.get?_filter]
  cases resident : e.resident.get? p with
  | some page =>
    rw [view?_of_resident resident, Option.any_some]
    cases dirty : page.isDirty <;> simp [dirty]
  | none =>
    rw [view?_of_absent resident, Option.filter_none]
    cases stored : e.stored? p with
    | none => rfl
    | some page =>
      have clean := stored?_dirtier e p page stored
      rw [Option.any_some, Page.isDirty, clean]
      rfl

theorem dirtyCount_eq {e e' : Engine} (same : ∀ p, (e'.view? p).any Page.isDirty = (e.view? p).any Page.isDirty) :
    e'.dirtyCount = e.dirtyCount := by
  apply FinMap.size_eq_of_same_keys
  intro p
  rw [isSome_dirty, isSome_dirty, same]

namespace SameFiles

theorem pagesIn_eq {e e' : Engine} (same : SameFiles e e') (table : TableId) : e'.pagesIn table = e.pagesIn table := by
  rw [Engine.pagesIn, Engine.pagesIn, same.fileOf?_kept]

end SameFiles

theorem Swapped.dirtyCount_kept {e e' : Engine} (swapped : Swapped e e') : e'.dirtyCount = e.dirtyCount :=
  dirtyCount_eq fun p => by rw [swapped.view?_eq]

namespace Changed

variable {txn : TxnId} {page : Page} {slot : Nat} {content : Option (List Value)} {e e' : Engine}
  (changed : Changed txn page slot content e e')

include changed

theorem dirtyCount_after : e'.dirtyCount = if page.isDirty then e.dirtyCount else e.dirtyCount + 1 := by
  let dirty := e.resident.filter fun _ page => page.isDirty
  have grown : e'.dirtyCount = (dirty.insert page.id page).size := by
    apply FinMap.size_eq_of_same_keys
    intro p
    rw [isSome_dirty, changed.view?_after, FinMap.get?_insert]
    split
    · rfl
    · exact (isSome_dirty e p).symm
  have before : (dirty.get? page.id).isSome = page.isDirty := by
    rw [isSome_dirty, view?_of_resident changed.owns.resident, Option.any_some]
  rw [grown]
  by_cases already : page.isDirty
  · rw [if_pos already]
    exact FinMap.size_insert_of_present page (before.trans already)
  · rw [if_neg already, FinMap.size_insert, FinMap.size_erase_of_absent]
    · rfl
    · rw [← Option.not_isSome_iff_eq_none, before]
      exact already

theorem dirtyCount_le : e.dirtyCount ≤ e'.dirtyCount := by
  rw [changed.dirtyCount_after]
  split <;> omega

end Changed

namespace Grown

variable {e e' : Engine} {table : TableId} {f : TableFile} (grown : Grown table f e e')

include grown

theorem pagesIn_after (other : TableId) :
    e'.pagesIn other = if other = table then e.pagesIn other + 1 else e.pagesIn other := by
  rw [Engine.pagesIn, Engine.pagesIn, grown.fileOf?_after]
  split
  · rename_i same
    rw [same, grown.file]
    rfl
  · rfl

theorem dirtyCount_kept : e'.dirtyCount = e.dirtyCount := by
  apply dirtyCount_eq
  intro p
  rw [grown.view?_after]
  split
  · rename_i last
    have outside : e.view? p = none := by
      cases seen : e.view? p with
      | none => rfl
      | some page =>
        obtain ⟨g, file, inside, -⟩ := grown.before.of_of_view? seen
        rw [last, TableFile.pageId, grown.before.table_eq_of_fileOf? grown.file, grown.file] at file
        cases file
        rw [last] at inside
        exact absurd inside (Nat.lt_irrefl _)
    rw [outside]
    rfl
  · rfl

end Grown

/-- Where all pages of a table were full, the page that takes a row is the one that has been added. -/
theorem Sought.clean_of_room {txn : TxnId} {table : TableId} {f : TableFile} {e e₀ e₁ e' : Engine} {page : Page}
    {slot : Nat} (full : ∀ number < f.pages, e.Full ⟨table, number⟩) (before : Browsed txn e e₀)
    (grown : Grown table f e₀ e₁) (after : Browsed txn e₁ e') (owns : Owns txn e' page) (room : Room page slot)
    (own : page.id.table = table) : page.dirtier = none := by
  have seen := owns.view?_eq_some
  have view : e'.view? = e₁.view? := after.swapped.view?_eq
  rw [view, grown.view?_after] at seen
  split at seen
  · cases seen
    rfl
  · exfalso
    obtain ⟨g, file, inside, -⟩ := grown.before.of_of_view? seen
    rw [own, grown.file] at file
    cases file
    obtain ⟨copy, found, used⟩ := full page.id.number inside
    rw [← own, ← before.swapped.view?_eq, seen] at found
    cases found
    have taken := used slot room.inside
    rw [Page.isUsed_eq, room.free] at taken
    exact absurd taken Bool.false_ne_true

/-! ### Steps that only lead onward -/

theorem Interrupted.stuck_of_full {txn : TxnId} {fault : Fault} {e : Engine} (interrupted : Interrupted txn fault e)
    (full : fault = .poolFull) : e.Stuck := by
  rcases interrupted with aborted | stuck
  · rw [full] at aborted
    exact absurd aborted (by simp)
  · exact stuck.2

theorem missing_ne_poolFull (e : Engine) (p : PageId) : e.missing p ≠ .poolFull := by
  rw [missing]
  cases e.fileOf? p.table <;> simp

/-- The engine has these tables and these settings, and memory is as it should be. -/
structure Ready (c : Catalog) (settings : Settings) (e : Engine) : Prop where
  coherent : e.Coherent
  tidy : e.Tidy
  catalog : e.catalog = c
  settings : e.settings = settings

/-- Files have only grown, and not so that they can grow further. -/
structure Onward (c : Catalog) (settings : Settings) (e e' : Engine) : Prop where
  ready : Ready c settings e'
  pages : ∀ table, e.pagesIn table ≤ e'.pagesIn table
  reach : ∀ table, e'.reach table ≤ e.reach table

/-- When there is said to be no room in memory, every page in it is in use. -/
structure Failed (c : Catalog) (settings : Settings) (e : Engine) (fault : Fault) (e' : Engine) : Prop where
  ready : Ready c settings e'
  pages : ∀ table, e.pagesIn table ≤ e'.pagesIn table
  stuck : fault = .poolFull → e'.Stuck

/-- The steps that a plan may take between two ends of transactions. -/
def Honest {α : Type} (c : Catalog) (settings : Settings) (e : Engine) (yields : α → Prop) :
    Except Fault α → Engine → Prop
  | .ok a, e' => Onward c settings e e' ∧ yields a
  | .error fault, e' => Failed c settings e fault e'

section

variable {c : Catalog} {settings : Settings} {e e' : Engine} (ready : Ready c settings e)

include ready

theorem Ready.onward_self : Onward c settings e e :=
  ⟨ready, fun _ => Nat.le_refl _, fun _ => Nat.le_refl _⟩

theorem Ready.failed_of_ne_full {fault : Fault} (other : fault ≠ .poolFull) : Failed c settings e fault e :=
  ⟨ready, fun _ => Nat.le_refl _, fun same => absurd same other⟩

theorem Ready.onward_of_browsed {txn : TxnId} (browsed : Browsed txn e e') (orderly : Orderly e e') :
    Onward c settings e e' := by
  have files := browsed.swapped.to_sameFiles
  refine ⟨⟨browsed.coherent_after, orderly.tidy, files.catalog.trans ready.catalog,
    orderly.settings.trans ready.settings⟩, ?_, ?_⟩
  · intro table
    exact Nat.le_of_eq (files.pagesIn_eq table).symm
  · intro table
    rw [Engine.reach, files.pagesIn_eq, browsed.swapped.dirtyCount_kept, orderly.settings]
    exact Nat.le_refl _

omit ready in
theorem Onward.failed_of_onward (onward : Onward c settings e e') {txn : TxnId} {fault : Fault}
    (reason : Interrupted txn fault e' ∨ fault ≠ .poolFull) : Failed c settings e fault e' := by
  refine ⟨onward.ready, onward.pages, ?_⟩
  intro full
  rcases reason with interrupted | other
  · exact interrupted.stuck_of_full full
  · exact absurd full other

theorem getPage_honest (txn : TxnId) (p : PageId) (mode : LockMode) :
    Ensures (getPage txn p mode) e (Honest c settings e fun page => e.view? p = some page) := by
  refine ((getPage_browses ready.coherent txn p mode).and (getPage_tidies txn p mode e ready.tidy)).mono ?_
  intro answer e' both
  obtain ⟨gotten, orderly⟩ := both
  cases answer with
  | ok page => exact ⟨ready.onward_of_browsed gotten.1 orderly, gotten.2.1⟩
  | error fault =>
    refine (ready.onward_of_browsed gotten.1 orderly).failed_of_onward (gotten.2.imp id ?_)
    intro absent
    rw [absent.2]
    exact e.missing_ne_poolFull p

theorem Ready.onward_of_changed {txn : TxnId} {page : Page} {slot : Nat} {content : Option (List Value)} {e₁ : Engine}
    (browsed : Browsed txn e e₁) (changed : Changed txn page slot content e₁ e') (orderly : Orderly e e') :
    Onward c settings e e' := by
  have files := changed.to_sameFiles
  have catalog := browsed.swapped.to_sameFiles.catalog.trans ready.catalog
  have count := changed.dirtyCount_le
  rw [browsed.swapped.dirtyCount_kept] at count
  have pages : ∀ table, e'.pagesIn table = e.pagesIn table := fun table =>
    (files.pagesIn_eq table).trans (browsed.swapped.to_sameFiles.pagesIn_eq table)
  refine ⟨⟨changed.after, orderly.tidy, files.catalog.trans catalog, orderly.settings.trans ready.settings⟩,
    fun table => Nat.le_of_eq (pages table).symm, ?_⟩
  intro table
  rw [Engine.reach, Engine.reach, pages, orderly.settings]
  omega

/-- A page that is added for a row leaves one page less that could come to hold changes. -/
theorem Ready.onward_of_extended {txn : TxnId} {table : TableId} {f : TableFile} {page : Page} {slot : Nat}
    {content : Option (List Value)} {e₀ e₁ e₂ : Engine} (full : ∀ number < f.pages, e.Full ⟨table, number⟩)
    (before : Browsed txn e e₀) (grown : Grown table f e₀ e₁) (after : Browsed txn e₁ e₂)
    (changed : Changed txn page slot content e₂ e') (room : Room page slot) (own : page.id.table = table)
    (orderly : Orderly e e') : Onward c settings e e' := by
  have files := changed.to_sameFiles
  have sought : Sought txn table f e e₂ := .beyond e₀ e₁ full before grown after
  have catalog := sought.to_sameTables.catalog.trans ready.catalog
  have clean := Sought.clean_of_room full before grown after changed.owns room own
  have count := changed.dirtyCount_after
  rw [Page.isDirty, clean, Option.isSome_none, if_neg Bool.false_ne_true, after.swapped.dirtyCount_kept,
    grown.dirtyCount_kept, before.swapped.dirtyCount_kept] at count
  have bounded := orderly.tidy.dirtyCount_le
  rw [orderly.settings] at bounded
  have pages : ∀ other, e'.pagesIn other = if other = table then e.pagesIn other + 1 else e.pagesIn other := by
    intro other
    rw [files.pagesIn_eq, after.swapped.to_sameFiles.pagesIn_eq, grown.pagesIn_after,
      before.swapped.to_sameFiles.pagesIn_eq]
  refine ⟨⟨changed.after, orderly.tidy, files.catalog.trans catalog, orderly.settings.trans ready.settings⟩, ?_, ?_⟩
  · intro other
    rw [pages]
    split <;> omega
  · intro other
    rw [Engine.reach, Engine.reach, pages, orderly.settings, count]
    split <;> omega

/-- A page that has been added stays, also when there is no room for it in memory. -/
theorem Ready.failed_of_sought {txn : TxnId} {table : TableId} {f : TableFile} (sought : Sought txn table f e e')
    (orderly : Orderly e e') {fault : Fault} (interrupted : Interrupted txn fault e') :
    Failed c settings e fault e' := by
  have catalog := sought.to_sameTables.catalog.trans ready.catalog
  refine ⟨⟨sought.coherent_after, orderly.tidy, catalog, orderly.settings.trans ready.settings⟩, ?_, ?_⟩
  · intro other
    cases sought with
    | among browsed => exact Nat.le_of_eq (browsed.swapped.to_sameFiles.pagesIn_eq other).symm
    | beyond e₀ e₁ full before grown after =>
      rw [after.swapped.to_sameFiles.pagesIn_eq, grown.pagesIn_after, before.swapped.to_sameFiles.pagesIn_eq]
      split <;> omega
  · exact interrupted.stuck_of_full

theorem insert_honest (txn : TxnId) (table : TableId) (row : Row) (fits : Row.Fits row.values row.schema.types) :
    Ensures (insert txn table row) e (Honest c settings e fun _ => True) := by
  refine ((insert_ensures ready.coherent txn table row fits).and
    (insert_tidies txn table row e ready.tidy)).mono ?_
  intro answer e' both
  obtain ⟨inserted, orderly⟩ := both
  cases answer with
  | ok location =>
    obtain ⟨f, e₁, page, slot, -, -, sought, room, own, -, -, changed⟩ := inserted
    cases sought with
    | among browsed => exact ⟨ready.onward_of_changed browsed changed orderly, trivial⟩
    | beyond e₀ e₂ full before grown after =>
      exact ⟨ready.onward_of_extended full before grown after changed room own orderly, trivial⟩
  | error fault =>
    rcases inserted with ⟨f, -, -, sought, interrupted⟩ | ⟨rfl, -, rfl⟩ | ⟨rfl, f, -, -, rfl⟩
    · exact ready.failed_of_sought sought orderly interrupted
    · exact ready.failed_of_ne_full (by simp)
    · exact ready.failed_of_ne_full (by simp)

theorem delete_honest (txn : TxnId) (row : Option RowId) :
    Ensures (delete txn row) e (Honest c settings e fun _ => True) := by
  cases row with
  | none => exact ready.failed_of_ne_full (by simp)
  | some row =>
    refine ((delete_ensures ready.coherent txn row).and (delete_tidies txn (some row) e ready.tidy)).mono ?_
    intro answer e' both
    obtain ⟨removed, orderly⟩ := both
    cases answer with
    | ok p =>
      obtain ⟨e₁, page, browsed, -, -, -, changed⟩ := removed
      exact ⟨ready.onward_of_changed browsed changed orderly, trivial⟩
    | error fault =>
      obtain ⟨browsed, reason⟩ := removed
      refine (ready.onward_of_browsed browsed orderly).failed_of_onward (reason.imp id ?_)
      intro refused
      rcases refused with ⟨rfl, -⟩ | ⟨rfl, -⟩
      · simp
      · simp

end

end RowStore.Engine
