import RowStore.Proofs.Engine.Memory
/-!
# Whatever is asked of the pool

The pages in memory and the pages that are tracked are kept apart, and a page comes or goes in five places: when
it is loaded, when it is given up for another, when a changed copy is put back, when it is dropped, and when the
transaction that changed it aborts. The two move together in each, also where the action fails in between.
-/

namespace RowStore

open Engine

/-- What can be asked of the pool, by anybody and in any order. -/
inductive PoolCall where
  | getPage (txn : TxnId) (page : PageId) (mode : LockMode)
  | insert (txn : TxnId) (table : TableId) (row : Row)
  | delete (txn : TxnId) (row : Option RowId)
  | handBack (txn : TxnId) (copy : Page)
  /-- The pages are visited in this order. -/
  | flush (pages : List PageId)
  | flushAll
  | flushChanges (txn : TxnId)
  | discard (page : PageId)
  | release (txn : TxnId) (page : PageId)
  | complete (txn : TxnId) (commits : Bool)
  /-- Something that is not done through the pool: tables are registered, files grow, locks are taken. -/
  | elsewhere (volume : Volume) (files : List TableFile) (catalog : Catalog) (locks : LockTable)

namespace PoolCall

def act : PoolCall → Action Unit
  | .getPage txn page mode => do let _ ← Engine.getPage txn page mode
  | .insert txn table row => do let _ ← Engine.insert txn table row
  | .delete txn row => do let _ ← Engine.delete txn row
  | .handBack txn copy => markDirty txn (.stray copy)
  | .flush pages => flushEach pages
  | .flushAll => Engine.flushAll
  | .flushChanges txn => do let _ ← flushPages txn
  | .discard page => Engine.discard page
  | .release txn page => unlock txn page
  | .complete txn true => commit txn
  | .complete txn false => abort txn
  | .elsewhere volume files catalog locks => modify fun e => { e with volume, files, catalog, locks }

theorem act_tidies (call : PoolCall) : Tidies call.act := by
  cases call with
  | getPage txn page mode => exact (getPage_tidies txn page mode).bind fun _ => .pure ()
  | insert txn table row => exact (insert_tidies txn table row).bind fun _ => .pure ()
  | delete txn row => exact (delete_tidies txn row).bind fun _ => .pure ()
  | handBack txn copy => exact markDirty_tidies txn (.stray copy)
  | flush pages => exact flushEach_tidies pages
  | flushAll => exact .get_bind fun e => flushEach_tidies e.resident.keys
  | flushChanges txn =>
    exact .bind (.get_bind fun e => (flushEach_tidies _).bind fun _ => .pure _) fun _ => .pure ()
  | discard page => exact discard_tidies page
  | release txn page => exact unlockUnless_tidies false txn page
  | complete txn commits =>
    cases commits with
    | true => exact commit_tidies txn
    | false => exact abort_tidies txn
  | elsewhere volume files catalog locks => exact .of_untouched fun e => ⟨rfl, rfl, rfl⟩

def after (e : Engine) (calls : List PoolCall) : Engine :=
  calls.foldl (fun e call => (outcome call.act e).2) e

theorem orderly_after {e : Engine} (tidy : e.Tidy) (calls : List PoolCall) : Orderly e (after e calls) := by
  induction calls generalizing e with
  | nil => exact tidy.refl
  | cons call rest ih =>
    have next := (call.act_tidies e tidy).outcome
    exact next.trans (ih next.tidy)

/-- Whatever has been asked of the pool and whatever has failed, there are no more pages in memory than there may be,
the pages that are tracked are those in memory, and each of them is there under its own number. -/
theorem tracked_pages_are_those_in_memory (settings : Settings) (volume : Volume) (calls : List PoolCall) :
    let e := after (start settings volume) calls
    e.resident.size ≤ settings.poolPages ∧
      (∀ p, (e.recency.uses.get? p).isSome = (e.resident.get? p).isSome) ∧ e.recency.size = e.resident.size ∧
      ∀ p page, e.resident.get? p = some page → page.id = p := by
  intro e
  obtain ⟨tidy, same⟩ := orderly_after (tidy_start settings volume) calls
  refine ⟨?_, tidy.tracked, FinMap.size_eq_of_same_keys tidy.tracked, fun _ _ => tidy.own⟩
  have bounded := tidy.bounded
  rw [same] at bounded
  exact bounded

end PoolCall

end RowStore
