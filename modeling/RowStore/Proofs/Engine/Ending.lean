import RowStore.Proofs.Engine.Rows
/-!
# The end of a transaction

A commit writes the pages that hold changes of the transaction, and leaves them in memory without
changes. An abort takes those pages out of memory, so that a reader finds again what their files
have. Neither touches a page of anybody else, neither can fail, and after both the transaction holds
no lock.
-/

namespace RowStore

/-- The file, had nothing been read from it and nothing been written to it. -/
def TableFile.untouched (f : TableFile) : TableFile := { f with reads := 0, writes := 0 }

theorem Page.markClean_of_clean (page : Page) (clean : page.dirtier = none) : page.markClean = page := by
  rw [Page.markClean, ← clean]

namespace PageId

theorem isLE_compare_iff (a b : PageId) : (compare a b).isLE ↔
    a.table.number < b.table.number ∨ (a.table.number = b.table.number ∧ a.number ≤ b.number) := by
  rcases a with ⟨⟨table⟩, number⟩
  rcases b with ⟨⟨other⟩, number'⟩
  show (((compare table other).then .eq).then ((compare number number').then .eq)).isLE ↔ _
  simp [Ordering.isLE_then_iff_or, Nat.isLE_compare, Nat.compare_eq_lt]

/-- In what order the pages came makes no difference once they are sorted. -/
theorem sorted_eq_of_perm {pages pages' : List PageId} (perm : pages.Perm pages') :
    sorted pages = sorted pages' := by
  have ordered : ∀ pages : List PageId, (sorted pages).Pairwise fun a b => (compare a b).isLE := by
    intro pages
    apply List.pairwise_mergeSort
    · intro a b c first second
      rw [isLE_compare_iff] at first second ⊢
      omega
    · intro a b
      rw [Bool.or_eq_true, isLE_compare_iff, isLE_compare_iff]
      omega
  refine List.Perm.eq_of_pairwise ?_ (ordered pages) (ordered pages') ?_
  · intro a b _ _ first second
    rw [isLE_compare_iff] at first second
    rcases a with ⟨⟨table⟩, number⟩
    rcases b with ⟨⟨other⟩, number'⟩
    simp only at first second
    obtain rfl : table = other := by omega
    obtain rfl : number = number' := by omega
    rfl
  · exact (List.mergeSort_perm _ _).trans (perm.trans (List.mergeSort_perm _ _).symm)

end PageId

namespace Engine

/-! ### Which pages hold changes -/

theorem mem_sorted_iff (pages : List PageId) (p : PageId) : p ∈ PageId.sorted pages ↔ p ∈ pages :=
  (List.mergeSort_perm pages _).mem_iff

theorem mem_dirtyPages_iff (e : Engine) (txn : TxnId) (p : PageId) :
    p ∈ e.dirtyPages txn ↔ ∃ page, e.view? p = some page ∧ page.dirtier = some txn := by
  rw [dirtyPages, mem_sorted_iff, FinMap.mem_keys_iff]
  constructor
  · intro among
    obtain ⟨page, found⟩ := among
    rw [FinMap.get?_filter, Option.filter_eq_some_iff, decide_eq_true_eq] at found
    exact ⟨page, view?_of_resident found.1, found.2⟩
  · intro among
    obtain ⟨page, seen, dirty⟩ := among
    have resident := resident_of_dirty seen (by rw [dirty]; exact Option.some_ne_none txn)
    refine ⟨page, ?_⟩
    rw [FinMap.get?_filter, resident, Option.filter_some, if_pos (decide_eq_true dirty)]

/-! ### Writing changes -/

/-- Those of the pages that held changes have been written. -/
structure Flushed (pages : List PageId) (e e' : Engine) : Prop where
  coherent : e'.Coherent
  locks : e'.locks = e.locks
  tables : SameTables e e'
  files : ∀ table, (e'.fileOf? table).map TableFile.untouched = (e.fileOf? table).map TableFile.untouched
  view? : ∀ p, e'.view? p = if p ∈ pages then (e.view? p).map Page.markClean else e.view? p
  written : ∀ p page, p ∈ pages → e.view? p = some page → page.dirtier ≠ none →
    e'.bytes? p = some page.encode
  kept : ∀ p, (∀ page, p ∈ pages → e.view? p = some page → page.dirtier = none) →
    e'.bytes? p = e.bytes? p

theorem Flushed.nil {e : Engine} (coherent : e.Coherent) : Flushed [] e e where
  coherent := coherent
  locks := rfl
  tables := .refl
  files _ := rfl
  view? p := by simp
  written p page among := by simp at among
  kept p _ := rfl

theorem Flushed.flushed_of_clean {e e' : Engine} {p : PageId} {rest : List PageId}
    (clean : ∀ page, e.view? p = some page → page.dirtier = none) (flushed : Flushed rest e e') :
    Flushed (p :: rest) e e' where
  coherent := flushed.coherent
  locks := flushed.locks
  tables := flushed.tables
  files := flushed.files
  view? q := by
    rw [flushed.view?]
    by_cases same : q = p
    · have unchanged : (e.view? q).map Page.markClean = e.view? q := by
        cases seen : e.view? q with
        | none => rfl
        | some page =>
          rw [same] at seen
          rw [Option.map_some, page.markClean_of_clean (clean page seen)]
      rw [unchanged, ite_self, ite_self]
    · simp only [List.mem_cons, same, false_or]
  written q page among seen dirty := by
    rcases List.mem_cons.mp among with rfl | later
    · exact absurd (clean page seen) dirty
    · exact flushed.written q page later seen dirty
  kept q unchanged := flushed.kept q fun page later => unchanged page (List.mem_cons_of_mem _ later)

theorem Flushed.cons {e e₁ e' : Engine} {page : Page} {rest : List PageId}
    (first : WrittenBack page e e₁) (flushed : Flushed rest e₁ e') :
    Flushed (page.id :: rest) e e' where
  coherent := flushed.coherent
  locks := flushed.locks.trans first.locks_eq
  tables := first.to_sameTables.trans flushed.tables
  files table := by
    rw [flushed.files, first.fileOf?_after]
    cases e.fileOf? table with
    | none => rfl
    | some f =>
      rw [Option.map_some, Option.map_some, Option.map_some]
      split <;> rfl
  view? q := by
    rw [flushed.view?, first.view?_after]
    by_cases same : q = page.id
    · simp only [same, List.mem_cons, true_or, if_true, first.seen]
      split <;> rfl
    · rw [if_neg same]
      simp only [List.mem_cons, same, false_or]
  written q other among seen dirty := by
    by_cases same : q = page.id
    · rw [same, first.seen] at seen
      cases seen
      rw [flushed.kept, first.bytes?_after, if_pos same]
      intro copy _ found
      rw [first.view?_after, if_pos same] at found
      cases found
      rfl
    · have later : q ∈ rest := (List.mem_cons.mp among).resolve_left same
      have seen₁ : e₁.view? q = some other := by rw [first.view?_after, if_neg same, seen]
      exact flushed.written q other later seen₁ dirty
  kept q unchanged := by
    have differs : q ≠ page.id := by
      intro same
      rw [same] at unchanged
      exact first.dirty (unchanged page List.mem_cons_self first.seen)
    rw [flushed.kept, first.bytes?_after, if_neg differs]
    intro copy later found
    rw [first.view?_after, if_neg differs] at found
    exact unchanged copy (List.mem_cons_of_mem _ later) found

theorem flushEach_ensures {e : Engine} (coherent : e.Coherent) (pages : List PageId) :
    Ensures (flushEach pages) e fun
    | .ok _, e' => Flushed pages e e'
    | .error _, _ => False := by
  induction pages generalizing e with
  | nil => exact .pure (.nil coherent)
  | cons p rest ih =>
    refine (flush_ensures coherent p).bind ?_ fun _ _ => False.elim
    intro _ e₁ done
    rcases done with ⟨rfl, clean⟩ | ⟨page, rfl, written⟩
    · refine (ih coherent).mono ?_
      intro answer e' flushed
      cases answer with
      | ok => exact .flushed_of_clean clean flushed
      | error => exact flushed
    · refine (ih written.after).mono ?_
      intro answer e' flushed
      cases answer with
      | ok => exact .cons written flushed
      | error => exact flushed

/-- The changes of the transaction have gone to the files, and its locks are gone. -/
structure Committed (txn : TxnId) (e e' : Engine) : Prop where
  coherent : e'.Coherent
  locks : e'.locks = e.locks.releaseAll txn
  tables : SameTables e e'
  files : ∀ table, (e'.fileOf? table).map TableFile.untouched = (e.fileOf? table).map TableFile.untouched
  view? : ∀ p, e'.view? p =
    (e.view? p).map fun page => if page.dirtier = some txn then page.markClean else page
  written : ∀ p page, e.view? p = some page → page.dirtier = some txn → e'.bytes? p = some page.encode
  kept : ∀ p, (∀ page, e.view? p = some page → page.dirtier ≠ some txn) → e'.bytes? p = e.bytes? p

namespace Committed

variable {txn : TxnId} {e e' : Engine} (committed : Committed txn e e')

include committed

theorem fileOf?_kept {table : TableId} {f : TableFile} (file : e.fileOf? table = some f) :
    ∃ g, e'.fileOf? table = some g ∧ g.schema = f.schema ∧ g.pages = f.pages := by
  have files := committed.files table
  rw [file, Option.map_some] at files
  obtain ⟨g, here, same⟩ := Option.map_eq_some_iff.mp files
  have schema : g.untouched.schema = f.untouched.schema := by rw [same]
  have pages : g.untouched.pages = f.untouched.pages := by rw [same]
  exact ⟨g, here, schema, pages⟩

theorem stored?_of_others (p : PageId)
    (others : ∀ page, e.view? p = some page → page.dirtier ≠ some txn) : e'.stored? p = e.stored? p := by
  rw [stored?, stored?, committed.kept p others]
  cases file : e.fileOf? p.table with
  | none =>
    have files := committed.files p.table
    rw [file, Option.map_none, Option.map_eq_none_iff] at files
    rw [files]
  | some f =>
    obtain ⟨g, here, schema, -⟩ := committed.fileOf?_kept file
    rw [here, Option.bind_some, Option.bind_some, schema]

theorem stored?_of_dirty {p : PageId} {page : Page} (seen : e.view? p = some page)
    (dirty : page.dirtier = some txn) : e'.stored? p = some page.markClean := by
  apply committed.coherent.stored?_of_clean
  · rw [committed.view?, seen, Option.map_some, if_pos dirty]
  · rfl

/-- A page with changes has not been written, so somebody else has changed it. -/
theorem dirty_before {p : PageId} {page : Page} {other : TxnId} (seen : e'.view? p = some page)
    (dirty : page.dirtier = some other) : e.view? p = some page ∧ other ≠ txn := by
  rw [committed.view?, Option.map_eq_some_iff] at seen
  obtain ⟨before, found, same⟩ := seen
  split at same
  · rw [← same] at dirty
    exact absurd dirty (by simp [Page.markClean])
  · rename_i others
    subst same
    refine ⟨found, ?_⟩
    rintro rfl
    exact others dirty

end Committed

theorem Flushed.committed_releaseAll {e e₁ : Engine} {txn : TxnId} (flushed : Flushed (e.dirtyPages txn) e e₁) :
    Committed txn e (e₁.releaseAll txn) := by
  have swapped : Swapped e₁ (e₁.releaseAll txn) :=
    flushed.coherent.swapped_same ⟨rfl, rfl, rfl, rfl⟩ rfl
  constructor
  case coherent => exact swapped.coherent
  case locks =>
    rw [← flushed.locks]
    rfl
  case tables => exact flushed.tables.trans swapped.to_sameFiles.to_sameTables
  case files => exact flushed.files
  case view? =>
    intro p
    rw [swapped.view?_eq, flushed.view?]
    cases seen : e.view? p with
    | none => rw [Option.map_none, Option.map_none, ite_self]
    | some page =>
      have among := e.mem_dirtyPages_iff txn p
      simp only [seen, Option.some.injEq, exists_eq_left'] at among
      simp only [among, Option.map_some]
      split <;> rfl
  case written =>
    intro p page seen dirty
    have among := (e.mem_dirtyPages_iff txn p).mpr ⟨page, seen, dirty⟩
    exact flushed.written p page among seen (by rw [dirty]; exact Option.some_ne_none txn)
  case kept =>
    intro p others
    apply flushed.kept
    intro page among seen
    obtain ⟨copy, same, dirty⟩ := (e.mem_dirtyPages_iff txn p).mp among
    exact absurd dirty (others copy same)

theorem commit_ensures {e : Engine} (coherent : e.Coherent) (txn : TxnId) : Ensures (commit txn) e fun
    | .ok _, e' => Committed txn e e'
    | .error _, _ => False := by
  have flushing : Ensures (do let _ ← flushPages txn) e fun
      | .ok _, e' => Flushed (e.dirtyPages txn) e e'
      | .error _, _ => False := by
    have counted : Ensures (flushPages txn) e fun
        | .ok _, e' => Flushed (e.dirtyPages txn) e e'
        | .error _, _ => False := by
      refine .get_bind ((flushEach_ensures coherent (e.dirtyPages txn)).bind ?_ fun _ _ => False.elim)
      intro _ e' flushed
      exact .pure flushed
    refine counted.bind ?_ fun _ _ => False.elim
    intro _ e' flushed
    exact .pure flushed
  rw [Ensures, commit, ending]
  cases result : (do let _ ← flushPages txn : Action Unit) e with
  | ok a e₁ => exact (flushing.of_ok result).committed_releaseAll
  | error fault e₁ => exact flushing.of_error result

/-! ### Dropping changes -/

def dropped (e : Engine) (p : PageId) : Engine :=
  { e with resident := e.resident.erase p, recency := e.recency.forget p }

/-- A page that is dropped is afterwards what its file has. -/
theorem Coherent.coherent_dropped {e : Engine} (coherent : e.Coherent) (p : PageId) :
    (e.dropped p).Coherent ∧ (e.dropped p).surface = e.surface.set p (e.stored? p) := by
  have same : SameFiles e (e.dropped p) := ⟨rfl, rfl, rfl, rfl⟩
  obtain ⟨coherent', view⟩ := coherent.coherent_erased same p (FinMap.get?_erase e.resident p)
  refine ⟨coherent', ?_⟩
  rw [surface, funext view]
  rfl

structure Discarded (pages : List PageId) (e e' : Engine) : Prop where
  coherent : e'.Coherent
  locks : e'.locks = e.locks
  files : SameFiles e e'
  view? : ∀ p, e'.view? p = if p ∈ pages then e.stored? p else e.view? p

theorem discardEach_ensures {e : Engine} (coherent : e.Coherent) (pages : List PageId) :
    Ensures (discardEach pages) e fun
    | .ok _, e' => Discarded pages e e'
    | .error _, _ => False := by
  induction pages generalizing e with
  | nil => exact .pure ⟨coherent, rfl, ⟨rfl, rfl, rfl, rfl⟩, fun p => by simp⟩
  | cons p rest ih =>
    have same : SameFiles e (e.dropped p) := ⟨rfl, rfl, rfl, rfl⟩
    obtain ⟨coherent₁, surface₁⟩ := coherent.coherent_dropped p
    have view₁ : ∀ q, (e.dropped p).view? q = if q = p then e.stored? p else e.view? q :=
      congrFun (congrArg Surface.view surface₁)
    have step : discardEach (p :: rest) e = discardEach rest (e.dropped p) := rfl
    refine ((ih coherent₁).mono ?_).congr step
    intro answer e' discarded
    cases answer with
    | error => exact discarded
    | ok =>
      obtain ⟨coherent', locks, files, view⟩ := discarded
      refine ⟨coherent', locks, ⟨files.pageSize, files.volume, files.catalog, files.files⟩, ?_⟩
      intro q
      rw [view, view₁, same.stored?_kept]
      by_cases first : q = p
      · simp only [first, List.mem_cons, true_or, if_true, ite_self]
      · simp only [first, List.mem_cons, false_or, if_false]

/-- The changes of the transaction are gone, and so are its locks. -/
structure Aborted (txn : TxnId) (e e' : Engine) : Prop where
  coherent : e'.Coherent
  locks : e'.locks = e.locks.releaseAll txn
  files : SameFiles e e'
  view? : ∀ p, e'.view? p = if p ∈ e.dirtyPages txn then e.stored? p else e.view? p

theorem abort_ensures {e : Engine} (coherent : e.Coherent) (txn : TxnId) : Ensures (abort txn) e fun
    | .ok _, e' => Aborted txn e e'
    | .error _, _ => False := by
  have discarding : Ensures (do discardEach ((← get).dirtyPages txn)) e fun
      | .ok _, e' => Discarded (e.dirtyPages txn) e e'
      | .error _, _ => False :=
    .get_bind (discardEach_ensures coherent (e.dirtyPages txn))
  rw [Ensures, abort, ending]
  cases result : (do discardEach ((← get).dirtyPages txn) : Action Unit) e with
  | error fault e₁ => exact discarding.of_error result
  | ok a e₁ =>
    obtain ⟨coherent₁, locks, files, view⟩ := discarding.of_ok result
    have swapped : Swapped e₁ (e₁.releaseAll txn) := coherent₁.swapped_same ⟨rfl, rfl, rfl, rfl⟩ rfl
    refine ⟨swapped.coherent, ?_, ⟨files.pageSize, files.volume, files.catalog, files.files⟩, ?_⟩
    · rw [← locks]
      rfl
    · intro p
      rw [swapped.view?_eq, view]

namespace Aborted

variable {txn : TxnId} {e e' : Engine} (aborted : Aborted txn e e')

include aborted

theorem dirty_before {p : PageId} {page : Page} {other : TxnId} (seen : e'.view? p = some page)
    (dirty : page.dirtier = some other) : e.view? p = some page ∧ other ≠ txn := by
  rw [aborted.view?] at seen
  split at seen
  · rw [stored?_dirtier _ _ _ seen] at dirty
    exact absurd dirty (by simp)
  · rename_i others
    refine ⟨seen, ?_⟩
    rintro rfl
    exact others ((mem_dirtyPages_iff _ _ _).mpr ⟨page, seen, dirty⟩)

theorem view?_of_others {p : PageId} {page : Page} (seen : e.view? p = some page)
    (others : page.dirtier ≠ some txn) : e'.view? p = some page := by
  rw [aborted.view?, if_neg, seen]
  intro dropped
  obtain ⟨copy, found, dirty⟩ := (mem_dirtyPages_iff _ _ _).mp dropped
  rw [seen] at found
  cases found
  exact others dirty

end Aborted

end Engine

end RowStore
