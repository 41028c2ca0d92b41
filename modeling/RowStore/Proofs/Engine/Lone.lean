import RowStore.Proofs.Engine.Scan
import Mathlib.Data.List.Perm.Subperm
/-!
# A transaction alone

A transaction that is alone and reads one table is in nobody's way and nobody in its, and memory
holds nothing but pages of that table. So it reads every page, unless the table has more pages than
there may be in memory.
-/

namespace RowStore.Engine

/-- Nobody but the transaction has a lock, and only pages of the table are in memory. -/
structure Alone (txn : TxnId) (table : TableId) (entry : TableEntry) (f : TableFile)
    (settings : Settings) (e : Engine) : Prop where
  coherent : e.Coherent
  found : e.catalog.find? table = some entry
  file : e.fileOf? table = some f
  settings : e.settings = settings
  locks : ∀ {other p mode}, e.locks.mode? other p = some mode → other = txn
  resident : ∀ {p page}, e.resident.get? p = some page → p.table = table

namespace Alone

variable {txn : TxnId} {table : TableId} {entry : TableEntry} {f : TableFile} {settings : Settings}
  {e : Engine} (alone : Alone txn table entry f settings e)

include alone

theorem blockers_eq_nil (p : PageId) (mode : LockMode) : e.locks.blockers ⟨txn, p, mode⟩ = [] := by
  rw [LockTable.blockers_eq_nil_iff]
  intro other held differs locked
  exact absurd (alone.locks locked) differs

/-- A page of the table that is not in memory leaves room among the pages of the table. -/
theorem size_lt {number : Nat} (inside : number < f.pages)
    (absent : e.resident.get? ⟨table, number⟩ = none) : e.resident.size < f.pages := by
  have fresh : PageId.mk table number ∉ e.resident.keys := by
    rw [FinMap.mem_keys_iff]
    intro among
    obtain ⟨page, found⟩ := among
    rw [absent] at found
    exact absurd found (by simp)
  have distinct : (PageId.mk table number :: e.resident.keys).Nodup :=
    List.nodup_cons.mpr ⟨fresh, e.resident.nodup_keys⟩
  have listed : PageId.mk table number :: e.resident.keys ⊆ (List.range f.pages).map (PageId.mk table) := by
    intro p among
    rcases List.mem_cons.mp among with rfl | among
    · exact List.mem_map_of_mem (List.mem_range.mpr inside)
    · obtain ⟨page, found⟩ := (FinMap.mem_keys_iff _ p).mp among
      obtain ⟨g, file, within, -⟩ := alone.coherent.resident found
      have own := alone.resident found
      rw [own, alone.file] at file
      cases file
      refine List.mem_map.mpr ⟨p.number, List.mem_range.mpr within, ?_⟩
      rw [← own]
  have fewer := (distinct.subperm listed).length_le
  rw [List.length_cons, List.length_map, List.length_range] at fewer
  rw [FinMap.size_eq_length_keys]
  omega

theorem alone_of_fetched {e' : Engine} {number : Nat} {mode : LockMode} (swapped : Swapped e e')
    (narrow : Narrow ⟨table, number⟩ e e') (locks : e'.locks = e.locks.grant ⟨txn, ⟨table, number⟩, mode⟩) :
    Alone txn table entry f settings e' where
  coherent := swapped.coherent
  found := by
    rw [swapped.to_sameFiles.catalog]
    exact alone.found
  file := by
    rw [swapped.to_sameFiles.fileOf?_kept]
    exact alone.file
  settings := narrow.settings.trans alone.settings
  locks := by
    intro other p held locked
    rw [locks, LockTable.mode?_grant] at locked
    split at locked
    · rename_i same
      exact same.2
    · exact alone.locks locked
  resident := by
    intro p page found
    by_cases same : p = ⟨table, number⟩
    · rw [same]
    · cases before : e.resident.get? p with
      | some copy => exact alone.resident before
      | none =>
        rw [narrow.absent p same before] at found
        exact absurd found (by simp)

theorem getPage_ensures {number : Nat} (inside : number < f.pages) (mode : LockMode) :
    Ensures (getPage txn ⟨table, number⟩ mode) e fun
    | .ok _, e' => Alone txn table entry f settings e'
    | .error fault, e' => Alone txn table entry f settings e' ∧ fault = .poolFull ∧
        settings.poolPages < f.pages := by
  refine (Engine.getPage_ensures alone.coherent txn ⟨table, number⟩ mode).mono ?_
  intro answer e' outcome
  cases answer with
  | ok page =>
    obtain ⟨-, -, swapped, locks, -, narrow⟩ := outcome
    exact alone.alone_of_fetched swapped narrow locks
  | error fault =>
    obtain ⟨swapped, narrow, ⟨blocked, -⟩ | ⟨-, locks, absent, reason⟩⟩ := outcome
    · exact absurd (alone.blockers_eq_nil _ mode) blocked
    · have alone' := alone.alone_of_fetched swapped narrow locks
      rcases reason with ⟨full, stuck⟩ | ⟨missing, -⟩
      · refine ⟨alone', full, ?_⟩
        have crowded := of_decide_eq_true stuck.1
        rw [alone'.settings] at crowded
        exact Nat.lt_of_le_of_lt crowded (alone'.size_lt inside absent)
      · obtain ⟨page, seen, -⟩ := alone.coherent.exists_view (p := ⟨table, number⟩) alone.file inside
        rw [seen] at missing
        exact absurd missing (by simp)

/-- The scan comes to its end, or the table has more pages than there may be in memory. -/
theorem take_ensures (n : Nat) :
    Ensures (FileScan.take n) (FileScan.start entry.file table txn, e) fun
    | .ok (rows, none), _ =>
        rows = ((e.rowsFrom table (List.range f.pages)).map some ++ [none]).take n
    | .ok (rows, some fault), _ => fault = .poolFull ∧ settings.poolPages < f.pages ∧
        ∃ given rest, rows = given.map some ∧ e.rowsFrom table (List.range f.pages) = given ++ rest
    | .error _, _ => False := by
  let s := FileScan.start entry.file table txn
  have long : ∀ e, Alone txn table entry f settings e → e.pagesOf s.file = f.pages :=
    fun e alone => pagesOf_of_fileOf? alone.found alone.file
  have each : s.Fetches f.pages (Alone txn table entry f settings) fun fault _ =>
      fault = .poolFull ∧ settings.poolPages < f.pages :=
    fun e number alone inside => alone.getPage_ensures inside .shared
  have pages : e.pagesOf entry.file = f.pages := long e alone
  have content := FileScan.take_ensures alone.coherent s n
  have scanned := FileScan.take_keeps long each alone ⟨rfl, rfl, rfl⟩ n
  have remaining : s.remaining e = e.rowsFrom table (List.range f.pages) := by
    rw [← pages]
    exact FileScan.remaining_start e entry.file table txn
  cases result : FileScan.take n (s, e) with
  | error fault left => exact (content.of_error result).elim
  | ok answer left =>
    obtain ⟨rows, fault⟩ := answer
    have took := content.of_ok result
    have ends := scanned.of_ok result
    rw [Ensures, result]
    rw [← remaining]
    cases fault with
    | none => exact took.whole rfl
    | some fault =>
      obtain ⟨-, given, rows, split⟩ := took.halted fault rfl
      obtain ⟨-, -, reason⟩ := ends
      obtain ⟨full, fewer⟩ := reason fault rfl
      exact ⟨full, fewer, given, _, rows, split⟩

end Alone

end RowStore.Engine
