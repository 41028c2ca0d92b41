import RowStore.Proofs.Lock.Waits
/-!
# The holders of a page

Locks are kept in two levels: a map from the pages that are locked to their holders, and for each of these pages a
map from the holders to their modes. A page counts as locked when it has an entry on the first level, so the entry
must go with the last holder. It does in every run, and then the two levels tell the same as the one table of pages
and transactions: the same modes, the same transactions in the way of a request, the same who wait for each other.
-/

namespace RowStore

/-- The locks page by page. -/
structure PageLocks where
  holders : FinMap PageId (FinMap TxnId LockMode)
  waits : WaitGraph

namespace PageLocks

def empty : PageLocks := ⟨.empty, .empty⟩

def mode? (l : PageLocks) (txn : TxnId) (page : PageId) : Option LockMode :=
  (l.holders.get? page).bind fun holders => holders.get? txn

/-- A page is locked when there is an entry for it, whoever is in the entry. -/
def isLocked (l : PageLocks) (page : PageId) : Bool := l.holders.contains page

def blockers (l : PageLocks) (r : LockRequest) : List TxnId :=
  match l.holders.get? r.page with
  | none => []
  | some holders => holders.entries.filterMap fun (holder, held) =>
      if holder ≠ r.txn ∧ (r.mode = .exclusive ∨ held = .exclusive) then some holder else none

/-- The transaction gets an entry if it has none, and an exclusive request strengthens the entry that it has. -/
def grant (l : PageLocks) (r : LockRequest) : PageLocks where
  holders :=
    let holders := (l.holders.get? r.page).getD .empty
    let held := (holders.get? r.txn).getD r.mode
    l.holders.insert r.page (holders.insert r.txn (if r.mode = .exclusive then .exclusive else held))
  waits := l.waits.stopWaiting r.txn

def giveUp (l : PageLocks) (txn : TxnId) : PageLocks := { l with waits := l.waits.stopWaiting txn }

/-- A request that has no time left. -/
def requestNow (l : PageLocks) (r : LockRequest) : Verdict × PageLocks :=
  if (l.blockers r).isEmpty then (.granted, l.grant r) else (.refused, l.giveUp r.txn)

def request (l : PageLocks) (r : LockRequest) : Verdict × PageLocks :=
  let blockers := l.blockers r
  if blockers.isEmpty then (.granted, l.grant r)
  else
    let waits := l.waits.waitFor r.txn blockers
    if waits.onCycle r.txn then (.refused, l.giveUp r.txn) else (.waiting, { l with waits })

/-- The page loses its entry when it has lost its last holder. -/
def release (l : PageLocks) (txn : TxnId) (page : PageId) : PageLocks :=
  match l.holders.get? page with
  | none => l
  | some holders =>
    let left := holders.erase txn
    { l with holders := if left.entries.isEmpty then l.holders.erase page else l.holders.insert page left }

/-- Every page whose last holder the transaction was loses its entry. -/
def releaseAll (l : PageLocks) (txn : TxnId) : PageLocks where
  holders := (l.holders.map fun _ holders => holders.erase txn).filter fun _ left => !left.entries.isEmpty
  waits := l.waits.remove txn

/-- The transaction holds the page in that mode or in a stronger one. -/
def Holds (l : PageLocks) (txn : TxnId) (page : PageId) (mode : LockMode) : Prop :=
  ∃ held, l.mode? txn page = some held ∧ held.covers mode = true

section Modes

variable (l : PageLocks) (txn : TxnId) (page : PageId)

theorem get?_holders : ((l.holders.get? page).getD .empty).get? txn = l.mode? txn page := by
  rw [mode?]
  cases l.holders.get? page with
  | none => rfl
  | some holders => rfl

theorem mode?_grant (r : LockRequest) :
    (l.grant r).mode? txn page =
      if page = r.page ∧ txn = r.txn then
        some (if l.mode? r.txn r.page = some .exclusive then .exclusive else r.mode)
      else l.mode? txn page := by
  rw [mode?, grant, FinMap.get?_insert]
  by_cases here : page = r.page
  · subst here
    rw [if_pos rfl, Option.bind_some, FinMap.get?_insert, get?_holders, get?_holders]
    by_cases own : txn = r.txn
    · subst own
      simp only [and_self, if_true]
      cases l.mode? r.txn r.page with
      | none => cases r.mode <;> rfl
      | some held => cases held <;> cases r.mode <;> rfl
    · rw [if_neg own, if_neg fun same => own same.2]
  · rw [if_neg here, if_neg fun same => here same.1, mode?]

/-- What is left of an entry when the transaction is taken out, nothing if no holder is left. -/
def without (txn : TxnId) (entry : Option (FinMap TxnId LockMode)) : Option (FinMap TxnId LockMode) :=
  (entry.map fun holders => holders.erase txn).filter fun left => !left.entries.isEmpty

theorem get?_without (other : TxnId) (entry : Option (FinMap TxnId LockMode)) :
    ((without other entry).bind fun holders => holders.get? txn) =
      if txn = other then none else entry.bind fun holders => holders.get? txn := by
  cases entry with
  | none => simp [without]
  | some holders =>
    rw [Option.bind_some, ← FinMap.get?_erase, without, Option.map_some, Option.filter_some]
    cases left : (holders.erase other).entries with
    | nil => simp [FinMap.get?, left]
    | cons holder rest => simp

theorem get?_release (other : TxnId) (released : PageId) :
    (l.release other released).holders.get? page =
      if page = released then without other (l.holders.get? page) else l.holders.get? page := by
  rw [release]
  split
  · rename_i absent
    split
    · rename_i here
      rw [here, absent]
      rfl
    · rfl
  · rename_i holders found
    by_cases here : page = released
    · subst here
      rw [if_pos rfl, found, without, Option.map_some, Option.filter_some]
      cases empty : (holders.erase other).entries.isEmpty <;> simp [empty]
    · rw [if_neg here]
      cases empty : (holders.erase other).entries.isEmpty <;>
        simp [empty, FinMap.get?_insert, FinMap.get?_erase, here]

theorem get?_releaseAll (other : TxnId) :
    (l.releaseAll other).holders.get? page = without other (l.holders.get? page) := by
  rw [releaseAll, FinMap.get?_filter, FinMap.get?_map]
  rfl

theorem mode?_release (other : TxnId) (released : PageId) :
    (l.release other released).mode? txn page =
      if page = released ∧ txn = other then none else l.mode? txn page := by
  rw [mode?, get?_release, mode?]
  by_cases here : page = released
  · rw [if_pos here, get?_without]
    simp only [here, true_and]
  · rw [if_neg here, if_neg fun same => here same.1]

theorem mode?_releaseAll (other : TxnId) :
    (l.releaseAll other).mode? txn page = if txn = other then none else l.mode? txn page := by
  rw [mode?, get?_releaseAll, get?_without, mode?]

theorem mem_blockers_iff (r : LockRequest) :
    txn ∈ l.blockers r ↔
      txn ≠ r.txn ∧ ∃ mode, l.mode? txn r.page = some mode ∧ LockTable.conflict r.mode mode = true := by
  have conflicts : ∀ held, (r.mode = .exclusive ∨ held = .exclusive) ↔ LockTable.conflict r.mode held = true := by
    intro held
    cases r.mode <;> cases held <;> decide
  rw [blockers]
  split
  · rename_i absent
    simp [mode?, absent]
  · rename_i holders found
    simp only [List.mem_filterMap, Option.ite_some_none_eq_some, mode?, found, Option.bind_some, conflicts]
    constructor
    · rintro ⟨⟨holder, held⟩, among, ⟨differs, blocks⟩, rfl⟩
      exact ⟨differs, held, (holders.get?_eq_some_iff _ _).mpr among, blocks⟩
    · rintro ⟨differs, held, found, blocks⟩
      exact ⟨(txn, held), (holders.get?_eq_some_iff _ _).mp found, ⟨differs, blocks⟩, rfl⟩

end Modes

/-! ### Every entry has a holder -/

/-- No page has an entry without a holder. -/
def Trimmed (l : PageLocks) : Prop := ∀ page holders, l.holders.get? page = some holders → holders.entries ≠ []

theorem trimmed_empty : empty.Trimmed := fun page holders found => by
  simp [empty] at found

theorem ne_nil_of_without {txn : TxnId} {entry : Option (FinMap TxnId LockMode)} {left : FinMap TxnId LockMode}
    (found : without txn entry = some left) : left.entries ≠ [] := by
  simpa using (Option.filter_eq_some_iff.mp found).2

theorem trimmed_releaseAll (l : PageLocks) (txn : TxnId) : (l.releaseAll txn).Trimmed := by
  intro page holders found
  rw [get?_releaseAll] at found
  exact ne_nil_of_without found

section Trimmed

variable {l : PageLocks} (trimmed : l.Trimmed)

include trimmed

theorem isLocked_eq_true_iff (page : PageId) :
    l.isLocked page = true ↔ ∃ txn mode, l.mode? txn page = some mode := by
  rw [isLocked, FinMap.contains, Option.isSome_iff_exists]
  constructor
  · rintro ⟨holders, found⟩
    obtain ⟨⟨txn, mode⟩, among⟩ := List.exists_mem_of_ne_nil _ (trimmed page holders found)
    refine ⟨txn, mode, ?_⟩
    rw [mode?, found]
    exact (holders.get?_eq_some_iff txn mode).mpr among
  · rintro ⟨txn, mode, held⟩
    obtain ⟨holders, found, -⟩ := Option.bind_eq_some_iff.mp held
    exact ⟨holders, found⟩

theorem trimmed_grant (r : LockRequest) : (l.grant r).Trimmed := by
  intro page holders found
  rw [grant, FinMap.get?_insert] at found
  split at found
  · cases found
    exact List.cons_ne_nil _ _
  · exact trimmed page holders found

theorem trimmed_release (txn : TxnId) (released : PageId) : (l.release txn released).Trimmed := by
  intro page holders found
  rw [get?_release] at found
  split at found
  · exact ne_nil_of_without found
  · exact trimmed page holders found

end Trimmed

/-! ### The two levels and the one table -/

/-- The holders page by page tell what the table of pages and transactions tells. -/
structure Tells (l : PageLocks) (t : LockTable) : Prop where
  trimmed : l.Trimmed
  modes : ∀ txn page, l.mode? txn page = t.mode? txn page
  edges : l.waits.Edge = t.waits.Edge

theorem tells_empty : empty.Tells .empty := ⟨trimmed_empty, fun _ _ => rfl, rfl⟩

namespace Tells

variable {l : PageLocks} {t : LockTable} (tells : l.Tells t)

include tells

theorem isLocked_eq (page : PageId) : l.isLocked page = t.isLocked page := by
  rw [Bool.eq_iff_iff, isLocked_eq_true_iff tells.trimmed, t.isLocked_eq_true_iff]
  simp only [tells.modes]

theorem mem_blockers_iff (txn : TxnId) (r : LockRequest) : txn ∈ l.blockers r ↔ txn ∈ t.blockers r := by
  rw [PageLocks.mem_blockers_iff, t.mem_blockers_iff, LockTable.Blocks]
  simp only [tells.modes]

theorem isEmpty_blockers (r : LockRequest) : (l.blockers r).isEmpty = (t.blockers r).isEmpty := by
  rw [Bool.eq_iff_iff, List.isEmpty_iff, List.isEmpty_iff, List.eq_nil_iff_forall_not_mem,
    List.eq_nil_iff_forall_not_mem]
  simp only [tells.mem_blockers_iff]

theorem mem_targets_iff (first second : TxnId) : second ∈ l.waits.targets first ↔ second ∈ t.waits.targets first :=
  iff_of_eq (congrFun (congrFun tells.edges first) second)

theorem edges_stopWaiting (txn : TxnId) : (l.waits.stopWaiting txn).Edge = (t.waits.stopWaiting txn).Edge := by
  funext first second
  apply propext
  rw [WaitGraph.edge_stopWaiting, WaitGraph.edge_stopWaiting, tells.edges]

theorem edges_waitFor (r : LockRequest) :
    (l.waits.waitFor r.txn (l.blockers r)).Edge = (t.waits.waitFor r.txn (t.blockers r)).Edge := by
  funext first second
  apply propext
  rw [WaitGraph.Edge, WaitGraph.Edge, WaitGraph.targets_waitFor, WaitGraph.targets_waitFor]
  split
  · exact tells.mem_blockers_iff second r
  · exact tells.mem_targets_iff first second

/-- Whether a wait closes a circle does not depend on the order of those who are waited for. -/
theorem onCycle_waitFor (r : LockRequest) :
    (l.waits.waitFor r.txn (l.blockers r)).onCycle r.txn = (t.waits.waitFor r.txn (t.blockers r)).onCycle r.txn := by
  rw [Bool.eq_iff_iff, WaitGraph.onCycle_eq_true_iff, WaitGraph.onCycle_eq_true_iff, tells.edges_waitFor]

theorem tells_grant (r : LockRequest) : (l.grant r).Tells (t.grant r) where
  trimmed := trimmed_grant tells.trimmed r
  modes txn page := by
    rw [mode?_grant, t.mode?_grant]
    simp only [tells.modes]
  edges := tells.edges_stopWaiting r.txn

theorem tells_giveUp (txn : TxnId) : (l.giveUp txn).Tells (t.giveUp txn) where
  trimmed := tells.trimmed
  modes := tells.modes
  edges := tells.edges_stopWaiting txn

theorem tells_requestNow (r : LockRequest) :
    (l.requestNow r).1 = (t.requestNow r).1 ∧ (l.requestNow r).2.Tells (t.requestNow r).2 := by
  rw [PageLocks.requestNow, LockTable.requestNow, tells.isEmpty_blockers]
  split
  · exact ⟨rfl, tells.tells_grant r⟩
  · exact ⟨rfl, tells.tells_giveUp r.txn⟩

theorem tells_request (r : LockRequest) :
    (l.request r).1 = (t.request r).1 ∧ (l.request r).2.Tells (t.request r).2 := by
  simp only [PageLocks.request, LockTable.request, tells.isEmpty_blockers, tells.onCycle_waitFor]
  split
  · exact ⟨rfl, tells.tells_grant r⟩
  · split
    · exact ⟨rfl, tells.tells_giveUp r.txn⟩
    · exact ⟨rfl, tells.trimmed, tells.modes, tells.edges_waitFor r⟩

theorem tells_release (txn : TxnId) (page : PageId) : (l.release txn page).Tells (t.release txn page) where
  trimmed := trimmed_release tells.trimmed txn page
  modes other locked := by
    rw [mode?_release, t.mode?_release, tells.modes]
  edges := by
    have waits : (l.release txn page).waits = l.waits := by
      rw [PageLocks.release]
      split <;> rfl
    rw [waits]
    exact tells.edges

theorem tells_releaseAll (txn : TxnId) : (l.releaseAll txn).Tells (t.releaseAll txn) where
  trimmed := trimmed_releaseAll l txn
  modes other page := by
    rw [mode?_releaseAll, t.mode?_releaseAll, tells.modes]
  edges := by
    funext first second
    apply propext
    change second ∈ (l.waits.remove txn).targets first ↔ second ∈ (t.waits.remove txn).targets first
    rw [WaitGraph.targets_remove, WaitGraph.targets_remove]
    split
    · rfl
    · rw [List.mem_filter, List.mem_filter, tells.mem_targets_iff]

end Tells

end PageLocks

/-- The locks page by page, and the requests that wait for them. -/
structure LockManager where
  locks : PageLocks
  waiting : List LockRequest

namespace LockManager

def empty : LockManager := ⟨.empty, []⟩

def isWaiting (m : LockManager) (txn : TxnId) : Bool := m.waiting.any fun r => decide (r.txn = txn)

def submit (m : LockManager) (r : LockRequest) : LockManager :=
  if m.isWaiting r.txn then m
  else
    let (verdict, locks) := m.locks.request r
    ⟨locks, if verdict = .waiting then m.waiting ++ [r] else m.waiting⟩

/-- Tries the requests in order, and keeps those that still wait. -/
def retry (l : PageLocks) : List LockRequest → LockManager
  | [] => ⟨l, []⟩
  | r :: rest =>
    let (verdict, l) := l.request r
    let m := retry l rest
    ⟨m.locks, if verdict = .waiting then r :: m.waiting else m.waiting⟩

/-- Nothing happens when requests are to be tried that do not wait, or when one is to be made for a
transaction that waits. -/
def next (m : LockManager) : LockEvent → LockManager
  | .acquire r => m.submit r
  | .retry order =>
    if order.Nodup ∧ ∀ r ∈ order, r ∈ m.waiting then
      let tried := retry m.locks order
      ⟨tried.locks, m.waiting.filter (fun r => decide (r ∉ order)) ++ tried.waiting⟩
    else m
  | .expire r =>
    if r ∈ m.waiting ∨ m.isWaiting r.txn = false then
      ⟨(m.locks.requestNow r).2, m.waiting.erase r⟩
    else m
  | .release txn page => { m with locks := m.locks.release txn page }
  | .releaseAll txn => { m with locks := m.locks.releaseAll txn }

def run (m : LockManager) (events : List LockEvent) : LockManager := events.foldl next m

/-- The same requests wait, and the locks are told by the table. -/
structure Follows (m : LockManager) (q : LockQueue) : Prop where
  tells : m.locks.Tells q.table
  waiting : m.waiting = q.waiting

theorem follows_empty : empty.Follows .empty := ⟨PageLocks.tells_empty, rfl⟩

theorem follows_retry {l : PageLocks} {t : LockTable} (tells : l.Tells t) (order : List LockRequest) :
    (retry l order).Follows (LockQueue.retry t order).2 := by
  induction order generalizing l t with
  | nil => exact ⟨tells, rfl⟩
  | cons r rest ih =>
    obtain ⟨verdict, later⟩ := tells.tells_request r
    obtain ⟨tells', waiting⟩ := ih later
    rw [retry, LockQueue.retry_cons, ← verdict]
    exact ⟨tells', congrArg (fun left => if (l.request r).1 = .waiting then r :: left else left) waiting⟩

namespace Follows

variable {m : LockManager} {q : LockQueue} (follows : m.Follows q)

include follows

theorem isWaiting_eq (txn : TxnId) : m.isWaiting txn = q.isWaiting txn := by
  rw [isWaiting, LockQueue.isWaiting, follows.waiting]

theorem follows_submit (r : LockRequest) : (m.submit r).Follows (q.submit r).2 := by
  obtain ⟨verdict, later⟩ := follows.tells.tells_request r
  rw [LockManager.submit, follows.isWaiting_eq]
  cases free : q.isWaiting r.txn with
  | true =>
    rw [LockQueue.submit, free]
    exact follows
  | false =>
    rw [LockQueue.submit_of_free free, ← verdict, ← follows.waiting]
    exact ⟨later, rfl⟩

theorem follows_next (event : LockEvent) : (m.next event).Follows (q.next event) := by
  cases event with
  | acquire r => exact follows.follows_submit r
  | retry order =>
    rw [LockManager.next, LockQueue.next, follows.waiting]
    split
    · obtain ⟨tells, waiting⟩ := follows_retry follows.tells order
      exact ⟨tells, congrArg (q.waiting.filter (fun r => decide (r ∉ order)) ++ ·) waiting⟩
    · exact follows
  | expire r =>
    rw [LockManager.next, LockQueue.next, follows.waiting, follows.isWaiting_eq]
    split
    · exact ⟨(follows.tells.tells_requestNow r).2, rfl⟩
    · exact follows
  | release txn page => exact ⟨follows.tells.tells_release txn page, follows.waiting⟩
  | releaseAll txn => exact ⟨follows.tells.tells_releaseAll txn, follows.waiting⟩

theorem follows_run (events : List LockEvent) : (m.run events).Follows (q.run events) := by
  induction events generalizing m q with
  | nil => exact follows
  | cons event rest ih => exact ih (follows.follows_next event)

theorem holds_iff (txn : TxnId) (page : PageId) (mode : LockMode) :
    m.locks.Holds txn page mode ↔ q.table.Holds txn page mode := by
  rw [PageLocks.Holds, LockTable.Holds, follows.tells.modes]

end Follows

/-- In every run the one table answers whether a page is locked as the entries of the pages do. -/
theorem isLocked_run (events : List LockEvent) (page : PageId) :
    (LockQueue.run .empty events).table.isLocked page = (run .empty events).locks.isLocked page :=
  ((follows_empty.follows_run events).tells.isLocked_eq page).symm

/-- Whatever has happened, a page that is held exclusively has one holder, a page is locked exactly when
somebody holds it, and whatever happens from then on, a transaction holds what it held, in that mode or a
stronger one, until it gives it back itself. -/
theorem locks_go_together (events : List LockEvent) :
    (∀ page txn other mode, (run .empty events).locks.mode? txn page = some .exclusive →
      (run .empty events).locks.mode? other page = some mode → other = txn) ∧
    (∀ page, (run .empty events).locks.isLocked page = true ↔
      ∃ txn mode, (run .empty events).locks.mode? txn page = some mode) ∧
    ∀ later txn page mode, (∀ event ∈ later, ¬event.Frees txn page) →
      (run .empty events).locks.Holds txn page mode →
        ((run .empty events).run later).locks.Holds txn page mode := by
  have follows := follows_empty.follows_run events
  refine ⟨?_, ?_, ?_⟩
  · intro page txn other mode
    rw [follows.tells.modes, follows.tells.modes]
    exact LockQueue.compatible_run LockTable.compatible_empty events page txn other mode
  · exact fun page => PageLocks.isLocked_eq_true_iff follows.tells.trimmed page
  · intro later txn page mode kept held
    rw [follows.holds_iff] at held
    rw [(follows.follows_run later).holds_iff]
    exact LockQueue.holds_run held later kept

/-- Two readers want to write: the second is refused, and when it has ended the first may. -/
def upgrades : List LockEvent :=
  [.acquire ⟨⟨1⟩, ⟨⟨1⟩, 0⟩, .shared⟩, .acquire ⟨⟨2⟩, ⟨⟨1⟩, 0⟩, .shared⟩,
    .acquire ⟨⟨1⟩, ⟨⟨1⟩, 0⟩, .exclusive⟩, .acquire ⟨⟨2⟩, ⟨⟨1⟩, 0⟩, .exclusive⟩, .releaseAll ⟨2⟩,
    .retry [⟨⟨1⟩, ⟨⟨1⟩, 0⟩, .exclusive⟩]]

/-- The writer stays the only one, also when it asks for less and when others ask in vain, and the page is not
locked any more when it gives its lock back. -/
theorem upgrade_is_kept :
    (run .empty upgrades).locks.mode? ⟨1⟩ ⟨⟨1⟩, 0⟩ = some .exclusive ∧
      (∀ other mode, (run .empty upgrades).locks.mode? other ⟨⟨1⟩, 0⟩ = some mode → other = ⟨1⟩) ∧
      ((run .empty upgrades).run [.acquire ⟨⟨1⟩, ⟨⟨1⟩, 0⟩, .shared⟩, .expire ⟨⟨3⟩, ⟨⟨1⟩, 0⟩, .shared⟩,
        .acquire ⟨⟨2⟩, ⟨⟨1⟩, 0⟩, .shared⟩, .releaseAll ⟨3⟩]).locks.Holds ⟨1⟩ ⟨⟨1⟩, 0⟩ .exclusive ∧
      ((run .empty upgrades).next (.release ⟨1⟩ ⟨⟨1⟩, 0⟩)).locks.isLocked ⟨⟨1⟩, 0⟩ = false := by
  have exclusive : (run .empty upgrades).locks.mode? ⟨1⟩ ⟨⟨1⟩, 0⟩ = some .exclusive := by cbv
  obtain ⟨alone, -, kept⟩ := locks_go_together upgrades
  refine ⟨exclusive, fun other mode => alone _ _ other mode exclusive, ?_, by cbv⟩
  apply kept
  · simp [LockEvent.Frees]
  · exact ⟨.exclusive, exclusive, rfl⟩

end LockManager

end RowStore
