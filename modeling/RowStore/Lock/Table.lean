import RowStore.Lock.WaitGraph
/-!
# Page locks

A transaction holds a page shared or exclusively. Shared locks go together; an exclusive one excludes
every other holder. A request is blocked by the others that hold the page in a conflicting mode, and
a blocked request either fails at once or records for whom it waits.
-/

namespace RowStore

inductive LockMode where
  | shared
  | exclusive
deriving DecidableEq

structure LockRequest where
  txn : TxnId
  page : PageId
  mode : LockMode
deriving DecidableEq

structure LockTable where
  grants : FinMap (PageId × TxnId) LockMode
  waits : WaitGraph

/-- What became of a request. -/
inductive Verdict where
  | granted
  | refused
  | waiting
deriving DecidableEq

namespace LockTable

def empty : LockTable := ⟨.empty, .empty⟩

def mode? (t : LockTable) (txn : TxnId) (page : PageId) : Option LockMode := t.grants.get? (page, txn)

def holds (t : LockTable) (txn : TxnId) (page : PageId) : Bool := (t.mode? txn page).isSome

def isLocked (t : LockTable) (page : PageId) : Bool :=
  t.grants.entries.any fun entry => decide (entry.1.1 = page)

/-- The pages the transaction holds, with the modes. -/
def heldBy (t : LockTable) (txn : TxnId) : List (PageId × LockMode) :=
  t.grants.entries.filterMap fun entry =>
    if entry.1.2 = txn then some (entry.1.1, entry.2) else none

/-- The two modes cannot be held by two transactions at a time. -/
def conflict : LockMode → LockMode → Bool
  | .shared, .shared => false
  | _, _ => true

/-- The other transactions that stand in the way of a request. -/
def blockers (t : LockTable) (r : LockRequest) : List TxnId :=
  t.grants.entries.filterMap fun entry =>
    if entry.1.1 = r.page ∧ entry.1.2 ≠ r.txn ∧ conflict r.mode entry.2 then some entry.1.2 else none

/-- An exclusive lock is never weakened by a later shared request. -/
def grant (t : LockTable) (r : LockRequest) : LockTable where
  grants := t.grants.insert (r.page, r.txn)
    (if t.mode? r.txn r.page = some .exclusive then .exclusive else r.mode)
  waits := t.waits.stopWaiting r.txn

def giveUp (t : LockTable) (txn : TxnId) : LockTable := { t with waits := t.waits.stopWaiting txn }

/-- A request that cannot wait. -/
def requestNow (t : LockTable) (r : LockRequest) : Verdict × LockTable :=
  if (t.blockers r).isEmpty then (.granted, t.grant r) else (.refused, t.giveUp r.txn)

/-- A request that waits, unless waiting would close a cycle. -/
def request (t : LockTable) (r : LockRequest) : Verdict × LockTable :=
  let blockers := t.blockers r
  if blockers.isEmpty then (.granted, t.grant r)
  else
    let waits := t.waits.waitFor r.txn blockers
    if waits.onCycle r.txn then (.refused, t.giveUp r.txn) else (.waiting, { t with waits })

def release (t : LockTable) (txn : TxnId) (page : PageId) : LockTable :=
  { t with grants := t.grants.erase (page, txn) }

def releaseAll (t : LockTable) (txn : TxnId) : LockTable where
  grants := t.grants.filter fun key _ => decide (key.2 ≠ txn)
  waits := t.waits.remove txn

end LockTable

end RowStore
