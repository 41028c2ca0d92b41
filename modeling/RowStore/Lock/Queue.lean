import RowStore.Lock.Table
/-!
# Waiting for locks

Requests that wait, beside the locks they wait for. A transaction has at most one waiting request.
Whenever locks are released, each waiting request is tried once more; a request granted or refused in
that round does not start another.
-/

namespace RowStore

structure LockQueue where
  table : LockTable
  waiting : List LockRequest

namespace LockQueue

def empty : LockQueue := ⟨.empty, []⟩

def isWaiting (q : LockQueue) (txn : TxnId) : Bool := q.waiting.any fun r => decide (r.txn = txn)

/-- No verdict is given to a transaction that is waiting already. -/
def submit (q : LockQueue) (r : LockRequest) : Option Verdict × LockQueue :=
  if q.isWaiting r.txn then (none, q)
  else
    let (verdict, table) := q.table.request r
    (some verdict, ⟨table, if verdict = .waiting then q.waiting ++ [r] else q.waiting⟩)

/-- Tries the requests in order. Answers the verdicts that ended a wait, and who still waits. -/
def retry (table : LockTable) : List LockRequest → List (LockRequest × Verdict) × LockQueue
  | [] => ([], ⟨table, []⟩)
  | r :: rest =>
    match table.request r with
    | (.waiting, table) =>
      let (ended, q) := retry table rest
      (ended, ⟨q.table, r :: q.waiting⟩)
    | (verdict, table) =>
      let (ended, q) := retry table rest
      ((r, verdict) :: ended, q)

def release (q : LockQueue) (txn : TxnId) (page : PageId) : List (LockRequest × Verdict) × LockQueue :=
  retry (q.table.release txn page) q.waiting

def releaseAll (q : LockQueue) (txn : TxnId) : List (LockRequest × Verdict) × LockQueue :=
  retry (q.table.releaseAll txn) q.waiting

end LockQueue

end RowStore
