import Mathlib
import RowStore.Lock.Queue
import RowStore.Proofs.Locks
/-!
# Locks in the course of time

Requests come and wait, are tried again in any order and at any moment, run out of time, are refused,
and locks are given back. Whatever happens, what is granted goes together with what is held, and a lock
that is held is lost or weakened only by the one who holds it.
-/

namespace RowStore

/-- Holding a page in the first mode is as good as holding it in the second. -/
def LockMode.covers : LockMode → LockMode → Bool
  | .shared, .exclusive => false
  | _, _ => true

namespace LockTable

/-- The transaction holds the page in that mode or in a stronger one. -/
def Holds (t : LockTable) (txn : TxnId) (page : PageId) (mode : LockMode) : Prop :=
  ∃ held, t.mode? txn page = some held ∧ held.covers mode = true

/-- A request is granted, refused because it closes a circle, or waits. -/
theorem request_cases (t : LockTable) (r : LockRequest) :
    (t.blockers r = [] ∧ t.request r = (.granted, t.grant r)) ∨
    (t.blockers r ≠ [] ∧ (t.waits.waitFor r.txn (t.blockers r)).onCycle r.txn = true ∧
      t.request r = (.refused, t.giveUp r.txn)) ∨
    (t.blockers r ≠ [] ∧ (t.waits.waitFor r.txn (t.blockers r)).onCycle r.txn = false ∧
      t.request r = (.waiting, { t with waits := t.waits.waitFor r.txn (t.blockers r) })) := by
  by_cases clear : t.blockers r = []
  · exact .inl ⟨clear, by rw [request, clear]; rfl⟩
  · have blocked : (t.blockers r).isEmpty = false := List.isEmpty_eq_false_iff.mpr clear
    cases circle : (t.waits.waitFor r.txn (t.blockers r)).onCycle r.txn with
    | true =>
      refine .inr (.inl ⟨clear, rfl, ?_⟩)
      simp only [request, blocked, circle, if_true, Bool.false_eq_true, if_false]
    | false =>
      refine .inr (.inr ⟨clear, rfl, ?_⟩)
      simp only [request, blocked, circle, Bool.false_eq_true, if_false]

namespace Extends

variable {txn other : TxnId} {t t' : LockTable}

/-- The locks are the same, whoever waits for whom. -/
theorem of_grants (same : t'.grants = t.grants) : Extends txn t t' := by
  have modes : ∀ other page, t'.mode? other page = t.mode? other page := by
    intro other page
    rw [mode?, same, mode?]
  refine ⟨fun other page _ => modes other page, ?_, ?_, ?_⟩
  · intro page held
    rw [modes]
    exact held
  · intro page held
    rw [modes]
    exact held
  · intro compatible
    apply compatible.of_mode?_le
    intro other page mode held
    rw [modes] at held
    exact held

theorem extends_request (r : LockRequest) : Extends r.txn t (t.request r).2 := by
  rcases t.request_cases r with ⟨clear, done⟩ | ⟨-, -, done⟩ | ⟨-, -, done⟩
  · rw [done]
    exact .extends_grant r.page r.mode clear
  · rw [done]
    exact .extends_giveUp
  · rw [done]
    exact .of_grants rfl

theorem extends_requestNow (r : LockRequest) : Extends r.txn t (t.requestNow r).2 := by
  rw [LockTable.requestNow]
  split
  · rename_i clear
    exact .extends_grant r.page r.mode (List.isEmpty_iff.mp clear)
  · exact .extends_giveUp

theorem holds_mono (more : Extends other t t') {page : PageId} {mode : LockMode} (held : t.Holds txn page mode) :
    t'.Holds txn page mode := by
  obtain ⟨before, found, covers⟩ := held
  by_cases own : txn = other
  · subst own
    cases before with
    | exclusive => exact ⟨.exclusive, more.exclusive page found, covers⟩
    | shared =>
      have still := more.kept page (by rw [found]; exact Option.some_ne_none _)
      obtain ⟨after, found'⟩ := Option.ne_none_iff_exists'.mp still
      refine ⟨after, found', ?_⟩
      cases mode with
      | shared => cases after <;> rfl
      | exclusive => exact absurd covers (by simp [LockMode.covers])
  · exact ⟨before, (more.others txn page own).trans found, covers⟩

end Extends

end LockTable

/-- What may happen to the locks and to those who wait for them. -/
inductive LockEvent where
  | acquire (r : LockRequest)
  /-- These of the waiting requests are tried once more, in this order. -/
  | retry (order : List LockRequest)
  /-- A request that has no time left, whether it has waited or is only being made. -/
  | expire (r : LockRequest)
  | release (txn : TxnId) (page : PageId)
  | releaseAll (txn : TxnId)

/-- The event takes the transaction's lock on the page away. -/
def LockEvent.Frees (txn : TxnId) (page : PageId) : LockEvent → Prop
  | .release other released => other = txn ∧ released = page
  | .releaseAll other => other = txn
  | _ => False

namespace LockQueue

/-- Nothing happens when requests are to be tried that do not wait, or when one is to be made for a
transaction that waits. -/
def next (q : LockQueue) : LockEvent → LockQueue
  | .acquire r => (q.submit r).2
  | .retry order =>
    if order.Nodup ∧ ∀ r ∈ order, r ∈ q.waiting then
      let tried := (retry q.table order).2
      ⟨tried.table, q.waiting.filter (fun r => decide (r ∉ order)) ++ tried.waiting⟩
    else q
  | .expire r =>
    if r ∈ q.waiting ∨ q.isWaiting r.txn = false then
      ⟨(q.table.requestNow r).2, q.waiting.erase r⟩
    else q
  | .release txn page => { q with table := q.table.release txn page }
  | .releaseAll txn => { q with table := q.table.releaseAll txn }

def run (q : LockQueue) (events : List LockEvent) : LockQueue := events.foldl next q

theorem submit_of_free {q : LockQueue} {r : LockRequest} (free : q.isWaiting r.txn = false) :
    (q.submit r).2 = ⟨(q.table.request r).2,
      if (q.table.request r).1 = .waiting then q.waiting ++ [r] else q.waiting⟩ := by
  rw [submit, free]
  rfl

theorem retry_cons (t : LockTable) (r : LockRequest) (rest : List LockRequest) :
    (retry t (r :: rest)).2 = ⟨(retry (t.request r).2 rest).2.table,
      if (t.request r).1 = .waiting then r :: (retry (t.request r).2 rest).2.waiting
      else (retry (t.request r).2 rest).2.waiting⟩ := by
  rw [retry]
  split
  · rename_i later waits
    rw [waits, if_pos rfl]
  · rename_i verdict later ends answered
    rw [answered, if_neg ends]

section Keeps

variable {kept : LockTable → Prop}
  (each : ∀ {txn t t'}, LockTable.Extends txn t t' → kept t → kept t')

include each

theorem retry_keeps {t : LockTable} (holds : kept t) (order : List LockRequest) :
    kept (retry t order).2.table := by
  induction order generalizing t with
  | nil => exact holds
  | cons r rest ih =>
    rw [retry_cons]
    exact ih (each (.extends_request r) holds)

theorem submit_keeps {q : LockQueue} (holds : kept q.table) (r : LockRequest) :
    kept (q.submit r).2.table := by
  rw [submit]
  split
  · exact holds
  · exact each (.extends_request r) holds

theorem next_keeps {q : LockQueue} (holds : kept q.table) (event : LockEvent)
    (release : ∀ txn page, event = .release txn page → kept (q.table.release txn page))
    (releaseAll : ∀ txn, event = .releaseAll txn → kept (q.table.releaseAll txn)) :
    kept (q.next event).table := by
  cases event with
  | acquire r => exact submit_keeps each holds r
  | retry order =>
    rw [next]
    split
    · exact retry_keeps each holds order
    · exact holds
  | expire r =>
    rw [next]
    split
    · exact each (.extends_requestNow r) holds
    · exact holds
  | release txn page => exact release txn page rfl
  | releaseAll txn => exact releaseAll txn rfl

end Keeps

theorem compatible_run {q : LockQueue} (compatible : q.table.Compatible) (events : List LockEvent) :
    (q.run events).table.Compatible := by
  induction events generalizing q with
  | nil => exact compatible
  | cons event rest ih =>
    refine ih (next_keeps (fun more => more.compatible) compatible event ?_ ?_)
    · intro txn page _
      exact compatible.compatible_release txn page
    · intro txn _
      exact compatible.compatible_releaseAll txn

theorem holds_next {q : LockQueue} {txn : TxnId} {page : PageId} {mode : LockMode}
    (held : q.table.Holds txn page mode) (event : LockEvent) (kept : ¬event.Frees txn page) :
    (q.next event).table.Holds txn page mode := by
  obtain ⟨before, found, covers⟩ := held
  refine next_keeps (fun more held => more.holds_mono held) ⟨before, found, covers⟩ event ?_ ?_
  · rintro other released rfl
    refine ⟨before, ?_, covers⟩
    rw [LockTable.mode?_release, if_neg, found]
    exact fun same => kept ⟨same.2.symm, same.1.symm⟩
  · rintro other rfl
    refine ⟨before, ?_, covers⟩
    rw [LockTable.mode?_releaseAll, if_neg, found]
    exact fun same => kept same.symm

theorem holds_run {q : LockQueue} {txn : TxnId} {page : PageId} {mode : LockMode}
    (held : q.table.Holds txn page mode) (events : List LockEvent)
    (kept : ∀ event ∈ events, ¬event.Frees txn page) : (q.run events).table.Holds txn page mode := by
  induction events generalizing q with
  | nil => exact held
  | cons event rest ih =>
    apply ih (holds_next held event (kept event List.mem_cons_self))
    intro later among
    exact kept later (List.mem_cons_of_mem _ among)

end LockQueue

end RowStore
