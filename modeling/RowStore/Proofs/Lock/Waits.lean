import RowStore.Proofs.Lock.Runs
import RowStore.Proofs.Lock.Search
/-!
# Nobody waits in vain

When locks are given back every waiting request is tried once more, in any order. Between two such
rounds everybody who waits is known to wait for somebody who holds what stands in the way, and nobody
waits for himself, however far round. In the middle of a round that is known only of the requests that
have had their turn.
-/

namespace RowStore

namespace LockTable

/-- The transaction holds the page in a mode that does not go together with the one that is asked for. -/
def Blocks (t : LockTable) (txn : TxnId) (r : LockRequest) : Prop :=
  txn ≠ r.txn ∧ ∃ mode, t.mode? txn r.page = some mode ∧ conflict r.mode mode = true

theorem mem_blockers_iff (t : LockTable) (txn : TxnId) (r : LockRequest) :
    txn ∈ t.blockers r ↔ t.Blocks txn r := by
  rw [blockers, List.mem_filterMap]
  constructor
  · rintro ⟨⟨⟨page, holder⟩, mode⟩, among, found⟩
    obtain ⟨⟨same, differs, conflicts⟩, rfl⟩ := Option.ite_some_none_eq_some.mp found
    change page = r.page at same
    subst same
    exact ⟨differs, mode, (t.grants.get?_eq_some_iff _ _).mpr among, conflicts⟩
  · rintro ⟨differs, mode, held, conflicts⟩
    exact ⟨((r.page, txn), mode), (t.grants.get?_eq_some_iff _ _).mp held,
      if_pos ⟨rfl, differs, conflicts⟩⟩

theorem Extends.blocks_mono {t t' : LockTable} {txn other : TxnId} {r : LockRequest}
    (more : Extends other t t') (blocks : t.Blocks txn r) : t'.Blocks txn r := by
  obtain ⟨differs, mode, held, conflicts⟩ := blocks
  refine ⟨differs, ?_⟩
  by_cases own : txn = other
  · subst own
    have still := more.kept r.page (by rw [held]; exact Option.some_ne_none _)
    obtain ⟨after, held'⟩ := Option.ne_none_iff_exists'.mp still
    refine ⟨after, held', ?_⟩
    cases after with
    | exclusive => cases r.mode <;> rfl
    | shared =>
      cases mode with
      | shared => exact conflicts
      | exclusive =>
        rw [more.exclusive r.page held] at held'
        exact absurd held' (by simp)
  · exact ⟨mode, (more.others txn r.page own).trans held, conflicts⟩

/-- The table knows for whom the request waits, and all of them stand in its way. -/
structure Backed (t : LockTable) (r : LockRequest) : Prop where
  somebody : t.waits.targets r.txn ≠ []
  blocked : ∀ other ∈ t.waits.targets r.txn, t.Blocks other r

theorem targets_request_of_ne (t : LockTable) (r : LockRequest) (txn : TxnId) (differs : txn ≠ r.txn) :
    (t.request r).2.waits.targets txn = t.waits.targets txn := by
  rcases t.request_cases r with ⟨-, done⟩ | ⟨-, -, done⟩ | ⟨-, -, done⟩
  · rw [done]
    exact (t.waits.targets_stopWaiting r.txn txn).trans (if_neg differs)
  · rw [done]
    exact (t.waits.targets_stopWaiting r.txn txn).trans (if_neg differs)
  · rw [done]
    exact (t.waits.targets_waitFor r.txn txn _).trans (if_neg differs)

theorem targets_request_of_ended (t : LockTable) (r : LockRequest) (ended : (t.request r).1 ≠ .waiting) :
    (t.request r).2.waits.targets r.txn = [] := by
  rcases t.request_cases r with ⟨-, done⟩ | ⟨-, -, done⟩ | ⟨-, -, done⟩
  · rw [done]
    exact (t.waits.targets_stopWaiting r.txn r.txn).trans (if_pos rfl)
  · rw [done]
    exact (t.waits.targets_stopWaiting r.txn r.txn).trans (if_pos rfl)
  · rw [done] at ended
    exact absurd rfl ended

theorem backed_of_waiting (t : LockTable) (r : LockRequest) (waits : (t.request r).1 = .waiting) :
    (t.request r).2.Backed r := by
  rcases t.request_cases r with ⟨-, done⟩ | ⟨-, -, done⟩ | ⟨blocked, -, done⟩
  · rw [done] at waits
    exact absurd waits (by simp)
  · rw [done] at waits
    exact absurd waits (by simp)
  · have targets : (t.request r).2.waits.targets r.txn = t.blockers r := by
      rw [done]
      exact (t.waits.targets_waitFor r.txn r.txn _).trans (if_pos rfl)
    constructor
    · rw [targets]
      exact blocked
    · intro other among
      rw [targets, mem_blockers_iff] at among
      exact (Extends.extends_request r).blocks_mono among

theorem Backed.backed_request {t : LockTable} {s : LockRequest} (backed : t.Backed s) (r : LockRequest)
    (differs : s.txn ≠ r.txn) : (t.request r).2.Backed s := by
  have same := t.targets_request_of_ne r s.txn differs
  constructor
  · rw [same]
    exact backed.somebody
  · intro other among
    rw [same] at among
    exact (Extends.extends_request r).blocks_mono (backed.blocked other among)

theorem acyclic_request {t : LockTable} (acyclic : t.waits.Acyclic) (r : LockRequest) :
    (t.request r).2.waits.Acyclic := by
  rcases t.request_cases r with ⟨-, done⟩ | ⟨-, -, done⟩ | ⟨-, clear, done⟩
  · rw [done]
    exact acyclic.acyclic_stopWaiting r.txn
  · rw [done]
    exact acyclic.acyclic_stopWaiting r.txn
  · rw [done]
    exact acyclic.acyclic_waitFor clear

end LockTable

namespace LockQueue

theorem ne_of_isWaiting_eq_false {q : LockQueue} {txn : TxnId} (free : q.isWaiting txn = false)
    {r : LockRequest} (among : r ∈ q.waiting) : r.txn ≠ txn := by
  intro same
  have found : q.isWaiting txn = true := by
    rw [isWaiting, List.any_eq_true]
    exact ⟨r, among, decide_eq_true same⟩
  rw [free] at found
  exact Bool.false_ne_true found

/-- In the course of a round: of those who wait some have had their turn and some are still to have it. -/
structure Attended (t : LockTable) (served pending : List LockRequest) : Prop where
  distinct : ((served ++ pending).map LockRequest.txn).Nodup
  backed : ∀ r ∈ served, t.Backed r
  waiting : ∀ txn, t.waits.targets txn ≠ [] → ∃ r ∈ served ++ pending, r.txn = txn
  acyclic : t.waits.Acyclic

namespace Attended

variable {t : LockTable} {served pending : List LockRequest}

theorem txn_ne_of_served {r s : LockRequest} (attended : Attended t served (r :: pending)) (among : s ∈ served) :
    s.txn ≠ r.txn := by
  have distinct := attended.distinct
  rw [List.map_append, List.nodup_append] at distinct
  exact distinct.2.2 s.txn (List.mem_map_of_mem among) r.txn List.mem_cons_self

theorem attended_of_waiting {r : LockRequest} (attended : Attended t served (r :: pending))
    (waits : (t.request r).1 = .waiting) : Attended (t.request r).2 (served ++ [r]) pending where
  distinct := by
    rw [List.append_assoc]
    exact attended.distinct
  backed s among := by
    rcases List.mem_append.mp among with before | last
    · exact (attended.backed s before).backed_request r (attended.txn_ne_of_served before)
    · rw [List.mem_singleton.mp last]
      exact t.backed_of_waiting r waits
  waiting txn somebody := by
    rw [List.append_assoc, List.singleton_append]
    by_cases own : txn = r.txn
    · exact ⟨r, List.mem_append_right _ List.mem_cons_self, own.symm⟩
    · rw [t.targets_request_of_ne r txn own] at somebody
      exact attended.waiting txn somebody
  acyclic := LockTable.acyclic_request attended.acyclic r

theorem attended_of_ended {r : LockRequest} (attended : Attended t served (r :: pending))
    (ended : (t.request r).1 ≠ .waiting) : Attended (t.request r).2 served pending where
  distinct := by
    have fewer := (List.sublist_cons_self r pending).append_left served
    exact List.Nodup.sublist (fewer.map LockRequest.txn) attended.distinct
  backed s among := (attended.backed s among).backed_request r (attended.txn_ne_of_served among)
  waiting txn somebody := by
    have own : txn ≠ r.txn := by
      rintro rfl
      exact somebody (t.targets_request_of_ended r ended)
    rw [t.targets_request_of_ne r txn own] at somebody
    obtain ⟨s, among, same⟩ := attended.waiting txn somebody
    refine ⟨s, ?_, same⟩
    rcases List.mem_append.mp among with before | after
    · exact List.mem_append_left _ before
    · rcases List.mem_cons.mp after with rfl | later
      · exact absurd same.symm own
      · exact List.mem_append_right _ later
  acyclic := LockTable.acyclic_request attended.acyclic r

theorem attended_retry {order : List LockRequest} (attended : Attended t served order) :
    Attended (retry t order).2.table (served ++ (retry t order).2.waiting) [] := by
  induction order generalizing t served with
  | nil => simpa [LockQueue.retry] using attended
  | cons r rest ih =>
    rw [retry_cons]
    by_cases waits : (t.request r).1 = .waiting
    · have after := ih (attended.attended_of_waiting waits)
      rw [List.append_assoc, List.singleton_append] at after
      rwa [if_pos waits]
    · rw [if_neg waits]
      exact ih (attended.attended_of_ended waits)

/-- A round begins in any order when locks have been given back, after which nobody is recorded for who waited
for nobody. -/
theorem attended_round {left : LockTable} {order : List LockRequest} (attended : Attended t served [])
    (all : order.Perm served) (fewer : ∀ txn, left.waits.targets txn ≠ [] → t.waits.targets txn ≠ [])
    (acyclic : left.waits.Acyclic) : Attended left [] order where
  distinct := by
    rw [List.nil_append, (all.map _).nodup_iff]
    simpa using attended.distinct
  backed r among := absurd among List.not_mem_nil
  waiting txn somebody := by
    obtain ⟨r, among, same⟩ := attended.waiting txn (fewer txn somebody)
    rw [List.append_nil] at among
    exact ⟨r, all.mem_iff.mpr among, same⟩
  acyclic := acyclic

theorem attended_release {order : List LockRequest} (attended : Attended t served []) (txn : TxnId) (page : PageId)
    (all : order.Perm served) : Attended (t.release txn page) [] order :=
  attended.attended_round all (fun _ somebody => somebody) attended.acyclic

theorem attended_releaseAll {order : List LockRequest} (attended : Attended t served []) (txn : TxnId)
    (all : order.Perm served) : Attended (t.releaseAll txn) [] order := by
  refine attended.attended_round all (fun other somebody none => somebody ?_) (attended.acyclic.acyclic_remove txn)
  have removed := t.waits.targets_remove txn other
  rwa [none, List.filter_nil, ite_self] at removed

theorem attended_coming {q : LockQueue} (attended : Attended q.table q.waiting []) {r : LockRequest}
    (free : q.isWaiting r.txn = false) : Attended q.table q.waiting [r] := by
  refine ⟨?_, attended.backed, ?_, attended.acyclic⟩
  · have distinct := attended.distinct
    rw [List.append_nil] at distinct
    rw [List.map_append, List.nodup_append]
    refine ⟨distinct, List.nodup_singleton _, ?_⟩
    rintro txn among other last rfl
    obtain ⟨s, waits, rfl⟩ := List.mem_map.mp among
    exact ne_of_isWaiting_eq_false free waits (List.mem_singleton.mp last)
  · intro txn somebody
    obtain ⟨s, among, same⟩ := attended.waiting txn somebody
    rw [List.append_nil] at among
    exact ⟨s, List.mem_append_left _ among, same⟩

theorem attended_submit {q : LockQueue} (attended : Attended q.table q.waiting []) (r : LockRequest) :
    Attended (q.submit r).2.table (q.submit r).2.waiting [] := by
  cases free : q.isWaiting r.txn with
  | true =>
    rw [LockQueue.submit, if_pos free]
    exact attended
  | false =>
    rw [submit_of_free free]
    by_cases waits : (q.table.request r).1 = .waiting
    · rw [if_pos waits]
      exact (attended.attended_coming free).attended_of_waiting waits
    · rw [if_neg waits]
      exact (attended.attended_coming free).attended_of_ended waits

end Attended

/-- The states between two steps, when every time that locks are given back all who wait are tried once
more, in any order. -/
inductive Settled : LockQueue → Prop where
  | empty : Settled .empty
  | acquire {q : LockQueue} (settled : Settled q) (r : LockRequest) : Settled (q.next (.acquire r))
  | release {q : LockQueue} (settled : Settled q) (txn : TxnId) (page : PageId) {order : List LockRequest}
      (all : order.Perm q.waiting) : Settled ((q.next (.release txn page)).next (.retry order))
  | releaseAll {q : LockQueue} (settled : Settled q) (txn : TxnId) {order : List LockRequest}
      (all : order.Perm q.waiting) : Settled ((q.next (.releaseAll txn)).next (.retry order))

theorem next_retry_of_perm (t : LockTable) {waiting order : List LockRequest}
    (distinct : (waiting.map LockRequest.txn).Nodup) (all : order.Perm waiting) :
    next ⟨t, waiting⟩ (.retry order) = (retry t order).2 := by
  have nodup : order.Nodup := all.nodup_iff.mpr (List.Nodup.of_map _ distinct)
  have left : waiting.filter (fun r => decide (r ∉ order)) = [] := by
    rw [List.filter_eq_nil_iff]
    intro r among
    simpa using all.mem_iff.mpr among
  rw [next, if_pos ⟨nodup, fun r among => all.mem_iff.mp among⟩]
  simp only [left, List.nil_append]

theorem Settled.to_attended {q : LockQueue} (settled : q.Settled) : Attended q.table q.waiting [] := by
  induction settled with
  | empty =>
    exact ⟨List.nodup_nil, fun _ among => absurd among List.not_mem_nil, fun _ somebody => absurd rfl somebody,
      WaitGraph.acyclic_empty⟩
  | acquire _ r ih => exact ih.attended_submit r
  | @release q _ txn page order all ih =>
    have distinct := ih.distinct
    rw [List.append_nil] at distinct
    have round : (q.next (.release txn page)).next (.retry order) =
        (LockQueue.retry (q.table.release txn page) order).2 := next_retry_of_perm _ distinct all
    rw [round]
    exact (ih.attended_release txn page all).attended_retry
  | @releaseAll q _ txn order all ih =>
    have distinct := ih.distinct
    rw [List.append_nil] at distinct
    have round : (q.next (.releaseAll txn)).next (.retry order) =
        (LockQueue.retry (q.table.releaseAll txn) order).2 := next_retry_of_perm _ distinct all
    rw [round]
    exact (ih.attended_releaseAll txn all).attended_retry

/-- The round in the order in which the requests came is one of those. -/
theorem Settled.release_in_order {q : LockQueue} (settled : q.Settled) (txn : TxnId) (page : PageId) :
    (q.release txn page).2.Settled := by
  have distinct := settled.to_attended.distinct
  rw [List.append_nil] at distinct
  have round := next_retry_of_perm (q.table.release txn page) distinct (List.Perm.refl _)
  rw [LockQueue.release, ← round]
  exact settled.release txn page (List.Perm.refl _)

theorem Settled.releaseAll_in_order {q : LockQueue} (settled : q.Settled) (txn : TxnId) :
    (q.releaseAll txn).2.Settled := by
  have distinct := settled.to_attended.distinct
  rw [List.append_nil] at distinct
  have round := next_retry_of_perm (q.table.releaseAll txn) distinct (List.Perm.refl _)
  rw [LockQueue.releaseAll, ← round]
  exact settled.releaseAll txn (List.Perm.refl _)

/-- Wherever one follows those that are waited for from the transaction on, one comes in the end to a
transaction that holds a lock and does not wait. -/
inductive Ends (q : LockQueue) : TxnId → Prop where
  | holder {txn : TxnId} (free : q.isWaiting txn = false) (nobody : q.table.waits.targets txn = [])
      (holds : ∃ page mode, q.table.mode? txn page = some mode) : Ends q txn
  | waiter {txn : TxnId} (waits : q.isWaiting txn = true) (somebody : q.table.waits.targets txn ≠ [])
      (each : ∀ other ∈ q.table.waits.targets txn, Ends q other) : Ends q txn

theorem Attended.ends_of_waiting {q : LockQueue} (attended : Attended q.table q.waiting []) (txn : TxnId) :
    ∀ r ∈ q.waiting, r.txn = txn → q.Ends txn := by
  refine attended.acyclic.induction_on (motive := fun txn => ∀ r ∈ q.waiting, r.txn = txn → q.Ends txn) ?_ txn
  rintro txn ih r among rfl
  have backed := attended.backed r among
  refine .waiter ?_ backed.somebody ?_
  · rw [isWaiting, List.any_eq_true]
    exact ⟨r, among, decide_eq_true rfl⟩
  · intro other target
    cases waits : q.isWaiting other with
    | true =>
      obtain ⟨s, among', same⟩ := List.any_eq_true.mp waits
      exact ih other target s among' (of_decide_eq_true same)
    | false =>
      obtain ⟨-, mode, held, -⟩ := backed.blocked other target
      refine .holder waits ?_ ⟨r.page, mode, held⟩
      by_contra somebody
      obtain ⟨s, among', same⟩ := attended.waiting other somebody
      rw [List.append_nil] at among'
      exact ne_of_isWaiting_eq_false waits among' same

/-- Between two steps all who wait are known to wait for somebody, everybody they are known to wait for
holds a lock that stands in their way, and there is no circle. So whoever waits waits, in the end, for
those only who hold locks and do not wait. -/
theorem nobody_waits_in_vain {q : LockQueue} (settled : q.Settled) :
    (∀ r ∈ q.waiting, q.table.waits.targets r.txn ≠ [] ∧
      ∀ other ∈ q.table.waits.targets r.txn, q.table.Blocks other r) ∧
    q.table.waits.Acyclic ∧ ∀ r ∈ q.waiting, q.Ends r.txn := by
  have attended := settled.to_attended
  refine ⟨?_, attended.acyclic, ?_⟩
  · intro r among
    exact ⟨(attended.backed r among).somebody, (attended.backed r among).blocked⟩
  · intro r among
    exact attended.ends_of_waiting r.txn r among rfl

def reader : LockRequest := ⟨⟨2⟩, ⟨⟨1⟩, 0⟩, .shared⟩

def writer : LockRequest := ⟨⟨4⟩, ⟨⟨1⟩, 0⟩, .exclusive⟩

def follower : LockRequest := ⟨⟨3⟩, ⟨⟨1⟩, 1⟩, .shared⟩

/-- One who waits for the first page holds the second, for which another waits. -/
def crowd : LockQueue :=
  run .empty [.acquire ⟨⟨1⟩, ⟨⟨1⟩, 0⟩, .exclusive⟩, .acquire ⟨⟨2⟩, ⟨⟨1⟩, 1⟩, .exclusive⟩,
    .acquire reader, .acquire follower, .acquire writer]

/-- When the first page is given back the writer has his turn before the reader, who goes on waiting, now
for the writer. -/
def overtaken : LockQueue := (crowd.next (.release ⟨1⟩ ⟨⟨1⟩, 0⟩)).next (.retry [writer, reader, follower])

theorem overtaken_do_not_wait_in_vain :
    overtaken.Settled ∧ overtaken.waiting = [reader, follower] ∧
      overtaken.table.waits.targets ⟨2⟩ = [⟨4⟩] ∧ overtaken.table.Blocks ⟨4⟩ reader ∧
      overtaken.Ends ⟨3⟩ := by
  have came : crowd.waiting = [reader, follower, writer] := by cbv
  have waiting : overtaken.waiting = [reader, follower] := by cbv
  have targets : overtaken.table.waits.targets ⟨2⟩ = [⟨4⟩] := by cbv
  have settled : overtaken.Settled := by
    have before : crowd.Settled :=
      ((((Settled.empty.acquire _).acquire _).acquire reader).acquire follower).acquire writer
    refine before.release _ _ ?_
    rw [came]
    show ([writer] ++ [reader, follower]).Perm ([reader, follower] ++ [writer])
    exact List.perm_append_comm
  obtain ⟨backed, -, ends⟩ := nobody_waits_in_vain settled
  refine ⟨settled, waiting, targets, ?_, ?_⟩
  · refine (backed reader ?_).2 ⟨4⟩ ?_
    · rw [waiting]
      exact List.mem_cons_self
    · show (⟨4⟩ : TxnId) ∈ overtaken.table.waits.targets ⟨2⟩
      rw [targets]
      exact List.mem_cons_self
  · refine ends follower ?_
    rw [waiting]
    exact List.mem_cons_of_mem _ List.mem_cons_self

end LockQueue

end RowStore
