import RowStore.Proofs.Lock.Waits
/-!
# Deadlocks

A deadlock is a circle of unfinished requests, each for a page that the next transaction holds in the
way of it. Whom a request waits for is put down when it is tried. A reader who takes a page for which a
writer waits already is not put down for the writer, so a circle that goes by such a reader is not seen
before the next round. Every other circle is seen by the request that closes it. What is put down may
also be out of date, in the middle of a round; but then it leads to somebody who has nothing to wait
for, and a request is refused only on a circle that is there.
-/

namespace RowStore

open Relation

namespace LockTable

/-- One of the unfinished requests is the first transaction's, and the second holds what is in its way. -/
def Awaits (t : LockTable) (unfinished : List LockRequest) (txn other : TxnId) : Prop :=
  ∃ r ∈ unfinished, r.txn = txn ∧ t.Blocks other r

/-- The transaction waits, however far round, for itself. -/
def Deadlocked (t : LockTable) (unfinished : List LockRequest) (txn : TxnId) : Prop :=
  TransGen (t.Awaits unfinished) txn txn

/-- Of those in the way only readers can be missing among those that the request is known to wait for,
and only when it wants to write. -/
theorem Backed.known_or_reader {t : LockTable} {r : LockRequest} (backed : t.Backed r) (compatible : t.Compatible)
    {other : TxnId} (blocks : t.Blocks other r) :
    other ∈ t.waits.targets r.txn ∨ r.mode = .exclusive ∧ t.mode? other r.page = some .shared := by
  obtain ⟨known, among⟩ := List.exists_mem_of_ne_nil _ backed.somebody
  obtain ⟨-, mode', held', conflicts'⟩ := backed.blocked known among
  obtain ⟨-, mode, held, conflicts⟩ := blocks
  cases mode with
  | exclusive =>
    rw [compatible r.page other known mode' held held'] at among
    exact .inl among
  | shared =>
    cases wanted : r.mode with
    | exclusive => exact .inr ⟨rfl, held⟩
    | shared =>
      rw [wanted] at conflicts
      exact absurd conflicts Bool.false_ne_true

end LockTable

namespace LockQueue

theorem Settled.compatible_table {q : LockQueue} (settled : q.Settled) : q.table.Compatible := by
  have grows : ∀ {txn t t'}, LockTable.Extends txn t t' → t.Compatible → t'.Compatible :=
    fun more compatible => more.compatible compatible
  induction settled with
  | empty => exact LockTable.compatible_empty
  | acquire _ r ih => exact submit_keeps grows ih r
  | @release q _ txn page order _ ih =>
    have released : (q.next (.release txn page)).table.Compatible := ih.compatible_release txn page
    exact next_keeps grows released (.retry order) (fun _ _ other => by cases other) (fun _ other => by cases other)
  | @releaseAll q _ txn order _ ih =>
    have released : (q.next (.releaseAll txn)).table.Compatible := ih.compatible_releaseAll txn
    exact next_keeps grows released (.retry order) (fun _ _ other => by cases other) (fun _ other => by cases other)

/-! ### Circles that are not seen -/

/-- The first transaction waits to write a page which the second reads, and is not known to wait for
the second. -/
def LetPast (q : LockQueue) (txn other : TxnId) : Prop :=
  ∃ r ∈ q.waiting, r.txn = txn ∧ r.mode = .exclusive ∧ q.table.mode? other r.page = some .shared ∧
    other ∉ q.table.waits.targets txn

/-- Between two steps every circle goes by a reader who was let past a waiting writer. -/
theorem deadlocks_go_by_a_reader_let_past {q : LockQueue} (settled : q.Settled) (txn : TxnId) :
    ¬TransGen (fun first second => q.table.Awaits q.waiting first second ∧ ¬q.LetPast first second) txn txn := by
  intro circle
  refine settled.to_attended.acyclic txn (TransGen.mono ?_ _ _ circle)
  rintro first second ⟨⟨r, among, rfl, blocks⟩, noReader⟩
  rcases (settled.to_attended.backed r among).known_or_reader settled.compatible_table blocks with known |
    ⟨writes, reads⟩
  · exact known
  · by_contra unknown
    exact noReader ⟨r, among, rfl, writes, reads, unknown⟩

/-- The third transaction reads the first page and the first, which has the second page, waits to write
it. The second transaction reads the first page as well, and then waits for the second page. -/
def readerLetPast : LockQueue :=
  run .empty [.acquire ⟨⟨3⟩, ⟨⟨1⟩, 0⟩, .shared⟩, .acquire ⟨⟨1⟩, ⟨⟨1⟩, 1⟩, .exclusive⟩,
    .acquire ⟨⟨1⟩, ⟨⟨1⟩, 0⟩, .exclusive⟩, .acquire ⟨⟨2⟩, ⟨⟨1⟩, 0⟩, .shared⟩,
    .acquire ⟨⟨2⟩, ⟨⟨1⟩, 1⟩, .shared⟩]

theorem waiting_readerLetPast :
    readerLetPast.waiting = [⟨⟨1⟩, ⟨⟨1⟩, 0⟩, .exclusive⟩, ⟨⟨2⟩, ⟨⟨1⟩, 1⟩, .shared⟩] := by cbv

/-- The second transaction waits for the first and the first for the second, and neither is refused. -/
theorem deadlock_of_reader_let_past :
    readerLetPast.Settled ∧ readerLetPast.isWaiting ⟨1⟩ = true ∧ readerLetPast.isWaiting ⟨2⟩ = true ∧
      readerLetPast.table.Deadlocked readerLetPast.waiting ⟨1⟩ := by
  refine ⟨((((Settled.empty.acquire _).acquire _).acquire _).acquire _).acquire _, by cbv, by cbv, ?_⟩
  rw [LockTable.Deadlocked, waiting_readerLetPast]
  refine .tail (.single ?_) (b := ⟨2⟩) ?_
  · exact ⟨⟨⟨1⟩, ⟨⟨1⟩, 0⟩, .exclusive⟩, List.mem_cons_self, rfl, by decide, .shared, by cbv, rfl⟩
  · exact ⟨⟨⟨2⟩, ⟨⟨1⟩, 1⟩, .shared⟩, List.mem_cons_of_mem _ List.mem_cons_self, rfl, by decide, .exclusive,
      by cbv, rfl⟩

/-- There is a circle, but only by way of the reader. -/
theorem reader_let_past_alone :
    readerLetPast.Settled ∧ readerLetPast.LetPast ⟨1⟩ ⟨2⟩ ∧ ¬TransGen (fun first second =>
      readerLetPast.table.Awaits readerLetPast.waiting first second ∧ ¬readerLetPast.LetPast first second) ⟨1⟩ ⟨1⟩ := by
  have settled : readerLetPast.Settled := ((((Settled.empty.acquire _).acquire _).acquire _).acquire _).acquire _
  have known : readerLetPast.table.waits.targets ⟨1⟩ = [⟨3⟩] := by cbv
  refine ⟨settled, ⟨⟨⟨1⟩, ⟨⟨1⟩, 0⟩, .exclusive⟩, ?_, rfl, rfl, by cbv, ?_⟩, deadlocks_go_by_a_reader_let_past settled ⟨1⟩⟩
  · rw [waiting_readerLetPast]
    exact List.mem_cons_self
  · rw [known]
    decide

/-! ### Refusals -/

/-- The states between two steps, when nobody gives a page back while he waits. -/
inductive Patient : LockQueue → Prop where
  | empty : Patient .empty
  | acquire {q : LockQueue} (patient : Patient q) (r : LockRequest) : Patient (q.next (.acquire r))
  | release {q : LockQueue} (patient : Patient q) {txn : TxnId} (free : q.isWaiting txn = false) (page : PageId)
      {order : List LockRequest} (all : order.Perm q.waiting) :
      Patient ((q.next (.release txn page)).next (.retry order))
  | releaseAll {q : LockQueue} (patient : Patient q) (txn : TxnId) {order : List LockRequest}
      (all : order.Perm q.waiting) : Patient ((q.next (.releaseAll txn)).next (.retry order))

theorem Patient.to_settled {q : LockQueue} (patient : q.Patient) : q.Settled := by
  induction patient with
  | empty => exact .empty
  | acquire _ r ih => exact ih.acquire r
  | release _ _ page all ih => exact ih.release _ page all
  | releaseAll _ txn all ih => exact ih.releaseAll txn all

/-- In the course of a round, also: whoever a request is known to wait for that is still to have its turn
stands in its way, or has nothing to wait for. -/
structure Timely (t : LockTable) (served pending : List LockRequest) : Prop extends Attended t served pending where
  due : ∀ r ∈ pending, ∀ other ∈ t.waits.targets r.txn,
    t.Blocks other r ∨ ∀ s ∈ served ++ pending, s.txn ≠ other

namespace Timely

variable {t : LockTable} {served pending : List LockRequest}

theorem pending_apart {r s : LockRequest} (attended : Attended t served (r :: pending)) (among : s ∈ pending) :
    s.txn ≠ r.txn := by
  have distinct := attended.distinct
  rw [List.map_append, List.map_cons] at distinct
  have apart := (List.nodup_cons.mp (List.nodup_append.mp distinct).2.1).1
  intro same
  exact apart (same ▸ List.mem_map_of_mem among)

theorem timely_of_waiting {r : LockRequest} (timely : Timely t served (r :: pending))
    (waits : (t.request r).1 = .waiting) :
    Timely (t.request r).2 (served ++ [r]) pending where
  toAttended := timely.toAttended.attended_of_waiting waits
  due s among other target := by
    rw [t.targets_request_of_ne r s.txn (pending_apart timely.toAttended among)] at target
    rw [List.append_assoc, List.singleton_append]
    rcases timely.due s (List.mem_cons_of_mem _ among) other target with blocks | idle
    · exact .inl ((LockTable.Extends.extends_request r).blocks_mono blocks)
    · exact .inr idle

theorem timely_of_ended {r : LockRequest} (timely : Timely t served (r :: pending))
    (ended : (t.request r).1 ≠ .waiting) :
    Timely (t.request r).2 served pending where
  toAttended := timely.toAttended.attended_of_ended ended
  due s among other target := by
    rw [t.targets_request_of_ne r s.txn (pending_apart timely.toAttended among)] at target
    rcases timely.due s (List.mem_cons_of_mem _ among) other target with blocks | idle
    · exact .inl ((LockTable.Extends.extends_request r).blocks_mono blocks)
    · refine .inr fun unfinished among' => idle unfinished ?_
      exact ((List.sublist_cons_self r pending).append_left served).subset among'

theorem timely_release {q : LockQueue} (attended : Attended q.table q.waiting []) {txn : TxnId}
    (free : q.isWaiting txn = false) (page : PageId) {order : List LockRequest} (all : order.Perm q.waiting) :
    Timely (q.table.release txn page) [] order where
  toAttended := attended.attended_release txn page all
  due r among other target := by
    rw [List.nil_append]
    by_cases idle : other = txn
    · refine .inr fun s among' => ?_
      rw [idle]
      exact ne_of_isWaiting_eq_false free (all.mem_iff.mp among')
    · obtain ⟨differs, mode, held, conflicts⟩ := (attended.backed r (all.mem_iff.mp among)).blocked other target
      refine .inl ⟨differs, mode, ?_, conflicts⟩
      rw [LockTable.mode?_release, if_neg fun same => idle same.2, held]

theorem timely_releaseAll {q : LockQueue} (attended : Attended q.table q.waiting []) (txn : TxnId)
    {order : List LockRequest} (all : order.Perm q.waiting) : Timely (q.table.releaseAll txn) [] order where
  toAttended := attended.attended_releaseAll txn all
  due r among other target := by
    change other ∈ (q.table.waits.remove txn).targets r.txn at target
    rw [WaitGraph.targets_remove] at target
    split at target
    · exact absurd target List.not_mem_nil
    · obtain ⟨target, differs⟩ := List.mem_filter.mp target
      obtain ⟨apart, mode, held, conflicts⟩ := (attended.backed r (all.mem_iff.mp among)).blocked other target
      refine .inl ⟨apart, mode, ?_, conflicts⟩
      rw [LockTable.mode?_releaseAll, if_neg (of_decide_eq_true differs), held]

theorem timely_submit {q : LockQueue} (attended : Attended q.table q.waiting []) {r : LockRequest}
    (free : q.isWaiting r.txn = false) : Timely q.table q.waiting [r] where
  toAttended := attended.attended_coming free
  due s among other target := by
    rw [List.mem_singleton.mp among] at target
    obtain ⟨waits, among', same⟩ := attended.waiting r.txn (List.ne_nil_of_mem target)
    rw [List.append_nil] at among'
    exact absurd same (ne_of_isWaiting_eq_false free among')

end Timely

/-- A request is refused, rightly: its transaction waits for itself, no lock has changed, and nobody is
put down for the transaction. -/
structure Deserved (t : LockTable) (unfinished : List LockRequest) (r : LockRequest) : Prop where
  refused : (t.request r).1 = .refused
  deadlocked : t.Deadlocked unfinished r.txn
  grants : (t.request r).2.grants = t.grants
  nobody : (t.request r).2.waits.targets r.txn = []

theorem Timely.deserved_of_refused {t : LockTable} {served pending : List LockRequest} {r : LockRequest}
    (timely : Timely t served (r :: pending)) (refused : (t.request r).1 = .refused) :
    Deserved t (served ++ r :: pending) r := by
  rcases t.request_cases r with ⟨-, done⟩ | ⟨-, circle, done⟩ | ⟨-, -, done⟩
  · rw [done] at refused
    exact absurd refused (by simp)
  · refine ⟨refused, ?_, by rw [done]; rfl, t.targets_request_of_ended r (by rw [refused]; simp)⟩
    refine TransGen.mono ?_ _ _ (WaitGraph.turning_of_circle ((WaitGraph.onCycle_eq_true_iff _ _).mp circle))
    rintro first second ⟨edge, third, turn⟩
    rw [WaitGraph.Edge, WaitGraph.targets_waitFor] at edge turn
    -- whoever goes on to somebody else is not finished
    have busy : ∃ s ∈ served ++ r :: pending, s.txn = second := by
      split at turn
      · rename_i own
        exact ⟨r, List.mem_append_right _ List.mem_cons_self, own.symm⟩
      · exact timely.waiting second (List.ne_nil_of_mem turn)
    split at edge
    · rename_i own
      exact ⟨r, List.mem_append_right _ List.mem_cons_self, own.symm, (t.mem_blockers_iff second r).mp edge⟩
    · rename_i differs
      obtain ⟨s, among, rfl⟩ := timely.waiting first (List.ne_nil_of_mem edge)
      refine ⟨s, among, rfl, ?_⟩
      rcases List.mem_append.mp among with before | after
      · exact (timely.backed s before).blocked second edge
      · rcases timely.due s after second edge with blocks | idle
        · exact blocks
        · obtain ⟨other, among', same⟩ := busy
          exact absurd same (idle other among')
  · rw [done] at refused
    exact absurd refused (by simp)

/-- Whoever is refused in the course of a round is refused rightly when his turn comes. -/
theorem Timely.deserved_of_retry {t : LockTable} {served order : List LockRequest} (timely : Timely t served order)
    {r : LockRequest} (refused : (r, .refused) ∈ (LockQueue.retry t order).1) :
    ∃ before after, order = before ++ r :: after ∧
      Deserved (LockQueue.retry t before).2.table
        (served ++ (LockQueue.retry t before).2.waiting ++ r :: after) r := by
  induction order generalizing t served with
  | nil => exact absurd refused List.not_mem_nil
  | cons s rest ih =>
    cases done : t.request s with
    | mk verdict later =>
      cases verdict with
      | waiting =>
        have turn := timely.timely_of_waiting (by rw [done])
        rw [done] at turn
        rw [LockQueue.retry, done] at refused
        obtain ⟨before, after, rfl, deserved⟩ := ih turn refused
        refine ⟨s :: before, after, rfl, ?_⟩
        simpa only [LockQueue.retry, done, List.append_assoc, List.singleton_append, List.cons_append,
          List.nil_append] using deserved
      | granted =>
        have turn := timely.timely_of_ended (by rw [done]; simp)
        rw [done] at turn
        rw [LockQueue.retry, done] at refused
        have later : (r, Verdict.refused) ∈ (LockQueue.retry later rest).1 := by
          simpa using refused
        obtain ⟨before, after, rfl, deserved⟩ := ih turn later
        refine ⟨s :: before, after, rfl, ?_⟩
        simpa only [LockQueue.retry, done] using deserved
      | refused =>
        have turn := timely.timely_of_ended (by rw [done]; simp)
        rw [done] at turn
        rw [LockQueue.retry, done] at refused
        rcases List.mem_cons.mp refused with now | later
        · obtain ⟨rfl, -⟩ := Prod.mk.inj now
          refine ⟨[], rest, rfl, ?_⟩
          simpa [LockQueue.retry] using timely.deserved_of_refused (by rw [done])
        · obtain ⟨before, after, rfl, deserved⟩ := ih turn later
          refine ⟨s :: before, after, rfl, ?_⟩
          simpa only [LockQueue.retry, done] using deserved

/-- A request that is refused when it is made, or when it is tried once more after locks have been given
back, is on a circle of unfinished requests at that moment. The refusal changes no lock and leaves nobody
for whom the transaction waits. -/
theorem refusals_are_deserved {q : LockQueue} (patient : q.Patient) :
    (∀ r, (q.submit r).1 = some .refused →
      (q.submit r).2.table = (q.table.request r).2 ∧ Deserved q.table (q.waiting ++ [r]) r) ∧
    (∀ txn page order, q.isWaiting txn = false → order.Perm q.waiting →
      ∀ r, (r, .refused) ∈ (retry (q.table.release txn page) order).1 →
        ∃ before after, order = before ++ r :: after ∧
          let now := (retry (q.table.release txn page) before).2
          Deserved now.table (now.waiting ++ r :: after) r) ∧
    ∀ txn order, order.Perm q.waiting →
      ∀ r, (r, .refused) ∈ (retry (q.table.releaseAll txn) order).1 →
        ∃ before after, order = before ++ r :: after ∧
          let now := (retry (q.table.releaseAll txn) before).2
          Deserved now.table (now.waiting ++ r :: after) r := by
  have attended := patient.to_settled.to_attended
  refine ⟨?_, ?_, ?_⟩
  · intro r refused
    cases free : q.isWaiting r.txn with
    | true =>
      rw [submit, if_pos free] at refused
      exact absurd refused (by simp)
    | false =>
      rw [submit_of_free free]
      rw [submit, free] at refused
      exact ⟨rfl, (Timely.timely_submit attended free).deserved_of_refused (Option.some.inj refused)⟩
  · intro txn page order free all r refused
    exact (Timely.timely_release attended free page all).deserved_of_retry refused
  · intro txn order all r refused
    exact (Timely.timely_releaseAll attended txn all).deserved_of_retry refused

/-- The third transaction would close a circle at once. When it gives its page back instead, the circle
that was not seen is. -/
theorem reader_let_past_is_found :
    readerLetPast.Patient ∧
      Deserved readerLetPast.table (readerLetPast.waiting ++ [⟨⟨3⟩, ⟨⟨1⟩, 1⟩, .shared⟩]) ⟨⟨3⟩, ⟨⟨1⟩, 1⟩, .shared⟩ ∧
      ∃ before after, readerLetPast.waiting = before ++ ⟨⟨1⟩, ⟨⟨1⟩, 0⟩, .exclusive⟩ :: after ∧
        let now := (retry (readerLetPast.table.release ⟨3⟩ ⟨⟨1⟩, 0⟩) before).2
        Deserved now.table (now.waiting ++ ⟨⟨1⟩, ⟨⟨1⟩, 0⟩, .exclusive⟩ :: after) ⟨⟨1⟩, ⟨⟨1⟩, 0⟩, .exclusive⟩ := by
  have patient : readerLetPast.Patient := ((((Patient.empty.acquire _).acquire _).acquire _).acquire _).acquire _
  obtain ⟨made, triedAgain, -⟩ := refusals_are_deserved patient
  refine ⟨patient, (made _ (by cbv)).2, ?_⟩
  refine triedAgain ⟨3⟩ ⟨⟨1⟩, 0⟩ readerLetPast.waiting (by cbv) (.refl _) _ ?_
  have ended : (retry (readerLetPast.table.release ⟨3⟩ ⟨⟨1⟩, 0⟩) readerLetPast.waiting).1 =
      [(⟨⟨1⟩, ⟨⟨1⟩, 0⟩, .exclusive⟩, .refused)] := by cbv
  rw [ended]
  exact List.mem_cons_self

end LockQueue

end RowStore
