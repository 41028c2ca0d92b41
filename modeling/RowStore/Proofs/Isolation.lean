import Mathlib
import RowStore.Proofs.Chronicle
/-!
# What a transaction reads

A transaction that gets a page reads what was committed last with its own changes over it, however
the steps of the others have come between, and what somebody has aborted nobody reads again.
-/

namespace RowStore

open Engine

namespace Chronicle.Faithful

variable {c : Chronicle} (faithful : c.Faithful) {txn : TxnId} {p : PageId}

include faithful

theorem reads_seen {mode : LockMode} {page : Page} {e' : Engine}
    (gotten : getPage txn p mode c.engine = .ok page e') :
    (∃ f, c.engine.fileOf? p.table = some f ∧ page.Of f p.number) ∧
      ∀ slot, page.valuesAt slot = c.ledger.seen txn ⟨p, slot⟩ := by
  obtain ⟨clear, seen, -⟩ := (getPage_ensures faithful.coherent txn p mode).of_ok gotten
  obtain ⟨f, file, -, of⟩ := faithful.coherent.of_of_view? seen
  refine ⟨⟨f, file, of⟩, faithful.valuesAt_eq_seen seen ?_⟩
  intro other dirty
  exact LockTable.own_of_blockers_eq_nil clear (faithful.locked seen dirty)

/-- To everybody else a page that the transaction has written to is what was committed. -/
theorem seen_beside {other : TxnId} (differs : other ≠ txn)
    (written : ∃ w ∈ c.ledger.pending txn, w.row.page = p) (slot : Nat) :
    c.ledger.seen other ⟨p, slot⟩ = c.ledger.committed ⟨p, slot⟩ := by
  obtain ⟨w, among, rfl⟩ := written
  obtain ⟨page, seen, dirty⟩ := faithful.pending among
  apply faithful.seen_of_unchanged
  intro copy found dirty'
  rw [seen] at found
  cases found
  rw [dirty] at dirty'
  exact differs (Option.some.inj dirty').symm

theorem abort_reads (txn : TxnId) :
    ∃ e', Engine.abort txn c.engine = .ok () e' ∧
      ∀ p, (∃ w ∈ c.ledger.pending txn, w.row.page = p) → ∀ other mode page e'',
        getPage other p mode e' = .ok page e'' →
          ∀ slot, page.valuesAt slot = c.ledger.committed ⟨p, slot⟩ := by
  have ensured := abort_ensures faithful.coherent txn
  cases done : Engine.abort txn c.engine with
  | error fault e' => exact (ensured.of_error done).elim
  | ok _ e' =>
    have after := faithful.faithful_of_aborted (ensured.of_ok done)
    refine ⟨e', rfl, ?_⟩
    intro p written other mode page e'' gotten slot
    rw [(after.reads_seen gotten).2 slot]
    by_cases same : other = txn
    · rw [same, Ledger.seen_abort_self]
    · rw [Ledger.seen_abort_of_ne _ _ _ same]
      exact faithful.seen_beside same written slot

end Chronicle.Faithful

/-- After any steps of any transactions, a page that a transaction gets is what was committed last
with exactly its own changes since it last ended over it. And an abort always comes to its end, and
after it the pages that the transaction had changed are for everybody what was committed last. -/
theorem Database.getPage_reads (d : Database) (ops : List Op) :
    (∀ txn p mode page e', getPage txn p mode (d.after ops).engine = .ok page e' →
      (∃ f, (d.after ops).engine.fileOf? p.table = some f ∧ page.Of f p.number) ∧
        ∀ slot, page.valuesAt slot = (d.after ops).ledger.seen txn ⟨p, slot⟩) ∧
    ∀ txn, ∃ e', abort txn (d.after ops).engine = .ok () e' ∧
      ∀ p, (∃ w ∈ (d.after ops).ledger.pending txn, w.row.page = p) → ∀ other mode page e'',
        getPage other p mode e' = .ok page e'' →
          ∀ slot, page.valuesAt slot = (d.after ops).ledger.committed ⟨p, slot⟩ := by
  obtain ⟨faithful, -⟩ := d.faithful_after ops
  constructor
  · intro txn p mode page e' gotten
    exact faithful.reads_seen gotten
  · intro txn
    exact faithful.abort_reads txn

/-- The one who has put in the second number reads both, and when he has aborted nobody reads it. -/
theorem Database.numbers_read :
    (∃ page e', getPage ⟨2⟩ ⟨⟨1⟩, 0⟩ .shared (numbers.after halfway).engine = .ok page e' ∧
      page.valuesAt 0 = some [.int 7] ∧ page.valuesAt 1 = some [.int 8]) ∧
    ∃ e', abort ⟨2⟩ (numbers.after halfway).engine = .ok () e' ∧
      ∀ other mode page e'', getPage other ⟨⟨1⟩, 0⟩ mode e' = .ok page e'' → page.valuesAt 1 = none := by
  obtain ⟨reads, aborts⟩ := getPage_reads numbers halfway
  constructor
  · cases gotten : getPage ⟨2⟩ ⟨⟨1⟩, 0⟩ .shared (numbers.after halfway).engine with
    | error fault e' =>
      have succeeds : (match getPage ⟨2⟩ ⟨⟨1⟩, 0⟩ .shared (numbers.after halfway).engine with
        | .ok _ _ => true
        | .error _ _ => false) = true := by cbv
      rw [gotten] at succeeds
      exact absurd succeeds (by simp)
    | ok page e' =>
      have values := (reads _ _ _ _ _ gotten).2
      refine ⟨page, e', rfl, (values 0).trans ?_, (values 1).trans ?_⟩
      · cbv
      · cbv
  · obtain ⟨e', done, each⟩ := aborts ⟨2⟩
    have written : (numbers.after halfway).ledger.pending ⟨2⟩ = [⟨⟨⟨⟨1⟩, 0⟩, 1⟩, some [.int 8]⟩] := by cbv
    refine ⟨e', done, ?_⟩
    intro other mode page e'' gotten
    have values := each ⟨⟨1⟩, 0⟩ ⟨_, by rw [written]; exact List.mem_cons_self, rfl⟩ other mode page e'' gotten
    refine (values 1).trans ?_
    cbv

end RowStore
