import RowStore.Proofs.Chronicle
import RowStore.Proofs.Engine.Sparing
/-!
# Who has the changed pages

Tables are registered at any time, also in the place of others, and between that transactions take their
steps, of which any may fail. A page in memory that a transaction has changed is locked exclusively by
that transaction and by nobody else, so nobody else reads it or writes over it. The one exception is a
transaction whose commit has failed: its locks are gone, and what it could not write stays.
-/

namespace RowStore

open Engine

/-! ### One step of one transaction -/

namespace Op

def txn : Op → TxnId
  | .insert txn _ _ _ => txn
  | .delete txn _ => txn
  | .read txn _ _ => txn
  | .scan s _ => s.txn
  | .commit txn => txn
  | .abort txn => txn

def ends : Op → Bool
  | .commit _ => true
  | .abort _ => true
  | _ => false

theorem eq_of_ends {op : Op} (closes : op.ends = true) : ∃ txn, op = .commit txn ∨ op = .abort txn := by
  cases op with
  | commit txn => exact ⟨txn, .inl rfl⟩
  | abort txn => exact ⟨txn, .inr rfl⟩
  | _ => exact absurd closes (by simp [ends])

def looks : Op → Bool
  | .read _ _ _ => true
  | .scan _ _ => true
  | _ => false

variable {e : Engine} (regular : e.Regular)

include regular

theorem looked_of_looks (op : Op) (looking : op.looks = true) :
    Ensures op.act e fun _ e' => e'.Regular ∧ Looked op.txn e e' := by
  cases op with
  | read txn page mode =>
    refine (getPage_looks regular txn page mode).bind ?_ ?_
    · rintro found e' ⟨regular', looked, -⟩
      exact .pure ⟨regular', looked⟩
    · rintro fault e' ⟨regular', looked, -⟩
      exact ⟨regular', looked⟩
  | scan s count =>
    exact FileScan.draw_ensures (s.take_looks regular count) (fun _ _ done => done) fun _ _ failed => failed
  | insert txn table schema values => exact absurd looking (by simp [looks])
  | delete txn row => exact absurd looking (by simp [looks])
  | commit txn => exact absurd looking (by simp [looks])
  | abort txn => exact absurd looking (by simp [looks])

theorem spared_of_not_ends (op : Op) (goesOn : op.ends = false) :
    Ensures op.act e fun _ e' => e'.Regular ∧ Spared op.txn e e' := by
  cases op with
  | insert txn table schema values =>
    exact Op.insert_ensures (fun _ _ => ⟨regular, .refl⟩) (fun _ => insert_spares regular txn table _)
      (fun _ _ done => done) fun _ _ failed => failed
  | delete txn row =>
    refine (delete_spares regular txn row).bind ?_ fun _ _ failed => failed
    intro page e' done
    exact .pure done
  | read txn page mode =>
    exact (looked_of_looks regular (.read txn page mode) rfl).mono fun _ _ ⟨regular', done⟩ =>
      ⟨regular', done.to_spared⟩
  | scan s count =>
    exact (looked_of_looks regular (.scan s count) rfl).mono fun _ _ ⟨regular', done⟩ => ⟨regular', done.to_spared⟩
  | commit txn => exact absurd goesOn (by simp [ends])
  | abort txn => exact absurd goesOn (by simp [ends])

theorem parted_of_ends (op : Op) (closes : op.ends = true) : Ensures op.act e fun answer e' =>
    e'.Regular ∧ Parted op.txn e e' ∧ (∀ a, answer = .ok a → ¬Unsettled op.txn e') ∧
      ∀ fault, answer = .error fault → Unsettled op.txn e' := by
  obtain ⟨txn, rfl | rfl⟩ := eq_of_ends closes
  · refine ((commit_tidies txn e regular.tidy).and (commit_parts regular.tidy txn)).bind ?_ ?_
    · rintro _ e' ⟨orderly, parted, settled, -⟩
      exact .pure ⟨parted.regular_of_tidy regular orderly.tidy, parted, fun _ _ => settled rfl, by simp⟩
    · rintro fault e' ⟨orderly, parted, -, left⟩
      exact ⟨parted.regular_of_tidy regular orderly.tidy, parted, by simp, fun _ _ => left fault rfl⟩
  · refine ((abort_tidies txn e regular.tidy).and (abort_parts txn)).bind ?_ ?_
    · rintro _ e' ⟨orderly, -, parted, settled⟩
      exact .pure ⟨parted.regular_of_tidy regular orderly.tidy, parted, fun _ _ => settled, by simp⟩
    · rintro fault e' ⟨-, failed, -⟩
      exact absurd failed (by simp)

end Op

/-! ### Any number of steps -/

inductive Move where
  | register (path : String) (schema : Schema) (name : String)
  | step (op : Op)

/-- Whose move it is; registering a table is nobody's. -/
def Move.txn? : Move → Option TxnId
  | .register _ _ _ => none
  | .step op => some op.txn

structure Course where
  engine : Engine
  /-- Whose last commit has failed and who has not ended since. -/
  failed : List TxnId

namespace Course

def failedAfter (failed : List TxnId) (op : Op) : Except Fault Answer → List TxnId
  | .ok _ => if op.ends then failed.filter fun txn => decide (txn ≠ op.txn) else failed
  | .error _ => if op.ends then op.txn :: failed else failed

theorem mem_failedAfter {failed : List TxnId} {op : Op} {txn : TxnId}
    (others : op.ends = true → txn ≠ op.txn) (among : txn ∈ failed) (answer : Except Fault Answer) :
    txn ∈ failedAfter failed op answer := by
  cases closes : op.ends with
  | false => cases answer <;> simpa [failedAfter, closes] using among
  | true =>
    have differs := others closes
    cases answer <;> simp [failedAfter, closes, among, differs]

theorem mem_failedAfter_self {failed : List TxnId} {op : Op} (closes : op.ends = true) (fault : Fault) :
    op.txn ∈ failedAfter failed op (.error fault) := by
  simp [failedAfter, closes]

def next (c : Course) : Move → Course
  | .register path schema name => { c with engine := (outcome (createTable path schema name) c.engine).2 }
  | .step op => ⟨(outcome op.act c.engine).2, failedAfter c.failed op (outcome op.act c.engine).1⟩

def after (settings : Settings) (volume : Volume) (moves : List Move) : Course :=
  moves.foldl next ⟨.start settings volume, []⟩

/-- A page that was changed is kept by the one who has changed it, until his commit fails. -/
structure Kept (c : Course) : Prop where
  regular : c.engine.Regular
  owned : ∀ {p page txn}, c.engine.resident.get? p = some page → page.dirtier = some txn →
    txn ∉ c.failed → Reserved txn c.engine p

end Course

namespace Engine

variable {txn other : TxnId} {e e' : Engine} {p : PageId}

theorem Spared.reserved_mono (spared : Spared txn e e') (reserved : Reserved other e p) : Reserved other e' p := by
  by_cases own : other = txn
  · subst own
    exact spared.locks.exclusive p reserved
  · rw [Reserved, spared.locks.others other p own]
    exact reserved

theorem Parted.reserved_of_ne (parted : Parted txn e e') (differs : other ≠ txn) (reserved : Reserved other e p) :
    Reserved other e' p := by
  rw [Reserved, parted.locks, LockTable.mode?_releaseAll, if_neg differs]
  exact reserved

theorem getPage_refused (reserved : Reserved other e p) (differs : txn ≠ other) (mode : LockMode) :
    ∃ e', getPage txn p mode e = .error (.aborted txn) e' := by
  have blocked : e.locks.blockers ⟨txn, p, mode⟩ ≠ [] := by
    intro clear
    exact differs (LockTable.own_of_blockers_eq_nil clear reserved).symm
  have refused : Ensures (getPage txn p mode) e fun answer _ => answer = .error (.aborted txn) := by
    refine (lock_ensures txn p mode).bind ?_ ?_
    · rintro _ e₁ ⟨clear, -⟩
      exact absurd clear blocked
    · rintro fault e₁ ⟨-, rfl, -⟩
      rfl
  cases result : getPage txn p mode e with
  | ok page e' => exact absurd (refused.of_ok result) (by simp)
  | error fault e' =>
    cases refused.of_error result
    exact ⟨e', rfl⟩

end Engine

namespace Course

theorem Kept.kept_next {c : Course} (kept : c.Kept) (move : Move) : (c.next move).Kept := by
  cases move with
  | register path schema name =>
    obtain ⟨regular, resident, locks⟩ := (createTable_spares kept.regular path schema name).outcome
    refine ⟨regular, ?_⟩
    intro p page txn here dirty fine
    rw [Course.next, resident] at here
    rw [Reserved, Course.next, locks]
    exact kept.owned here dirty fine
  | step op =>
    cases closes : op.ends with
    | false =>
      obtain ⟨regular, spared⟩ := (op.spared_of_not_ends kept.regular closes).outcome
      refine ⟨regular, ?_⟩
      intro p page txn here dirty fine
      have fine : txn ∉ c.failed := by
        intro among
        refine fine (mem_failedAfter ?_ among _)
        exact fun ending => absurd (closes.symm.trans ending) (by simp)
      rcases spared.changes here dirty with ⟨rfl, reserved⟩ | ⟨before, found, dirty'⟩
      · exact reserved
      · exact spared.reserved_mono (kept.owned found dirty' fine)
    | true =>
      obtain ⟨regular, parted, settled, -⟩ := (op.parted_of_ends kept.regular closes).outcome
      refine ⟨regular, ?_⟩
      intro p page txn here dirty fine
      -- The one who has ended holds changes only when his commit has failed.
      have differs : txn ≠ op.txn := by
        rintro rfl
        cases answer : (outcome op.act c.engine).1 with
        | ok a => exact settled a answer ⟨p, page, here, dirty⟩
        | error fault =>
          rw [Course.next, answer] at fine
          exact fine (mem_failedAfter_self closes fault)
      have fine : txn ∉ c.failed := fun among => fine (mem_failedAfter (fun _ => differs) among _)
      exact parted.reserved_of_ne differs (kept.owned (parted.changes here dirty) dirty fine)

theorem kept_after (settings : Settings) (volume : Volume) (moves : List Move) :
    (after settings volume moves).Kept := by
  have run : ∀ c : Course, c.Kept → (moves.foldl Course.next c).Kept := by
    induction moves with
    | nil => exact fun _ kept => kept
    | cons move rest ih => exact fun c kept => ih (c.next move) (kept.kept_next move)
  refine run _ ⟨regular_start settings volume, ?_⟩
  intro p page txn here
  exact absurd here (by simp [Engine.start])

theorem Kept.get?_next_of_reserved {c : Course} (kept : c.Kept) {p : PageId} {page : Page} {txn : TxnId}
    (here : c.engine.resident.get? p = some page) (dirty : page.dirtier = some txn)
    (reserved : Reserved txn c.engine p) (move : Move) (others : move.txn? ≠ some txn) :
    (c.next move).engine.resident.get? p = some page := by
  cases move with
  | register path schema name =>
    obtain ⟨-, resident, -⟩ := (createTable_spares kept.regular path schema name).outcome
    rw [Course.next, resident]
    exact here
  | step op =>
    have differs : txn ≠ op.txn := fun same => others (congrArg some same.symm)
    cases closes : op.ends with
    | false =>
      obtain ⟨-, spared⟩ := (op.spared_of_not_ends kept.regular closes).outcome
      exact spared.copies differs (by rw [reserved]; exact Option.some_ne_none _) here
    | true =>
      obtain ⟨-, parted, -⟩ := (op.parted_of_ends kept.regular closes).outcome
      refine parted.copies here ?_
      rw [dirty]
      exact fun same => differs (Option.some.inj same)

/-- Whatever has been done, a page that somebody has changed whose commit has not failed is locked
exclusively by him and by nobody else: nobody else can have it, and no move but his own alters it. A
commit that fails always leaves a page that the transaction has changed and holds no longer. -/
theorem changed_pages_are_kept (settings : Settings) (volume : Volume) (moves : List Move) :
    (∀ p page txn, (after settings volume moves).engine.resident.get? p = some page →
      page.dirtier = some txn → txn ∉ (after settings volume moves).failed →
        (after settings volume moves).engine.locks.mode? txn p = some .exclusive ∧
        (∀ other mode, (after settings volume moves).engine.locks.mode? other p = some mode → other = txn) ∧
        (∀ other mode, other ≠ txn →
          ∃ e, getPage other p mode (after settings volume moves).engine = .error (.aborted other) e) ∧
        ∀ move, move.txn? ≠ some txn →
          ((after settings volume moves).next move).engine.resident.get? p = some page) ∧
    ∀ txn fault e, commit txn (after settings volume moves).engine = .error fault e →
      ∃ p page, e.resident.get? p = some page ∧ page.dirtier = some txn ∧ e.locks.mode? txn p = none := by
  have kept := kept_after settings volume moves
  constructor
  · intro p page txn here dirty fine
    have reserved := kept.owned here dirty fine
    refine ⟨reserved, ?_, ?_, ?_⟩
    · exact fun other mode held => kept.regular.compatible p txn other mode reserved held
    · exact fun other mode differs => getPage_refused reserved differs mode
    · exact kept.get?_next_of_reserved here dirty reserved
  · intro txn fault e failed
    obtain ⟨parted, -, left⟩ := (commit_parts kept.regular.tidy txn).of_error failed
    obtain ⟨p, page, here, dirty⟩ := left fault rfl
    refine ⟨p, page, here, dirty, ?_⟩
    rw [parted.locks, LockTable.mode?_releaseAll, if_pos rfl]

/-- Four pages in memory, of which each takes three numbers. -/
def small : Settings := { pageSize := 16, poolPages := 4 }

def number : Schema := ⟨[⟨some "n", .int⟩]⟩

/-- A number is inserted, and another file takes the table's name. -/
def displaced : List Move :=
  [.register "a.dat" number "t", .step (.insert ⟨1⟩ ⟨1⟩ number [.int 7]), .register "b.dat" number "t"]

/-- The commit does not find the table any more. -/
def abandoned : List Move := displaced ++ [.step (.commit ⟨1⟩)]

/-- So a number that is neither committed nor dropped is there for another transaction to read. -/
theorem abandoned_changes_are_given_away :
    ¬(∀ p page txn, (after small .empty abandoned).engine.resident.get? p = some page →
      page.dirtier = some txn → (after small .empty abandoned).engine.locks.mode? txn p = some .exclusive) ∧
    (outcome (getPage ⟨2⟩ ⟨⟨1⟩, 0⟩ .shared) (after small .empty abandoned).engine).1.toOption.map
      (fun page => (page.dirtier, page.valuesAt 0)) = some (some ⟨1⟩, some [.int 7]) := by
  refine ⟨?_, by decide +kernel⟩
  intro kept
  have changed : ((after small .empty abandoned).engine.resident.get? ⟨⟨1⟩, 0⟩).map Page.dirtier =
      some (some ⟨1⟩) := by decide +kernel
  have unlocked : (after small .empty abandoned).engine.locks.mode? ⟨1⟩ ⟨⟨1⟩, 0⟩ = none := by decide +kernel
  obtain ⟨page, here, dirty⟩ := Option.map_eq_some_iff.mp changed
  have exclusive := kept _ page _ here dirty
  rw [unlocked] at exclusive
  exact absurd exclusive (by simp)

/-- Another transaction inserts a number into the table that is there now. -/
def beside : List Move := abandoned ++ [.step (.insert ⟨2⟩ ⟨2⟩ number [.int 8])]

/-- The second number is kept, whatever has become of the first. -/
theorem number_beside_is_kept :
    (after small .empty beside).engine.locks.mode? ⟨2⟩ ⟨⟨2⟩, 0⟩ = some .exclusive ∧
    (∃ e, getPage ⟨1⟩ ⟨⟨2⟩, 0⟩ .shared (after small .empty beside).engine = .error (.aborted ⟨1⟩) e) ∧
    ∃ fault e, commit ⟨1⟩ (after small .empty displaced).engine = .error fault e ∧
      ∃ p page, e.resident.get? p = some page ∧ page.dirtier = some ⟨1⟩ ∧ e.locks.mode? ⟨1⟩ p = none := by
  have changed : ((after small .empty beside).engine.resident.get? ⟨⟨2⟩, 0⟩).map Page.dirtier =
      some (some ⟨2⟩) := by decide +kernel
  have fine : (⟨2⟩ : TxnId) ∉ (after small .empty beside).failed := by decide +kernel
  have fails : (outcome (commit ⟨1⟩) (after small .empty displaced).engine).1.toOption = none := by
    decide +kernel
  obtain ⟨page, here, dirty⟩ := Option.map_eq_some_iff.mp changed
  obtain ⟨exclusive, -, refused, -⟩ := (changed_pages_are_kept small .empty beside).1 _ page _ here dirty fine
  refine ⟨exclusive, refused ⟨1⟩ .shared (by decide), ?_⟩
  cases done : commit ⟨1⟩ (after small .empty displaced).engine with
  | ok _ e =>
    rw [outcome, done] at fails
    exact absurd fails (by simp [Except.toOption])
  | error fault e =>
    exact ⟨fault, e, rfl, (changed_pages_are_kept small .empty displaced).2 _ fault e done⟩

end Course

end RowStore
