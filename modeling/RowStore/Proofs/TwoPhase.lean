import Mathlib.Data.List.ReduceOption
import RowStore.Proofs.Custody
/-!
# Locks are kept to the end

A transaction gathers locks as long as it goes on and gives all of them back at once when it ends. The
one lock that is given back before that is one that it has taken only now, on a page that turned out to
be full. So a row that was inserted or deleted is on a page that the transaction has exclusively, and
nothing but that page was locked for an insertion; and the rows that a scan gives are on pages that the
transaction has locked.
-/

namespace RowStore

namespace Engine

/-- Apart from the one page, the transaction has locked none that it had not locked. -/
def LocksOnly (txn : TxnId) (taken : Option PageId) (e e' : Engine) : Prop :=
  ∀ p, taken ≠ some p → e.locks.mode? txn p = none → e'.locks.mode? txn p = none

namespace LocksOnly

variable {txn : TxnId} {taken : Option PageId} {e e' e'' : Engine}

theorem of_locks (same : e'.locks = e.locks) : LocksOnly txn taken e e' := by
  intro p _ free
  rw [same]
  exact free

theorem trans (first : LocksOnly txn none e e') (second : LocksOnly txn taken e' e'') :
    LocksOnly txn taken e e'' :=
  fun p other free => second p other (first p (by simp) free)

end LocksOnly

section Inserting

variable {e : Engine} (txn : TxnId)

theorem unlockUnless_releases {e₁ : Engine} {p : PageId} (granted : e₁.locks = e.locks.grant ⟨txn, p, .exclusive⟩) :
    Ensures (unlockUnless (e.locks.holds txn p) txn p) e₁ fun _ e' => LocksOnly txn none e e' := by
  have elsewhere : ∀ q, q ≠ p → e₁.locks.mode? txn q = e.locks.mode? txn q := by
    intro q differs
    rw [granted, LockTable.mode?_grant, if_neg fun same => differs same.1]
  cases held : e.locks.holds txn p with
  | true =>
    refine .pure fun q _ free => ?_
    rw [elsewhere, free]
    rintro rfl
    rw [LockTable.holds, free] at held
    exact Bool.false_ne_true held
  | false =>
    refine .change fun q _ free => ?_
    show (e₁.locks.release txn p).mode? txn q = none
    rw [LockTable.mode?_release]
    split
    · rfl
    · rename_i other
      rw [elsewhere q fun same => other ⟨same, rfl⟩, free]

theorem extendFile_regular (regular : e.Regular) (file : FileNo) (table : TableId) :
    Ensures (extendFile file table) e fun _ e' => e'.Regular ∧ e'.locks = e.locks := by
  have longer : Ensures (extendFile file table) e fun _ e' => SameFiling e e' ∧ e'.locks = e.locks := by
    refine (openFile_opens file table e).bind ?_ ?_
    · rintro f e ⟨rfl, opened⟩
      have files : ({ e.setFile file { f with pages := f.pages + 1 } with
          volume := e.volume.put f.name (f.extend (e.contentsOf f)).1 } : Engine).files =
            e.files.set file { f with pages := f.pages + 1 } := rfl
      exact ⟨⟨rfl, tableOf?_of_set (opened f rfl) files rfl⟩, rfl⟩
    · rintro fault e ⟨rfl, -⟩
      exact ⟨⟨rfl, fun _ => rfl⟩, rfl⟩
  refine ((extendFile_tidies file table e regular.tidy).and longer).mono ?_
  rintro answer e' ⟨orderly, same, locks⟩
  exact ⟨same.regular_of_tidy regular orderly.tidy (by rw [locks]; exact regular.compatible), locks⟩

variable (regular : e.Regular) (row : Row)

include regular

theorem insertOn_takes (p : PageId) : Ensures (insertOn txn p row) e fun answer e' =>
    e'.Regular ∧ ∀ found, answer = .ok found → LocksOnly txn (found.map RowId.page) e e' := by
  have takes : Ensures (insertOn txn p row) e fun answer e' =>
      ∀ found, answer = .ok found → LocksOnly txn (found.map RowId.page) e e' := by
    refine .get_bind ((getPage_looks regular txn p .exclusive).bind ?_ fun _ _ _ => by simp)
    rintro page e₁ ⟨-, -, gotten⟩
    obtain ⟨id, -, -, granted⟩ := gotten page rfl
    by_cases full : page.freeSlots = 0
    · rw [if_pos full]
      refine (unlockUnless_releases txn granted).bind ?_ fun _ _ _ => by simp
      intro _ e₂ only
      refine .pure fun found same => ?_
      cases same
      exact only
    · rw [if_neg full]
      refine (place_ensures page row e₁).map ?_ fun _ _ _ => by simp
      rintro location e₂ ⟨slot, -, -, -, -, rfl, rfl⟩ found same
      cases same
      intro q other free
      show e₁.locks.mode? txn q = none
      rw [granted, LockTable.mode?_grant, if_neg, free]
      rintro ⟨rfl, -⟩
      exact other (congrArg some id)
  refine ((insertOn_tidies txn p row e regular.tidy).and ((insertOn_spares regular txn p row).and takes)).mono ?_
  rintro answer e' ⟨orderly, ⟨spared, -⟩, takes⟩
  exact ⟨spared.regular_of_tidy regular orderly.tidy, takes⟩

theorem insertOnFirst_takes (pages : List PageId) : Ensures (insertOnFirst txn row pages) e fun answer e' =>
    e'.Regular ∧ ∀ found, answer = .ok found → LocksOnly txn (found.map RowId.page) e e' := by
  induction pages generalizing e with
  | nil => exact .pure ⟨regular, fun _ _ => .of_locks rfl⟩
  | cons p rest ih =>
    refine (insertOn_takes txn regular row p).bind ?_ fun _ _ ⟨regular', _⟩ => ⟨regular', by simp⟩
    rintro (_ | location) e₁ ⟨regular₁, only⟩
    · refine (ih regular₁).mono ?_
      rintro answer e₂ ⟨regular₂, only₂⟩
      exact ⟨regular₂, fun found done => (only none rfl).trans (only₂ found done)⟩
    · refine .pure ⟨regular₁, fun found same => ?_⟩
      cases same
      exact only (some location) rfl

theorem insertOnNew_takes (file : FileNo) (table : TableId) (tries : Nat) :
    Ensures (insertOnNew txn file table row tries) e fun answer e' =>
      ∀ location, answer = .ok location → LocksOnly txn (some location.page) e e' := by
  induction tries generalizing e with
  | zero => exact .throw (by simp)
  | succ tries ih =>
    refine (extendFile_regular regular file table).bind ?_ fun _ _ _ => by simp
    rintro p e₁ ⟨regular₁, locks⟩
    have longer : LocksOnly txn none e e₁ := .of_locks locks
    refine (insertOn_takes txn regular₁ row p).bind ?_ fun _ _ _ => by simp
    rintro (_ | location) e₂ ⟨regular₂, only⟩
    · refine (ih regular₂).mono ?_
      intro answer e₃ only₃ location done
      exact longer.trans ((only none rfl).trans (only₃ location done))
    · refine .pure fun given same => ?_
      cases same
      exact longer.trans (only (some location) rfl)

theorem insertInFile_takes (file : FileNo) (table : TableId) :
    Ensures (insertInFile txn file table row) e fun answer e' =>
      ∀ location, answer = .ok location → LocksOnly txn (some location.page) e e' := by
  refine .get_bind ((insertOnFirst_takes txn regular row _).bind ?_ fun _ _ _ => by simp)
  rintro (_ | location) e₁ ⟨regular₁, only⟩
  · refine .get_bind ((insertOnNew_takes txn regular₁ row file table _).mono ?_)
    intro answer e₂ only₂ location done
    exact (only none rfl).trans (only₂ location done)
  · refine .pure fun given same => ?_
    cases same
    exact only (some location) rfl

omit regular in
theorem markDirty_locks (p : PageId) : Ensures (markDirty txn (.current p)) e fun _ e' => e'.locks = e.locks := by
  rw [Ensures, markDirty_current]
  cases e.resident.get? p <;> rfl

theorem insert_takes (table : TableId) : Ensures (insert txn table row) e fun answer e' =>
    ∀ location, answer = .ok location →
      Reserved txn e' location.page ∧ LocksOnly txn (some location.page) e e' := by
  refine (resolve_ensures table).bind ?_ fun _ _ _ => by simp
  rintro entry e ⟨rfl, found⟩
  refine (checkSchema_ensures entry.schema row.schema e).bind ?_ fun _ _ _ => by simp
  rintro _ e rfl
  refine ((insertInFile_spares regular txn (regular.filed found) row).and
    (insertInFile_takes txn regular row entry.file table)).bind ?_ fun _ _ _ => by simp
  rintro location e₁ ⟨⟨-, reserved⟩, only⟩
  refine (markDirty_locks txn location.page).bind ?_ fun _ _ _ => by simp
  intro _ e₂ locks
  refine .pure fun given same => ?_
  cases same
  constructor
  · rw [Reserved, locks]
    exact reserved location rfl
  · intro p other free
    rw [locks]
    exact only location rfl p other free

omit regular row in
theorem deleteInFile_answers (file : FileNo) (table : TableId) (row : RowId) :
    Ensures (deleteInFile txn file table (some row)) e fun answer _ => ∀ p, answer = .ok p → p = row.page := by
  refine .get_bind ?_
  by_cases outside : row.page.table ≠ table ∨ e.pagesOf file ≤ row.page.number
  · rw [if_pos outside]
    exact .throw (by simp)
  · rw [if_neg outside]
    refine (getPage_looked txn row.page .exclusive e).bind ?_ fun _ _ _ => by simp
    intro page e₁ _
    cases page.delete (some row) with
    | error fault => exact .throw (by simp)
    | ok changed => exact fun p same => (Except.ok.inj same).symm

omit row in
theorem delete_takes (row : Option RowId) : Ensures (delete txn row) e fun answer e' =>
    ∀ p, answer = .ok p → row.map RowId.page = some p ∧ Reserved txn e' p := by
  cases row with
  | none => exact .throw (by simp)
  | some row =>
    refine (resolve_ensures row.page.table).bind ?_ fun _ _ _ => by simp
    rintro entry e ⟨rfl, -⟩
    refine ((deleteInFile_spares regular txn entry.file row.page.table row).and
      (deleteInFile_answers txn entry.file row.page.table row)).bind ?_ fun _ _ _ => by simp
    rintro p e₁ ⟨⟨-, reserved⟩, answers⟩
    refine (markDirty_locks txn p).bind ?_ fun _ _ _ => by simp
    intro _ e₂ locks
    refine .pure fun given same => ?_
    cases same
    refine ⟨congrArg some (answers p rfl).symm, ?_⟩
    rw [Reserved, locks]
    exact reserved p rfl

end Inserting

/-- The transaction has locked the page that the row is on. -/
def Covered (txn : TxnId) (e : Engine) (row : Row) : Prop :=
  ∃ location, row.location = some location ∧ e.locks.Holds txn location.page .shared

theorem Covered.covered_mono {txn : TxnId} {e e' : Engine} {row : Row} (covered : Covered txn e row)
    (looked : Looked txn e e') : Covered txn e' row := by
  obtain ⟨location, stored, holds⟩ := covered
  exact ⟨location, stored, looked.locks.holds_mono holds⟩

/-- The rows of a page that the transaction has got are on a page that it has locked. -/
theorem covered_of_granted {txn : TxnId} {e e' : Engine} {p : PageId} {page : Page} (id : page.id = p)
    (granted : e'.locks = e.locks.grant ⟨txn, p, .shared⟩) {row : Row} (among : row ∈ page.rows) :
    Covered txn e' row := by
  rw [Page.rows_eq, List.mem_filterMap] at among
  obtain ⟨slot, -, found⟩ := among
  obtain ⟨values, -, rfl⟩ := Option.map_eq_some_iff.mp found
  refine ⟨page.locate slot, rfl, ?_⟩
  show e'.locks.Holds txn page.id .shared
  rw [granted, id]
  refine ⟨_, LockTable.mode?_grant_self e.locks ⟨txn, p, .shared⟩, ?_⟩
  split <;> rfl

end Engine

open Engine

namespace FileScan

/-- The scan has given these rows. Unless it had them in hand, the transaction has locked the pages of
these and of the rows that it has in hand now. -/
structure Showed (s : FileScan) (e : Engine) (given : List Row) (left : FileScan × Engine) : Prop where
  alike : Alike s left.1
  regular : left.2.Regular
  looked : Looked s.txn e left.2
  covered : ∀ row ∈ given ++ left.1.pending, row ∈ s.pending ∨ Covered s.txn left.2 row

variable {s s₁ : FileScan} {e e₁ : Engine} {left : FileScan × Engine}

theorem Showed.trans {given given₁ : List Row} (first : Showed s e given (s₁, e₁)) (second : Showed s₁ e₁ given₁ left) :
    Showed s e (given ++ given₁) left := by
  have looked := second.looked
  have covered := second.covered
  have same : s₁.txn = s.txn := first.alike.txn
  rw [same] at looked covered
  refine ⟨first.alike.trans second.alike, second.regular, first.looked.trans looked, ?_⟩
  have before : ∀ row ∈ given ++ s₁.pending, row ∈ s.pending ∨ Covered s.txn left.2 row :=
    fun row among => (first.covered row among).imp_right fun covered => covered.covered_mono looked
  intro row among
  rw [List.append_assoc] at among
  rcases List.mem_append.mp among with earlier | later
  · exact before row (List.mem_append_left _ earlier)
  · rcases covered row later with inHand | covered
    · exact before row (List.mem_append_right _ inHand)
    · exact .inr covered

theorem advance_covers (regular : e.Regular) (s : FileScan) (rowless : s.pending = []) (numbers : List Nat) :
    Ensures (advance numbers) (s, e) fun answer left => Showed s e answer.toOption.join.toList left := by
  induction numbers generalizing s e with
  | nil =>
    exact .pure ⟨⟨rfl, rfl, rfl⟩, regular, .refl, fun row among => .inl (by simpa [Except.toOption] using among)⟩
  | cons number rest ih =>
    have gets := (getPage_looks regular s.txn ⟨s.table, number⟩ .shared).engine_step (s := s)
    refine Ensures.congr (advance_cons ..) (gets.bind ?_ ?_)
    · rintro page ⟨s₁, e₁⟩ ⟨same, regular₁, looked, gotten⟩
      obtain rfl : s₁ = s := same
      replace regular₁ : e₁.Regular := regular₁
      obtain ⟨id, -, -, granted⟩ := gotten page rfl
      cases rows : page.rows with
      | nil =>
        have passed : Showed s₁ e [] ({ s₁ with nextPage := number + 1 }, e₁) :=
          ⟨⟨rfl, rfl, rfl⟩, regular₁, looked, fun row among => .inl among⟩
        have later := ih regular₁ { s₁ with nextPage := number + 1 } rowless
        exact .congr (by rfl) (later.mono fun answer left showed => passed.trans showed)
      | cons row later =>
        show Showed s₁ e [row] ({ s₁ with nextPage := number + 1, pending := later }, e₁)
        refine ⟨⟨rfl, rfl, rfl⟩, regular₁, looked, fun given among => .inr ?_⟩
        exact covered_of_granted id granted (by rw [rows]; exact among)
    · rintro fault ⟨s₁, e₁⟩ ⟨same, regular₁, looked, -⟩
      obtain rfl : s₁ = s := same
      exact ⟨⟨rfl, rfl, rfl⟩, regular₁, looked, fun row among => .inl among⟩

theorem next_covers (regular : e.Regular) (s : FileScan) :
    Ensures next (s, e) fun answer left => Showed s e answer.toOption.join.toList left := by
  cases pending : s.pending with
  | nil => exact .congr (next_of_rowless pending) (advance_covers regular s pending _)
  | cons row rows =>
    rw [Ensures, next_of_pending pending]
    exact ⟨⟨rfl, rfl, rfl⟩, regular, .refl, fun row among => .inl (by rw [pending]; exact among)⟩

/-- A scan leaves the pages of the rows that it gives locked. -/
theorem take_covers (regular : e.Regular) (s : FileScan) (n : Nat) : Ensures (take n) (s, e) fun
    | .ok (rows, _), left => Showed s e rows.reduceOption left
    | .error _, _ => False := by
  induction n generalizing s e with
  | zero => exact .pure ⟨⟨rfl, rfl, rfl⟩, regular, .refl, fun row among => .inl among⟩
  | succ n ih =>
    have attempted : Ensures (attempt next) (s, e) fun
        | .ok answer, left => Showed s e answer.toOption.join.toList left
        | .error _, _ => False :=
      (next_covers regular s).attempt fun _ _ showed => showed
    refine attempted.bind ?_ fun _ _ => False.elim
    rintro answer ⟨s₁, e₁⟩ showed
    match answer with
    | .error fault => exact .pure showed
    | .ok none => exact .pure showed
    | .ok (some row) =>
      refine (ih showed.regular s₁).bind ?_ fun _ _ => False.elim
      rintro ⟨rows, fault⟩ left later
      exact .pure (showed.trans later)

end FileScan

namespace Op

variable {e : Engine} (regular : e.Regular) (txn : TxnId)

include regular

theorem insert_takes (table : TableId) (schema : Schema) (values : List Value) :
    Ensures (Op.insert txn table schema values).act e fun answer e' => ∀ location, answer = .ok (.stored location) →
      Reserved txn e' location.page ∧ LocksOnly txn (some location.page) e e' := by
  refine Op.insert_ensures (by simp) (fun _ => Engine.insert_takes txn regular _ table) ?_ (by simp)
  rintro location e' takes given ⟨⟩
  exact takes location rfl

theorem delete_takes (row : Option RowId) : Ensures (Op.delete txn row).act e fun answer e' =>
    ∀ p, answer = .ok (.removed p) → row.map RowId.page = some p ∧ Reserved txn e' p := by
  refine (Engine.delete_takes txn regular row).bind ?_ fun _ _ _ => by simp
  intro p e' takes
  refine .pure fun given same => ?_
  cases same
  exact takes p rfl

end Op

/-- Where a row has been put. -/
def Answer.location? : Answer → Option RowId
  | .stored location => some location
  | _ => none

namespace Course

/-- Each transaction gathers locks and gives them back when it ends. -/
structure TwoPhase (c : Course) : Prop where
  /-- Whether its step fails or not, a transaction that goes on keeps every lock, in the same mode or in a
  stronger one. -/
  kept : ∀ op, op.ends = false → ∀ p mode, c.engine.locks.Holds op.txn p mode →
    (c.next (.step op)).engine.locks.Holds op.txn p mode
  /-- The rows that a scan gives are on pages that are locked, and so are those that it has in hand, as long
  as its transaction goes on; one that begins has none in hand. -/
  scanned : ∀ s count rows fault left, (∀ row ∈ s.pending, Covered s.txn c.engine row) →
    FileScan.take count (s, c.engine) = .ok (rows, fault) left →
    left.2 = (c.next (.step (.scan s count))).engine ∧
      ∀ row, some row ∈ rows ∨ row ∈ left.1.pending → Covered s.txn left.2 row
  inHand : ∀ move txn row, (∀ op, move = .step op → op.ends = true → op.txn ≠ txn) →
    Covered txn c.engine row → Covered txn (c.next move).engine row
  /-- An insertion locks the page of the row exclusively, and no other that was not locked. -/
  inserted : ∀ txn table schema values location,
    (outcome (Op.insert txn table schema values).act c.engine).1 = .ok (.stored location) →
    (c.next (.step (.insert txn table schema values))).engine.locks.mode? txn location.page = some .exclusive ∧
      ∀ p, p ≠ location.page →
        ((c.next (.step (.insert txn table schema values))).engine.locks.mode? txn p = none ↔
          c.engine.locks.mode? txn p = none)
  /-- A deletion locks the page of the row exclusively. -/
  deleted : ∀ txn row p, (outcome (Op.delete txn row).act c.engine).1 = .ok (.removed p) →
    row.map RowId.page = some p ∧
      (c.next (.step (.delete txn row))).engine.locks.mode? txn p = some .exclusive
  /-- Whatever comes of the end of a transaction, its locks are gone. -/
  ended : ∀ op, op.ends = true → ∀ p, (c.next (.step op)).engine.locks.mode? op.txn p = none
  /-- No step touches the locks of the others. -/
  others : ∀ op other p, other ≠ op.txn →
    (c.next (.step op)).engine.locks.mode? other p = c.engine.locks.mode? other p
  registered : ∀ path schema name, (c.next (.register path schema name)).engine.locks = c.engine.locks

section Kept

variable {c : Course} (kept : c.Kept)

include kept

theorem Kept.mode?_of_ends {op : Op} (closes : op.ends = true) (other : TxnId) (p : PageId) :
    (c.next (.step op)).engine.locks.mode? other p =
      if other = op.txn then none else c.engine.locks.mode? other p := by
  obtain ⟨-, parted, -⟩ := (op.parted_of_ends kept.regular closes).outcome
  rw [Course.next, parted.locks, LockTable.mode?_releaseAll]

theorem Kept.mode?_of_ne (op : Op) (other : TxnId) (p : PageId) (differs : other ≠ op.txn) :
    (c.next (.step op)).engine.locks.mode? other p = c.engine.locks.mode? other p := by
  cases closes : op.ends with
  | true => rw [kept.mode?_of_ends closes, if_neg differs]
  | false =>
    obtain ⟨-, spared⟩ := (op.spared_of_not_ends kept.regular closes).outcome
    exact spared.locks.others other p differs

theorem Kept.holds_next (op : Op) (goesOn : op.ends = false) (p : PageId) (mode : LockMode)
    (held : c.engine.locks.Holds op.txn p mode) : (c.next (.step op)).engine.locks.Holds op.txn p mode := by
  obtain ⟨-, spared⟩ := (op.spared_of_not_ends kept.regular goesOn).outcome
  exact spared.locks.holds_mono held

theorem Kept.locks_of_register (path : String) (schema : Schema) (name : String) :
    (c.next (.register path schema name)).engine.locks = c.engine.locks :=
  (createTable_spares kept.regular path schema name).outcome.2.2

theorem Kept.covered_next (move : Move) (txn : TxnId) (row : Row)
    (goesOn : ∀ op, move = .step op → op.ends = true → op.txn ≠ txn) (covered : Covered txn c.engine row) :
    Covered txn (c.next move).engine row := by
  obtain ⟨location, stored, held⟩ := covered
  refine ⟨location, stored, ?_⟩
  cases move with
  | register path schema name =>
    rw [kept.locks_of_register]
    exact held
  | step op =>
    by_cases own : op.txn = txn
    · subst own
      refine kept.holds_next op ?_ _ _ held
      cases closes : op.ends with
      | true => exact absurd rfl (goesOn op rfl closes)
      | false => rfl
    · rw [LockTable.Holds, kept.mode?_of_ne op txn location.page (Ne.symm own)]
      exact held

theorem Kept.twoPhase_of_kept : c.TwoPhase := by
  refine ⟨kept.holds_next, ?_, kept.covered_next, ?_, ?_, ?_, kept.mode?_of_ne, kept.locks_of_register⟩
  · intro s count rows fault left inHand taken
    have showed := (FileScan.take_covers kept.regular s count).of_ok taken
    refine ⟨?_, fun row among => ?_⟩
    · show _ = (outcome (s.draw count) c.engine).2
      rw [outcome, FileScan.draw, taken]
    · rw [← List.reduceOption_mem_iff, ← List.mem_append] at among
      rcases showed.covered row among with before | covered
      · exact (inHand row before).covered_mono showed.looked
      · exact covered
  · intro txn table schema values location stored
    obtain ⟨-, spared⟩ := ((Op.insert txn table schema values).spared_of_not_ends kept.regular rfl).outcome
    obtain ⟨reserved, only⟩ := (Op.insert_takes kept.regular txn table schema values).outcome location stored
    refine ⟨reserved, fun p other => ⟨fun free => ?_, only p fun same => other (Option.some.inj same).symm⟩⟩
    by_contra held
    exact spared.locks.kept p held free
  · intro txn row p removed
    exact (Op.delete_takes kept.regular txn row).outcome p removed
  · intro op closes p
    rw [kept.mode?_of_ends closes, if_pos rfl]

end Kept

/-- Whatever has been done, locks are gathered while a transaction goes on and given back when it ends. -/
theorem locks_are_kept_to_the_end (settings : Settings) (volume : Volume) (moves : List Move) :
    (after settings volume moves).TwoPhase :=
  (kept_after settings volume moves).twoPhase_of_kept

/-- Three numbers fill the first page, and the transaction commits. -/
def filled : List Move :=
  [.register "a.dat" number "t", .step (.insert ⟨1⟩ ⟨1⟩ number [.int 1]), .step (.insert ⟨1⟩ ⟨1⟩ number [.int 2]),
    .step (.insert ⟨1⟩ ⟨1⟩ number [.int 3]), .step (.commit ⟨1⟩)]

def fourth : Op := .insert ⟨2⟩ ⟨1⟩ number [.int 4]

/-- Another number goes to a page of its own: that one is locked till the end, also when a step fails, and
the page that is full is not. -/
theorem fourth_is_locked_alone :
    ((after small .empty filled).next (.step fourth)).engine.locks.mode? ⟨2⟩ ⟨⟨1⟩, 1⟩ = some .exclusive ∧
    ((after small .empty filled).next (.step fourth)).engine.locks.mode? ⟨2⟩ ⟨⟨1⟩, 0⟩ = none ∧
    (after small .empty (filled ++ [.step fourth, .step (.delete ⟨2⟩ none)])).engine.locks.Holds ⟨2⟩ ⟨⟨1⟩, 1⟩
      .exclusive ∧
    (after small .empty (filled ++ [.step fourth, .step (.commit ⟨2⟩)])).engine.locks.mode? ⟨2⟩ ⟨⟨1⟩, 1⟩ = none := by
  have stored : (outcome fourth.act (after small .empty filled).engine).1.toOption.bind Answer.location? =
      some ⟨⟨⟨1⟩, 1⟩, 0⟩ := by decide +kernel
  have free : (after small .empty filled).engine.locks.mode? ⟨2⟩ ⟨⟨1⟩, 0⟩ = none := by decide +kernel
  have placed : (outcome fourth.act (after small .empty filled).engine).1 = .ok (.stored ⟨⟨⟨1⟩, 1⟩, 0⟩) := by
    cases result : (outcome fourth.act (after small .empty filled).engine).1 with
    | error fault =>
      rw [result] at stored
      exact absurd stored (by simp [Except.toOption])
    | ok answer =>
      rw [result] at stored
      cases answer with
      | stored location =>
        have same : location = ⟨⟨⟨1⟩, 1⟩, 0⟩ := by simpa [Except.toOption, Answer.location?] using stored
        rw [same]
      | _ => exact absurd stored (by simp [Except.toOption, Answer.location?])
  obtain ⟨exclusive, only⟩ := (locks_are_kept_to_the_end small .empty filled).inserted _ _ _ _ _ placed
  have later := locks_are_kept_to_the_end small .empty (filled ++ [.step fourth])
  refine ⟨exclusive, (only _ (by decide)).mpr free, ?_, ?_⟩
  · exact later.kept (.delete ⟨2⟩ none) rfl _ _ ⟨.exclusive, exclusive, rfl⟩
  · exact later.ended (.commit ⟨2⟩) rfl _

end Course

end RowStore
