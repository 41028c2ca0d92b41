import RowStore.Proofs.Custody
/-!
# A scan is repeated

A page that a transaction has looked at stays in memory as it is until the transaction ends or writes
itself: nobody else may write to it, nobody else's commit or abort concerns it, and a locked page is not
given up. Once the first page of a file is locked the file does not grow either, since whoever inserts a
row tries the first page first. So a scan that has come to the end of a file with pages gives the same rows
when it is repeated. On an empty file there is nothing to lock, and a repeated scan may find new rows.
-/

namespace RowStore

open Engine

/-! ### What a transaction has looked at -/

namespace Engine

/-- If somebody else has changed the page, he has it exclusively. -/
def Trusted (txn : TxnId) (e : Engine) (p : PageId) : Prop :=
  ∀ other ∈ (e.resident.get? p).bind Page.dirtier, other = txn ∨ e.locks.mode? other p = some .exclusive

instance (txn : TxnId) (e : Engine) (p : PageId) : Decidable (Trusted txn e p) :=
  inferInstanceAs (Decidable (∀ other ∈ (e.resident.get? p).bind Page.dirtier, _))

/-- The transaction has the page locked and in memory, and nobody else has changed it. -/
def Pinned (txn : TxnId) (e : Engine) (p : PageId) : Prop :=
  e.locks.mode? txn p ≠ none ∧ ∃ page, e.resident.get? p = some page ∧ ∀ other ∈ page.dirtier, other = txn

/-- Whatever the transaction has looked at is as it was. -/
structure Steady (txn : TxnId) (e e' : Engine) : Prop extends SameFiling e e' where
  regular : e'.Regular
  pinned : ∀ {p}, Pinned txn e p → Pinned txn e' p ∧ e'.resident.get? p = e.resident.get? p
  longer : ∀ file, e.pagesOf file ≤ e'.pagesOf file
  lengths : ∀ {file table}, e.tableOf? file = some table → 0 < e.pagesOf file →
    Pinned txn e ⟨table, 0⟩ → e'.pagesOf file = e.pagesOf file

variable {txn other : TxnId} {e e' e'' : Engine} {p : PageId}

theorem Pinned.to_trusted (pinned : Pinned txn e p) : Trusted txn e p := by
  obtain ⟨-, page, here, own⟩ := pinned
  intro other dirty
  rw [here] at dirty
  exact .inl (own other dirty)

theorem Pinned.pinned_of_kept (pinned : Pinned txn e p)
    (locked : e.locks.mode? txn p ≠ none → e'.locks.mode? txn p ≠ none)
    (copies : ∀ page, e.resident.get? p = some page → (∀ other ∈ page.dirtier, other = txn) →
      e'.resident.get? p = some page) :
    Pinned txn e' p ∧ e'.resident.get? p = e.resident.get? p := by
  obtain ⟨held, page, here, own⟩ := pinned
  have still := copies page here own
  exact ⟨⟨locked held, page, still, own⟩, still.trans here.symm⟩

namespace Steady

theorem refl (regular : e.Regular) : Steady txn e e :=
  ⟨⟨rfl, fun _ => rfl⟩, regular, fun pinned => ⟨pinned, rfl⟩, fun _ => Nat.le_refl _, fun _ _ _ => rfl⟩

theorem trans (first : Steady txn e e') (second : Steady txn e' e'') : Steady txn e e'' where
  toSameFiling := first.toSameFiling.trans second.toSameFiling
  regular := second.regular
  pinned pinned := by
    obtain ⟨pinned', same⟩ := first.pinned pinned
    obtain ⟨pinned'', same'⟩ := second.pinned pinned'
    exact ⟨pinned'', same'.trans same⟩
  longer file := Nat.le_trans (first.longer file) (second.longer file)
  lengths owned some pinned := by
    have same := first.lengths owned some pinned
    rw [← same]
    exact second.lengths (by rw [first.tables]; exact owned) (by rw [same]; exact some)
      (first.pinned pinned).1

end Steady

theorem Looked.steady_of_regular (looked : Looked other e e') (regular : e'.Regular) : Steady txn e e' where
  toSameFiling := looked.toSameFiling
  regular := regular
  pinned pinned := pinned.pinned_of_kept looked.locks.still_held fun _ here _ =>
    looked.copies (LockTable.isLocked_of_mode? pinned.1) here
  longer file := Nat.le_of_eq (looked.lengths file).symm
  lengths _ _ _ := looked.lengths _

theorem Spared.steady_of_ne (spared : Spared other e e') (differs : txn ≠ other) (regular : e'.Regular) :
    Steady txn e e' where
  toSameFiling := spared.toSameFiling
  regular := regular
  pinned pinned := pinned.pinned_of_kept spared.locks.still_held fun _ here _ => spared.copies differs pinned.1 here
  longer := spared.longer
  lengths owned some pinned := spared.lengths owned some differs pinned.1

theorem Parted.steady_of_ne (parted : Parted other e e') (differs : txn ≠ other) (regular : e'.Regular) :
    Steady txn e e' where
  toSameFiling := parted.toSameFiling
  regular := regular
  pinned pinned := by
    refine pinned.pinned_of_kept ?_ fun _ here own => parted.copies here fun dirty => differs (own other dirty).symm
    intro held
    rw [parted.locks, LockTable.mode?_releaseAll, if_neg differs]
    exact held
  longer file := Nat.le_of_eq (parted.lengths file).symm
  lengths _ _ _ := parted.lengths _

end Engine

/-- The step is another's, or it only looks at pages. -/
def Op.Beside (txn : TxnId) (op : Op) : Prop := op.txn ≠ txn ∨ op.looks = true

theorem Op.Beside.act_steady {txn : TxnId} {op : Op} (beside : op.Beside txn) {e : Engine} (regular : e.Regular) :
    Steady txn e (outcome op.act e).2 := by
  cases looking : op.looks with
  | true =>
    obtain ⟨regular', looked⟩ := (op.looked_of_looks regular looking).outcome
    exact looked.steady_of_regular regular'
  | false =>
    have differs : txn ≠ op.txn := by
      rcases beside with others | looks
      · exact Ne.symm others
      · exact absurd (looking.symm.trans looks) (by simp)
    cases closes : op.ends with
    | false =>
      obtain ⟨regular', spared⟩ := (op.spared_of_not_ends regular closes).outcome
      exact spared.steady_of_ne differs regular'
    | true =>
      obtain ⟨regular', parted, -⟩ := (op.parted_of_ends regular closes).outcome
      exact parted.steady_of_ne differs regular'

namespace Engine

def through (e : Engine) (ops : List Op) : Engine := ops.foldl (fun e op => (outcome op.act e).2) e

theorem steady_through {txn : TxnId} {ops : List Op} (beside : ∀ op ∈ ops, op.Beside txn) {e : Engine}
    (regular : e.Regular) : Steady txn e (e.through ops) := by
  induction ops generalizing e with
  | nil => exact .refl regular
  | cons op rest ih =>
    have first := (beside op List.mem_cons_self).act_steady regular
    exact first.trans (ih (fun later among => beside later (List.mem_cons_of_mem _ among)) first.regular)

/-! ### What a scan has passed -/

def copiedRows (e : Engine) (p : PageId) : List Row := (e.resident.get? p).elim [] Page.rows

def copiedFrom (e : Engine) (table : TableId) (numbers : List Nat) : List Row :=
  numbers.flatMap fun number => e.copiedRows ⟨table, number⟩

theorem Steady.copiedFrom_eq {txn : TxnId} {e e' : Engine} (steady : Steady txn e e') {table : TableId}
    {numbers : List Nat} (pinned : ∀ number ∈ numbers, Pinned txn e ⟨table, number⟩) :
    e'.copiedFrom table numbers = e.copiedFrom table numbers := by
  apply List.flatMap_congr
  intro number among
  rw [copiedRows, copiedRows, (steady.pinned (pinned number among)).2]

theorem Looked.trusted_mono {txn : TxnId} {e e' : Engine} (looked : Looked txn e e') {p : PageId}
    (trusted : Trusted txn e p) : Trusted txn e' p := by
  intro other dirty
  obtain ⟨page, here, dirtier⟩ := Option.bind_eq_some_iff.mp dirty
  have before := looked.changes here dirtier
  rcases trusted other (by rw [before]; exact dirtier) with own | exclusive
  · exact .inl own
  · by_cases own : other = txn
    · exact .inl own
    · exact .inr ((looked.locks.others other p own).trans exclusive)

/-- A page that the transaction gets and that only he can have changed is his to look at again. -/
theorem getPage_pins {e : Engine} (regular : e.Regular) (txn : TxnId) (p : PageId) :
    Ensures (getPage txn p .shared) e fun answer e' => e'.Regular ∧ Looked txn e e' ∧
      ∀ page, answer = .ok page → Trusted txn e p → Pinned txn e' p ∧ e'.copiedRows p = page.rows := by
  refine (getPage_looks regular txn p .shared).mono ?_
  rintro answer e' ⟨regular', looked, gotten⟩
  refine ⟨regular', looked, ?_⟩
  intro page done trusted
  obtain ⟨id, resident, clear, locks⟩ := gotten page done
  have locked : e'.locks.mode? txn p ≠ none := by
    rw [locks, LockTable.mode?_grant_self _ ⟨txn, p, .shared⟩]
    exact Option.some_ne_none _
  refine ⟨⟨locked, page, resident, ?_⟩, by rw [copiedRows, resident]; rfl⟩
  intro other dirty
  rcases trusted other (by rw [looked.changes resident dirty]; exact dirty) with own | exclusive
  · exact own
  · exact LockTable.own_of_blockers_eq_nil clear exclusive

end Engine

namespace FileScan

/-- A scan was asked for a row and has gone on to the pages before `stop` at the most. It has passed the
rows of the pages it has gone through, but for the answer and those that are still to come. -/
structure Drew (s : FileScan) (e : Engine) (stop : Nat) (answer : Except Fault (Option Row))
    (left : FileScan × Engine) : Prop where
  regular : left.2.Regular
  looked : Looked s.txn e left.2
  alike : Alike s left.1
  forth : s.nextPage ≤ left.1.nextPage
  within : left.1.nextPage ≤ stop
  pinned : ∀ number, s.nextPage ≤ number → number < left.1.nextPage → Pinned s.txn left.2 ⟨s.table, number⟩
  rows : s.pending ++ left.2.copiedFrom s.table (List.range' s.nextPage (left.1.nextPage - s.nextPage)) =
    given answer ++ left.1.pending
  last : answer = .ok none → left.1.nextPage = stop ∧ left.1.pending = []

theorem Drew.drew_self {s : FileScan} {e e' : Engine} {stop : Nat} {answer : Except Fault (Option Row)}
    (regular : e'.Regular) (looked : Looked s.txn e e') (within : s.nextPage ≤ stop)
    (rows : s.pending = given answer ++ s.pending) (last : answer = .ok none → s.nextPage = stop ∧ s.pending = []) :
    Drew s e stop answer (s, e') := by
  refine ⟨regular, looked, ⟨rfl, rfl, rfl⟩, Nat.le_refl _, within, ?_, ?_, last⟩
  · exact fun number first before => absurd before (Nat.not_lt.mpr first)
  · rw [Nat.sub_self, List.range'_zero, ← rows]
    exact List.append_nil _

theorem Drew.after_page {s : FileScan} {e e₁ : Engine} {stop : Nat} {answer : Except Fault (Option Row)}
    {left : FileScan × Engine} (looked : Looked s.txn e e₁)
    (pinned : Pinned s.txn e₁ ⟨s.table, s.nextPage⟩) (rowless : e₁.copiedRows ⟨s.table, s.nextPage⟩ = [])
    (drew : Drew { s with nextPage := s.nextPage + 1 } e₁ stop answer left) : Drew s e stop answer left := by
  have steady : Steady s.txn e₁ left.2 := drew.looked.steady_of_regular drew.regular
  have forth : s.nextPage + 1 ≤ left.1.nextPage := drew.forth
  obtain ⟨pinned', same⟩ := steady.pinned pinned
  refine ⟨drew.regular, looked.trans drew.looked, ⟨drew.alike.file, drew.alike.table, drew.alike.txn⟩,
    Nat.le_of_succ_le forth, drew.within, ?_, ?_, drew.last⟩
  · intro number first before
    rcases Nat.eq_or_lt_of_le first with rfl | later
    · exact pinned'
    · exact drew.pinned number later before
  · have more : left.1.nextPage - s.nextPage = left.1.nextPage - (s.nextPage + 1) + 1 := by omega
    have nothing : left.2.copiedRows ⟨s.table, s.nextPage⟩ = [] := by
      rw [copiedRows, same]
      exact rowless
    rw [more, List.range'_succ, Engine.copiedFrom, List.flatMap_cons, nothing, List.nil_append]
    exact drew.rows

/-- Only the pages that are gone through have to be trusted. -/
theorem advance_draws {e : Engine} (regular : e.Regular) (s : FileScan) (rowless : s.pending = []) (pages : Nat) :
    Ensures (advance (List.range' s.nextPage pages)) (s, e) fun answer left =>
      (∀ number < s.nextPage + pages, s.nextPage ≤ number → number < left.1.nextPage →
        Trusted s.txn e ⟨s.table, number⟩) → Drew s e (s.nextPage + pages) answer left := by
  induction pages generalizing s e with
  | zero => exact .pure fun _ => .drew_self regular .refl (Nat.le_refl _) rfl fun _ => ⟨rfl, rowless⟩
  | succ pages ih =>
    rw [List.range'_succ]
    have ensured := (getPage_pins regular s.txn ⟨s.table, s.nextPage⟩).engine_step (s := s)
    refine Ensures.congr (advance_cons ..) (ensured.bind ?_ ?_)
    · rintro page ⟨s₁, e₁⟩ ⟨same, regular₁, looked, gotten⟩
      obtain rfl : s₁ = s := same
      cases rows : page.rows with
      | nil =>
        have later := ih regular₁ { s₁ with nextPage := s₁.nextPage + 1 } rowless
        rw [Nat.add_right_comm] at later
        refine Ensures.congr (by rfl) (later.mono ?_)
        intro answer left draws trusted
        have drew := draws fun number within first before =>
          looked.trusted_mono (trusted number within (Nat.le_of_succ_le first) before)
        obtain ⟨pinned, copied⟩ := gotten page rfl (trusted s₁.nextPage (by omega) (Nat.le_refl _) drew.forth)
        exact drew.after_page looked pinned (copied.trans rows)
      | cons row rest =>
        intro trusted
        obtain ⟨pinned, copied⟩ := gotten page rfl (trusted s₁.nextPage (by omega) (Nat.le_refl _) (Nat.lt_succ_self _))
        have within : s₁.nextPage + 1 ≤ s₁.nextPage + (pages + 1) := by omega
        refine ⟨regular₁, looked, ⟨rfl, rfl, rfl⟩, Nat.le_succ _, within, ?_, ?_, by simp⟩
        · intro number first before
          obtain rfl : s₁.nextPage = number := Nat.le_antisymm first (Nat.le_of_lt_succ before)
          exact pinned
        · show s₁.pending ++ e₁.copiedFrom s₁.table
            (List.range' s₁.nextPage (s₁.nextPage + 1 - s₁.nextPage)) = row :: rest
          rw [rowless, Nat.add_sub_cancel_left, Engine.copiedFrom, List.range'_one, List.flatMap_singleton,
            copied, rows]
          rfl
    · rintro fault ⟨s₁, e₁⟩ ⟨same, regular₁, looked, -⟩
      obtain rfl : s₁ = s := same
      exact fun _ => .drew_self regular₁ looked (Nat.le_add_right _ _) rfl (by simp)

/-- Asked for a row, the scan goes through no page that somebody else has changed who does not have it exclusively. -/
def Calm (s : FileScan) (e : Engine) : Prop :=
  ∀ number < e.pagesOf s.file, s.nextPage ≤ number → number < (outcome next (s, e)).2.1.nextPage →
    Trusted s.txn e ⟨s.table, number⟩

instance (s : FileScan) (e : Engine) : Decidable (Calm s e) :=
  inferInstanceAs (Decidable (∀ number < e.pagesOf s.file, _ → _ → _))

def horizon (s : FileScan) (e : Engine) : Nat := s.nextPage + (e.pagesOf s.file - s.nextPage)

theorem next_draws {e : Engine} (regular : e.Regular) (s : FileScan) (calm : Calm s e) :
    Drew s e (s.horizon e) (outcome next (s, e)).1 (outcome next (s, e)).2 := by
  cases pending : s.pending with
  | nil =>
    have draws := Ensures.congr (next_of_rowless pending) (advance_draws regular s pending _)
    exact draws.outcome fun number within first before => calm number (by omega) first before
  | cons row rows =>
    rw [outcome, next_of_pending pending]
    refine ⟨regular, .refl, ⟨rfl, rfl, rfl⟩, Nat.le_refl _, Nat.le_add_right _ _, ?_, ?_, by simp⟩
    · exact fun number first before => absurd before (Nat.not_lt.mpr first)
    · show s.pending ++ e.copiedFrom s.table (List.range' s.nextPage (s.nextPage - s.nextPage)) = row :: rows
      rw [Nat.sub_self, pending]
      exact List.append_nil _

/-- The rows that a scan gives to its end when it is asked again and again, also after it has failed, and
when other steps come between that leave what it has looked at as it is. Whenever it is asked, the scan and the
engine are as the condition says. -/
inductive Yields (calm : FileScan → Engine → Prop) : FileScan → Engine → List Row → Engine → Prop
  | last {s : FileScan} {e : Engine} (here : calm s e) (answer : (outcome next (s, e)).1 = .ok none) :
      Yields calm s e [] (outcome next (s, e)).2.2
  | row {s : FileScan} {e e' : Engine} {row : Row} {rows : List Row} (ops : List Op) (here : calm s e)
      (answer : (outcome next (s, e)).1 = .ok (some row)) (beside : ∀ op ∈ ops, op.Beside s.txn)
      (rest : Yields calm (outcome next (s, e)).2.1 ((outcome next (s, e)).2.2.through ops) rows e') :
      Yields calm s e (row :: rows) e'
  | again {s : FileScan} {e e' : Engine} {fault : Fault} {rows : List Row} (ops : List Op) (here : calm s e)
      (answer : (outcome next (s, e)).1 = .error fault) (beside : ∀ op ∈ ops, op.Beside s.txn)
      (rest : Yields calm (outcome next (s, e)).2.1 ((outcome next (s, e)).2.2.through ops) rows e') :
      Yields calm s e rows e'

/-- A scan has come to its end: it has looked at all pages, and has given the rows on them. -/
structure Swept (s : FileScan) (e : Engine) (rows : List Row) (e' : Engine) : Prop where
  steady : Steady s.txn e e'
  pinned : ∀ number, s.nextPage ≤ number → number < e'.pagesOf s.file → Pinned s.txn e' ⟨s.table, number⟩
  rows : rows = s.pending ++ e'.copiedFrom s.table (List.range' s.nextPage (e'.pagesOf s.file - s.nextPage))

theorem Drew.swept_last {s : FileScan} {e : Engine} {left : FileScan × Engine}
    (drew : Drew s e (s.horizon e) (.ok none) left) : Swept s e [] left.2 := by
  obtain ⟨stop, pending⟩ := drew.last rfl
  have long := drew.looked.lengths s.file
  have passed := drew.rows
  rw [pending, stop, horizon] at passed
  refine ⟨drew.looked.steady_of_regular drew.regular, ?_, ?_⟩
  · intro number first before
    refine drew.pinned number first ?_
    rw [stop, horizon]
    omega
  · rw [long]
    rw [Nat.add_sub_cancel_left] at passed
    exact passed.symm

theorem Drew.swept_of_later {s s₁ : FileScan} {e e₁ e₂ e' : Engine} {answer : Except Fault (Option Row)}
    {rows : List Row}
    (drew : Drew s e (s.horizon e) answer (s₁, e₁)) (between : Steady s.txn e₁ e₂)
    (later : Swept s₁ e₂ rows e') : Swept s e (given answer ++ rows) e' := by
  obtain ⟨steady, pinned, rest⟩ := later
  rw [drew.alike.txn] at steady pinned
  rw [drew.alike.file, drew.alike.table] at pinned rest
  have onward : Steady s.txn e₁ e' := between.trans steady
  have forth : s.nextPage ≤ s₁.nextPage := drew.forth
  have within : s₁.nextPage ≤ s.nextPage + (e.pagesOf s.file - s.nextPage) := drew.within
  have long : e.pagesOf s.file ≤ e'.pagesOf s.file := by
    rw [← drew.looked.lengths]
    exact onward.longer s.file
  refine ⟨(drew.looked.steady_of_regular drew.regular).trans onward, ?_, ?_⟩
  · intro number first before
    by_cases passed : number < s₁.nextPage
    · exact (onward.pinned (drew.pinned number first passed)).1
    · exact pinned number (Nat.not_lt.mp passed) before
  · have whole : List.range' s.nextPage (s₁.nextPage - s.nextPage) ++
        List.range' s₁.nextPage (e'.pagesOf s.file - s₁.nextPage) =
          List.range' s.nextPage (e'.pagesOf s.file - s.nextPage) := by
      have next : s₁.nextPage = s.nextPage + (s₁.nextPage - s.nextPage) := by omega
      have count : s₁.nextPage - s.nextPage + (e'.pagesOf s.file - s₁.nextPage) =
          e'.pagesOf s.file - s.nextPage := by omega
      rw [← count, ← List.range'_append_1, ← next]
    have before : e'.copiedFrom s.table (List.range' s.nextPage (s₁.nextPage - s.nextPage)) =
        e₁.copiedFrom s.table (List.range' s.nextPage (s₁.nextPage - s.nextPage)) := by
      apply onward.copiedFrom_eq
      intro number among
      rw [List.mem_range'_1] at among
      exact drew.pinned number among.1 (show number < s₁.nextPage by omega)
    calc
      given answer ++ rows = given answer ++ s₁.pending ++
          e'.copiedFrom s.table (List.range' s₁.nextPage (e'.pagesOf s.file - s₁.nextPage)) := by
        rw [rest, List.append_assoc]
      _ = s.pending ++ (e'.copiedFrom s.table (List.range' s.nextPage (s₁.nextPage - s.nextPage)) ++
          e'.copiedFrom s.table (List.range' s₁.nextPage (e'.pagesOf s.file - s₁.nextPage))) := by
        rw [← drew.rows, before, List.append_assoc]
      _ = s.pending ++ e'.copiedFrom s.table (List.range' s.nextPage (e'.pagesOf s.file - s.nextPage)) := by
        rw [← whole, Engine.copiedFrom, Engine.copiedFrom, Engine.copiedFrom, List.flatMap_append]

section Runs

variable {txn : TxnId} {file : FileNo} {table : TableId} {calm : FileScan → Engine → Prop}
  (kept : Engine → Prop) (stays : ∀ {e e'}, Steady txn e e' → kept e → kept e')
  (trusts : ∀ {s e}, Alike (.start file table txn) s → kept e → calm s e → Calm s e)

include trusts

theorem drew_of_trusts {s : FileScan} {e : Engine} (alike : Alike (.start file table txn) s) (regular : e.Regular)
    (holds : kept e) (here : calm s e) :
    Drew s e (s.horizon e) (outcome next (s, e)).1 (outcome next (s, e)).2 := by
  exact next_draws regular s (trusts alike holds here)

include stays

/-- A scan is asked for a row, other steps come between, and the rest is known already. -/
theorem swept_of_rest {s : FileScan} {e e' : Engine} {rows : List Row} {ops : List Op}
    (alike : Alike (.start file table txn) s) (regular : e.Regular) (holds : kept e) (here : calm s e)
    (beside : ∀ op ∈ ops, op.Beside s.txn)
    (rest : Alike (.start file table txn) (outcome next (s, e)).2.1 →
      ((outcome next (s, e)).2.2.through ops).Regular → kept ((outcome next (s, e)).2.2.through ops) →
        Swept (outcome next (s, e)).2.1 ((outcome next (s, e)).2.2.through ops) rows e') :
    Swept s e (given (outcome next (s, e)).1 ++ rows) e' := by
  have drew := drew_of_trusts kept trusts alike regular holds here
  have between := steady_through beside drew.regular
  have steady := (drew.looked.steady_of_regular drew.regular).trans between
  rw [show s.txn = txn from alike.txn] at steady
  exact drew.swept_of_later between (rest (alike.trans drew.alike) between.regular (stays steady holds))

/-- A run of a scan, seen as a whole. What is kept by the steps that come between may be used to see that
the pages can be trusted. -/
theorem Yields.swept_of_yields {s : FileScan} {e e' : Engine} {rows : List Row} (yields : Yields calm s e rows e')
    (alike : Alike (.start file table txn) s) (regular : e.Regular) (holds : kept e) : Swept s e rows e' := by
  induction yields with
  | last here answer =>
    have drew := drew_of_trusts kept trusts alike regular holds here
    rw [answer] at drew
    exact drew.swept_last
  | row ops here answer beside rest ih =>
    have swept := swept_of_rest kept stays trusts alike regular holds here beside ih
    rw [answer] at swept
    exact swept
  | again ops here answer beside rest ih =>
    have swept := swept_of_rest kept stays trusts alike regular holds here beside ih
    rw [answer] at swept
    exact swept

end Runs

end FileScan

namespace Course

/-- Where nobody's commit has failed, whoever has changed a page has it exclusively. -/
theorem Kept.calm_of_none_failed {c : Course} (kept : c.Kept) (fine : c.failed = []) (s : FileScan) :
    s.Calm c.engine := by
  intro number _ _ _ other dirty
  obtain ⟨page, here, dirtier⟩ := Option.bind_eq_some_iff.mp dirty
  exact .inr (kept.owned here dirtier (by rw [fine]; exact List.not_mem_nil))

/-- After any registrations and steps, a transaction scans a table to its end. When the table then has a
page, and from then on the others do what they like while the transaction only looks at pages, it finds the
same rows in the same order when it scans the table again. While it scans for the first time, whoever
else has changed a page that it goes through has to have it exclusively. -/
theorem scans_repeat (settings : Settings) (volume : Volume) (moves : List Move) (ops : List Op) {txn : TxnId}
    {table : TableId} {entry entry' : TableEntry} {rows rows' : List Row} {e₁ e₂ : Engine}
    (known : (after settings volume moves).engine.catalog.find? table = some entry)
    (first : (FileScan.start entry.file table txn).Yields FileScan.Calm
      (after settings volume moves).engine rows e₁)
    (filled : 0 < e₁.pagesOf entry.file)
    (beside : ∀ op ∈ ops, op.Beside txn)
    (known' : (e₁.through ops).catalog.find? table = some entry')
    (second : (FileScan.start entry'.file table txn).Yields (fun _ _ => True) (e₁.through ops) rows' e₂) :
    rows' = rows := by
  have regular := (kept_after settings volume moves).regular
  have begun : FileScan.Alike (.start entry.file table txn) (.start entry.file table txn) := ⟨rfl, rfl, rfl⟩
  have swept := first.swept_of_yields (fun _ => True) (fun _ _ => trivial) (fun _ _ calm => calm) begun regular trivial
  have owned : e₁.tableOf? entry.file = some table := by
    rw [swept.steady.tables]
    exact regular.filed known
  have pinned : ∀ number < e₁.pagesOf entry.file, Pinned txn e₁ ⟨table, number⟩ :=
    fun number inside => swept.pinned number (Nat.zero_le _) inside
  -- From here on the file is as long as it is, since its first page is locked.
  have long : ∀ {e}, Steady txn e₁ e → e.pagesOf entry.file = e₁.pagesOf entry.file :=
    fun steady => steady.lengths owned filled (pinned 0 filled)
  have calm : ∀ {s e}, FileScan.Alike (.start entry.file table txn) s → Steady txn e₁ e → s.Calm e := by
    rintro s e ⟨file, own, reader⟩ steady number inside - -
    rw [show s.file = entry.file from file, long steady] at inside
    rw [own, reader]
    exact (steady.pinned (pinned number inside)).1.to_trusted
  have between : Steady txn e₁ (e₁.through ops) := steady_through beside swept.steady.regular
  obtain rfl : entry = entry' := by
    rw [between.catalog, swept.steady.catalog, known] at known'
    exact Option.some.inj known'
  have swept' := second.swept_of_yields (Steady txn e₁) (fun later steady => steady.trans later)
    (fun alike steady _ => calm alike steady) begun between.regular between
  have steady : Steady txn e₁ e₂ := between.trans swept'.steady
  have same : e₂.copiedFrom table (List.range' 0 (e₁.pagesOf entry.file)) =
      e₁.copiedFrom table (List.range' 0 (e₁.pagesOf entry.file)) := by
    apply steady.copiedFrom_eq
    intro number among
    rw [List.mem_range'_1, Nat.zero_add] at among
    exact pinned number among.2
  calc
    rows' = e₂.copiedFrom table (List.range' 0 (e₂.pagesOf entry.file)) := swept'.rows
    _ = e₁.copiedFrom table (List.range' 0 (e₁.pagesOf entry.file)) := by rw [long steady, same]
    _ = rows := swept.rows.symm

/-- What is left when the scan has been asked for that many rows. -/
def asked : Nat → FileScan × Engine → FileScan × Engine
  | 0, left => left
  | n + 1, left => asked n (outcome FileScan.next left).2

/-- A number has been inserted and committed. -/
def stocked : List Move :=
  [.register "a.dat" number "t", .step (.insert ⟨1⟩ ⟨1⟩ number [.int 7]), .step (.commit ⟨1⟩)]

def another : List Op := [.insert ⟨3⟩ ⟨1⟩ number [.int 8], .commit ⟨3⟩]

/-- A number in the first place of the table, as it is read. -/
def asRead (n : Int32) : Row := { schema := number, values := [.int n], location := some ⟨⟨⟨1⟩, 0⟩, 0⟩ }

/-- The engine when the number has been scanned. -/
def scanned : Engine := (asked 2 (.start 0 ⟨1⟩ ⟨2⟩, (after small .empty stocked).engine)).2

/-- The reader finds one number both times, and no other number has come between. -/
theorem number_is_scanned_again :
    (FileScan.start 0 ⟨1⟩ ⟨2⟩).Yields FileScan.Calm (after small .empty stocked).engine [asRead 7] scanned ∧
    ∃ rows e, (FileScan.start 0 ⟨1⟩ ⟨2⟩).Yields (fun _ _ => True) (scanned.through another) rows e ∧
      rows = [asRead 7] := by
  have calm : (FileScan.start 0 ⟨1⟩ ⟨2⟩).Calm (after small .empty stocked).engine :=
    (kept_after small .empty stocked).calm_of_none_failed (by decide +kernel) (.start 0 ⟨1⟩ ⟨2⟩)
  have first : (FileScan.start 0 ⟨1⟩ ⟨2⟩).Yields FileScan.Calm (after small .empty stocked).engine
      [asRead 7] scanned :=
    .row [] calm (by decide +kernel) (by simp) (.last (by decide +kernel) (by decide +kernel))
  have second : (FileScan.start 0 ⟨1⟩ ⟨2⟩).Yields (fun _ _ => True) (scanned.through another) [asRead 7]
      (asked 2 (.start 0 ⟨1⟩ ⟨2⟩, scanned.through another)).2 :=
    .row [] trivial (by decide +kernel) (by simp) (.last trivial (by decide +kernel))
  have beside : ∀ op ∈ another, op.Beside ⟨2⟩ := by
    intro op among
    refine .inl ?_
    revert op
    decide
  have known : (after small .empty stocked).engine.catalog.find? ⟨1⟩ = some ⟨0, number, "t"⟩ := by decide +kernel
  have known' : (scanned.through another).catalog.find? ⟨1⟩ = some ⟨0, number, "t"⟩ := by decide +kernel
  have filled : 0 < scanned.pagesOf 0 := by decide +kernel
  exact ⟨first, _, _, second, scans_repeat small .empty stocked another known first filled beside known' second⟩

def opened : List Move := [.register "a.dat" number "t"]

/-- The engine when the empty table has been scanned. -/
def scannedEmpty : Engine := (asked 1 (.start 0 ⟨1⟩ ⟨2⟩, (after small .empty opened).engine)).2

/-- Who has scanned an empty table may find a row when he scans it again. -/
theorem empty_table_is_not_scanned_again :
    ¬∀ ops rows rows' e₁ e₂, (∀ op ∈ ops, op.txn ≠ ⟨2⟩) →
      (FileScan.start 0 ⟨1⟩ ⟨2⟩).Yields FileScan.Calm (after small .empty opened).engine rows e₁ →
        (FileScan.start 0 ⟨1⟩ ⟨2⟩).Yields (fun _ _ => True) (e₁.through ops) rows' e₂ → rows' = rows := by
  intro repeats
  have first : (FileScan.start 0 ⟨1⟩ ⟨2⟩).Yields FileScan.Calm (after small .empty opened).engine []
      scannedEmpty := .last (by decide +kernel) (by decide +kernel)
  have second : (FileScan.start 0 ⟨1⟩ ⟨2⟩).Yields (fun _ _ => True) (scannedEmpty.through another) [asRead 8]
      (asked 2 (.start 0 ⟨1⟩ ⟨2⟩, scannedEmpty.through another)).2 :=
    .row [] trivial (by decide +kernel) (by simp) (.last trivial (by decide +kernel))
  exact absurd (repeats another [] [asRead 8] _ _ (by decide) first second) (by simp)

end Course

end RowStore
