import RowStore.Proofs.Pool
import RowStore.Proofs.Locks
/-!
# When there is no room

A page that has to be brought into memory takes a free place or the place of one other page, which nobody has locked
and which holds no change. As the pages that are tracked are those in memory, there is such a page to give up unless
every page in memory is in use. So to be told that there is no room means exactly that.
-/

namespace RowStore

theorem TableFile.read_ne_poolFull (f : TableFile) (contents : Bytes) (p : PageId) :
    f.read contents p ≠ .error .poolFull := by
  rw [read]
  cases checked : f.checkBounds p with
  | error fault =>
    rw [checkBounds] at checked
    split at checked
    · cases checked
      exact fun full => by cases full
    · split at checked
      · cases checked
        exact fun full => by cases full
      · cases checked
  | ok _ =>
    simp only [bind, Except.bind]
    split
    · exact fun full => by cases full
    · split <;> exact fun full => by cases full

theorem LockTable.granted_iff (t : LockTable) (r : LockRequest) : (t.requestNow r).1 = .granted ↔ t.blockers r = [] := by
  rw [requestNow]
  cases t.blockers r <;> simp

namespace Engine

/-- The page is in memory, nobody has it locked, and it holds no change. -/
def Idle (e : Engine) (p : PageId) : Prop :=
  ∃ page, e.resident.get? p = some page ∧ page.isDirty = false ∧ ∀ holder, e.locks.mode? holder p = none

theorem idle_of_unlocked {e : Engine} {p : PageId} {page : Page} (free : e.locks.isLocked p = false)
    (here : e.resident.get? p = some page) (clean : page.dirtier = none) : e.Idle p := by
  refine ⟨page, here, by rw [Page.isDirty, clean, Option.isSome_none], ?_⟩
  intro holder
  by_contra locked
  obtain ⟨mode, held⟩ := Option.ne_none_iff_exists'.mp locked
  have used := (LockTable.isLocked_eq_true_iff e.locks p).mpr ⟨holder, mode, held⟩
  exact absurd (free.symm.trans used) Bool.false_ne_true

/-- Room is made by giving up one page that is not in use, and only where there is none. -/
theorem makeRoom_gives_up (e : Engine) : Ensures makeRoom e fun
    | .ok _, e' => ¬e.Stuck ∧ (¬e.isFull ∧ e' = e ∨ e.isFull ∧ ∃ victim recency, e.Idle victim ∧
        e' = { e with resident := e.resident.erase victim, recency })
    | .error fault, e' => fault = .poolFull ∧ e' = e ∧ e.Stuck := by
  refine (makeRoom_cases e).mono ?_
  rintro (fault | _) e' made
  · exact made
  · obtain ⟨roomy, unused | ⟨full, victim, page, free, here, clean, rfl⟩⟩ := made
    · exact ⟨roomy, .inl unused⟩
    · exact ⟨roomy, .inr ⟨full, victim, _, idle_of_unlocked free here clean, rfl⟩⟩

/-- To make room for a page the victim is given up, if there is to be one, and none but it. -/
structure Yielded (p : PageId) (victim : Option PageId) (e e' : Engine) : Prop where
  needed : victim.isSome ↔ e.isFull
  idle : ∀ q, victim = some q → e.Idle q
  others : ∀ q, q ≠ p → e'.resident.get? q = if victim = some q then none else e.resident.get? q

theorem makeRoom_yields (p : PageId) (e : Engine) : Ensures makeRoom e fun
    | .ok _, e' => ¬e.Stuck ∧ ∃ victim, Yielded p victim e e'
    | .error fault, e' => fault = .poolFull ∧ e' = e ∧ e.Stuck := by
  refine (makeRoom_gives_up e).mono ?_
  rintro (fault | _) e' made
  · exact made
  · obtain ⟨roomy, ⟨free, rfl⟩ | ⟨full, victim, recency, idle, rfl⟩⟩ := made
    · exact ⟨roomy, none, by simp [free], by simp, by simp⟩
    · refine ⟨roomy, some victim, by simp [full], ?_, ?_⟩
      · intro q same
        cases same
        exact idle
      · intro q _
        refine (FinMap.get?_erase e.resident victim q).trans ?_
        simp only [Option.some.injEq, eq_comm]

theorem readPage_yields (file : FileNo) (p : PageId) (e : Engine) : Ensures (readPage file p) e fun answer e' =>
    answer ≠ .error .poolFull ∧ e'.resident = e.resident ∧ ∀ page, answer = .ok page → page.id = p := by
  have honest : Ensures (readPage file p) e fun answer _ => answer ≠ .error .poolFull := by
    rw [readPage]
    refine (?_ : Ensures (openFile file p.table) e fun answer _ => answer ≠ .error .poolFull).bind ?_ ?_
    · rw [Ensures, openFile]
      cases e.files[file]? <;> simp
    · intro f e₁ _
      refine .get_bind ?_
      cases done : f.read (e₁.contentsOf f) p with
      | error fault =>
        refine .throw ?_
        rintro ⟨rfl⟩
        exact f.read_ne_poolFull _ p done
      | ok read =>
        intro failed
        cases failed
    · exact fun fault e₁ other => fun failed => other (by cases failed; rfl)
  refine (honest.and (readPage_untouched file p e)).mono ?_
  rintro answer e' ⟨other, -, resident, -, own⟩
  exact ⟨other, resident, own⟩

theorem load_yields (p : PageId) (e : Engine) : Ensures (load p) e fun answer e' =>
    (answer = .error .poolFull ∧ e' = e ∧ e.Stuck) ∨
      (answer ≠ .error .poolFull ∧ ¬e.Stuck ∧ ∃ victim, Yielded p victim e e') := by
  refine (makeRoom_yields p e).bind ?_ ?_
  · rintro _ e₁ ⟨roomy, victim, yielded⟩
    refine (resolve_ensures p.table).bind ?_ ?_
    · rintro entry e₁ ⟨rfl, -⟩
      refine (readPage_yields entry.file p e₁).bind ?_ ?_
      · rintro page e₂ ⟨-, resident, own⟩
        refine .inr ⟨by simp, roomy, victim, yielded.needed, yielded.idle, ?_⟩
        intro q differs
        refine Eq.trans ?_ (yielded.others q differs)
        rw [← own page rfl] at differs
        exact (FinMap.get?_insert_of_ne _ _ _ _ differs).trans (by rw [resident])
      · rintro fault e₂ ⟨other, resident, -⟩
        refine .inr ⟨fun failed => other (by cases failed; rfl), roomy, victim, yielded.needed, yielded.idle, ?_⟩
        intro q differs
        rw [resident]
        exact yielded.others q differs
    · rintro fault e₁ ⟨rfl, rfl, -⟩
      exact .inr ⟨by simp, roomy, victim, yielded⟩
  · rintro fault e₁ ⟨rfl, rfl, stuck⟩
    exact .inl ⟨rfl, rfl, stuck⟩

/-! ### A page is asked for -/

/-- As many pages are in memory as there may be, and each of them is changed or locked by somebody. -/
def AllInUse (e : Engine) : Prop :=
  e.resident.size = e.settings.poolPages ∧ ∀ p page, e.resident.get? p = some page →
    page.isDirty = true ∨ ∃ holder mode, e.locks.mode? holder p = some mode

theorem Tidy.isFull_iff {e : Engine} (tidy : e.Tidy) : e.isFull = true ↔ e.resident.size = e.settings.poolPages := by
  rw [isFull, decide_eq_true_eq]
  exact ⟨Nat.le_antisymm tidy.bounded, fun same => Nat.le_of_eq same.symm⟩

theorem Tidy.stuck_iff_allInUse {e : Engine} (tidy : e.Tidy) : e.Stuck ↔ e.AllInUse := by
  rw [tidy.stuck_iff, AllInUse]
  simp only [LockTable.isLocked_eq_true_iff, or_comm]

section

variable {e : Engine} {txn : TxnId} {p : PageId} {mode : LockMode} (absent : e.resident.get? p = none)

include absent

/-- The lock on a page that is not in memory is no lock on a page in memory. -/
theorem mode?_grant_of_absent {q : PageId} {page : Page} (here : e.resident.get? q = some page) (holder : TxnId) :
    (e.locks.grant ⟨txn, p, mode⟩).mode? holder q = e.locks.mode? holder q := by
  rw [LockTable.mode?_grant, if_neg]
  rintro ⟨rfl, -⟩
  exact absurd (absent.symm.trans here) (by simp)

theorem idle_of_granted {q : PageId} (idle : Idle { e with locks := e.locks.grant ⟨txn, p, mode⟩ } q) : e.Idle q := by
  obtain ⟨page, here, clean, free⟩ := idle
  refine ⟨page, here, clean, fun holder => ?_⟩
  rw [← mode?_grant_of_absent absent here holder]
  exact free holder

theorem allInUse_granted_iff : AllInUse { e with locks := e.locks.grant ⟨txn, p, mode⟩ } ↔ e.AllInUse := by
  refine and_congr_right fun _ => forall_congr' fun q => forall_congr' fun page => ?_
  refine imp_congr_right fun here => or_congr_right ?_
  simp only [mode?_grant_of_absent absent here]

end

/-- What comes of asking for a page: it is refused, or it is there, or there is no room, or room is made. -/
theorem getPage_yields {e : Engine} (tidy : e.Tidy) (txn : TxnId) (p : PageId) (mode : LockMode) :
    Ensures (getPage txn p mode) e fun answer e' =>
      (e.locks.blockers ⟨txn, p, mode⟩ ≠ [] ∧ answer = .error (.aborted txn) ∧ e'.resident = e.resident) ∨
      (e.locks.blockers ⟨txn, p, mode⟩ = [] ∧ (∃ page, e.resident.get? p = some page ∧ answer = .ok page) ∧
        e'.resident = e.resident) ∨
      (e.locks.blockers ⟨txn, p, mode⟩ = [] ∧ e.resident.get? p = none ∧ e.AllInUse ∧
        answer = .error .poolFull ∧ e'.resident = e.resident) ∨
      (e.locks.blockers ⟨txn, p, mode⟩ = [] ∧ e.resident.get? p = none ∧ ¬e.AllInUse ∧
        answer ≠ .error .poolFull ∧ ∃ victim, Yielded p victim e e') := by
  refine (lock_ensures txn p mode).bind ?_ ?_
  · rintro _ e₁ ⟨clear, rfl⟩
    have relocked : Orderly e { e with locks := e.locks.grant ⟨txn, p, mode⟩ } :=
      tidy.orderly_of_same_memory rfl rfl rfl
    refine .get_bind ?_
    cases resident : e.resident.get? p with
    | some page => exact .inr (.inl ⟨clear, ⟨page, rfl, rfl⟩, rfl⟩)
    | none =>
      refine (load_yields p _).mono ?_
      rw [relocked.tidy.stuck_iff_allInUse, allInUse_granted_iff resident]
      rintro answer e' (⟨full, rfl, stuck⟩ | ⟨other, roomy, victim, yielded⟩)
      · exact .inr (.inr (.inl ⟨clear, rfl, stuck, full, rfl⟩))
      · refine .inr (.inr (.inr ⟨clear, rfl, roomy, other, victim, yielded.needed, ?_, yielded.others⟩))
        exact fun q same => idle_of_granted resident (yielded.idle q same)
  · rintro fault e₁ ⟨blocked, rfl, rfl⟩
    exact .inl ⟨blocked, rfl, rfl⟩

/-- The lock is granted, the page is not in memory, and there is no room for one more. -/
def Wanting (e : Engine) (txn : TxnId) (p : PageId) (mode : LockMode) : Prop :=
  (e.locks.requestNow ⟨txn, p, mode⟩).1 = .granted ∧ e.resident.get? p = none ∧
    e.resident.size = e.settings.poolPages

theorem getPage_makes_room {e : Engine} (tidy : e.Tidy) (txn : TxnId) (p : PageId) (mode : LockMode) :
    Ensures (getPage txn p mode) e fun answer e' =>
      (answer = .error .poolFull ↔ e.Wanting txn p mode ∧ e.AllInUse) ∧
      (e.Wanting txn p mode ∧ answer ≠ .error .poolFull → ∃ victim, e.Idle victim ∧
        ∀ q, q ≠ p → e'.resident.get? q = if q = victim then none else e.resident.get? q) ∧
      (¬(e.Wanting txn p mode ∧ answer ≠ .error .poolFull) →
        ∀ q page, e.resident.get? q = some page → e'.resident.get? q = some page) := by
  refine (getPage_yields tidy txn p mode).mono ?_
  simp only [Wanting, LockTable.granted_iff]
  rintro answer e' (⟨blocked, rfl, kept⟩ | ⟨clear, ⟨page, here, rfl⟩, kept⟩ |
    ⟨clear, absent, used, rfl, kept⟩ | ⟨clear, absent, free, other, victim, yielded⟩)
  · refine ⟨⟨by simp, fun asked => absurd asked.1.1 blocked⟩, fun asked => absurd asked.1.1 blocked, ?_⟩
    exact fun _ q page here => by rw [kept, here]
  · have present : e.resident.get? p ≠ none := Option.ne_none_iff_exists'.mpr ⟨page, here⟩
    refine ⟨⟨by simp, fun asked => absurd asked.1.2.1 present⟩, fun asked => absurd asked.1.2.1 present, ?_⟩
    exact fun _ q page here => by rw [kept, here]
  · refine ⟨⟨fun _ => ⟨⟨clear, absent, used.1⟩, used⟩, fun _ => rfl⟩, fun asked => absurd rfl asked.2, ?_⟩
    exact fun _ q page here => by rw [kept, here]
  · refine ⟨⟨fun full => absurd full other, fun asked => absurd asked.2 free⟩, ?_, ?_⟩
    · rintro ⟨⟨-, -, whole⟩, -⟩
      obtain ⟨gone, rfl⟩ := Option.isSome_iff_exists.mp (yielded.needed.mpr (tidy.isFull_iff.mpr whole))
      refine ⟨gone, yielded.idle gone rfl, fun q differs => ?_⟩
      simpa only [Option.some.injEq, eq_comm] using yielded.others q differs
    · intro spare q page here
      have none_goes : victim = none := by
        rw [← Option.not_isSome_iff_eq_none, yielded.needed, tidy.isFull_iff]
        exact fun whole => spare ⟨⟨clear, absent, whole⟩, other⟩
      have differs : q ≠ p := by
        rintro rfl
        exact absurd (absent.symm.trans here) (by simp)
      have stays := yielded.others q differs
      rw [none_goes, if_neg (by simp)] at stays
      exact stays.trans here

end Engine

open Engine

namespace PoolCall

/-- Whatever has been asked of the pool before, asking for a page says that there is no room exactly when the lock is
granted, the page is not in memory, there are as many pages in memory as there may be, and each of these is changed or
locked by somebody. When one of them is not in use, exactly one page is given up for the page that is wanted, which
holds no change and which nobody has locked. Otherwise every page in memory stays there. -/
theorem no_room_exactly_when_all_are_in_use (settings : Settings) (volume : Volume) (calls : List PoolCall)
    (txn : TxnId) (p : PageId) (mode : LockMode) :
    let e := after (start settings volume) calls
    let result := outcome (Engine.getPage txn p mode) e
    let wanting := (e.locks.requestNow ⟨txn, p, mode⟩).1 = .granted ∧ e.resident.get? p = none ∧
      e.resident.size = settings.poolPages
    (result.1 = .error .poolFull ↔ wanting ∧ ∀ q page, e.resident.get? q = some page →
      page.isDirty = true ∨ ∃ holder held, e.locks.mode? holder q = some held) ∧
    (wanting ∧ result.1 ≠ .error .poolFull → ∃ victim page, e.resident.get? victim = some page ∧
      page.isDirty = false ∧ (∀ holder, e.locks.mode? holder victim = none) ∧
      ∀ q, q ≠ p → result.2.resident.get? q = if q = victim then none else e.resident.get? q) ∧
    (¬(wanting ∧ result.1 ≠ .error .poolFull) →
      ∀ q page, e.resident.get? q = some page → result.2.resident.get? q = some page) := by
  intro e result wanting
  obtain ⟨tidy, same⟩ := orderly_after (tidy_start settings volume) calls
  have wanted : e.Wanting txn p mode ↔ wanting := by
    change _ ∧ _ ∧ e.resident.size = e.settings.poolPages ↔ _
    rw [congrArg Settings.poolPages same]
    rfl
  obtain ⟨full, makes, keeps⟩ := (getPage_makes_room tidy txn p mode).outcome
  rw [wanted] at full makes keeps
  refine ⟨full.trans ⟨fun asked => ⟨asked.1, asked.2.2⟩, fun asked => ⟨asked.1, ?_⟩⟩, ?_, keeps⟩
  · exact ⟨(wanted.mpr asked.1).2.2, asked.2⟩
  · intro asked
    obtain ⟨victim, ⟨page, here, clean, free⟩, gone⟩ := makes asked
    exact ⟨victim, page, here, clean, free, gone⟩

end PoolCall

end RowStore
