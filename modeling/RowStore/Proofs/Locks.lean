import Mathlib.Tactic.ByContra
import RowStore.Lock.Table
import RowStore.Proofs.Maps
/-!
# What a transaction may do to the locks

Locks are compatible when a page held exclusively has no second holder. A granted request keeps them
so, and until a transaction ends it only ever adds to its own locks or strengthens them, apart from
those that it took while it looked for room.
-/

namespace RowStore.LockTable

section Modes

variable (t : LockTable) (txn : TxnId) (page : PageId)

theorem mode?_grant (r : LockRequest) :
    (t.grant r).mode? txn page =
      if page = r.page ∧ txn = r.txn then
        some (if t.mode? r.txn r.page = some .exclusive then .exclusive else r.mode)
      else t.mode? txn page := by
  simp only [mode?, grant, FinMap.get?_insert, Prod.mk.injEq]

theorem mode?_grant_self (r : LockRequest) :
    (t.grant r).mode? r.txn r.page =
      some (if t.mode? r.txn r.page = some .exclusive then .exclusive else r.mode) := by
  rw [mode?_grant, if_pos ⟨rfl, rfl⟩]

theorem mode?_grant_of_ne (r : LockRequest) (differs : txn ≠ r.txn) :
    (t.grant r).mode? txn page = t.mode? txn page := by
  rw [mode?_grant, if_neg fun same => differs same.2]

@[simp] theorem mode?_giveUp (other : TxnId) : (t.giveUp other).mode? txn page = t.mode? txn page := rfl

theorem mode?_release (other : TxnId) (released : PageId) :
    (t.release other released).mode? txn page =
      if page = released ∧ txn = other then none else t.mode? txn page := by
  simp only [mode?, release, FinMap.get?_erase, Prod.mk.injEq]

theorem mode?_releaseAll (other : TxnId) :
    (t.releaseAll other).mode? txn page = if txn = other then none else t.mode? txn page := by
  rw [mode?, releaseAll, FinMap.get?_filter]
  by_cases same : txn = other
  · simp [same]
  · rw [if_neg same, mode?]
    cases t.grants.get? (page, txn) <;> simp [same]

theorem isLocked_eq_true_iff : t.isLocked page = true ↔ ∃ txn mode, t.mode? txn page = some mode := by
  rw [isLocked, List.any_eq_true]
  constructor
  · rintro ⟨⟨⟨locked, txn⟩, mode⟩, inEntries, same⟩
    rw [decide_eq_true_eq] at same
    subst same
    exact ⟨txn, mode, (t.grants.get?_eq_some_iff _ _).mpr inEntries⟩
  · rintro ⟨txn, mode, held⟩
    exact ⟨((page, txn), mode), (t.grants.get?_eq_some_iff _ _).mp held, decide_eq_true rfl⟩

/-- Nothing stands in the way of a request when no other holder of the page conflicts with it. -/
theorem blockers_eq_nil_iff (r : LockRequest) :
    t.blockers r = [] ↔
      ∀ txn mode, txn ≠ r.txn → t.mode? txn r.page = some mode → conflict r.mode mode = false := by
  rw [blockers, List.filterMap_eq_nil_iff]
  constructor
  · intro clear txn mode differs held
    have passed := clear ((r.page, txn), mode) ((t.grants.get?_eq_some_iff _ _).mp held)
    simpa [differs] using passed
  · rintro clear ⟨⟨locked, txn⟩, mode⟩ inEntries
    have held := (t.grants.get?_eq_some_iff _ _).mpr inEntries
    rw [if_neg]
    rintro ⟨same, differs, conflicts⟩
    change locked = r.page at same
    subst same
    have clear := clear txn mode differs held
    exact absurd conflicts (by rw [clear]; exact Bool.false_ne_true)

end Modes

/-- Whoever stands in nobody's way reads a page that only he can have changed. -/
theorem own_of_blockers_eq_nil {t : LockTable} {r : LockRequest} (clear : t.blockers r = [])
    {other : TxnId} (exclusive : t.mode? other r.page = some .exclusive) : other = r.txn := by
  by_contra differs
  have passed := (t.blockers_eq_nil_iff r).mp clear other .exclusive differs exclusive
  cases mode : r.mode <;> simp [conflict, mode] at passed

/-! ### Compatible locks -/

/-- A page that is held exclusively has no other holder. -/
def Compatible (t : LockTable) : Prop :=
  ∀ page txn other mode, t.mode? txn page = some .exclusive → t.mode? other page = some mode → other = txn

theorem compatible_empty : empty.Compatible := fun _ _ _ _ held _ => by
  simp [mode?, empty] at held

theorem Compatible.compatible_grant {t : LockTable} (compatible : t.Compatible) (r : LockRequest)
    (clear : t.blockers r = []) : (t.grant r).Compatible := by
  rw [blockers_eq_nil_iff] at clear
  intro page txn other mode exclusive held
  by_contra differs
  rw [mode?_grant] at exclusive held
  split at exclusive
  · rename_i granted
    obtain ⟨rfl, rfl⟩ := granted
    rw [if_neg fun same => differs same.2] at held
    split at exclusive
    · rename_i before
      exact differs (compatible _ _ _ _ before held)
    · have wanted : r.mode = .exclusive := Option.some.inj exclusive
      have passed := clear other mode differs held
      rw [wanted] at passed
      simp [conflict] at passed
  · split at held
    · rename_i granted
      obtain ⟨rfl, rfl⟩ := granted
      have passed := clear txn .exclusive (Ne.symm differs) exclusive
      cases wanted : r.mode <;> simp [conflict, wanted] at passed
    · exact differs (compatible _ _ _ _ exclusive held)

theorem Compatible.of_mode?_le {t t' : LockTable} (compatible : t.Compatible)
    (fewer : ∀ txn page mode, t'.mode? txn page = some mode → t.mode? txn page = some mode) :
    t'.Compatible :=
  fun page txn other mode exclusive held =>
    compatible page txn other mode (fewer _ _ _ exclusive) (fewer _ _ _ held)

theorem Compatible.compatible_release {t : LockTable} (compatible : t.Compatible) (txn : TxnId) (page : PageId) :
    (t.release txn page).Compatible := by
  apply compatible.of_mode?_le
  intro other locked mode held
  rw [mode?_release] at held
  split at held
  · exact absurd held (by simp)
  · exact held

theorem Compatible.compatible_releaseAll {t : LockTable} (compatible : t.Compatible) (txn : TxnId) :
    (t.releaseAll txn).Compatible := by
  apply compatible.of_mode?_le
  intro other locked mode held
  rw [mode?_releaseAll] at held
  split at held
  · exact absurd held (by simp)
  · exact held

/-! ### What one transaction adds -/

/-- Only locks of the transaction have changed, and none that it had was lost or weakened. -/
structure Extends (txn : TxnId) (t t' : LockTable) : Prop where
  others : ∀ other page, other ≠ txn → t'.mode? other page = t.mode? other page
  kept : ∀ page, t.mode? txn page ≠ none → t'.mode? txn page ≠ none
  exclusive : ∀ page, t.mode? txn page = some .exclusive → t'.mode? txn page = some .exclusive
  compatible : t.Compatible → t'.Compatible

namespace Extends

variable {txn : TxnId} {t t' t'' : LockTable}

theorem refl : Extends txn t t :=
  ⟨fun _ _ _ => rfl, fun _ held => held, fun _ held => held, fun compatible => compatible⟩

theorem trans (first : Extends txn t t') (second : Extends txn t' t'') : Extends txn t t'' where
  others other page differs := (second.others other page differs).trans (first.others other page differs)
  kept page held := second.kept page (first.kept page held)
  exclusive page held := second.exclusive page (first.exclusive page held)
  compatible held := second.compatible (first.compatible held)

theorem extends_giveUp : Extends txn t (t.giveUp txn) :=
  ⟨fun _ _ _ => rfl, fun _ held => held, fun _ held => held, fun compatible => compatible⟩

theorem extends_grant (page : PageId) (mode : LockMode) (clear : t.blockers ⟨txn, page, mode⟩ = []) :
    Extends txn t (t.grant ⟨txn, page, mode⟩) where
  others other locked differs := mode?_grant_of_ne t other locked ⟨txn, page, mode⟩ differs
  kept locked held := by
    rw [mode?_grant]
    split
    · exact Option.some_ne_none _
    · exact held
  exclusive locked held := by
    rw [mode?_grant]
    split
    · rename_i same
      obtain ⟨rfl, -⟩ := same
      rw [if_pos held]
    · exact held
  compatible compatible := compatible.compatible_grant _ clear

theorem extends_release (page : PageId) (free : t.mode? txn page = none) (more : Extends txn t t') :
    Extends txn t (t'.release txn page) where
  others other locked differs := by
    rw [mode?_release, if_neg fun same => differs same.2, more.others other locked differs]
  kept locked held := by
    rw [mode?_release, if_neg]
    · exact more.kept locked held
    · rintro ⟨rfl, -⟩
      exact held free
  exclusive locked held := by
    rw [mode?_release, if_neg]
    · exact more.exclusive locked held
    · rintro ⟨rfl, -⟩
      rw [free] at held
      exact absurd held (by simp)
  compatible compatible := (more.compatible compatible).compatible_release txn page

end Extends

end RowStore.LockTable
