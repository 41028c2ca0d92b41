import RowStore.Recency
/-!
# The page given up

It is one of the tracked pages, and one of those that may be given up.
-/

namespace RowStore.Recency

theorem first_mem (depth : Nat) (entries : List (PageId × List Nat)) (chosen : PageId × List Nat)
    (found : first depth entries = some chosen) : chosen ∈ entries := by
  induction entries with
  | nil => exact absurd found (by simp [first])
  | cons entry rest ih =>
    rw [first] at found
    cases later : first depth rest with
    | none =>
      rw [later] at found
      cases found
      exact List.mem_cons_self
    | some best =>
      simp only [later] at found
      split at found
      · cases found
        exact List.mem_cons_of_mem _ (ih later)
      · cases found
        exact List.mem_cons_self

theorem eligible_of_evict (r r' : Recency) (eligible : PageId → Bool) (page : PageId)
    (chosen : r.evict eligible = some (page, r')) : eligible page = true := by
  obtain ⟨_, victim, same⟩ := Option.map_eq_some_iff.mp chosen
  cases same
  obtain ⟨entry, first, same⟩ := Option.map_eq_some_iff.mp victim
  have passed := (List.mem_filter.mp (first_mem _ _ _ first)).2
  rw [← same]
  exact passed

theorem first_eq_none_iff (depth : Nat) (entries : List (PageId × List Nat)) :
    first depth entries = none ↔ entries = [] := by
  cases entries with
  | nil => simp [first]
  | cons entry rest =>
    rw [first]
    cases first depth rest with
    | none => simp
    | some best =>
      simp only [reduceCtorEq, iff_false]
      split <;> simp

theorem evict_eq_none_iff (r : Recency) (eligible : PageId → Bool) :
    r.evict eligible = none ↔ ∀ page, (r.uses.get? page).isSome → eligible page = false := by
  rw [evict, Option.map_eq_none_iff, victim?, Option.map_eq_none_iff, first_eq_none_iff,
    List.filter_eq_nil_iff]
  constructor
  · intro none page tracked
    obtain ⟨ticks, found⟩ := Option.isSome_iff_exists.mp tracked
    have ineligible := none (page, ticks) ((FinMap.get?_eq_some_iff _ _ _).mp found)
    exact Bool.eq_false_iff.mpr ineligible
  · intro none entry among
    have found := (FinMap.get?_eq_some_iff r.uses entry.1 entry.2).mpr among
    rw [none entry.1 (Option.isSome_iff_exists.mpr ⟨entry.2, found⟩)]
    exact Bool.false_ne_true

theorem eq_forget_of_evict {r r' : Recency} {eligible : PageId → Bool} {page : PageId}
    (chosen : r.evict eligible = some (page, r')) : r' = r.forget page := by
  obtain ⟨_, -, same⟩ := Option.map_eq_some_iff.mp chosen
  cases same
  rfl

end RowStore.Recency
