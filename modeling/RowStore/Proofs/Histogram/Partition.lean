import Mathlib
import RowStore.Proofs.Histogram.ErrorBound
/-!
# Whether the ranges make up the column

What is less than a value, what is equal to it and what is greater make up the column. So do the estimates as
long as they count the bucket of the value in three parts: what lies before the value, the value itself and what
lies behind it. At the upper bound the third part is not counted, since nothing there is greater, but the first
two are measured by the width of the bucket, even where the bucket ends past the bound. What is past it then is
missing.
-/

namespace RowStore.Histogram

/-- What is counted in no range: at the upper bound the part of its bucket that is past it. -/
def missed (h : Histogram) (v : Int) : Rat :=
  if v = h.high then h.counts.getD (h.bucketOf v) 0 * h.partBehind v / h.total else 0

theorem before_add_members_add_behind (h : Histogram) (values : List Int32) (v : Int) :
    h.before values v + h.members values (h.bucketOf v) + h.behind values v = values.length := by
  induction values with
  | nil => rfl
  | cons x rest ih =>
    simp only [before, members, behind, List.countP_cons, List.length_cons, decide_eq_true_eq] at ih ⊢
    rcases Nat.lt_trichotomy (h.bucketOf x.toInt) (h.bucketOf v) with earlier | same | later
    · rw [if_pos earlier, if_neg (by omega), if_neg (by omega)]
      omega
    · rw [if_neg (by omega), if_pos same, if_neg (by omega)]
      omega
    · rw [if_neg (by omega), if_neg (by omega), if_pos later]
      omega

section Within

variable {h : Histogram} {values : List Int32} (counts : h.Counts values) (some : values ≠ [])

include counts some

theorem Counts.shares_add_up {v : Int} (least : h.low ≤ v) (greatest : v ≤ h.high) :
    h.lessShare Rat v + h.equalShare Rat v + h.greaterShare Rat v = 1 - h.missed v := by
  have many : (values.length : Rat) ≠ 0 := Nat.cast_ne_zero.mpr (by simpa using some)
  have whole : (h.before values v + h.members values (h.bucketOf v) + h.behind values v : Rat) = values.length := by
    exact_mod_cast before_add_members_add_behind h values v
  have parts := counts.spread.parts_eq v
  have missed_eq : h.missed v =
      h.members values (h.bucketOf v) * (h.partBehind v - h.partCounted v) / values.length := by
    rw [missed, partCounted, counts.count, counts.total_eq]
    by_cases bound : v = h.high
    · rw [if_pos bound, if_pos (by omega), sub_zero]
    · rw [if_neg bound, if_neg (by omega), sub_self, mul_zero, zero_div]
  rw [counts.lessShare_eq least greatest, counts.equalShare_eq least greatest, counts.greaterShare_eq least, missed_eq,
    ← add_div, ← add_div, div_eq_iff many, sub_mul, div_mul_cancel₀ _ many, Nat.cast_zero]
  linear_combination (h.members values (h.bucketOf v) : Rat) * parts + whole

/-- Within the bounds no share is more than all, so none is cut off. -/
theorem Counts.estimates_eq {v : Int32} (least : h.low ≤ v.toInt) (greatest : v.toInt ≤ h.high) :
    h.estimate Rat .lt v = h.lessShare Rat v.toInt ∧ h.estimate Rat .eq v = h.equalShare Rat v.toInt ∧
    h.estimate Rat .gt v = h.greaterShare Rat v.toInt ∧
    h.estimate Rat .le v = h.lessShare Rat v.toInt + h.equalShare Rat v.toInt := by
  have many : 0 < values.length := List.length_pos_iff.mpr some
  have nonempty : h.total ≠ 0 := by
    rw [counts.total_eq]
    exact Nat.ne_of_gt many
  have split := before_add_members_add_behind h values v.toInt
  obtain ⟨less, lessEq⟩ := counts.lessShare_spans least greatest
  have equal := counts.equalShare_spans least greatest
  have greater := (counts.greaterShare_spans least greatest).1
  unfold estimate
  simp only [if_neg nonempty]
  exact ⟨less.clamp_eq (by omega) many, equal.clamp_eq (by omega) many, greater.clamp_eq (by omega) many,
    lessEq.clamp_eq (by omega) many⟩

end Within

/-- Out of the bounds all is counted on one side, and nothing is equal. -/
theorem estimates_of_shares {h : Histogram} {v : Int32} {less greater : Rat} (nonempty : h.total ≠ 0)
    (lessShare_eq : h.lessShare Rat v.toInt = less) (less_mem : 0 ≤ less ∧ less ≤ 1)
    (equalShare_eq : h.equalShare Rat v.toInt = 0)
    (greaterShare_eq : h.greaterShare Rat v.toInt = greater) (greater_mem : 0 ≤ greater ∧ greater ≤ 1) :
    h.estimate Rat .lt v = less ∧ h.estimate Rat .eq v = 0 ∧ h.estimate Rat .gt v = greater ∧
    h.estimate Rat .le v = less := by
  unfold estimate
  simp only [if_neg nonempty, lessShare_eq, equalShare_eq, greaterShare_eq, add_zero]
  exact ⟨clamp_eq_self less_mem.1 less_mem.2, clamp_eq_self (le_refl _) zero_le_one,
    clamp_eq_self greater_mem.1 greater_mem.2, clamp_eq_self less_mem.1 less_mem.2⟩

/-! ### Any value -/

theorem Counts.ranges_add_up {h : Histogram} {values : List Int32} (counts : h.Counts values) (some : values ≠ [])
    (v : Int32) :
    h.estimate Rat .lt v + h.estimate Rat .eq v + h.estimate Rat .gt v = 1 - h.missed v.toInt ∧
    h.estimate Rat .le v + h.estimate Rat .gt v = 1 - h.missed v.toInt := by
  have ordered := counts.spread.ordered
  have nonempty : h.total ≠ 0 := by
    rw [counts.total_eq]
    exact Nat.ne_of_gt (List.length_pos_iff.mpr some)
  have unit : (0 : Rat) ≤ 1 ∧ (1 : Rat) ≤ 1 := ⟨zero_le_one, le_refl 1⟩
  have none : (0 : Rat) ≤ 0 ∧ (0 : Rat) ≤ 1 := ⟨le_refl 0, zero_le_one⟩
  rcases lt_or_ge v.toInt h.low with below | least
  · have missed : h.missed v.toInt = 0 := if_neg (by omega)
    obtain ⟨less, equal, greater⟩ := shares_of_below below
    obtain ⟨lt, eq, gt, le⟩ := estimates_of_shares nonempty less none equal greater unit
    rw [lt, eq, gt, le, missed]
    constructor <;> norm_num
  · rcases lt_or_ge h.high v.toInt with above | greatest
    · have missed : h.missed v.toInt = 0 := if_neg (by omega)
      obtain ⟨less, equal, greater⟩ := shares_of_above ordered above
      obtain ⟨lt, eq, gt, le⟩ := estimates_of_shares nonempty less unit equal greater none
      rw [lt, eq, gt, le, missed]
      constructor <;> norm_num
    · obtain ⟨lt, eq, gt, le⟩ := counts.estimates_eq some least greatest
      rw [lt, eq, gt, le]
      exact ⟨counts.shares_add_up some least greatest, counts.shares_add_up some least greatest⟩

theorem Counts.missed_eq_zero_iff {h : Histogram} {values : List Int32} (counts : h.Counts values)
    (some : values ≠ []) (v : Int) :
    h.missed v = 0 ↔ v ≠ h.high ∨ h.counts.getD (h.bucketOf v) 0 = 0 ∨
      h.low + (h.bucketOf v + 1) * h.width - 1 = h.high := by
  have width : (h.width : Rat) ≠ 0 := Int.cast_ne_zero.mpr (Int.ne_of_gt counts.spread.width)
  have total : (h.total : Rat) ≠ 0 := by
    rw [counts.total_eq]
    exact Nat.cast_ne_zero.mpr (by simpa using some)
  rw [missed]
  split
  · rename_i bound
    have past : h.partBehind v = 0 ↔ h.low + (h.bucketOf v + 1) * h.width - 1 = h.high := by
      rw [partBehind, div_eq_zero_iff, or_iff_left width, Int.cast_eq_zero, Int.sub_eq_zero, bound]
    rw [div_eq_zero_iff, or_iff_left total, mul_eq_zero, Nat.cast_eq_zero, past]
    simp only [bound, ne_eq, not_true_eq_false, false_or]
  · rename_i inside
    simp only [ne_eq, inside, not_false_eq_true, true_or]

/-- For every number of buckets, bounds in either order, values and comparand the three estimates add up to all, and
so do the two, except for what is missed, and something is missed just where the comparand is the upper bound
and its bucket counts something and ends past it. -/
theorem ranges_miss_what_is_past_the_bound (buckets : Nat) (bound other : Int32) (values : List Int32)
    (some : values ≠ []) (h : Histogram) (made : h = ofValues buckets bound other values) (v : Int32) :
    h.estimate Rat .lt v + h.estimate Rat .eq v + h.estimate Rat .gt v = 1 - h.missed v.toInt ∧
    h.estimate Rat .le v + h.estimate Rat .gt v = 1 - h.missed v.toInt ∧
    (h.missed v.toInt = 0 ↔ v.toInt ≠ max bound.toInt other.toInt ∨ h.counts.getD (h.bucketOf v.toInt) 0 = 0 ∨
      h.low + (h.bucketOf v.toInt + 1) * h.width - 1 = h.high) := by
  have counts : h.Counts values := made ▸ counts_ofValues ..
  have greatest : h.high = max bound.toInt other.toInt := by
    rw [made, ofValues_eq]
    rfl
  obtain ⟨three, two⟩ := counts.ranges_add_up some v
  refine ⟨three, two, ?_⟩
  rw [← greatest]
  exact counts.missed_eq_zero_iff some v.toInt

/-- The last of four buckets has room for two more numbers than there are up to nine, so of the one that it counts two
thirds are missed. At five nothing is. -/
theorem nine_is_counted_in_part :
    let h := ofValues 4 0 9 [0, 1, 1, 5, 9]
    h.estimate Rat .lt 9 + h.estimate Rat .eq 9 + h.estimate Rat .gt 9 = 1 - 2 / 15 ∧
    h.estimate Rat .lt 5 + h.estimate Rat .eq 5 + h.estimate Rat .gt 5 = 1 ∧
    h.estimate Rat .le 5 + h.estimate Rat .gt 5 = 1 := by
  intro h
  obtain ⟨three, -, -⟩ := ranges_miss_what_is_past_the_bound 4 0 9 [0, 1, 1, 5, 9] (by decide) h rfl 9
  obtain ⟨three', two', nothing⟩ := ranges_miss_what_is_past_the_bound 4 0 9 [0, 1, 1, 5, 9] (by decide) h rfl 5
  have missed : h.missed (9 : Int32).toInt = 2 / 15 := by decide +kernel
  rw [nothing.mpr (.inl (by decide)), sub_zero] at three' two'
  rw [missed] at three
  exact ⟨three, three', two'⟩

/-- The upper bound two is the first of the two numbers that the last of two buckets has room for. A value of two is
counted by half, and nothing else is counted. -/
theorem two_is_counted_by_half :
    let h := ofValues 2 0 2 [2]
    h.estimate Rat .lt 2 + h.estimate Rat .eq 2 + h.estimate Rat .gt 2 ≠ 1 ∧
    h.estimate Rat .le 2 + h.estimate Rat .gt 2 ≠ 1 ∧
    h.estimate Rat .lt 2 = 0 ∧ h.estimate Rat .eq 2 = 1 / 2 ∧ h.estimate Rat .gt 2 = 0 ∧
    h.estimate Rat .le 2 = 1 / 2 := by
  decide +kernel

end RowStore.Histogram
