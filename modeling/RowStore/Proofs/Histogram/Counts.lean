import Mathlib
import RowStore.Histogram
/-!
# What the buckets count

The buckets lie side by side from the lower bound on, and the last one reaches the upper bound or ends past it.
A value within the bounds is between the ends of its bucket, and of two values the greater is in no earlier
bucket. However many values are added, each bucket counts those that belong to it, and so the buckets before
one, or behind one, count the values before, or behind, it.
-/

namespace RowStore.Histogram

/-- The buckets cover what is between the bounds. -/
structure Spread (h : Histogram) : Prop where
  ordered : h.low ≤ h.high
  width : 0 < h.width
  covers : h.high < h.low + h.counts.size * h.width

def ofValues (buckets : Nat) (bound other : Int32) (values : List Int32) : Histogram :=
  values.foldl add (new buckets bound other)

variable {h : Histogram} {x v : Int}

/-! ### Where the buckets are -/

theorem spread_new (buckets : Nat) (bound other : Int32) : (new buckets bound other).Spread where
  ordered := Int.le_trans (Int.min_le_left ..) (Int.le_max_left ..)
  width := Int.lt_of_lt_of_le Int.one_pos (Int.le_max_left ..)
  covers := by
    have size : (new buckets bound other).counts.size = max buckets 1 := Array.size_replicate
    rw [size]
    simp only [new]
    -- the width is the range divided by the number of buckets and rounded up
    generalize low_eq : min bound.toInt other.toInt = low
    generalize high_eq : max bound.toInt other.toInt = high
    generalize count_eq : max buckets 1 = count
    have some : (0 : Int) < count := by omega
    have up := Int.lt_ediv_add_one_mul_self (high - low + 1 + count - 1) some
    have wide := Int.mul_le_mul_of_nonneg_left
      (Int.le_max_right 1 ((high - low + 1 + count - 1) / count)) (Int.le_of_lt some)
    rw [Int.add_mul, Int.one_mul, Int.mul_comm] at up
    omega

theorem Spread.bucketOf_lt (spread : h.Spread) (v : Int) : h.bucketOf v < h.counts.size := by
  have some : h.counts.size ≠ 0 := by
    intro none
    have covers := spread.covers
    have ordered := spread.ordered
    rw [none] at covers
    omega
  rw [bucketOf]
  omega

theorem Spread.bucketOf_eq (spread : h.Spread) (least : h.low ≤ v) (greatest : v ≤ h.high) :
    (h.bucketOf v : Int) = (v - h.low) / h.width := by
  have clamped : max h.low (min v h.high) = v := by omega
  have start : 0 ≤ (v - h.low) / h.width := Int.ediv_nonneg (by omega) (Int.le_of_lt spread.width)
  have inside : (v - h.low) / h.width < h.counts.size :=
    Int.ediv_lt_of_lt_mul spread.width (by have := spread.covers; omega)
  rw [bucketOf, clamped]
  omega

/-- The bucket of a value within the bounds is the one between whose ends it is. -/
theorem Spread.bucketOf_eq_iff (spread : h.Spread) (least : h.low ≤ v) (greatest : v ≤ h.high) (i : Nat) :
    h.bucketOf v = i ↔ h.low + i * h.width ≤ v ∧ v ≤ h.low + (i + 1) * h.width - 1 := by
  rw [← Int.natCast_inj, spread.bucketOf_eq least greatest, Int.ediv_eq_iff_of_pos spread.width, Int.add_mul,
    Int.one_mul]
  omega

theorem Spread.first_le (spread : h.Spread) (least : h.low ≤ v) (greatest : v ≤ h.high) :
    h.low + h.bucketOf v * h.width ≤ v := ((spread.bucketOf_eq_iff least greatest _).mp rfl).1

theorem Spread.le_last (spread : h.Spread) (least : h.low ≤ v) (greatest : v ≤ h.high) :
    v ≤ h.low + (h.bucketOf v + 1) * h.width - 1 := ((spread.bucketOf_eq_iff least greatest _).mp rfl).2

/-- A greater value is in no earlier bucket, as far as the bounds let it be greater. -/
theorem Spread.bucketOf_mono (spread : h.Spread) (le : max h.low (min x h.high) ≤ max h.low (min v h.high)) :
    h.bucketOf x ≤ h.bucketOf v := by
  have onward : (max h.low (min x h.high) - h.low) / h.width ≤ (max h.low (min v h.high) - h.low) / h.width :=
    Int.ediv_le_ediv spread.width (by omega)
  rw [bucketOf, bucketOf]
  omega

theorem Spread.lt_of_bucketOf_lt (spread : h.Spread) (earlier : h.bucketOf x < h.bucketOf v) :
    max h.low (min x h.high) < max h.low (min v h.high) := by
  by_contra le
  exact Nat.not_lt.mpr (spread.bucketOf_mono (Int.not_lt.mp le)) earlier

/-! ### Adding values -/

@[simp] theorem size_counts_add (h : Histogram) (v : Int32) : (h.add v).counts.size = h.counts.size :=
  Array.size_modify

theorem bucketOf_add (h : Histogram) (v : Int32) : (h.add v).bucketOf = h.bucketOf := by
  funext x
  rw [bucketOf, bucketOf, size_counts_add]
  rfl

theorem Spread.spread_add (spread : h.Spread) (v : Int32) : (h.add v).Spread where
  ordered := spread.ordered
  width := spread.width
  covers := by
    rw [size_counts_add]
    exact spread.covers

def members (h : Histogram) (values : List Int32) (bucket : Nat) : Nat :=
  values.countP fun x => decide (h.bucketOf x.toInt = bucket)

/-- Every bucket counts the values that belong to it. -/
structure Counts (h : Histogram) (values : List Int32) : Prop where
  spread : h.Spread
  count : ∀ i, h.counts.getD i 0 = h.members values i

theorem counts_new (buckets : Nat) (bound other : Int32) : (new buckets bound other).Counts [] where
  spread := spread_new ..
  count i := by
    rw [members, List.countP_nil, new, Array.getD_eq_getD_getElem?, Array.getElem?_replicate]
    split <;> rfl

theorem Counts.counts_add {values : List Int32} (counts : h.Counts values) (v : Int32) :
    (h.add v).Counts (values ++ [v]) where
  spread := counts.spread.spread_add v
  count i := by
    have before := counts.count i
    have inside := counts.spread.bucketOf_lt v.toInt
    rw [members] at before ⊢
    rw [bucketOf_add, List.countP_append, ← before, List.countP_singleton, Histogram.add,
      Array.getD_eq_getD_getElem?, Array.getD_eq_getD_getElem?, Array.getElem?_modify]
    by_cases own : h.bucketOf v.toInt = i
    · subst own
      simp [inside]
    · simp [own]

theorem counts_ofValues (buckets : Nat) (bound other : Int32) (values : List Int32) :
    (ofValues buckets bound other values).Counts values := by
  induction values using List.reverseRecOn with
  | nil => exact counts_new ..
  | append_singleton rest v ih =>
    rw [ofValues, List.foldl_append]
    exact ih.counts_add v

/-- Adding values changes what is counted and nothing else. -/
theorem ofValues_eq (buckets : Nat) (bound other : Int32) (values : List Int32) :
    ofValues buckets bound other values =
      { new buckets bound other with counts := (ofValues buckets bound other values).counts } := by
  induction values using List.reverseRecOn with
  | nil => rfl
  | append_singleton rest v ih =>
    rw [ofValues, List.foldl_append, ← ofValues, ih]
    rfl

theorem size_counts_ofValues (buckets : Nat) (bound other : Int32) (values : List Int32) :
    (ofValues buckets bound other values).counts.size = max buckets 1 := by
  induction values using List.reverseRecOn with
  | nil => exact Array.size_replicate
  | append_singleton rest v ih =>
    rw [ofValues, List.foldl_append]
    exact (size_counts_add _ v).trans ih

/-! ### Sums of counts -/

theorem sumOf_eq_sum (counts : List Nat) : sumOf counts = counts.sum := rfl

/-- To count by kind is to count. -/
theorem sum_countP_range {α : Type} (values : List α) (kind : α → Nat) (bound : Nat) :
    ((List.range bound).map fun i => values.countP fun x => decide (kind x = i)).sum =
      values.countP fun x => decide (kind x < bound) := by
  induction bound with
  | zero => simp
  | succ bound ih =>
    rw [List.range_succ, List.map_append, List.sum_append, ih]
    clear ih
    induction values with
    | nil => rfl
    | cons x rest ih =>
      simp only [List.map_singleton, List.sum_singleton, List.countP_cons, decide_eq_true_eq] at ih ⊢
      rw [← ih]
      split <;> split <;> split <;> omega

namespace Counts

variable {values : List Int32} (counts : h.Counts values)

include counts

theorem toList_counts : h.counts.toList = (List.range h.counts.size).map (h.members values) := by
  apply List.ext_getElem?
  intro i
  have here := counts.count i
  rw [Array.getD_eq_getD_getElem?] at here
  rw [Array.getElem?_toList, List.getElem?_map]
  by_cases inside : i < h.counts.size
  · rw [Array.getElem?_eq_getElem inside, Option.getD_some] at here
    rw [Array.getElem?_eq_getElem inside, List.getElem?_range inside, here, Option.map_some]
  · rw [Array.getElem?_eq_none (Nat.not_lt.mp inside), List.getElem?_eq_none (by simpa using inside), Option.map_none]

theorem sumOf_take (bucket : Nat) (inside : bucket ≤ h.counts.size) :
    sumOf (h.counts.toList.take bucket) = values.countP fun x => decide (h.bucketOf x.toInt < bucket) := by
  rw [sumOf_eq_sum, counts.toList_counts, ← List.map_take, List.take_range, Nat.min_eq_left inside]
  exact sum_countP_range values (fun x => h.bucketOf x.toInt) bucket

theorem total_eq : h.total = values.length := by
  have all := counts.sumOf_take h.counts.size (Nat.le_refl _)
  rw [List.take_of_length_le (Nat.le_of_eq Array.length_toList)] at all
  rw [total, all, List.countP_eq_length]
  intro x _
  exact decide_eq_true (counts.spread.bucketOf_lt x.toInt)

theorem sumOf_drop (bucket : Nat) (inside : bucket < h.counts.size) :
    sumOf (h.counts.toList.drop (bucket + 1)) = values.countP fun x => decide (bucket < h.bucketOf x.toInt) := by
  have both := List.sum_take_add_sum_drop h.counts.toList (bucket + 1)
  have before := counts.sumOf_take (bucket + 1) inside
  have all := counts.total_eq
  have split := List.length_eq_countP_add_countP (fun x : Int32 => decide (h.bucketOf x.toInt < bucket + 1))
    (l := values)
  have behind : values.countP (fun x => decide ¬decide (h.bucketOf x.toInt < bucket + 1) = true) =
      values.countP fun x => decide (bucket < h.bucketOf x.toInt) := by
    apply List.countP_congr
    intro x _
    simp only [decide_eq_true_eq]
    omega
  rw [sumOf_eq_sum] at before ⊢
  rw [total, sumOf_eq_sum] at all
  omega

end Counts

end RowStore.Histogram
