import Mathlib
import RowStore.Proofs.Histogram.Counts
/-!
# How far an estimate can be off

Computed exactly, an estimate counts the buckets that lie on one side of a value in full and the bucket of the
value in part. The values themselves do the same: those in other buckets are on one side or the other, and of
those in the bucket of the value some satisfy the comparison. So the two shares differ by no more than that
bucket's, and where the value is out of bounds, and there is no such bucket, they are equal.
-/

namespace RowStore

/-- Integers satisfy a comparison by their size. -/
theorem Comparison.holds_int (comparison : Comparison) (x v : Int32) :
    comparison.holds (.int x) (.int v) =
      match comparison with
      | .eq | .like => decide (x.toInt = v.toInt)
      | .ne => decide (x.toInt ≠ v.toInt)
      | .gt => decide (v.toInt < x.toInt)
      | .lt => decide (x.toInt < v.toInt)
      | .le => decide (x.toInt ≤ v.toInt)
      | .ge => decide (v.toInt ≤ x.toInt) := by
  have same : x = v ↔ x.toInt = v.toInt := Int32.toInt_inj.symm
  rw [Bool.eq_iff_iff]
  cases comparison <;>
    simp [holds, matchesLike, Value.sameKind, Value.compare, same, Ordering.isGT_iff_eq_gt,
      Ordering.isLT_iff_eq_lt, Int.compare_eq_gt, Int.compare_eq_lt, Std.isLE_compare, Std.isGE_compare]

namespace Histogram

/-- The share of the values for which the comparison with `v` holds. -/
def shareOf (values : List Int32) (comparison : Comparison) (v : Int32) : Rat :=
  (values.countP fun x => comparison.holds (.int x) (.int v)) / values.length

/-- The share, of so many, is that of those which are sure to count and of part of those which may. -/
def Spans (many sure unsure : Nat) (share : Rat) : Prop := (sure : Rat) / many ≤ share ∧ share ≤ (sure + unsure) / many

section Spans

variable {many sure unsure : Nat} {share other : Rat}

theorem Spans.abs_sub_le (first : Spans many sure unsure share) (second : Spans many sure unsure other) :
    |share - other| ≤ unsure / many := by
  obtain ⟨least, greatest⟩ := first
  obtain ⟨least', greatest'⟩ := second
  rw [add_div] at greatest greatest'
  rw [abs_le]
  constructor <;> linarith

theorem spans_count {count : Nat} (least : sure ≤ count) (greatest : count ≤ sure + unsure) :
    Spans many sure unsure (count / many) := by
  have positive : (0 : Rat) ≤ many := Nat.cast_nonneg many
  refine ⟨div_le_div_of_nonneg_right (Nat.cast_le.mpr least) positive, div_le_div_of_nonneg_right ?_ positive⟩
  exact_mod_cast greatest

theorem spans_part {part : Rat} (least : 0 ≤ part) (greatest : part ≤ 1) :
    Spans many sure unsure ((unsure * part + sure) / many) := by
  have positive : (0 : Rat) ≤ many := Nat.cast_nonneg many
  have count : (0 : Rat) ≤ unsure := Nat.cast_nonneg unsure
  have low := mul_nonneg count least
  have high := mul_le_of_le_one_right count greatest
  constructor
  · exact div_le_div_of_nonneg_right (by linarith) positive
  · exact div_le_div_of_nonneg_right (by linarith) positive

theorem clamp_eq_self {x : Rat} (least : 0 ≤ x) (greatest : x ≤ 1) : clamp x = x := by
  have low : Measure.below x (Measure.ofInt 0) = false := decide_eq_false (not_lt.mpr least)
  have high : Measure.below (Measure.ofInt 1) x = false := decide_eq_false (not_lt.mpr greatest)
  rw [clamp, low, high]
  rfl

theorem Spans.clamp_eq (spans : Spans many sure unsure share) (bounded : sure + unsure ≤ many) (some : 0 < many) :
    clamp share = share := by
  have positive : (0 : Rat) < many := Nat.cast_pos.mpr some
  have least : 0 ≤ share := le_trans (by positivity) spans.1
  have greatest : share ≤ 1 := by
    refine le_trans spans.2 ((div_le_one positive).mpr ?_)
    exact_mod_cast bounded
  exact clamp_eq_self least greatest

/-- The share of the others. -/
theorem Spans.spans_compl (spans : Spans many sure unsure share) (bounded : sure + unsure ≤ many) (some : 0 < many) :
    Spans many (many - (sure + unsure)) unsure (1 - share) := by
  have positive : (0 : Rat) < many := Nat.cast_pos.mpr some
  have whole : (many : Rat) / many = 1 := div_self positive.ne'
  obtain ⟨least, greatest⟩ := spans
  rw [Spans, Nat.cast_sub bounded, Nat.cast_add]
  constructor
  · rw [sub_div, whole]
    linarith
  · rw [← sub_sub, sub_add_cancel, sub_div, whole]
    linarith

end Spans

/-! ### The parts of a bucket -/

section Part

variable {h : Histogram} {v : Int}

def partBefore (h : Histogram) (v : Int) : Rat := (v - (h.low + h.bucketOf v * h.width) : Int) / h.width

def partBehind (h : Histogram) (v : Int) : Rat := (h.low + (h.bucketOf v + 1) * h.width - 1 - v : Int) / h.width

/-- The part of its bucket that is counted as greater than a value: none of it at the upper bound. -/
def partCounted (h : Histogram) (v : Int) : Rat := if v ≥ h.high then 0 else h.partBehind v

variable (spread : h.Spread)

include spread

theorem Spread.partBefore_nonneg (least : h.low ≤ v) (greatest : v ≤ h.high) : 0 ≤ h.partBefore v := by
  have first := spread.first_le least greatest
  exact div_nonneg (Int.cast_nonneg (by omega)) (Int.cast_nonneg (Int.le_of_lt spread.width))

theorem Spread.partBehind_nonneg (least : h.low ≤ v) (greatest : v ≤ h.high) : 0 ≤ h.partBehind v := by
  have last := spread.le_last least greatest
  exact div_nonneg (Int.cast_nonneg (by omega)) (Int.cast_nonneg (Int.le_of_lt spread.width))

theorem Spread.partBefore_low : h.partBefore h.low = 0 := by
  have first := spread.first_le (Int.le_refl _) spread.ordered
  have start : 0 ≤ (h.bucketOf h.low : Int) * h.width :=
    Int.mul_nonneg (Int.natCast_nonneg _) (Int.le_of_lt spread.width)
  have none : h.low - (h.low + h.bucketOf h.low * h.width) = 0 := by omega
  rw [partBefore, none, Int.cast_zero, zero_div]

theorem Spread.partCounted_nonneg (least : h.low ≤ v) (greatest : v ≤ h.high) : 0 ≤ h.partCounted v := by
  rw [partCounted]
  split
  · exact le_refl _
  · exact spread.partBehind_nonneg least greatest

theorem Spread.partCounted_le (least : h.low ≤ v) (greatest : v ≤ h.high) : h.partCounted v ≤ h.partBehind v := by
  rw [partCounted]
  split
  · exact spread.partBehind_nonneg least greatest
  · exact le_refl _

theorem Spread.part_nonneg : 0 ≤ (1 : Rat) / h.width :=
  div_nonneg zero_le_one (Int.cast_nonneg (Int.le_of_lt spread.width))

/-- A value and what lies before and behind it make up its bucket. -/
theorem Spread.parts_eq (v : Int) : h.partBefore v + 1 / h.width + h.partBehind v = 1 := by
  have width : (h.width : Rat) ≠ 0 := Int.cast_ne_zero.mpr (Int.ne_of_gt spread.width)
  rw [partBefore, partBehind]
  push_cast
  field_simp
  ring

end Part

/-! ### What is counted -/

theorem countP_or_add_countP_and {α : Type} (values : List α) (p q : α → Bool) :
    (values.countP fun x => p x || q x) + (values.countP fun x => p x && q x) = values.countP p + values.countP q := by
  induction values with
  | nil => rfl
  | cons x rest ih =>
    simp only [List.countP_cons]
    cases p x <;> cases q x <;>
      simp only [Bool.or_self, Bool.or_true, Bool.or_false, Bool.and_self, Bool.and_true, Bool.and_false,
        if_true, Bool.false_eq_true, if_false] <;> omega

theorem countP_or_of_apart {α : Type} {values : List α} {p q : α → Bool} (apart : ∀ x, p x → q x = false) :
    (values.countP fun x => p x || q x) = values.countP p + values.countP q := by
  have both : (values.countP fun x => p x && q x) = 0 := by
    rw [List.countP_eq_zero]
    intro x _ holds
    obtain ⟨first, second⟩ := (Bool.and_eq_true ..).mp holds
    exact absurd second (by rw [apart x first]; exact Bool.false_ne_true)
  rw [← countP_or_add_countP_and, both, Nat.add_zero]

theorem countP_le_add {α : Type} {values : List α} {p q r : α → Bool} (either : ∀ x, p x → q x ∨ r x) :
    values.countP p ≤ values.countP q + values.countP r := by
  have more : values.countP p ≤ values.countP fun x => q x || r x :=
    List.countP_mono_left fun x _ holds => (Bool.or_eq_true ..).mpr (either x holds)
  have split := countP_or_add_countP_and values q r
  omega

theorem countP_add_le_length {α : Type} {values : List α} {p q : α → Bool} (apart : ∀ x, p x → q x = false) :
    values.countP p + values.countP q ≤ values.length := by
  rw [← countP_or_of_apart apart]
  exact List.countP_le_length

theorem shareOf_of_all {values : List Int32} {comparison : Comparison} {v : Int32}
    (some : values ≠ []) (all : ∀ x ∈ values, comparison.holds (.int x) (.int v)) :
    shareOf values comparison v = 1 := by
  have positive : (values.length : Rat) ≠ 0 := Nat.cast_ne_zero.mpr (by simpa using some)
  rw [shareOf, List.countP_eq_length.mpr all, div_self positive]

theorem shareOf_of_none {values : List Int32} {comparison : Comparison} {v : Int32}
    (none : ∀ x ∈ values, ¬comparison.holds (.int x) (.int v)) : shareOf values comparison v = 0 := by
  rw [shareOf, List.countP_eq_zero.mpr none, Nat.cast_zero, zero_div]

theorem shareOf_ne {values : List Int32} (some : values ≠ []) (v : Int32) :
    shareOf values .ne v = 1 - shareOf values .eq v := by
  have positive : (values.length : Rat) ≠ 0 := Nat.cast_ne_zero.mpr (by simpa using some)
  have split := List.length_eq_countP_add_countP (fun x : Int32 => decide (x.toInt = v.toInt)) (l := values)
  simp only [decide_eq_true_eq] at split
  simp only [shareOf, Comparison.holds_int]
  rw [eq_sub_iff_add_eq, ← add_div, div_eq_one_iff_eq positive, add_comm]
  exact_mod_cast split.symm

theorem shareOf_of_greater {values : List Int32} {v : Int32} (some : values ≠ [])
    (all : ∀ x ∈ values, v.toInt < x.toInt) :
    shareOf values .eq v = 0 ∧ shareOf values .gt v = 1 ∧ shareOf values .lt v = 0 := by
  refine ⟨shareOf_of_none ?_, shareOf_of_all some ?_, shareOf_of_none ?_⟩ <;>
  · intro x among
    have greater := all x among
    simp only [Comparison.holds_int, decide_eq_true_eq]
    omega

theorem shareOf_of_less {values : List Int32} {v : Int32} (some : values ≠ [])
    (all : ∀ x ∈ values, x.toInt < v.toInt) :
    shareOf values .eq v = 0 ∧ shareOf values .gt v = 0 ∧ shareOf values .lt v = 1 := by
  refine ⟨shareOf_of_none ?_, shareOf_of_none ?_, shareOf_of_all some ?_⟩ <;>
  · intro x among
    have less := all x among
    simp only [Comparison.holds_int, decide_eq_true_eq]
    omega

/-- Where of two comparisons just one holds when a third does, the shares add up. -/
theorem shareOf_add {values : List Int32} {comparison first second : Comparison} {v : Int32}
    (either : ∀ x, comparison.holds (.int x) (.int v) =
      (first.holds (.int x) (.int v) || second.holds (.int x) (.int v)))
    (apart : ∀ x, first.holds (.int x) (.int v) → second.holds (.int x) (.int v) = false) :
    shareOf values comparison v = shareOf values first v + shareOf values second v := by
  rw [shareOf, shareOf, shareOf, ← add_div, ← Nat.cast_add, ← countP_or_of_apart apart]
  simp only [either]

def before (h : Histogram) (values : List Int32) (v : Int) : Nat :=
  values.countP fun x => decide (h.bucketOf x.toInt < h.bucketOf v)

def behind (h : Histogram) (values : List Int32) (v : Int) : Nat :=
  values.countP fun x => decide (h.bucketOf v < h.bucketOf x.toInt)

section Counted

variable {h : Histogram} {values : List Int32} (counts : h.Counts values)

theorem before_add_members_le (h : Histogram) (values : List Int32) (v : Int) :
    h.before values v + h.members values (h.bucketOf v) ≤ values.length := by
  apply countP_add_le_length
  intro x earlier
  have earlier := of_decide_eq_true earlier
  exact decide_eq_false (by omega)

theorem behind_add_members_le (h : Histogram) (values : List Int32) (v : Int) :
    h.behind values v + h.members values (h.bucketOf v) ≤ values.length := by
  apply countP_add_le_length
  intro x later
  have later := of_decide_eq_true later
  exact decide_eq_false (by omega)

include counts

theorem Counts.count_eq (bucket : Nat) : h.count Rat bucket = h.members values bucket := by
  rw [Histogram.count, counts.count]
  exact Int.cast_natCast _

theorem Counts.behind_of_high_le {v : Int} (above : h.high ≤ v) : h.behind values v = 0 := by
  have ordered := counts.spread.ordered
  rw [behind, List.countP_eq_zero]
  intro x _ later
  have further := counts.spread.lt_of_bucketOf_lt (of_decide_eq_true later)
  omega

theorem Counts.totalMeasure_eq : h.totalMeasure Rat = values.length := by
  rw [totalMeasure, counts.total_eq]
  exact Int.cast_natCast _

variable {comparison : Comparison} {v : Int32}

theorem Counts.shareOf_spans_before (less : ∀ x : Int32, x.toInt < v.toInt → comparison.holds (.int x) (.int v))
    (only : ∀ x : Int32, comparison.holds (.int x) (.int v) → x.toInt ≤ v.toInt) :
    Spans values.length (h.before values v.toInt) (h.members values (h.bucketOf v.toInt))
      (shareOf values comparison v) := by
  apply spans_count
  · refine List.countP_mono_left fun x _ earlier => less x ?_
    have sooner := counts.spread.lt_of_bucketOf_lt (of_decide_eq_true earlier)
    omega
  · refine countP_le_add fun x holds => ?_
    have le := only x holds
    have mono := counts.spread.bucketOf_mono (x := x.toInt) (v := v.toInt) (by omega)
    simp only [decide_eq_true_eq]
    omega

theorem Counts.shareOf_spans_behind (greater : ∀ x : Int32, v.toInt < x.toInt → comparison.holds (.int x) (.int v))
    (only : ∀ x : Int32, comparison.holds (.int x) (.int v) → v.toInt ≤ x.toInt) :
    Spans values.length (h.behind values v.toInt) (h.members values (h.bucketOf v.toInt))
      (shareOf values comparison v) := by
  apply spans_count
  · refine List.countP_mono_left fun x _ later => greater x ?_
    have further := counts.spread.lt_of_bucketOf_lt (of_decide_eq_true later)
    omega
  · refine countP_le_add fun x holds => ?_
    have le := only x holds
    have mono := counts.spread.bucketOf_mono (x := v.toInt) (v := x.toInt) (by omega)
    simp only [decide_eq_true_eq]
    omega

omit counts in
theorem shareOf_spans_members (only : ∀ x : Int32, comparison.holds (.int x) (.int v) → x.toInt = v.toInt) :
    Spans values.length 0 (h.members values (h.bucketOf v.toInt)) (shareOf values comparison v) := by
  refine spans_count (Nat.zero_le _) ?_
  rw [Nat.zero_add]
  refine List.countP_mono_left fun x _ holds => ?_
  rw [only x holds, decide_eq_true_eq]

end Counted

/-! ### Estimates within the bounds -/

section Estimates

variable {h : Histogram} {values : List Int32} (counts : h.Counts values) {v : Int} (least : h.low ≤ v)
  (greatest : v ≤ h.high)

include counts least greatest

theorem Counts.equalShare_eq :
    h.equalShare Rat v = (h.members values (h.bucketOf v) * (1 / h.width) + (0 : Nat)) / values.length := by
  rw [equalShare, if_neg (by omega), counts.totalMeasure_eq, counts.count_eq, Nat.cast_zero, add_zero, mul_one_div]
  rfl

omit greatest in
/-- Of the bucket counts what lies behind the value, and nothing at the upper bound. -/
theorem Counts.greaterShare_eq : h.greaterShare Rat v =
    (h.members values (h.bucketOf v) * h.partCounted v + h.behind values v) / values.length := by
  rw [greaterShare, if_neg (by omega), partCounted]
  split
  · rw [counts.behind_of_high_le (by assumption), mul_zero, Nat.cast_zero, add_zero, zero_div]
    rfl
  · simp only [share, counts.totalMeasure_eq, counts.count_eq, counts.sumOf_drop _ (counts.spread.bucketOf_lt v)]
    rfl

/-- Of the bucket counts what lies before the value, and at the lower bound there is nothing before it. -/
theorem Counts.lessShare_eq : h.lessShare Rat v =
    (h.members values (h.bucketOf v) * h.partBefore v + h.before values v) / values.length := by
  rw [lessShare]
  split
  · have bound : v = h.low := by omega
    have first : h.before values v = 0 := by
      rw [before, List.countP_eq_zero]
      intro x _ earlier
      have sooner := counts.spread.lt_of_bucketOf_lt (of_decide_eq_true earlier)
      omega
    rw [first, bound, counts.spread.partBefore_low, mul_zero, Nat.cast_zero, add_zero, zero_div]
    rfl
  · rw [if_neg (by omega)]
    simp only [share, counts.totalMeasure_eq, counts.count_eq,
      counts.sumOf_take _ (Nat.le_of_lt (counts.spread.bucketOf_lt v))]
    rfl

/-- Where part of the bucket is counted, the value itself can be counted too. -/
theorem Counts.spans_with_equal {part share : Rat} {sure : Nat} (nonneg : 0 ≤ part) (room : part + 1 / h.width ≤ 1)
    (shared : share = (h.members values (h.bucketOf v) * part + sure) / values.length) :
    Spans values.length sure (h.members values (h.bucketOf v)) share ∧
    Spans values.length sure (h.members values (h.bucketOf v)) (share + h.equalShare Rat v) := by
  have own := counts.spread.part_nonneg
  have both : share + h.equalShare Rat v =
      (h.members values (h.bucketOf v) * (part + 1 / h.width) + sure) / values.length := by
    rw [shared, counts.equalShare_eq least greatest]
    push_cast
    ring
  rw [both, shared]
  exact ⟨spans_part nonneg (by linarith), spans_part (by linarith) room⟩

theorem Counts.equalShare_spans :
    Spans values.length 0 (h.members values (h.bucketOf v)) (h.equalShare Rat v) := by
  have parts := counts.spread.parts_eq v
  have before := counts.spread.partBefore_nonneg least greatest
  have behind := counts.spread.partBehind_nonneg least greatest
  rw [counts.equalShare_eq least greatest]
  exact spans_part counts.spread.part_nonneg (by linarith)

theorem Counts.greaterShare_spans :
    Spans values.length (h.behind values v) (h.members values (h.bucketOf v)) (h.greaterShare Rat v) ∧
    Spans values.length (h.behind values v) (h.members values (h.bucketOf v))
      (h.greaterShare Rat v + h.equalShare Rat v) := by
  have parts := counts.spread.parts_eq v
  have before := counts.spread.partBefore_nonneg least greatest
  have nonneg := counts.spread.partCounted_nonneg least greatest
  have bounded := counts.spread.partCounted_le least greatest
  exact counts.spans_with_equal least greatest nonneg (by linarith) (counts.greaterShare_eq least)

theorem Counts.lessShare_spans :
    Spans values.length (h.before values v) (h.members values (h.bucketOf v)) (h.lessShare Rat v) ∧
    Spans values.length (h.before values v) (h.members values (h.bucketOf v))
      (h.lessShare Rat v + h.equalShare Rat v) := by
  have parts := counts.spread.parts_eq v
  have before := counts.spread.partBefore_nonneg least greatest
  have behind := counts.spread.partBehind_nonneg least greatest
  exact counts.spans_with_equal least greatest before (by linarith) (counts.lessShare_eq least greatest)

end Estimates

/-- Estimate and share count the same buckets in full, and part of one bucket. -/
theorem Counts.estimate_near {h : Histogram} {values : List Int32} (counts : h.Counts values) (some : values ≠ [])
    {v : Int32} (least : h.low ≤ v.toInt) (greatest : v.toInt ≤ h.high) (comparison : Comparison) :
    |h.estimate Rat comparison v - shareOf values comparison v| ≤
      h.members values (h.bucketOf v.toInt) / values.length := by
  have many : 0 < values.length := List.length_pos_iff.mpr some
  have near : ∀ {sure share}, sure + h.members values (h.bucketOf v.toInt) ≤ values.length →
      Spans values.length sure (h.members values (h.bucketOf v.toInt)) share →
      Spans values.length sure (h.members values (h.bucketOf v.toInt)) (shareOf values comparison v) →
      |clamp share - shareOf values comparison v| ≤ h.members values (h.bucketOf v.toInt) / values.length := by
    intro sure share bounded estimated actual
    rw [estimated.clamp_eq bounded many]
    exact estimated.abs_sub_le actual
  have nonempty : h.total ≠ 0 := by
    rw [counts.total_eq]
    exact Nat.ne_of_gt many
  have equal := counts.equalShare_spans least greatest
  have own : 0 + h.members values (h.bucketOf v.toInt) ≤ values.length := by
    rw [Nat.zero_add]
    exact List.countP_le_length
  obtain ⟨greater, greaterEq⟩ := counts.greaterShare_spans least greatest
  obtain ⟨less, lessEq⟩ := counts.lessShare_spans least greatest
  unfold estimate
  rw [if_neg nonempty]
  cases comparison with
  | eq => exact near own equal (shareOf_spans_members fun x => by simp [Comparison.holds_int])
  | like => exact near own equal (shareOf_spans_members fun x => by simp [Comparison.holds_int])
  | ne =>
    have actual : Spans values.length 0 (h.members values (h.bucketOf v.toInt)) (shareOf values .eq v) :=
      shareOf_spans_members fun x => by simp [Comparison.holds_int]
    refine near (Nat.le_of_eq ?_) (equal.spans_compl own many) ?_
    · rw [Nat.zero_add] at own ⊢
      exact Nat.sub_add_cancel own
    · rw [shareOf_ne some]
      exact actual.spans_compl own many
  | gt =>
    exact near (behind_add_members_le h values v.toInt) greater (counts.shareOf_spans_behind
      (fun x => by simp [Comparison.holds_int]) fun x => by simpa [Comparison.holds_int] using Int.le_of_lt)
  | lt =>
    exact near (before_add_members_le h values v.toInt) less (counts.shareOf_spans_before
      (fun x => by simp [Comparison.holds_int]) fun x => by simpa [Comparison.holds_int] using Int.le_of_lt)
  | ge =>
    exact near (behind_add_members_le h values v.toInt) greaterEq (counts.shareOf_spans_behind
      (fun x => by simpa [Comparison.holds_int] using Int.le_of_lt) fun x => by simp [Comparison.holds_int])
  | le =>
    exact near (before_add_members_le h values v.toInt) lessEq (counts.shareOf_spans_before
      (fun x => by simpa [Comparison.holds_int] using Int.le_of_lt) fun x => by simp [Comparison.holds_int])

/-! ### Estimates out of the bounds -/

theorem shares_of_below {h : Histogram} {v : Int} (below : v < h.low) :
    h.lessShare Rat v = 0 ∧ h.equalShare Rat v = 0 ∧ h.greaterShare Rat v = 1 :=
  ⟨if_pos (Int.le_of_lt below), if_pos (.inl below), if_pos below⟩

theorem shares_of_above {h : Histogram} {v : Int} (ordered : h.low ≤ h.high) (above : h.high < v) :
    h.lessShare Rat v = 1 ∧ h.equalShare Rat v = 0 ∧ h.greaterShare Rat v = 0 :=
  ⟨(if_neg (by omega)).trans (if_pos above), if_pos (.inr above),
    (if_neg (by omega)).trans (if_pos (Int.le_of_lt above))⟩

section Known

variable {h : Histogram} {values : List Int32} {v : Int32} (nonempty : h.total ≠ 0) (some : values ≠ [])

include nonempty some

/-- Where it is known which values are equal, which greater and which less, no estimate is off. -/
theorem estimate_of_known (equal : h.equalShare Rat v.toInt = shareOf values .eq v)
    (greater : h.greaterShare Rat v.toInt = shareOf values .gt v)
    (less : h.lessShare Rat v.toInt = shareOf values .lt v) (comparison : Comparison) :
    h.estimate Rat comparison v = shareOf values comparison v := by
  have whole : clamp (shareOf values comparison v) = shareOf values comparison v := by
    have spans : Spans values.length 0 values.length (shareOf values comparison v) :=
      spans_count (Nat.zero_le _) (by rw [Nat.zero_add]; exact List.countP_le_length)
    exact spans.clamp_eq (Nat.le_of_eq (Nat.zero_add _)) (List.length_pos_iff.mpr some)
  refine Eq.trans ?_ whole
  unfold estimate
  rw [if_neg nonempty]
  congr 1
  cases comparison with
  | eq => exact equal
  | like =>
    have same : shareOf values .like v = shareOf values .eq v := by simp only [shareOf, Comparison.holds_int]
    exact equal.trans same.symm
  | ne => exact (congrArg (1 - ·) equal).trans (shareOf_ne some v).symm
  | gt => exact greater
  | lt => exact less
  | ge =>
    rw [greater, equal]
    refine (shareOf_add (fun x => ?_) fun x => ?_).symm
    · simp only [Comparison.holds_int, ← Bool.decide_or, decide_eq_decide]
      omega
    · simp only [Comparison.holds_int, decide_eq_true_eq, decide_eq_false_iff_not]
      omega
  | le =>
    rw [less, equal]
    refine (shareOf_add (fun x => ?_) fun x => ?_).symm
    · simp only [Comparison.holds_int, ← Bool.decide_or, decide_eq_decide]
      omega
    · simp only [Comparison.holds_int, decide_eq_true_eq, decide_eq_false_iff_not]
      omega

theorem estimate_of_below (within : ∀ x ∈ values, h.low ≤ x.toInt) (below : v.toInt < h.low)
    (comparison : Comparison) : h.estimate Rat comparison v = shareOf values comparison v := by
  obtain ⟨equal, greater, less⟩ := shareOf_of_greater some fun x among => Int.lt_of_lt_of_le below (within x among)
  obtain ⟨less', equal', greater'⟩ := shares_of_below below
  exact estimate_of_known nonempty some (equal'.trans equal.symm) (greater'.trans greater.symm)
    (less'.trans less.symm) comparison

theorem estimate_of_above (ordered : h.low ≤ h.high) (within : ∀ x ∈ values, x.toInt ≤ h.high)
    (above : h.high < v.toInt) (comparison : Comparison) :
    h.estimate Rat comparison v = shareOf values comparison v := by
  obtain ⟨equal, greater, less⟩ := shareOf_of_less some fun x among => Int.lt_of_le_of_lt (within x among) above
  obtain ⟨less', equal', greater'⟩ := shares_of_above ordered above
  exact estimate_of_known nonempty some (equal'.trans equal.symm) (greater'.trans greater.symm)
    (less'.trans less.symm) comparison

end Known

/-- Whatever the number of buckets and whatever is compared, an estimate is off by no more than the share of
the bucket of the value, and not at all where the value is out of bounds. -/
theorem estimate_is_off_by_a_bucket_at_most (buckets : Nat) (low high : Int32) (ordered : low ≤ high)
    (values : List Int32) (some : values ≠ []) (within : ∀ x ∈ values, low ≤ x ∧ x ≤ high) (comparison : Comparison)
    (v : Int32) :
    let h := ofValues buckets low high values
    (low ≤ v ∧ v ≤ high → |h.estimate Rat comparison v - shareOf values comparison v| ≤
      (h.counts.getD (h.bucketOf v.toInt) 0 : Rat) / h.total) ∧
    (¬(low ≤ v ∧ v ≤ high) → h.estimate Rat comparison v = shareOf values comparison v) := by
  intro h
  have counts : h.Counts values := counts_ofValues ..
  simp only [Int32.le_iff_toInt_le] at ordered within ⊢
  have least : h.low = low.toInt := by
    rw [show h = _ from ofValues_eq ..]
    exact Int.min_eq_left ordered
  have greatest : h.high = high.toInt := by
    rw [show h = _ from ofValues_eq ..]
    exact Int.max_eq_right ordered
  constructor
  · rintro ⟨above, below⟩
    rw [counts.total_eq, counts.count]
    exact counts.estimate_near some (by omega) (by omega) comparison
  · intro outside
    have nonempty : h.total ≠ 0 := by
      rw [counts.total_eq]
      exact Nat.ne_of_gt (List.length_pos_iff.mpr some)
    have bounds := counts.spread.ordered
    rcases lt_or_ge v.toInt h.low with below | above
    · refine estimate_of_below nonempty some (fun x among => ?_) below comparison
      rw [least]
      exact (within x among).1
    · refine estimate_of_above nonempty some bounds (fun x among => ?_) (by omega) comparison
      rw [greatest]
      exact (within x among).2

/-- Three of five numbers are less than five, and two thirds of its bucket are counted too. -/
theorem less_than_five_is_estimated :
    (ofValues 4 0 9 [0, 1, 1, 5, 9]).estimate Rat .lt 5 = 11 / 15 ∧ shareOf [0, 1, 1, 5, 9] .lt 5 = 3 / 5 ∧
    |(ofValues 4 0 9 [0, 1, 1, 5, 9]).estimate Rat .lt 5 - shareOf [0, 1, 1, 5, 9] .lt 5| ≤
      ((ofValues 4 0 9 [0, 1, 1, 5, 9]).counts.getD ((ofValues 4 0 9 [0, 1, 1, 5, 9]).bucketOf 5) 0 : Rat) /
        (ofValues 4 0 9 [0, 1, 1, 5, 9]).total ∧
    (ofValues 4 0 9 [0, 1, 1, 5, 9]).estimate Rat .lt 12 = shareOf [0, 1, 1, 5, 9] .lt 12 := by
  have within : ∀ x ∈ ([0, 1, 1, 5, 9] : List Int32), 0 ≤ x ∧ x ≤ 9 := by
    simp only [List.forall_mem_cons, List.not_mem_nil, false_imp_iff, implies_true, and_true]
    decide
  have near := estimate_is_off_by_a_bucket_at_most 4 0 9 (by decide) [0, 1, 1, 5, 9] (by decide) within .lt
  exact ⟨by decide +kernel, by decide +kernel, (near 5).1 (by decide), (near 12).2 (by decide)⟩

end Histogram

end RowStore
