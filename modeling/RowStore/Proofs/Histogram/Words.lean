import Mathlib
import RowStore.Proofs.Histogram.Counts
import RowStore.Proofs.Wide
/-!
# Histograms in words

In memory the bounds of a histogram are numbers of 32 bits, its width is one of 64, and the values are counted beside
the buckets. Here the histogram stands in that form, with every number checked that is met on the way to a width or
to a bucket, and with no bucket taken for another where there is none. As long as there are fewer than 2⁶² buckets
nothing is ever too large or past an end.
-/

namespace RowStore

/-- A histogram in memory. -/
structure Gauge where
  low : Int32
  high : Int32
  width : Int64
  counts : Array Nat
  total : Nat

namespace Gauge

/-- The width of so many buckets, nothing if a number is too large on the way. -/
def width? (buckets : Nat) (low high : Int32) : Option Int64 := do
  let buckets ← Wide.ofInt? buckets
  let distance ← Wide.ofInt? (high.toInt - low.toInt)
  let range ← Wide.ofInt? (distance.toInt + 1)
  let more ← Wide.ofInt? (range.toInt + buckets.toInt)
  let dividend ← Wide.ofInt? (more.toInt - 1)
  return max (dividend / buckets) 1

def new? (buckets : Nat) (bound other : Int32) : Option Gauge := do
  let (low, high) := if bound ≤ other then (bound, other) else (other, bound)
  let buckets := max buckets 1
  let width ← width? buckets low high
  return { low, high, width, counts := Array.replicate buckets 0, total := 0 }

/-- The number of the bucket, as it comes out of the division. -/
def index? (g : Gauge) (v : Int32) : Option Nat := do
  let nearest := if v < g.low then g.low else if g.high < v then g.high else v
  let offset ← Wide.ofInt? (nearest.toInt - g.low.toInt)
  (offset / g.width).toInt.toNat?

/-- The histogram with one more value, nothing if a number is too large or there is no such bucket. -/
def add? (g : Gauge) (v : Int32) : Option Gauge := do
  let index ← g.index? v
  let count ← g.counts[index]?
  return { g with counts := g.counts.setIfInBounds index (count + 1), total := g.total + 1 }

def ofValues? (buckets : Nat) (bound other : Int32) (values : List Int32) : Option Gauge := do
  values.foldlM add? (← new? buckets bound other)

def exact (g : Gauge) : Histogram := ⟨g.low.toInt, g.high.toInt, g.width.toInt, g.counts⟩

end Gauge

namespace Histogram

/-- The value itself, or the bound that it is past. -/
def nearest (h : Histogram) (v : Int) : Int := max h.low (min v h.high)

variable {h : Histogram} {v : Int}

theorem nearest_mem (ordered : h.low ≤ h.high) (v : Int) : h.low ≤ h.nearest v ∧ h.nearest v ≤ h.high := by
  rw [nearest]
  omega

theorem nearest_eq (least : h.low ≤ v) (greatest : v ≤ h.high) : h.nearest v = v := by
  rw [nearest]
  omega

theorem bucketOf_nearest (ordered : h.low ≤ h.high) (v : Int) : h.bucketOf (h.nearest v) = h.bucketOf v := by
  obtain ⟨least, greatest⟩ := nearest_mem ordered v
  have same := nearest_eq least greatest
  rw [bucketOf, ← nearest, same, bucketOf, ← nearest]

/-- No bucket is taken for another: the division comes to a bucket that is there. -/
theorem Spread.index_eq (spread : h.Spread) (v : Int) : (h.nearest v - h.low) / h.width = h.bucketOf v := by
  obtain ⟨least, greatest⟩ := nearest_mem spread.ordered v
  rw [← bucketOf_nearest spread.ordered v, spread.bucketOf_eq least greatest]

/-- The width is rounded up, so the buckets cover less than one value for each of them beyond the range. -/
theorem extent_lt (buckets : Nat) (bound other : Int32) :
    (max buckets 1 : Nat) * (new buckets bound other).width < 2 ^ 32 + (max buckets 1 : Nat) := by
  have least := bound.le_toInt
  have greatest := bound.toInt_lt
  have least' := other.le_toInt
  have greatest' := other.toInt_lt
  have words : max bound.toInt other.toInt - min bound.toInt other.toInt + 1 ≤ 2 ^ 32 := by omega
  simp only [new]
  generalize max bound.toInt other.toInt - min bound.toInt other.toInt + 1 = range at words ⊢
  generalize count_eq : max buckets 1 = count
  have some : (0 : Int) < count := by omega
  have down := Int.mul_ediv_self_le (x := range + count - 1) (Int.ne_of_gt some)
  rcases Int.le_total ((range + count - 1) / count) 1 with least | more
  · rw [Int.max_eq_left least]
    omega
  · rw [Int.max_eq_right more]
    omega

end Histogram

namespace Gauge

theorem width?_eq (buckets : Nat) (some : 0 < buckets) (few : buckets < 2 ^ 62) (low high : Int32)
    (ordered : low.toInt ≤ high.toInt) :
    ∃ width, width? buckets low high = .some width ∧
      width.toInt = max 1 ((high.toInt - low.toInt + 1 + buckets - 1) / buckets) := by
  have least := low.le_toInt
  have greatest := high.toInt_lt
  obtain ⟨count, count_fits, count_eq⟩ := Wide.ofInt?_eq (n := buckets) (by omega) (by omega)
  obtain ⟨distance, distance_fits, distance_eq⟩ := Wide.ofInt?_eq (n := high.toInt - low.toInt) (by omega) (by omega)
  obtain ⟨range, range_fits, range_eq⟩ := Wide.ofInt?_eq (n := distance.toInt + 1) (by omega) (by omega)
  obtain ⟨more, more_fits, more_eq⟩ := Wide.ofInt?_eq (n := range.toInt + count.toInt) (by omega) (by omega)
  obtain ⟨dividend, dividend_fits, dividend_eq⟩ := Wide.ofInt?_eq (n := more.toInt - 1) (by omega) (by omega)
  refine ⟨max (dividend / count) 1, ?_, ?_⟩
  · simp only [width?, count_fits, distance_fits, range_fits, more_fits, dividend_fits, Option.bind_eq_bind,
      Option.bind_some, Option.pure_def]
  · rw [Wide.toInt_max, Wide.toInt_div (by omega) (by omega), Int.max_comm, dividend_eq, more_eq, range_eq, distance_eq,
      count_eq]
    rfl

theorem new?_eq {buckets : Nat} (few : buckets < 2 ^ 62) (bound other : Int32) :
    ∃ g, new? buckets bound other = some g ∧ g.exact = .new buckets bound other ∧ g.total = 0 := by
  obtain ⟨low, high, order, low_eq, high_eq⟩ : ∃ low high,
      (if bound ≤ other then (bound, other) else (other, bound)) = (low, high) ∧
      low.toInt = min bound.toInt other.toInt ∧ high.toInt = max bound.toInt other.toInt := by
    split <;> rename_i order <;> rw [Int32.le_iff_toInt_le] at order
    · exact ⟨bound, other, rfl, (Int.min_eq_left order).symm, (Int.max_eq_right order).symm⟩
    · exact ⟨other, bound, rfl, by omega, by omega⟩
  obtain ⟨width, width_fits, width_eq⟩ := width?_eq (max buckets 1) (by omega) (by omega) low high (by omega)
  refine ⟨⟨low, high, width, Array.replicate (max buckets 1) 0, 0⟩, ?_, ?_, rfl⟩
  · simp only [new?, order, width_fits, Option.bind_eq_bind, Option.bind_some, Option.pure_def]
  · rw [exact, width_eq, low_eq, high_eq]
    rfl

variable {g : Gauge}

theorem index?_eq (spread : g.exact.Spread) (v : Int32) : g.index? v = some (g.exact.bucketOf v.toInt) := by
  have least := g.low.le_toInt
  have greatest := g.high.toInt_lt
  have ordered : g.low.toInt ≤ g.high.toInt := spread.ordered
  have width : 0 < g.width.toInt := spread.width
  obtain ⟨nearest, clamped, nearest_eq⟩ : ∃ nearest,
      (if v < g.low then g.low else if g.high < v then g.high else v) = nearest ∧
      nearest.toInt = g.exact.nearest v.toInt := by
    refine ⟨_, rfl, ?_⟩
    rw [Histogram.nearest]
    simp only [exact, Int32.lt_iff_toInt_lt]
    split
    · omega
    · split <;> omega
  have bounds := Histogram.nearest_mem spread.ordered v.toInt
  rw [← nearest_eq] at bounds
  simp only [exact] at bounds
  obtain ⟨offset, offset_fits, offset_eq⟩ := Wide.ofInt?_eq (n := nearest.toInt - g.low.toInt) (by omega) (by omega)
  have index : (offset / g.width).toInt = g.exact.bucketOf v.toInt := by
    rw [Wide.toInt_div (by omega) width, offset_eq, nearest_eq]
    exact spread.index_eq v.toInt
  simp only [index?, clamped, offset_fits, Option.bind_eq_bind, Option.bind_some, index]
  rfl

theorem add?_eq (spread : g.exact.Spread) (v : Int32) :
    ∃ g', g.add? v = some g' ∧ g'.exact = g.exact.add v ∧ g'.total = g.total + 1 := by
  have inside : g.exact.bucketOf v.toInt < g.counts.size := spread.bucketOf_lt v.toInt
  have count := Array.getElem?_eq_getElem inside
  have modified : g.counts.setIfInBounds (g.exact.bucketOf v.toInt) (g.counts[g.exact.bucketOf v.toInt] + 1) =
      g.counts.modify (g.exact.bucketOf v.toInt) (· + 1) := by
    apply Array.ext_getElem?
    intro i
    rw [Array.getElem?_setIfInBounds, Array.getElem?_modify]
    split
    · rename_i same
      subst same
      rw [count, Option.map_some]
    · rfl
  refine ⟨{ g with
    counts := g.counts.modify (g.exact.bucketOf v.toInt) (· + 1)
    total := g.total + 1 }, ?_, rfl, rfl⟩
  simp only [add?, index?_eq spread, count, Option.bind_eq_bind, Option.bind_some, modified, Option.pure_def]

/-- However many values are added, nothing is too large and no bucket is missing. -/
theorem ofValues?_eq {buckets : Nat} (few : buckets < 2 ^ 62) (bound other : Int32) (values : List Int32) :
    ∃ g, ofValues? buckets bound other values = some g ∧ g.exact = .ofValues buckets bound other values ∧
      g.total = values.length := by
  obtain ⟨empty, made, empty_eq, none⟩ := new?_eq few bound other
  induction values using List.reverseRecOn with
  | nil =>
    refine ⟨empty, ?_, empty_eq, none⟩
    simp only [ofValues?, made, Option.bind_eq_bind, Option.bind_some, List.foldlM_nil, Option.pure_def]
  | append_singleton rest v ih =>
    obtain ⟨g, before, before_eq, many⟩ := ih
    have spread : g.exact.Spread := before_eq ▸ (Histogram.counts_ofValues buckets bound other rest).spread
    obtain ⟨g', added, added_eq, more⟩ := add?_eq spread v
    refine ⟨g', ?_, ?_, ?_⟩
    · simp only [ofValues?, made, Option.bind_eq_bind, Option.bind_some] at before ⊢
      rw [List.foldlM_append, before, Option.bind_eq_bind, Option.bind_some, List.foldlM_cons, added]
      rfl
    · rw [added_eq, before_eq, Histogram.ofValues, Histogram.ofValues, List.foldl_append]
      rfl
    · rw [more, many, List.length_append]
      rfl

end Gauge

namespace Histogram

/-- A value past the bounds is counted where the nearer bound is. -/
theorem Counts.count_eq_countP {h : Histogram} {values : List Int32} (counts : h.Counts values) (i : Nat) :
    h.counts.getD i 0 = values.countP fun x => decide
      (h.low + i * h.width ≤ h.nearest x.toInt ∧ h.nearest x.toInt ≤ h.low + (i + 1) * h.width - 1) := by
  rw [counts.count, members]
  apply List.countP_congr
  intro x _
  obtain ⟨least, greatest⟩ := nearest_mem counts.spread.ordered x.toInt
  rw [decide_eq_true_eq, decide_eq_true_eq, ← bucketOf_nearest counts.spread.ordered]
  exact counts.spread.bucketOf_eq_iff least greatest i

/-- With fewer than 2⁶² buckets, whatever the bounds and the values, the histogram is made in words and nothing is too
large on the way. The buckets cover the range and end within 64 bits, the division comes to a bucket that is
there, the buckets of the values within the bounds are told by their ends, every bucket counts the values that
belong to it, and together they count all that were added. -/
theorem buckets_count_what_they_say (buckets : Nat) (few : buckets < 2 ^ 62) (bound other : Int32)
    (values : List Int32) (h : Histogram) (made : h = ofValues buckets bound other values) :
    (h.low = min bound.toInt other.toInt ∧ h.high = max bound.toInt other.toInt ∧ h.counts.size = max buckets 1) ∧
    (h.high - h.low + 1 ≤ h.counts.size * h.width ∧ h.counts.size * h.width ≤ Int64.maxValue.toInt) ∧
    (∀ v, (h.nearest v - h.low) / h.width = h.bucketOf v) ∧
    (∀ v, h.low ≤ v → v ≤ h.high → ∀ i : Nat,
      h.bucketOf v = i ↔ h.low + i * h.width ≤ v ∧ v ≤ h.low + (i + 1) * h.width - 1) ∧
    (∀ i : Nat, h.counts.getD i 0 = values.countP fun x => decide
      (h.low + i * h.width ≤ h.nearest x.toInt ∧ h.nearest x.toInt ≤ h.low + (i + 1) * h.width - 1)) ∧
    ∃ g, Gauge.ofValues? buckets bound other values = some g ∧ g.exact = h ∧
      g.counts.toList.sum = g.total ∧ g.total = values.length := by
  have counts : h.Counts values := made ▸ counts_ofValues ..
  have same := made.trans (ofValues_eq buckets bound other values)
  have low : h.low = min bound.toInt other.toInt := congrArg Histogram.low same
  have high : h.high = max bound.toInt other.toInt := congrArg Histogram.high same
  have width : h.width = (new buckets bound other).width := (congrArg Histogram.width same).trans rfl
  have size : h.counts.size = max buckets 1 := made ▸ size_counts_ofValues ..
  have covers := counts.spread.covers
  have fits : h.counts.size * h.width ≤ Int64.maxValue.toInt := by
    have extent := extent_lt buckets bound other
    have last : Int64.maxValue.toInt = 2 ^ 63 - 1 := rfl
    rw [size, width, last]
    omega
  obtain ⟨g, words, exact_eq, many⟩ := Gauge.ofValues?_eq few bound other values
  rw [← made] at exact_eq
  have sum : g.counts.toList.sum = h.total := by
    have counted : g.counts = h.counts := congrArg Histogram.counts exact_eq
    rw [counted]
    rfl
  exact ⟨⟨low, high, size⟩, ⟨by omega, fits⟩, counts.spread.index_eq,
    fun v least greatest => counts.spread.bucketOf_eq_iff least greatest, counts.count_eq_countP, g, words, exact_eq,
    sum.trans (counts.total_eq.trans many.symm), many⟩

/-- Three buckets over all numbers of 32 bits, the bounds given the other way round: there would be room for two more
numbers, and the middle bucket counts the two numbers about zero. -/
theorem all_words_are_covered :
    let h := ofValues 3 Int32.maxValue Int32.minValue [Int32.minValue, -1, 0, Int32.maxValue]
    h.counts.size * h.width = h.high - h.low + 1 + 2 ∧ h.counts.size * h.width ≤ Int64.maxValue.toInt ∧
    (∀ v, (h.nearest v - h.low) / h.width = h.bucketOf v) ∧ h.bucketOf (-1) = 1 ∧ h.counts.getD 1 0 = 2 ∧
    ∃ g, Gauge.ofValues? 3 Int32.maxValue Int32.minValue [Int32.minValue, -1, 0, Int32.maxValue] = some g ∧
      g.counts.toList.sum = 4 := by
  intro h
  obtain ⟨-, ⟨-, fits⟩, index, ends, count, g, words, -, sum, many⟩ := buckets_count_what_they_say 3 (by decide)
    Int32.maxValue Int32.minValue [Int32.minValue, -1, 0, Int32.maxValue] h rfl
  refine ⟨by decide +kernel, fits, index, (ends (-1) ?_ ?_ 1).mpr ?_, (count 1).trans ?_, g, words, sum.trans many⟩ <;>
    decide +kernel

end Histogram

end RowStore
