import RowStore.Condition
/-!
# Histograms

A histogram counts the values of an integer column in buckets of equal width and estimates from the
counts which share of the values satisfies a comparison. Inside a bucket the values are taken to be
spread evenly.

The estimates are computed in any number type that has the four operations and a strict order: in
floating point when they are shown, exactly when they are reasoned about.
-/

namespace RowStore

/-- Numbers to estimate in. -/
class Measure (φ : Type) extends Add φ, Sub φ, Mul φ, Div φ where
  ofInt : Int → φ
  below : φ → φ → Bool

instance : Measure Float where
  ofInt := Float.ofInt
  below x y := decide (x < y)

instance : Measure Rat where
  ofInt := Rat.ofInt
  below x y := decide (x < y)

structure Histogram where
  low : Int
  high : Int
  width : Int
  counts : Array Nat

namespace Histogram

/-- At least one bucket, over the two bounds in either order. -/
def new (buckets : Nat) (bound other : Int32) : Histogram :=
  let low := min bound.toInt other.toInt
  let high := max bound.toInt other.toInt
  let buckets := max buckets 1
  { low, high
    width := max 1 ((high - low + 1 + buckets - 1) / buckets)
    counts := Array.replicate buckets 0 }

def sumOf (counts : List Nat) : Nat := counts.foldr (fun n sum => n + sum) 0

def total (h : Histogram) : Nat := sumOf h.counts.toList

/-- Values outside the bounds belong to the bucket at the nearer end. -/
def bucketOf (h : Histogram) (v : Int) : Nat :=
  min ((max h.low (min v h.high) - h.low) / h.width).toNat (h.counts.size - 1)

def add (h : Histogram) (v : Int32) : Histogram :=
  { h with counts := h.counts.modify (h.bucketOf v.toInt) (· + 1) }

section Estimate

variable (φ : Type) [Measure φ]

def count (h : Histogram) (bucket : Nat) : φ := Measure.ofInt (h.counts.getD bucket 0)

def totalMeasure (h : Histogram) : φ := Measure.ofInt h.total

def equalShare (h : Histogram) (v : Int) : φ :=
  if v < h.low ∨ v > h.high then Measure.ofInt 0
  else h.count φ (h.bucketOf v) / Measure.ofInt h.width / h.totalMeasure φ

/-- The part of a bucket that is counted, and all of the buckets beyond it. -/
def share (h : Histogram) (bucket : Nat) (part : Int) (beyond : List Nat) : φ :=
  (h.count φ bucket * (Measure.ofInt part / Measure.ofInt h.width) + Measure.ofInt (sumOf beyond))
    / h.totalMeasure φ

def greaterShare (h : Histogram) (v : Int) : φ :=
  if v < h.low then Measure.ofInt 1
  else if v ≥ h.high then Measure.ofInt 0
  else
    let bucket := h.bucketOf v
    let last := h.low + (bucket + 1) * h.width - 1
    h.share φ bucket (last - v) (h.counts.toList.drop (bucket + 1))

def lessShare (h : Histogram) (v : Int) : φ :=
  if v ≤ h.low then Measure.ofInt 0
  else if v > h.high then Measure.ofInt 1
  else
    let bucket := h.bucketOf v
    let first := h.low + bucket * h.width
    h.share φ bucket (v - first) (h.counts.toList.take bucket)

variable {φ} in
def clamp (x : φ) : φ :=
  if Measure.below x (Measure.ofInt 0) then Measure.ofInt 0
  else if Measure.below (Measure.ofInt 1) x then Measure.ofInt 1
  else x

/-- The estimated share of the values `x` for which the comparison of `x` with `v` holds. -/
def estimate (h : Histogram) (comparison : Comparison) (operand : Int32) : φ :=
  let v := operand.toInt
  if h.total = 0 then Measure.ofInt (if comparison = .ne then 1 else 0)
  else clamp <|
    match comparison with
    | .eq | .like => h.equalShare φ v
    | .ne => Measure.ofInt 1 - h.equalShare φ v
    | .gt => h.greaterShare φ v
    | .lt => h.lessShare φ v
    | .ge => h.greaterShare φ v + h.equalShare φ v
    | .le => h.lessShare φ v + h.equalShare φ v

/-- The share of the values that equal a value of the range, on average. -/
def averageShare (h : Histogram) : φ := Measure.ofInt 1 / Measure.ofInt (h.high - h.low + 1)

end Estimate

def renderBucket (h : Histogram) (bucket count : Nat) : String :=
  let first := h.low + bucket * h.width
  let last := min (first + h.width - 1) h.high
  let bar := String.ofList (List.replicate count '|')
  s!"bucket {bucket} [{first}, {last}]: {bar}\n"

def render (h : Histogram) : String :=
  String.join (h.counts.toList.zipIdx.map fun (count, bucket) => h.renderBucket bucket count)

end Histogram

end RowStore
