import Mathlib
/-!
# Numbers of 64 bits

Exact numbers are kept in 64 bits as long as they fit. Of numbers that are kept, the lesser, the greater and the
quotient fit too.
-/

namespace RowStore.Wide

/-- The number in 64 bits, nothing if it takes more. -/
def ofInt? (n : Int) : Option Int64 :=
  if Int64.minValue.toInt ≤ n ∧ n ≤ Int64.maxValue.toInt then some (.ofInt n) else none

theorem ofInt?_eq {n : Int} (least : -2 ^ 63 ≤ n) (greatest : n < 2 ^ 63) : ∃ c, ofInt? n = some c ∧ c.toInt = n := by
  refine ⟨.ofInt n, if_pos ⟨?_, ?_⟩, Int64.toInt_ofInt_of_le least greatest⟩
  · exact least
  · exact Int.lt_add_one_iff.mp greatest

theorem toInt_min (a b : Int64) : (min a b).toInt = min a.toInt b.toInt := by
  show (if a ≤ b then a else b).toInt = _
  split <;> rename_i order <;> rw [Int64.le_iff_toInt_le] at order <;> omega

theorem toInt_max (a b : Int64) : (max a b).toInt = max a.toInt b.toInt := by
  show (if a ≤ b then b else a).toInt = _
  split <;> rename_i order <;> rw [Int64.le_iff_toInt_le] at order <;> omega

/-- Division rounds toward zero, which is down where nothing is negative. -/
theorem toInt_div {a b : Int64} (nonneg : 0 ≤ a.toInt) (positive : 0 < b.toInt) :
    (a / b).toInt = a.toInt / b.toInt := by
  have least := Int.ediv_nonneg nonneg (Int.le_of_lt positive)
  have greatest := Int.ediv_le_self b.toInt nonneg
  have bound := a.toInt_lt
  rw [Int64.toInt_div, Int.tdiv_eq_ediv_of_nonneg nonneg]
  apply Int.bmod_eq_of_le_mul_two <;> omega

end RowStore.Wide
