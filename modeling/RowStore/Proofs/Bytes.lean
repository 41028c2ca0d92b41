import RowStore.Bitmap
/-!
# Cutting and joining bytes

What a stretch of a file holds after a write: the data where it was written, and elsewhere what was
there before, as long as the write leaves no gap. Words come back as they were written.
-/

namespace RowStore

namespace Bytes

@[simp] theorem length_zeros (n : Nat) : (zeros n).length = n := List.length_replicate

theorem length_region (bytes : Bytes) (start n : Nat) :
    (bytes.region start n).length = min n (bytes.length - start) := by
  rw [region, List.length_take, List.length_drop]

/-- A stretch is determined by the bytes in it. -/
theorem region_congr {bytes other : Bytes} {start n : Nat}
    (same : ∀ i, start ≤ i → i < start + n → bytes[i]? = other[i]?) : bytes.region start n = other.region start n := by
  apply List.ext_getElem?
  intro i
  simp only [region, List.getElem?_take, List.getElem?_drop]
  split
  · exact same _ (Nat.le_add_right _ _) (by omega)
  · rfl

/-- The bytes in a stretch are determined by it. -/
theorem getElem?_of_region {bytes other : Bytes} {start n i : Nat}
    (same : bytes.region start n = other.region start n) (first : start ≤ i) (last : i < start + n) :
    bytes[i]? = other[i]? := by
  have there := congrArg (·[i - start]?) same
  simp only [region, List.getElem?_take, List.getElem?_drop, if_pos (show i - start < n by omega)] at there
  rwa [Nat.add_sub_cancel' first] at there

theorem length_rightpad (bytes : Bytes) (n : Nat) :
    (bytes.rightpad n 0).length = max n bytes.length := by
  rw [List.rightpad, List.length_append, List.length_replicate]
  omega

theorem rightpad_of_length_le (bytes : Bytes) (n : Nat) (long : n ≤ bytes.length) :
    bytes.rightpad n 0 = bytes := by
  rw [List.rightpad, Nat.sub_eq_zero_of_le long, List.replicate_zero, List.append_nil]

/-! ### Writing over a stretch -/

section Overwrite

variable (bytes data : Bytes) (start : Nat)

theorem overwrite_of_no_gap (inside : start ≤ bytes.length) :
    bytes.overwrite start data = bytes.take start ++ data ++ bytes.drop (start + data.length) := by
  have taken : (bytes.take start).length = start := by
    rw [List.length_take, Nat.min_eq_left inside]
  rw [overwrite, rightpad_of_length_le _ _ (Nat.le_of_eq taken.symm)]

theorem length_overwrite (inside : start ≤ bytes.length) :
    (bytes.overwrite start data).length = max bytes.length (start + data.length) := by
  rw [overwrite_of_no_gap bytes data start inside]
  simp only [List.length_append, List.length_take, List.length_drop]
  omega

theorem overwrite_end : bytes.overwrite bytes.length data = bytes ++ data := by
  rw [overwrite_of_no_gap bytes data _ (Nat.le_refl _), List.take_length,
    List.drop_eq_nil_of_le (Nat.le_add_right _ _), List.append_nil]

theorem region_overwrite_self (inside : start ≤ bytes.length) :
    (bytes.overwrite start data).region start data.length = data := by
  have taken : (bytes.take start).length = start := by
    rw [List.length_take, Nat.min_eq_left inside]
  rw [overwrite_of_no_gap bytes data start inside, region, List.append_assoc,
    List.drop_append_of_le_length (Nat.le_of_eq taken.symm),
    List.drop_eq_nil_of_le (Nat.le_of_eq taken), List.nil_append, List.take_left]

theorem getElem?_overwrite_apart {i : Nat} (inside : start ≤ bytes.length)
    (apart : i < start ∨ start + data.length ≤ i) : (bytes.overwrite start data)[i]? = bytes[i]? := by
  rw [overwrite_of_no_gap bytes data start inside]
  simp only [List.getElem?_append, List.getElem?_take, List.getElem?_drop, List.length_append, List.length_take,
    Nat.min_eq_left inside]
  rcases apart with before | after
  · rw [if_pos (by omega), if_pos before, if_pos before]
  · rw [if_neg (by omega)]
    congr 1
    omega

theorem region_overwrite_apart (other n : Nat) (inside : start ≤ bytes.length)
    (apart : other + n ≤ start ∨ start + data.length ≤ other) :
    (bytes.overwrite start data).region other n = bytes.region other n :=
  region_congr fun _ _ _ => getElem?_overwrite_apart bytes data start inside (by omega)

end Overwrite

theorem region_append_left (bytes more : Bytes) (start n : Nat) (inside : start + n ≤ bytes.length) :
    (bytes ++ more).region start n = bytes.region start n := by
  rw [region, region, List.drop_append_of_le_length (by omega),
    List.take_append_of_le_length (by rw [List.length_drop]; omega)]

theorem region_append_right (bytes more : Bytes) :
    (bytes ++ more).region bytes.length more.length = more := by
  rw [region, List.drop_left, List.take_length]

/-! ### Words -/

@[simp] theorem length_ofWord (word : UInt32) : (ofWord word).length = 4 := rfl

theorem toWord_ofWord (word : UInt32) : toWord (ofWord word) = word := by
  have bound : word.toNat < 4294967296 := word.toNat_lt
  apply UInt32.toNat_inj.mp
  simp only [toWord, ofWord, List.foldl_cons, List.foldl_nil, UInt32.toNat_add, UInt32.toNat_mul,
    UInt8.toNat_toUInt32, UInt32.toNat_toUInt8, UInt32.toNat_shiftRight, UInt32.toNat_ofNat,
    Nat.shiftRight_eq_div_pow, Nat.reducePow, Nat.reduceMod]
  omega

end Bytes

end RowStore
