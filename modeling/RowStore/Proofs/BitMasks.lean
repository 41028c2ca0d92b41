import Mathlib
import RowStore.Proofs.Bits
/-!
# One bit in a byte

A single bit is looked up, set and cleared by a mask in the byte that has it. What is found is the bit that stands
there when all the bytes are read as bits, and what is changed is that bit and no other, though eight of them
share the byte.
-/

namespace RowStore.Bitmap

/-- The bit of that number in its byte. -/
def mask (slot : Nat) : UInt8 := 1 <<< UInt8.ofNat (slot % 8)

/-- The bit of that number, nothing if the bytes end before it. -/
def bit? (bytes : Bytes) (slot : Nat) : Option Bool :=
  bytes[slot / 8]?.map fun byte => byte &&& mask slot != 0

/-- The bytes with one bit set or cleared, nothing if they end before it. -/
def setBit? (bytes : Bytes) (slot : Nat) (used : Bool) : Option Bytes :=
  bytes[slot / 8]?.map fun byte =>
    bytes.set (slot / 8) (if used then byte ||| mask slot else byte &&& ~~~mask slot)

theorem toNat_mask (slot : Nat) : (mask slot).toNat = 2 ^ (slot % 8) := by
  have below : slot % 8 < 8 := Nat.mod_lt _ (by decide)
  rw [mask]
  generalize slot % 8 = bit at below
  interval_cases bit <;> rfl

theorem testBit_mask (slot bit : Nat) : (mask slot).toNat.testBit bit = decide (slot % 8 = bit) := by
  rw [toNat_mask, Nat.testBit_two_pow]

theorem and_mask_ne_zero (byte : UInt8) (slot : Nat) :
    (byte &&& mask slot != 0) = byte.toNat.testBit (slot % 8) := by
  have value : (byte &&& mask slot).toNat = (byte.toNat.testBit (slot % 8)).toNat * 2 ^ (slot % 8) := by
    rw [UInt8.toNat_and, toNat_mask, Nat.and_two_pow]
  have zero : byte &&& mask slot = 0 ↔ (byte &&& mask slot).toNat = 0 := UInt8.toNat_inj.symm
  have power : 0 < 2 ^ (slot % 8) := Nat.two_pow_pos _
  rw [bne, beq_eq_decide]
  cases tested : byte.toNat.testBit (slot % 8) with
  | false => simp [zero, value, tested]
  | true => simp [zero, value, tested]

theorem testBit_or_mask (byte : UInt8) (slot bit : Nat) :
    (byte ||| mask slot).toNat.testBit bit = if slot % 8 = bit then true else byte.toNat.testBit bit := by
  rw [UInt8.toNat_or, Nat.testBit_or, testBit_mask]
  split <;> simp_all

theorem testBit_eq_false_of_le (byte : UInt8) {bit : Nat} (past : 8 ≤ bit) : byte.toNat.testBit bit = false := by
  apply Nat.testBit_lt_two_pow
  calc
    byte.toNat < 2 ^ 8 := byte.toNat_lt
    _ ≤ 2 ^ bit := Nat.pow_le_pow_right (by decide) past

theorem testBit_and_not_mask (byte : UInt8) (slot bit : Nat) :
    (byte &&& ~~~mask slot).toNat.testBit bit = if slot % 8 = bit then false else byte.toNat.testBit bit := by
  by_cases inside : bit < 8
  · have flipped : (~~~mask slot).toNat.testBit bit = !decide (slot % 8 = bit) := by
      rw [← testBit_mask, ← UInt8.toNat_toBitVec, ← UInt8.toNat_toBitVec, BitVec.testBit_toNat, BitVec.testBit_toNat,
        UInt8.toBitVec_not, BitVec.getLsbD_not]
      simp [inside]
    rw [UInt8.toNat_and, Nat.testBit_and, flipped]
    split <;> simp_all
  · rw [testBit_eq_false_of_le _ (by omega), testBit_eq_false_of_le _ (by omega), ite_self]

theorem ofByte_injective {byte other : UInt8} (same : ofByte byte = ofByte other) : byte = other := by
  apply UInt8.toNat_inj.mp
  apply Nat.eq_of_testBit_eq
  intro bit
  by_cases inside : bit < 8
  · exact List.map_inj_left.mp same bit (List.mem_range.mpr inside)
  · rw [testBit_eq_false_of_le _ (by omega), testBit_eq_false_of_le _ (by omega)]

theorem length_ofByte (byte : UInt8) : (ofByte byte).length = 8 := by
  rw [ofByte, List.length_map, List.length_range]

theorem pack_unpack (bytes : Bytes) : pack (unpack bytes) = bytes := by
  induction bytes with
  | nil => rw [unpack, List.flatMap_nil, pack]
  | cons byte rest ih =>
    have eight := length_ofByte byte
    have restored : toByte (ofByte byte) = byte := ofByte_injective (ofByte_toByte _ eight)
    rw [unpack, List.flatMap_cons, ← unpack]
    cases bits : ofByte byte with
    | nil => simp [bits] at eight
    | cons first others =>
      rw [bits, List.length_cons, Nat.succ_inj] at eight
      rw [List.cons_append, pack, List.take_left' eight, List.drop_left' eight, ← bits, restored, ih]

/-- The bit looked up in its byte is the one that stands there when the bytes are read as bits. -/
theorem bit?_eq_getElem? (bytes : Bytes) (slot : Nat) : bit? bytes slot = (unpack bytes)[slot]? := by
  induction bytes generalizing slot with
  | nil => rfl
  | cons byte rest ih =>
    rw [unpack, List.flatMap_cons, ← unpack]
    by_cases first : slot < 8
    · rw [bit?, Nat.div_eq_of_lt first, List.getElem?_cons_zero, Option.map_some, and_mask_ne_zero,
        List.getElem?_append_left (by rw [length_ofByte]; exact first), Nat.mod_eq_of_lt first, ofByte,
        List.getElem?_map, List.getElem?_range first, Option.map_some]
    · obtain ⟨later, rfl⟩ : ∃ later, slot = later + 8 := ⟨slot - 8, by omega⟩
      have same : mask (later + 8) = mask later := by rw [mask, mask, Nat.add_mod_right]
      rw [List.getElem?_append_right (by rw [length_ofByte]; omega), length_ofByte, Nat.add_sub_cancel, ← ih, bit?, bit?,
        same, Nat.add_div_right _ (by decide), List.getElem?_cons_succ]

/-- Setting or clearing a bit by its mask changes that bit and no other. -/
theorem setBit?_eq_some (bytes : Bytes) (slot : Nat) (used : Bool) (inside : slot < 8 * bytes.length) :
    ∃ changed, setBit? bytes slot used = some changed ∧ changed.length = bytes.length ∧
      unpack changed = (unpack bytes).set slot used := by
  have byteInside : slot / 8 < bytes.length := by omega
  refine ⟨_, by rw [setBit?, List.getElem?_eq_getElem byteInside, Option.map_some], List.length_set, ?_⟩
  apply List.ext_getElem?
  intro bit
  rw [← bit?_eq_getElem?, List.getElem?_set, ← bit?_eq_getElem?, length_unpack, if_pos inside, bit?, bit?,
    List.getElem?_set, if_pos byteInside]
  by_cases sameByte : slot / 8 = bit / 8
  · rw [if_pos sameByte, ← sameByte, List.getElem?_eq_getElem byteInside, Option.map_some, Option.map_some,
      and_mask_ne_zero, and_mask_ne_zero]
    have sameBit : slot % 8 = bit % 8 ↔ slot = bit := by omega
    cases used with
    | false => rw [if_neg (by decide), testBit_and_not_mask]; split <;> simp_all
    | true => rw [if_pos rfl, testBit_or_mask]; split <;> simp_all
  · have other : slot ≠ bit := by
      intro same
      exact sameByte (by rw [same])
    rw [if_neg sameByte, if_neg other]

end RowStore.Bitmap
