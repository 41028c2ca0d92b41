import RowStore.Proofs.Bytes
/-!
# Packing bits

Whole bytes of bits come back as they were packed, and bits that are all clear pack to zeros.
-/

namespace RowStore.Bitmap

theorem size_mul_eight_ge (bits : Nat) : bits ≤ 8 * size bits := by
  rw [size]
  omega

theorem ofByte_toByte (bits : List Bool) (whole : bits.length = 8) : ofByte (toByte bits) = bits := by
  match bits, whole with
  | [a, b, c, d, e, f, g, h], _ =>
    revert a b c d e f g h
    decide

theorem length_pack (bits : List Bool) : (pack bits).length = size bits.length := by
  fun_induction pack bits with
  | case1 => rfl
  | case2 bit rest ih =>
    rw [List.length_cons, ih, List.length_drop, List.length_cons]
    simp only [size]
    omega

theorem length_unpack (bytes : Bytes) : (unpack bytes).length = 8 * bytes.length := by
  have each : ∀ byte ∈ bytes, (ofByte byte).length = 8 := fun byte _ => by
    rw [ofByte, List.length_map, List.length_range]
  rw [unpack, List.length_flatMap, List.map_congr_left each, List.map_const', List.sum_replicate_nat, Nat.mul_comm]

theorem unpack_pack (bits : List Bool) (whole : 8 ∣ bits.length) : unpack (pack bits) = bits := by
  fun_induction pack bits with
  | case1 => rfl
  | case2 bit rest ih =>
    rw [List.length_cons] at whole
    have full : 7 ≤ rest.length := by omega
    have first : (bit :: rest.take 7).length = 8 := by
      rw [List.length_cons, List.length_take, Nat.min_eq_left full]
    have later : 8 ∣ (rest.drop 7).length := by
      rw [List.length_drop]
      omega
    rw [unpack, List.flatMap_cons, ofByte_toByte _ first, ← unpack, ih later, List.cons_append,
      List.take_append_drop]

theorem pack_clear (n : Nat) : pack (List.replicate (8 * n) false) = Bytes.zeros n := by
  induction n with
  | zero => simp [pack, Bytes.zeros]
  | succ n ih =>
    have eight : 8 * (n + 1) = 8 * n + 7 + 1 := by omega
    have byte : toByte (List.replicate 8 false) = 0 := by decide
    rw [eight, List.replicate_succ, pack, List.drop_replicate, List.take_replicate,
      Nat.min_eq_left (by omega), ← List.replicate_succ, byte, Nat.add_sub_cancel, ih]
    rfl

end RowStore.Bitmap
