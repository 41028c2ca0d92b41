import Mathlib.Data.List.Forall2
import RowStore.Proofs.Bytes
import RowStore.Row.Codec
/-!
# Records come back as they were written

Text that `utf8` wrote is read without a replacement, a value that fits its column is read as it
was, and a record takes the same number of bytes whatever its values are. A text that is too long is
cut, and what is read is the rest of it, with a replacement for a character that was cut through.
-/

namespace RowStore

namespace Text

theorem firstChar?_encoded (c : Char) (rest : Bytes) :
    firstChar? (String.utf8EncodeChar c ++ rest) = some c := by
  have short : (String.utf8EncodeChar c).length ≤ 4 := by
    rw [String.length_utf8EncodeChar]
    exact c.utf8Size_le_four
  rw [firstChar?, List.take_append, List.take_of_length_le short, List.toByteArray_append]
  exact ByteArray.utf8DecodeChar?_utf8EncodeChar_append

theorem readChars_encoded (c : Char) (rest : Bytes) :
    readChars (String.utf8EncodeChar c ++ rest) = c :: readChars rest := by
  have first := firstChar?_encoded c rest
  have size : (String.utf8EncodeChar c).length = c.utf8Size := String.length_utf8EncodeChar c
  cases bytes : String.utf8EncodeChar c with
  | nil =>
    have positive := c.utf8Size_pos
    rw [bytes, List.length_nil] at size
    omega
  | cons lead more =>
    rw [bytes, List.cons_append] at first
    rw [bytes, List.length_cons] at size
    rw [List.cons_append, readChars, first]
    simp only [← size, Nat.add_sub_cancel, List.drop_left]

theorem readChars_flatMap (chars : List Char) :
    readChars (chars.flatMap String.utf8EncodeChar) = chars := by
  induction chars with
  | nil => rw [List.flatMap_nil, readChars]
  | cons c rest ih => rw [List.flatMap_cons, readChars_encoded, ih]

theorem ofBytes_utf8 (s : String) : ofBytes (utf8 s) = s := by
  rw [ofBytes, utf8, readChars_flatMap, String.ofList_toList]

theorem length_utf8 (s : String) : (utf8 s).length = s.utf8ByteSize := by
  have encoded : s.toList.utf8Encode.size = s.utf8ByteSize := by
    rw [String.utf8Encode_toList, String.size_toByteArray]
  rw [← encoded, utf8]
  simp [List.utf8Encode]

/-- What is read of a text when so many bytes of it are kept. -/
def cut (s : String) (n : Nat) : String := ofBytes ((utf8 s).take n)

theorem cut_of_short (s : String) (n : Nat) (short : s.utf8ByteSize ≤ n) : cut s n = s := by
  rw [cut, List.take_of_length_le (by rw [length_utf8]; exact short), ofBytes_utf8]

end Text

/-! ### Values -/

namespace Value

theorem length_encode (value : Value) (type : ColType) : (value.encode type).length = type.size := by
  cases value with
  | int n => cases type <;> simp [encode, ColType.size]
  | text s =>
    cases type with
    | int => simp [encode]
    | text width =>
      have padded := Bytes.length_rightpad ((Text.utf8 s).take width.toNat) width.toNat
      simp only [encode, List.length_append, Bytes.length_ofWord, ColType.size, padded,
        List.length_take]
      omega

/-- The value is of the kind that the column has, however long it is. -/
def suits : Value → ColType → Bool
  | .int _, .int => true
  | .text _, .text _ => true
  | _, _ => false

/-- What comes back of a value that was stored in a column. -/
def narrowed : Value → ColType → Value
  | .text s, .text width => .text (Text.cut s width.toNat)
  | value, _ => value

theorem check_text_eq_ok_iff (s : String) (width : UInt16) :
    (Value.text s).check (.text width) = .ok () ↔ s.utf8ByteSize ≤ width.toNat := by
  rw [check]
  split
  · simp only [reduceCtorEq, false_iff]
    omega
  · simp only [true_iff]
    omega

theorem suits_of_check {value : Value} {type : ColType} (fits : value.check type = .ok ()) :
    value.suits type := by
  cases value <;> cases type <;> first | rfl | exact absurd fits (by simp [check])

theorem narrowed_of_check {value : Value} {type : ColType} (fits : value.check type = .ok ()) :
    value.narrowed type = value := by
  match value, type, fits with
  | .int _, .int, _ => rfl
  | .text s, .text width, fits =>
    rw [narrowed, Text.cut_of_short s _ ((check_text_eq_ok_iff s width).mp fits)]

theorem decode?_encode_of_suits (value : Value) (type : ColType) (rest : Bytes)
    (suits : value.suits type) :
    decode? type (value.encode type ++ rest) = some (value.narrowed type, rest) := by
  have long : ¬(value.encode type ++ rest).length < type.size := by
    rw [List.length_append, length_encode]
    omega
  match value, type, suits with
  | .int n, .int, _ =>
    rw [decode?, if_neg long]
    simp only [encode, List.take_left' (Bytes.length_ofWord _), List.drop_left' (Bytes.length_ofWord _),
      Bytes.toWord_ofWord, Int32.toInt32_toUInt32, narrowed]
  | .text s, .text width, _ =>
    have short : ((Text.utf8 s).take width.toNat).length ≤ width.toNat := List.length_take_le ..
    rw [decode?, if_neg long]
    simp only [encode, narrowed, Text.cut]
    generalize (Text.utf8 s).take width.toNat = text at short ⊢
    have padded : (text.rightpad width.toNat 0).length = width.toNat := by
      rw [Bytes.length_rightpad]
      omega
    have count : (UInt32.ofNat text.length).toInt32.toInt.toNat = text.length := by
      have small : width.toNat < 65536 := width.toNat_lt
      rw [UInt32.toInt32_ofNat', Int32.toInt_ofNat_of_lt (by omega), Int.toNat_natCast]
    have kept : (text.rightpad width.toNat 0).take text.length = text := by
      rw [List.rightpad, List.take_left]
    simp only [List.append_assoc, List.take_left' (Bytes.length_ofWord _),
      List.drop_left' (Bytes.length_ofWord _), Bytes.toWord_ofWord, count, List.take_left' padded,
      List.drop_left' padded, kept]

end Value

/-! ### Rows -/

namespace Row

/-- One value for every type, and each may be stored in a column of its type. -/
def Fits (values : List Value) (types : List ColType) : Prop :=
  List.Forall₂ (fun value type => value.check type = .ok ()) values types

theorem checkAll_eq_ok_iff (values : List Value) (types : List ColType)
    (arity : values.length = types.length) : checkAll values types = .ok () ↔ Fits values types := by
  induction values generalizing types with
  | nil =>
    cases types with
    | nil => exact ⟨fun _ => .nil, fun _ => rfl⟩
    | cons type types => simp at arity
  | cons value values ih =>
    cases types with
    | nil => simp at arity
    | cons type types =>
      have later := ih types (by simpa using arity)
      rw [Fits, List.forall₂_cons, ← Fits, ← later, checkAll]
      cases checked : value.check type with
      | ok => simp [bind, Except.bind]
      | error fault => simp [bind, Except.bind]

theorem build_eq_ok_iff (schema : Schema) (values : List Value) (row : Row) :
    build schema values = .ok row ↔
      Fits values schema.types ∧ row = { schema, values, location := none } := by
  have types : schema.types.length = schema.columns.length := by simp [Schema.types]
  rw [build]
  split
  · rename_i wrong
    simp only [reduceCtorEq, false_iff, not_and]
    intro fits
    exact absurd (fits.length_eq.trans types) wrong
  · rename_i arity
    have arity : values.length = schema.types.length := by omega
    rw [← checkAll_eq_ok_iff values schema.types arity]
    cases checkAll values schema.types with
    | ok => simp [bind, Except.bind, pure, Except.pure, eq_comm]
    | error fault => simp [bind, Except.bind]

theorem length_encodeValues (values : List Value) (types : List ColType)
    (arity : values.length = types.length) :
    (encodeValues types values).length = types.foldr (fun type size => type.size + size) 0 := by
  induction values generalizing types with
  | nil =>
    cases types with
    | nil => rfl
    | cons type types => simp at arity
  | cons value values ih =>
    cases types with
    | nil => simp at arity
    | cons type types =>
      have later := ih types (by simpa using arity)
      simp only [encodeValues, List.zip_cons_cons, List.flatMap_cons, List.length_append,
        Value.length_encode, List.foldr_cons] at later ⊢
      rw [later]

/-- One value for every type, each of the kind of its column. -/
def Typed (values : List Value) (types : List ColType) : Prop :=
  List.Forall₂ (fun value type => value.suits type) values types

def narrowed (types : List ColType) (values : List Value) : List Value :=
  List.zipWith Value.narrowed values types

theorem Fits.to_typed {values : List Value} {types : List ColType} (fits : Fits values types) :
    Typed values types := fits.imp fun _ _ => Value.suits_of_check

theorem Fits.narrowed_eq_self {values : List Value} {types : List ColType} (fits : Fits values types) :
    narrowed types values = values := by
  induction fits with
  | nil => rfl
  | cons checked _ ih => rw [Row.narrowed, List.zipWith_cons_cons, Value.narrowed_of_check checked, ← Row.narrowed, ih]

theorem decodeValues_encodeValues (values : List Value) (types : List ColType) (rest : Bytes)
    (typed : Typed values types) :
    decodeValues types (encodeValues types values ++ rest) = (some (narrowed types values), rest) := by
  induction typed with
  | nil => rfl
  | @cons value type values types suits _ ih =>
    rw [encodeValues, List.zip_cons_cons, List.flatMap_cons, List.append_assoc, ← encodeValues,
      decodeValues, Value.decode?_encode_of_suits value type _ suits]
    simp only [ih, Option.map_some]
    rfl

end Row

end RowStore
