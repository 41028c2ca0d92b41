import RowStore.Proofs.Rereading
/-!
# Records among other bytes

A record is as long as its schema says, whatever the row and however it was made, and reading takes exactly that
many bytes: what follows is left for the next record, and nothing is read where fewer are left. Since nothing
marks where a record ends, the record of a joined row is that of its left part and then that of its right part.
-/

namespace RowStore.Row

/-- The rows there are: built in the checked way or read from bytes, and what is made of such rows. -/
inductive Made : Row → Prop where
  | built {schema : Schema} {values : List Value} {row : Row} (checked : build schema values = .ok row) : Made row
  | read {schema : Schema} {bytes rest : Bytes} {row : Row} (decoded : decode schema bytes = (some row, rest)) :
      Made row
  | changed {row changed : Row} {field : Nat} {value : Value} (made : Made row)
      (checked : row.set field value = .ok changed) : Made changed
  | placed {row : Row} (location : Option RowId) (made : Made row) : Made (row.placed location)
  | under {row : Row} {schema : Schema} (made : Made row) (same : schema.sameTypes row.schema) :
      Made (row.under schema)
  | joined {left right : Row} (madeLeft : Made left) (madeRight : Made right) :
      Made (joined (left.schema ++ right.schema) left right)

/-! ### Reading takes a record and no more -/

/-- Where less is left than a record, none is read. -/
theorem decodeValues_of_lt {types : List ColType} {bytes : Bytes}
    (short : bytes.length < types.foldr (fun type size => type.size + size) 0) :
    (decodeValues types bytes).1 = none := by
  induction types generalizing bytes with
  | nil => simp at short
  | cons type types ih =>
    rw [List.foldr_cons] at short
    rw [decodeValues]
    by_cases enough : bytes.length < type.size
    · rw [Value.decode?, if_pos enough]
    · obtain ⟨value, first⟩ := Value.exists_decode? (Nat.not_lt.mp enough)
      have less : (bytes.drop type.size).length < types.foldr (fun type size => type.size + size) 0 := by
        rw [List.length_drop]
        omega
      have later := ih less
      rw [first]
      simp only [later, Option.map_none]

theorem decode_eq_none_iff (schema : Schema) (bytes : Bytes) :
    (decode schema bytes).1 = none ↔ bytes.length < schema.recordSize := by
  constructor
  · intro unread
    by_contra long
    obtain ⟨values, -, read⟩ := decodeValues_of_le (Nat.not_lt.mp long)
    rw [decode, read] at unread
    exact absurd unread (by simp)
  · intro short
    rw [decode]
    exact congrArg (Option.map _) (decodeValues_of_lt short)

theorem exists_decode {schema : Schema} {bytes : Bytes} (taken : (decode schema bytes).1.isSome) :
    ∃ values, values.length = schema.types.length ∧
      decode schema bytes = (some ⟨schema, values, none⟩, bytes.drop schema.recordSize) := by
  have long : schema.recordSize ≤ bytes.length := by
    by_contra short
    rw [(decode_eq_none_iff schema bytes).mpr (Nat.not_le.mp short)] at taken
    exact absurd taken (by simp)
  obtain ⟨values, length, read⟩ := decodeValues_of_le long
  refine ⟨values, length, ?_⟩
  rw [decode, read]
  rfl

/-! ### One value for every column -/

theorem Made.length_values {row : Row} (made : Made row) : row.values.length = row.schema.types.length := by
  induction made with
  | built checked =>
    obtain ⟨fits, rfl⟩ := (build_eq_ok_iff ..).mp checked
    exact fits.length_eq
  | @read schema bytes rest row decoded =>
    have taken : (decode schema bytes).1.isSome := by
      rw [decoded]
      rfl
    obtain ⟨values, length, read⟩ := exists_decode taken
    rw [read] at decoded
    cases decoded
    exact length
  | @changed row changed field value _ checked ih =>
    rw [set] at checked
    split at checked
    · exact absurd checked (by simp)
    · rename_i type _
      cases fits : value.check type with
      | error fault =>
        rw [fits] at checked
        exact absurd checked (by simp [bind, Except.bind])
      | ok =>
        rw [fits] at checked
        cases checked
        exact List.length_set.trans ih
  | placed location _ ih => exact ih
  | @under row schema _ same ih => exact ih.trans (congrArg List.length (of_decide_eq_true same)).symm
  | @joined left right _ _ ihLeft ihRight =>
    have types : (left.schema ++ right.schema).types = left.schema.types ++ right.schema.types := List.map_append
    rw [Row.joined, types, List.length_append, List.length_append, ihLeft, ihRight]

theorem encodeValues_append {types types' : List ColType} {values values' : List Value}
    (whole : values.length = types.length) :
    encodeValues (types ++ types') (values ++ values') = encodeValues types values ++ encodeValues types' values' := by
  rw [encodeValues, List.zip_append whole, List.flatMap_append, ← encodeValues, ← encodeValues]

/-- A row that was built is written in exactly the size of a record of its schema, and read again among any
other bytes it is the same row, the bytes that follow it left as they are. Nothing is read exactly where fewer
bytes are left than a record has, and otherwise exactly a record is taken. All rows there are take the size of
their schema's record, and a joined row is written as its left part followed by its right part. -/
theorem record_is_read_and_no_more (schema : Schema) :
    (∀ values row, build schema values = .ok row →
      row.encode.length = schema.recordSize ∧ ∀ rest, decode schema (row.encode ++ rest) = (some row, rest)) ∧
    (∀ bytes, ((decode schema bytes).1 = none ↔ bytes.length < schema.recordSize) ∧
      ((decode schema bytes).1.isSome → (decode schema bytes).2 = bytes.drop schema.recordSize)) ∧
    ∀ left right, Made left → Made right →
      left.encode.length = left.schema.recordSize ∧
      (joined (left.schema ++ right.schema) left right).encode = left.encode ++ right.encode := by
  refine ⟨?_, ?_, ?_⟩
  · intro values row built
    obtain ⟨fits, rfl⟩ := (build_eq_ok_iff schema values row).mp built
    refine ⟨length_encodeValues values schema.types fits.length_eq, ?_⟩
    intro rest
    rw [decode, encode, decodeValues_encodeValues values schema.types rest fits.to_typed, fits.narrowed_eq_self]
    rfl
  · intro bytes
    refine ⟨decode_eq_none_iff schema bytes, ?_⟩
    intro taken
    obtain ⟨values, -, read⟩ := exists_decode taken
    rw [read]
  · intro left right madeLeft madeRight
    have types : (left.schema ++ right.schema).types = left.schema.types ++ right.schema.types := List.map_append
    refine ⟨length_encodeValues left.values left.schema.types madeLeft.length_values, ?_⟩
    rw [encode, joined, types, encodeValues_append madeLeft.length_values, ← encode, ← encode]

def tagged : Schema := ⟨[⟨some "n", .int⟩, ⟨some "s", .text 5⟩]⟩

def counted : Schema := ⟨[⟨some "m", .int⟩]⟩

/-- A built row among other bytes, and a row that was read joined to it. -/
theorem tagged_row_is_read_and_joined :
    build tagged [.int (-3), .text "né"] = .ok ⟨tagged, [.int (-3), .text "né"], none⟩ ∧
      decode tagged ((⟨tagged, [.int (-3), .text "né"], none⟩ : Row).encode ++ [0xFF, 0x80]) =
        (some ⟨tagged, [.int (-3), .text "né"], none⟩, [0xFF, 0x80]) ∧
      Made ⟨tagged, [.int (-3), .text "né"], none⟩ ∧ Made ⟨counted, [.int 258], none⟩ ∧
      (joined (tagged ++ counted) ⟨tagged, [.int (-3), .text "né"], none⟩ ⟨counted, [.int 258], none⟩).encode =
        (⟨tagged, [.int (-3), .text "né"], none⟩ : Row).encode ++ [0, 0, 1, 2] := by
  have built : build tagged [.int (-3), .text "né"] = .ok ⟨tagged, [.int (-3), .text "né"], none⟩ := by rfl
  have decoded : decode counted [0, 0, 1, 2, 9] = (some ⟨counted, [.int 258], none⟩, [9]) := by rfl
  obtain ⟨codec, -, joins⟩ := record_is_read_and_no_more tagged
  obtain ⟨-, again⟩ := codec _ _ built
  obtain ⟨-, joined⟩ := joins _ _ (.built built) (.read decoded)
  exact ⟨built, again [0xFF, 0x80], .built built, .read decoded, joined⟩

end RowStore.Row
