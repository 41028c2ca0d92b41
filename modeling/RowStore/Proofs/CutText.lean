import Mathlib.Data.List.TakeWhile
import RowStore.Proofs.Records
/-!
# Texts that are cut

The bytes that are kept of a text are whole characters and then what is left of one that was cut through. What
is left of a character could still have begun it, so one replacement is read for all of it. To cut the text that
is read to as many bytes changes nothing any more: a replacement that is cut is again read as a replacement.
-/

namespace RowStore.Text

/-! ### Characters that are cut through -/

theorem firstChar?_eq_some {bytes : Bytes} {c : Char} (found : firstChar? bytes = some c) :
    ∃ rest, bytes = String.utf8EncodeChar c ++ rest := by
  obtain ⟨more, split⟩ := ByteArray.exists_of_utf8DecodeChar?_eq_some found
  have taken : bytes.take 4 = String.utf8EncodeChar c ++ more.data.toList := by
    have lists := congrArg (fun array : ByteArray => array.data.toList) split
    simpa using lists
  refine ⟨more.data.toList ++ bytes.drop 4, ?_⟩
  rw [← List.append_assoc, ← taken, List.take_append_drop]

/-- What is left of a character is not one. -/
theorem firstChar?_cut (c : Char) (k : Nat) (short : k < c.utf8Size) :
    firstChar? ((String.utf8EncodeChar c).take k) = none := by
  by_contra found
  obtain ⟨other, found⟩ := Option.ne_none_iff_exists'.mp found
  obtain ⟨rest, begins⟩ := firstChar?_eq_some found
  have whole : String.utf8EncodeChar c ++ [] =
      String.utf8EncodeChar other ++ (rest ++ (String.utf8EncodeChar c).drop k) := by
    rw [← List.append_assoc, ← begins, List.take_append_drop, List.append_nil]
  have first := firstChar?_encoded c []
  rw [whole, firstChar?_encoded] at first
  cases first
  have lengths := congrArg List.length begins
  rw [List.length_take, List.length_append, String.length_utf8EncodeChar] at lengths
  omega

/-- The rows of the table, by numbers. -/
theorem continuation?_eq_some {lead second : UInt8} {more : Nat}
    (high : 0x80 ≤ second.toNat ∧ second.toNat ≤ 0xBF)
    (row : 0xC2 ≤ lead.toNat ∧ lead.toNat < 0xE0 ∧ more = 0 ∨
      0xE0 ≤ lead.toNat ∧ lead.toNat < 0xF0 ∧ more = 1 ∧
        (lead.toNat ≠ 0xE0 ∨ 0xA0 ≤ second.toNat) ∧ (lead.toNat ≠ 0xED ∨ second.toNat ≤ 0x9F) ∨
      0xF0 ≤ lead.toNat ∧ lead.toNat < 0xF5 ∧ more = 2 ∧
        (lead.toNat ≠ 0xF0 ∨ 0x90 ≤ second.toNat) ∧ (lead.toNat ≠ 0xF4 ∨ second.toNat ≤ 0x8F)) :
    ∃ least greatest, continuation? lead = some (least, greatest, more) ∧ least ≤ second ∧ second ≤ greatest := by
  simp only [continuation?, UInt8.lt_iff_toNat_lt, UInt8.le_iff_toNat_le, ← UInt8.toNat_inj, UInt8.reduceToNat]
  split_ifs <;> simp <;> omega

/-- The second byte of a character is one that may follow its first, and as many come after it as may. -/
theorem continuation?_encoded (c : Char) (lead second : UInt8) (rest : Bytes)
    (bytes : String.utf8EncodeChar c = lead :: second :: rest) :
    (∃ least greatest, continuation? lead = some (least, greatest, rest.length) ∧
      least ≤ second ∧ second ≤ greatest) ∧ ∀ byte ∈ rest, 0x80 ≤ byte ∧ byte ≤ 0xBF := by
  have valid : c.val.toNat < 0xD800 ∨ 0xDFFF < c.val.toNat ∧ c.val.toNat < 0x110000 := c.valid
  rw [String.utf8EncodeChar] at bytes
  generalize c.val.toNat = v at bytes valid
  -- One case for each number of bytes; which rows of the table the first byte can be in follows from `v`.
  split_ifs at bytes <;> cases bytes
  all_goals
    constructor
    · apply continuation?_eq_some <;>
        simp only [UInt8.toNat_ofNat', List.length_cons, List.length_nil, and_true, true_and] <;> omega
    · simp only [List.forall_mem_cons, List.not_mem_nil, false_imp_iff, implies_true, and_true,
        UInt8.le_iff_toNat_le, UInt8.toNat_ofNat', UInt8.reduceToNat] <;> omega

/-- All that is left of a character could have belonged to one. -/
theorem brokenTail_cut (c : Char) (k : Nat) (lead : UInt8) (tail : Bytes)
    (begins : (String.utf8EncodeChar c).take k = lead :: tail) : brokenTail lead tail = tail.length := by
  cases tail with
  | nil => rfl
  | cons second rest =>
    have whole := List.take_append_drop k (String.utf8EncodeChar c)
    rw [begins, List.cons_append, List.cons_append] at whole
    obtain ⟨⟨least, greatest, found, low, high⟩, following⟩ := continuation?_encoded c _ _ _ whole.symm
    have all : rest.takeWhile (fun byte => decide (0x80 ≤ byte ∧ byte ≤ 0xBF)) = rest := by
      apply List.takeWhile_eq_self_iff.mpr
      intro byte among
      exact decide_eq_true (following byte (List.mem_append_left _ among))
    have enough : rest.length ≤ (rest ++ (String.utf8EncodeChar c).drop k).length := by
      rw [List.length_append]
      omega
    simp only [brokenTail, found, low, high, and_self, if_true, List.take_of_length_le enough, all, List.length_cons]
    omega

theorem readChars_cut (c : Char) (k : Nat) (some : 0 < k) (short : k < c.utf8Size) :
    readChars ((String.utf8EncodeChar c).take k) = ['\uFFFD'] := by
  have size := String.length_utf8EncodeChar c
  cases begins : (String.utf8EncodeChar c).take k with
  | nil =>
    have lengths := congrArg List.length begins
    rw [List.length_take, List.length_nil] at lengths
    omega
  | cons lead tail =>
    have unread := firstChar?_cut c k short
    rw [begins] at unread
    rw [readChars, unread]
    simp only [brokenTail_cut c k lead tail begins, List.drop_length]
    rw [readChars]

/-! ### Texts that are cut -/

/-- What is kept is whole characters, with or without what is left of one more. -/
theorem take_encoded (chars : List Char) (n : Nat) :
    (∃ whole : List Char, (chars.flatMap String.utf8EncodeChar).take n = whole.flatMap String.utf8EncodeChar) ∨
    ∃ (whole : List Char) (c : Char) (k : Nat), 0 < k ∧ k < c.utf8Size ∧
      n = (whole.flatMap String.utf8EncodeChar).length + k ∧
      (chars.flatMap String.utf8EncodeChar).take n =
        whole.flatMap String.utf8EncodeChar ++ (String.utf8EncodeChar c).take k := by
  induction chars generalizing n with
  | nil => exact .inl ⟨[], by simp⟩
  | cons c rest ih =>
    have size := String.length_utf8EncodeChar c
    rw [List.flatMap_cons]
    by_cases all : c.utf8Size ≤ n
    · have split : (String.utf8EncodeChar c ++ rest.flatMap String.utf8EncodeChar).take n =
          String.utf8EncodeChar c ++ (rest.flatMap String.utf8EncodeChar).take (n - c.utf8Size) := by
        rw [List.take_append, List.take_of_length_le (by omega), size]
      rcases ih (n - c.utf8Size) with ⟨whole, taken⟩ | ⟨whole, d, k, some, short, length, taken⟩
      · exact .inl ⟨c :: whole, by rw [split, taken, List.flatMap_cons]⟩
      · refine .inr ⟨c :: whole, d, k, some, short, ?_, ?_⟩
        · rw [List.flatMap_cons, List.length_append]
          omega
        · rw [split, taken, List.flatMap_cons, List.append_assoc]
    · have split : (String.utf8EncodeChar c ++ rest.flatMap String.utf8EncodeChar).take n =
          (String.utf8EncodeChar c).take n := List.take_append_of_le_length (by omega)
      by_cases none : n = 0
      · exact .inl ⟨[], by rw [none, List.take_zero, List.flatMap_nil]⟩
      · exact .inr ⟨[], c, n, by omega, by omega, by simp, by rw [split, List.flatMap_nil, List.nil_append]⟩

theorem readChars_append (chars : List Char) (rest : Bytes) :
    readChars (chars.flatMap String.utf8EncodeChar ++ rest) = chars ++ readChars rest := by
  induction chars with
  | nil => rfl
  | cons c later ih => rw [List.flatMap_cons, List.append_assoc, readChars_encoded, ih, List.cons_append]

theorem cut_cut (s : String) (n : Nat) : cut (cut s n) n = cut s n := by
  rcases take_encoded s.toList n with ⟨whole, taken⟩ | ⟨whole, c, k, some, short, length, taken⟩
  · apply cut_of_short
    have fits : (whole.flatMap String.utf8EncodeChar).length ≤ n := by
      rw [← taken]
      exact List.length_take_le ..
    rw [cut, utf8, taken, ofBytes, readChars_flatMap, ← length_utf8, utf8, String.toList_ofList]
    exact fits
  · -- The text that is read ends in a replacement, which may be cut through in turn.
    have cutOff : cut s n = String.ofList (whole ++ ['\uFFFD']) := by
      rw [cut, utf8, taken, ofBytes, readChars_append, readChars_cut c k some short]
    have bytes : (utf8 (String.ofList (whole ++ ['\uFFFD']))).take n =
        whole.flatMap String.utf8EncodeChar ++ (String.utf8EncodeChar '\uFFFD').take k := by
      rw [utf8, String.toList_ofList, List.flatMap_append, List.flatMap_singleton, length, List.take_length_add_append]
    rw [cutOff, cut, bytes, ofBytes, readChars_append]
    have four := c.utf8Size_le_four
    by_cases all : k = 3
    · subst all
      have replacement := readChars_encoded '\uFFFD' []
      rw [List.append_nil] at replacement
      rw [List.take_of_length_le (by decide), replacement, readChars]
    · rw [readChars_cut _ k some (by show k < 3; omega)]

/-- Bytes that are read without a replacement are those of the text. -/
theorem encoded_of_unreplaced (bytes : Bytes) (unreplaced : '\uFFFD' ∉ readChars bytes) :
    (readChars bytes).flatMap String.utf8EncodeChar = bytes := by
  fun_induction readChars bytes with
  | case1 => rfl
  | case2 lead rest c found ih =>
    obtain ⟨unreplaced, later⟩ := not_or.mp (mt List.mem_cons.mpr unreplaced)
    obtain ⟨remaining, split⟩ := firstChar?_eq_some found
    have size := String.length_utf8EncodeChar c
    have dropped : rest.drop (c.utf8Size - 1) = remaining := by
      have same := congrArg (List.drop c.utf8Size) split
      have positive := c.utf8Size_pos
      rw [List.drop_left' size] at same
      rw [← same]
      obtain ⟨n, positive⟩ : ∃ n, c.utf8Size = n + 1 := ⟨c.utf8Size - 1, by omega⟩
      rw [positive, List.drop_succ_cons, Nat.add_sub_cancel]
    rw [List.flatMap_cons, ih later, dropped, split]
  | case3 lead rest unread ih => exact absurd List.mem_cons_self unreplaced

end RowStore.Text

