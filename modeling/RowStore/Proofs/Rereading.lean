import RowStore.Proofs.CutText
import RowStore.Proofs.Pages
/-!
# Pages that somebody else wrote

Any bytes are read as a page. What is read has one value of the right kind for every
column, but a replacement takes three bytes where there may have been one, so a text with a replacement can be
longer than its column. Such a text is cut when the page is written, and is another one when the page is read
again; all other values are read again as they were. The page that is read again stays as it is.
-/

namespace RowStore

namespace Value

/-- The value may be stored in the column, or is a text that replacements have made too long for it. -/
def Readable (value : Value) (type : ColType) : Prop :=
  value.check type = .ok () ∨
    ∃ s width, value = .text s ∧ type = .text width ∧ '\uFFFD' ∈ s.toList ∧ width.toNat < s.utf8ByteSize

theorem Readable.suits_of_readable {value : Value} {type : ColType} (readable : value.Readable type) :
    value.suits type := by
  rcases readable with fits | ⟨s, width, rfl, rfl, -, -⟩
  · exact suits_of_check fits
  · rfl

theorem readable_of_decode? {type : ColType} {bytes rest : Bytes} {value : Value}
    (read : decode? type bytes = some (value, rest)) : value.Readable type := by
  rw [decode?] at read
  split at read
  · exact absurd read (by simp)
  · cases type with
    | int =>
      cases read
      exact .inl rfl
    | text width =>
      cases read
      generalize bytes.drop 4 = rest
      generalize (Bytes.toWord (bytes.take 4)).toInt32.toInt.toNat = count
      have narrow : ((rest.take width.toNat).take count).length ≤ width.toNat := by
        rw [List.length_take, List.length_take]
        omega
      generalize (rest.take width.toNat).take count = text at narrow ⊢
      by_cases fits : (Text.ofBytes text).utf8ByteSize ≤ width.toNat
      · exact .inl ((check_text_eq_ok_iff _ width).mpr fits)
      · refine .inr ⟨_, width, rfl, rfl, ?_, by omega⟩
        by_contra unreplaced
        rw [Text.ofBytes, String.toList_ofList] at unreplaced
        have bytes : Text.utf8 (Text.ofBytes text) = text := by
          rw [Text.utf8, Text.ofBytes, String.toList_ofList, Text.encoded_of_unreplaced text unreplaced]
        rw [← Text.length_utf8, bytes] at fits
        exact fits narrow

theorem exists_decode? {type : ColType} {bytes : Bytes} (long : type.size ≤ bytes.length) :
    ∃ value, decode? type bytes = some (value, bytes.drop type.size) := by
  rw [decode?, if_neg (Nat.not_lt.mpr long)]
  cases type with
  | int => exact ⟨_, rfl⟩
  | text width => exact ⟨_, by rw [ColType.size, ← List.drop_drop]⟩

theorem suits_narrowed (value : Value) (type : ColType) (suits : value.suits type) :
    (value.narrowed type).suits type := by
  match value, type, suits with
  | .int _, .int, _ => rfl
  | .text _, .text _, _ => rfl

theorem narrowed_narrowed (value : Value) (type : ColType) :
    (value.narrowed type).narrowed type = value.narrowed type := by
  match value, type with
  | .int _, .int => rfl
  | .int _, .text _ => rfl
  | .text _, .int => rfl
  | .text s, .text width => exact congrArg Value.text (Text.cut_cut s width.toNat)

end Value

namespace Row

theorem readable_of_decodeValues {types : List ColType} {bytes : Bytes} {values : List Value}
    (read : (decodeValues types bytes).1 = some values) : List.Forall₂ Value.Readable values types := by
  induction types generalizing bytes values with
  | nil =>
    cases read
    exact .nil
  | cons type types ih =>
    rw [decodeValues] at read
    cases first : Value.decode? type bytes with
    | none =>
      rw [first] at read
      exact absurd read (by simp)
    | some taken =>
      rw [first] at read
      obtain ⟨later, readLater, rfl⟩ := Option.map_eq_some_iff.mp read
      exact .cons (Value.readable_of_decode? first) (ih readLater)

theorem decodeValues_of_le {types : List ColType} {bytes : Bytes}
    (long : types.foldr (fun type size => type.size + size) 0 ≤ bytes.length) :
    ∃ values, values.length = types.length ∧ decodeValues types bytes =
      (some values, bytes.drop (types.foldr (fun type size => type.size + size) 0)) := by
  induction types generalizing bytes with
  | nil => exact ⟨[], rfl, rfl⟩
  | cons type types ih =>
    rw [List.foldr_cons] at long
    have enough : type.size ≤ bytes.length := by omega
    have more : types.foldr (fun type size => type.size + size) 0 ≤ (bytes.drop type.size).length := by
      rw [List.length_drop]
      omega
    obtain ⟨value, first⟩ := Value.exists_decode? enough
    obtain ⟨values, length, later⟩ := ih more
    refine ⟨value :: values, by rw [List.length_cons, List.length_cons, length], ?_⟩
    rw [decodeValues, first, List.foldr_cons, ← List.drop_drop]
    simp only [later, Option.map_some]

theorem Typed.typed_narrowed {values : List Value} {types : List ColType} (typed : Typed values types) :
    Typed (narrowed types values) types ∧
      Row.narrowed types (Row.narrowed types values) = Row.narrowed types values := by
  induction typed with
  | nil => exact ⟨.nil, rfl⟩
  | @cons value type values types suits _ ih =>
    obtain ⟨later, same⟩ := ih
    refine ⟨.cons (Value.suits_narrowed value type suits) later, ?_⟩
    exact congrArg₂ List.cons (Value.narrowed_narrowed value type) same

end Row

namespace Page

theorem of_mapM_eq_some {α β : Type} {f : α → Option β} {list : List α} {made : List β}
    (mapped : list.mapM f = some made) :
    made.length = list.length ∧ ∀ b ∈ made, ∃ a ∈ list, f a = some b := by
  induction list generalizing made with
  | nil =>
    cases mapped
    exact ⟨rfl, by simp⟩
  | cons a rest ih =>
    rw [List.mapM_cons] at mapped
    obtain ⟨b, first, mapped⟩ := Option.bind_eq_some_iff.mp mapped
    obtain ⟨later, mappedLater, same⟩ := Option.bind_eq_some_iff.mp mapped
    cases same
    obtain ⟨length, each⟩ := ih mappedLater
    refine ⟨by rw [List.length_cons, length, List.length_cons], ?_⟩
    intro c inMade
    rcases List.mem_cons.mp inMade with rfl | inLater
    · exact ⟨a, List.mem_cons_self, first⟩
    · obtain ⟨a', inRest, found⟩ := each c inLater
      exact ⟨a', List.mem_cons_of_mem _ inRest, found⟩

theorem exists_mapM {α β : Type} {f : α → Option β} {list : List α} (each : ∀ a ∈ list, ∃ b, f a = some b) :
    ∃ made, list.mapM f = some made := by
  induction list with
  | nil => exact ⟨[], rfl⟩
  | cons a rest ih =>
    obtain ⟨⟨b, first⟩, each⟩ := List.forall_mem_cons.mp each
    obtain ⟨later, mapped⟩ := ih each
    exact ⟨b :: later, by rw [List.mapM_cons, first, mapped]; rfl⟩

theorem exists_decodeSlot? {schema : Schema} {bytes : Bytes} {start : Nat} (used : Bool)
    (long : start + schema.recordSize ≤ bytes.length) :
    ∃ slot, decodeSlot? schema bytes.toArray start used = some slot := by
  rw [decodeSlot?]
  split
  · have record : schema.recordSize ≤ (bytes.toArray.extract start (start + schema.recordSize)).toList.length := by
      rw [Array.length_toList, Array.size_extract, List.size_toArray]
      omega
    obtain ⟨values, -, decoded⟩ := Row.decodeValues_of_le record
    exact ⟨some values, by rw [decoded, Option.map_some]⟩
  · exact ⟨none, rfl⟩

theorem exists_decode? (id : PageId) (schema : Schema) (bytes : Bytes) :
    ∃ page, decode? id schema bytes = some page := by
  have room := capacity_fits bytes.length schema
  let first := Bitmap.size (capacity bytes.length schema)
  let used := (Bitmap.unpack (bytes.take first)).toArray
  have slots : ∃ slots, (List.range (capacity bytes.length schema)).mapM (fun slot =>
      decodeSlot? schema bytes.toArray (first + slot * schema.recordSize) (used.getD slot false)) = some slots := by
    refine exists_mapM fun slot inside => exists_decodeSlot? _ ?_
    have below := Nat.mul_le_mul_right schema.recordSize (List.mem_range.mp inside)
    rw [Nat.succ_mul] at below
    change Bitmap.size (capacity bytes.length schema) + slot * schema.recordSize + schema.recordSize ≤ bytes.length
    omega
  obtain ⟨slots, mapped⟩ := slots
  rw [decode?, if_neg (Nat.not_lt.mpr room)]
  exact ⟨_, Option.bind_eq_some_iff.mpr ⟨slots, mapped, rfl⟩⟩

section

variable {id : PageId} {schema : Schema} {bytes : Bytes} {page : Page}

/-- Whatever the bytes are, the page can be written, and every value on it is one that may be read. -/
theorem of_decode?_eq_some (read : decode? id schema bytes = some page) :
    page.Shaped ∧ page.id = id ∧ page.schema = schema ∧ page.size = bytes.length ∧
      ∀ values, some values ∈ page.slots → List.Forall₂ Value.Readable values schema.types := by
  rw [decode?] at read
  split at read
  · exact absurd read (by simp)
  rename_i room
  obtain ⟨slots, mapped, made⟩ := Option.bind_eq_some_iff.mp read
  cases made
  obtain ⟨length, each⟩ := of_mapM_eq_some mapped
  rw [List.length_range] at length
  have readable : ∀ values, some values ∈ slots → List.Forall₂ Value.Readable values schema.types := by
    intro values used
    obtain ⟨slot, -, found⟩ := each _ used
    rw [decodeSlot?] at found
    split at found
    · obtain ⟨values', decoded, same⟩ := Option.map_eq_some_iff.mp found
      cases same
      exact Row.readable_of_decodeValues decoded
    · exact absurd found (by simp)
  refine ⟨⟨length, ?_, fun values used => (readable values used).imp fun _ _ => Value.Readable.suits_of_readable⟩,
    rfl, rfl, rfl, readable⟩
  have bits := Bitmap.size_mul_eight_ge (capacity bytes.length schema)
  rw [List.length_drop, Bitmap.length_unpack, List.length_take, length]
  omega

theorem mem_slots_reread {values : List Value} (used : some values ∈ page.reread.slots) :
    ∃ before, some before ∈ page.slots ∧ values = Row.narrowed page.schema.types before := by
  obtain ⟨content, inPage, mapped⟩ := List.mem_map.mp used
  obtain ⟨before, rfl, narrowed⟩ := Option.map_eq_some_iff.mp mapped
  exact ⟨before, inPage, narrowed.symm⟩

theorem Shaped.shaped_reread (shaped : page.Shaped) : page.reread.Shaped where
  slots := by rw [Page.reread, List.length_map, shaped.slots]
  spare := by
    have spare := shaped.spare
    simpa only [Page.reread, List.length_map] using spare
  typed values used := by
    obtain ⟨before, inPage, rfl⟩ := mem_slots_reread used
    exact (shaped.typed before inPage).typed_narrowed.1

theorem Shaped.reread_reread (shaped : page.Shaped) : page.reread.reread = page.reread := by
  have slots : page.reread.slots.map (Option.map (Row.narrowed page.schema.types)) = page.reread.slots := by
    calc
      page.reread.slots.map (Option.map (Row.narrowed page.schema.types)) = page.reread.slots.map fun slot => slot := by
        apply List.map_congr_left
        intro slot inPage
        cases slot with
        | none => rfl
        | some values =>
          obtain ⟨before, used, rfl⟩ := mem_slots_reread inPage
          rw [Option.map_some, (shaped.typed before used).typed_narrowed.2]
      _ = page.reread.slots := List.map_id' _
  exact congrArg (fun slots => { page with slots, dirtier := none }) slots

theorem valuesAt_reread (page : Page) (slot : Nat) :
    page.reread.valuesAt slot = (page.valuesAt slot).map (Row.narrowed page.schema.types) := by
  rw [valuesAt, valuesAt, reread, List.getElem?_map]
  cases page.slots[slot]? with
  | none => rfl
  | some content => rfl

theorem bits_reread (page : Page) : page.reread.bits = page.bits := by
  have used : Option.isSome ∘ Option.map (Row.narrowed page.schema.types) = Option.isSome := by
    funext slot
    exact Option.isSome_map
  rw [bits, bits, reread, List.map_map, used]

end

/-- Bytes that are read as a page are replaced by as many when the page is written, and what is then read has
the same bits. Every value that may be stored in its column is read again as it was. Any other is a text with a
replacement in it, longer than its column: of it is read what the column keeps. The page that is read again is
not changed any more by being written and read. -/
theorem only_replaced_texts_change (id : PageId) (schema : Schema) (bytes : Bytes) (page : Page)
    (read : decode? id schema bytes = some page) :
    page.encode.length = bytes.length ∧
    (∀ values, some values ∈ page.slots → List.Forall₂ Value.Readable values schema.types) ∧
    ∃ again, decode? id schema page.encode = some again ∧ again.bits = page.bits ∧
      (∀ slot, again.valuesAt slot = (page.valuesAt slot).map (Row.narrowed schema.types)) ∧
      (∀ slot values, page.valuesAt slot = some values → Row.Fits values schema.types →
        again.valuesAt slot = some values) ∧
      decode? id schema again.encode = some again := by
  obtain ⟨shaped, rfl, rfl, size, readable⟩ := of_decode?_eq_some read
  refine ⟨by rw [shaped.length_encode, size], readable, page.reread, shaped.decode?_encode, bits_reread page,
    valuesAt_reread page, ?_, ?_⟩
  · intro slot values held fits
    rw [valuesAt_reread, held, Option.map_some, fits.narrowed_eq_self]
  · have again := shaped.shaped_reread.decode?_encode
    rw [shaped.reread_reread] at again
    exact again

/-- Two slots for a text of two bytes: in the one a letter with an accent, in the other two bytes that begin no
character. -/
def foreign : Bytes := [3, 0, 0, 0, 2, 0xC3, 0xA9, 0, 0, 0, 2, 0xFF, 0xFF, 0]

def foreignPage (second : String) : Page :=
  { id := ⟨⟨1⟩, 0⟩, schema := ⟨[⟨some "s", .text 2⟩]⟩, size := 14, dirtier := none
    slots := [some [.text "é"], some [.text second]], spare := List.replicate 6 false }

theorem foreign_letter_is_read_again :
    decode? ⟨⟨1⟩, 0⟩ ⟨[⟨some "s", .text 2⟩]⟩ foreign = some (foreignPage "��") ∧
      ∃ again, decode? ⟨⟨1⟩, 0⟩ ⟨[⟨some "s", .text 2⟩]⟩ (foreignPage "��").encode = some again ∧
        again.valuesAt 0 = some [.text "é"] := by
  have read : decode? ⟨⟨1⟩, 0⟩ ⟨[⟨some "s", .text 2⟩]⟩ foreign = some (foreignPage "��") := by decide +kernel
  obtain ⟨-, -, again, reads, -, -, kept, -⟩ := only_replaced_texts_change _ _ _ _ read
  exact ⟨read, again, reads, kept 0 _ rfl (.cons (by decide +kernel) .nil)⟩

/-- The other text is longer than its column, and only one of its two replacements is read again. -/
theorem foreign_text_is_cut :
    decode? ⟨⟨1⟩, 0⟩ ⟨[⟨some "s", .text 2⟩]⟩ foreign = some (foreignPage "��") ∧
      (Value.text "��").check (.text 2) = .error (.valueTooLong 6 2) ∧
      decode? ⟨⟨1⟩, 0⟩ ⟨[⟨some "s", .text 2⟩]⟩ (foreignPage "��").encode = some (foreignPage "�") := by
  decide +kernel

end Page

end RowStore
