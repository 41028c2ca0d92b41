import RowStore.Page.Codec
import RowStore.Proofs.Bits
import RowStore.Proofs.Records
/-!
# Pages come back as they were written

A sound page has its capacity of slots, whole bytes of bits, and in every used slot values that fit
the schema. Written and read again it is the same page, only clean; a page of zeros is a blank one.
Where values are of the right kind but too long, the page that is read has what is left of them.
-/

namespace RowStore.Page

/-- What a slot holds, nothing if it is free or past the last one. -/
def valuesAt (page : Page) (slot : Nat) : Option (List Value) := page.slots[slot]?.join

structure Sound (page : Page) : Prop where
  slots : page.slots.length = capacity page.size page.schema
  spare : page.slots.length + page.spare.length = 8 * Bitmap.size page.slots.length
  fits : ∀ values, some values ∈ page.slots → Row.Fits values page.schema.types

/-- The page can be written and read again, but its texts may be longer than their columns. -/
structure Shaped (page : Page) : Prop where
  slots : page.slots.length = capacity page.size page.schema
  spare : page.slots.length + page.spare.length = 8 * Bitmap.size page.slots.length
  typed : ∀ values, some values ∈ page.slots → Row.Typed values page.schema.types

theorem Sound.to_shaped {page : Page} (sound : page.Sound) : page.Shaped :=
  ⟨sound.slots, sound.spare, fun values used => (sound.fits values used).to_typed⟩

theorem Sound.fits_of_mem_rows {page : Page} (sound : page.Sound) {row : Row} (among : row ∈ page.rows) :
    Row.Fits row.values page.schema.types := by
  obtain ⟨⟨slot, index⟩, here, taken⟩ := List.mem_filterMap.mp among
  obtain ⟨values, held, rfl⟩ := Option.map_eq_some_iff.mp taken
  apply sound.fits
  rw [← show slot = some values from held]
  exact List.fst_mem_of_mem_zipIdx here

/-- The page that is read where the page was written: clean, and its texts as long as their columns let them be. -/
def reread (page : Page) : Page :=
  { page with slots := page.slots.map (Option.map (Row.narrowed page.schema.types)), dirtier := none }

theorem Sound.reread_eq_markClean {page : Page} (sound : page.Sound) : page.reread = page.markClean := by
  have slots : page.slots.map (Option.map (Row.narrowed page.schema.types)) = page.slots := by
    calc
      page.slots.map (Option.map (Row.narrowed page.schema.types)) = page.slots.map fun slot => slot := by
        apply List.map_congr_left
        intro slot inPage
        cases slot with
        | none => rfl
        | some values => rw [Option.map_some, (sound.fits values inPage).narrowed_eq_self]
      _ = page.slots := List.map_id' _
  rw [Page.reread, slots, markClean]

theorem capacity_fits (size : Nat) (schema : Schema) :
    Bitmap.size (capacity size schema) + capacity size schema * schema.recordSize ≤ size := by
  have room : capacity size schema * (schema.recordSize * 8 + 1) ≤ size * 8 := Nat.div_mul_le_self _ _
  have bits := Nat.mul_add (capacity size schema) (schema.recordSize * 8) 1
  have records := Nat.mul_assoc (capacity size schema) schema.recordSize 8
  rw [Bitmap.size]
  omega

/-! ### Records of one size, one after another -/

theorem length_flatMap_of_length {α : Type} (list : List α) (f : α → Bytes) (size : Nat)
    (each : ∀ a ∈ list, (f a).length = size) : (list.flatMap f).length = list.length * size := by
  rw [List.length_flatMap, List.map_congr_left each, List.map_const', List.sum_replicate_nat]

theorem take_drop_flatMap_of_length {α : Type} (list : List α) (f : α → Bytes) (size : Nat)
    (each : ∀ a ∈ list, (f a).length = size) (i : Nat) (inside : i < list.length) (rest : Bytes) :
    ((list.flatMap f ++ rest).drop (i * size)).take size = f list[i] := by
  induction list generalizing i with
  | nil => simp at inside
  | cons a later ih =>
    have first : (f a).length = size := each a List.mem_cons_self
    rw [List.flatMap_cons, List.append_assoc]
    cases i with
    | zero => rw [Nat.zero_mul, List.drop_zero, List.take_left' first, List.getElem_cons_zero]
    | succ i =>
      rw [Nat.succ_mul, Nat.add_comm, ← List.drop_drop, List.drop_left' first,
        List.getElem_cons_succ]
      exact ih (fun b inLater => each b (List.mem_cons_of_mem _ inLater)) i (by simpa using inside)

theorem mapM_range_eq_some {α : Type} (f : Nat → Option α) (list : List α)
    (each : ∀ i (inside : i < list.length), f i = some list[i]) :
    (List.range list.length).mapM f = some list := by
  induction list generalizing f with
  | nil => rfl
  | cons a rest ih =>
    have first := each 0 (by simp)
    have later := ih (fun i => f (i + 1)) fun i inside => by
      rw [each (i + 1) (by simpa using inside), List.getElem_cons_succ]
    rw [List.length_cons, List.range_succ_eq_map, List.mapM_cons, List.mapM_map, first]
    simp only [Function.comp_def, later]
    rfl

/-! ### Writing and reading -/

section Codec

variable (page : Page) (shaped : page.Shaped)

include shaped

theorem Shaped.length_encodeSlot (slot : Option (List Value)) (inPage : slot ∈ page.slots) :
    (encodeSlot page.schema slot).length = page.schema.recordSize := by
  cases slot with
  | none => exact Bytes.length_zeros _
  | some values => exact Row.length_encodeValues values page.schema.types (shaped.typed values inPage).length_eq

theorem Shaped.length_bits : page.bits.length = 8 * Bitmap.size page.slots.length := by
  rw [bits, List.length_append, List.length_map, shaped.spare]

theorem Shaped.length_pack_bits : (Bitmap.pack page.bits).length = Bitmap.size page.slots.length := by
  rw [Bitmap.length_pack, shaped.length_bits]
  simp only [Bitmap.size]
  omega

theorem Shaped.length_encode : page.encode.length = page.size := by
  have records := length_flatMap_of_length page.slots (encodeSlot page.schema) _ (shaped.length_encodeSlot page)
  have room := capacity_fits page.size page.schema
  rw [encode, Bytes.length_rightpad, List.length_append, shaped.length_pack_bits, records, shaped.slots]
  omega

theorem Shaped.decodeSlot?_encode (slot : Nat) (inside : slot < page.slots.length) :
    decodeSlot? page.schema page.encode.toArray
        (Bitmap.size page.slots.length + slot * page.schema.recordSize)
        (page.bits.toArray.getD slot false) =
      some (page.slots[slot].map (Row.narrowed page.schema.types)) := by
  have bit : page.bits.toArray.getD slot false = page.slots[slot].isSome := by
    simp [Array.getD_eq_getD_getElem?, bits, List.getElem?_append, inside]
  have record : (page.encode.toArray.extract
      (Bitmap.size page.slots.length + slot * page.schema.recordSize)
      (Bitmap.size page.slots.length + slot * page.schema.recordSize + page.schema.recordSize)).toList =
      encodeSlot page.schema page.slots[slot] := by
    rw [List.extract_toArray, List.toList_toArray, List.extract_eq_take_drop, Nat.add_sub_cancel_left,
      encode, List.rightpad, List.append_assoc, ← List.drop_drop,
      List.drop_left' (shaped.length_pack_bits page)]
    exact take_drop_flatMap_of_length _ _ _ (shaped.length_encodeSlot page) slot inside _
  rw [decodeSlot?, record, bit]
  cases content : page.slots[slot] with
  | none => rfl
  | some values =>
    have typed := shaped.typed values (content ▸ List.getElem_mem inside)
    have decoded := Row.decodeValues_encodeValues values page.schema.types [] typed
    rw [List.append_nil] at decoded
    rw [Option.isSome_some, if_pos rfl, encodeSlot, decoded]
    rfl

theorem Shaped.decode?_encode : decode? page.id page.schema page.encode = some page.reread := by
  have room := capacity_fits page.size page.schema
  have bits : Bitmap.unpack (page.encode.take (Bitmap.size page.slots.length)) = page.bits := by
    rw [encode, List.rightpad, List.append_assoc, List.take_left' (shaped.length_pack_bits page),
      Bitmap.unpack_pack page.bits ⟨_, shaped.length_bits page⟩]
  have length : page.reread.slots.length = page.slots.length := List.length_map _
  have slots := mapM_range_eq_some (fun slot => decodeSlot? page.schema page.encode.toArray
      (Bitmap.size page.slots.length + slot * page.schema.recordSize) (page.bits.toArray.getD slot false))
    page.reread.slots fun slot inside => by
      rw [length] at inside
      rw [shaped.decodeSlot?_encode page slot inside]
      simp only [reread, List.getElem_map]
  have spare : page.bits.drop page.slots.length = page.spare := List.drop_left' (List.length_map _)
  rw [length] at slots
  rw [decode?]
  simp only [shaped.length_encode, ← shaped.slots]
  rw [← shaped.slots] at room
  rw [if_neg (Nat.not_lt.mpr room), bits]
  simp only [slots, Option.bind_eq_bind, Option.bind_some, length, spare]
  rfl

end Codec

theorem Sound.length_encode {page : Page} (sound : page.Sound) : page.encode.length = page.size :=
  sound.to_shaped.length_encode

theorem Sound.decode?_encode {page : Page} (sound : page.Sound) :
    decode? page.id page.schema page.encode = some page.markClean := by
  rw [sound.to_shaped.decode?_encode, sound.reread_eq_markClean]

theorem frame_of_decode? {id : PageId} {schema : Schema} {bytes : Bytes} {page : Page}
    (read : decode? id schema bytes = some page) : page.id = id ∧ page.dirtier = none := by
  rw [decode?] at read
  split at read
  · exact absurd read (by simp)
  · obtain ⟨slots, -, made⟩ := Option.bind_eq_some_iff.mp read
    cases made
    exact ⟨rfl, rfl⟩

/-- The number under which a page is read is only put on it. -/
theorem decode?_id (id other : PageId) (schema : Schema) (bytes : Bytes) :
    decode? other schema bytes = (decode? id schema bytes).map fun page => { page with id := other } := by
  rw [decode?, decode?]
  split
  · rfl
  · simp only [Option.bind_eq_bind, Option.map_bind]
    rfl

/-! ### A blank page -/

section Blank

variable (id : PageId) (schema : Schema) (size : Nat)

theorem sound_blank : (blank id schema size).Sound where
  slots := List.length_replicate
  spare := by
    have bits := Bitmap.size_mul_eight_ge (capacity size schema)
    simp only [blank, List.length_replicate]
    omega
  fits values used := by simp [blank] at used

theorem encode_blank : (blank id schema size).encode = Bytes.zeros size := by
  have sound := sound_blank id schema size
  have room := capacity_fits size schema
  have bits : (blank id schema size).bits =
      List.replicate (8 * Bitmap.size (capacity size schema)) false := by
    have bits := Bitmap.size_mul_eight_ge (capacity size schema)
    rw [Page.bits, blank, List.map_replicate, Option.isSome_none, List.replicate_append_replicate]
    congr 1
    omega
  have records : (blank id schema size).slots.flatMap (encodeSlot schema) =
      Bytes.zeros (capacity size schema * schema.recordSize) := by
    rw [blank, List.flatMap_replicate]
    simp only [encodeSlot, Bytes.zeros, List.flatten_replicate_replicate]
  rw [encode, bits, Bitmap.pack_clear]
  change ((Bytes.zeros _) ++ (blank id schema size).slots.flatMap (encodeSlot schema)).rightpad size 0 = _
  rw [records, Bytes.zeros, Bytes.zeros, List.replicate_append_replicate, List.rightpad,
    List.length_replicate, List.replicate_append_replicate, Bytes.zeros]
  congr 1
  omega

theorem decode?_zeros : decode? id schema (Bytes.zeros size) = some (blank id schema size) := by
  have decoded := (sound_blank id schema size).decode?_encode
  rw [encode_blank] at decoded
  exact decoded

@[simp] theorem valuesAt_blank (slot : Nat) : (blank id schema size).valuesAt slot = none := by
  simp only [valuesAt, blank, List.getElem?_replicate]
  split <;> rfl

end Blank

/-! ### Changing a slot -/

theorem isUsed_eq (page : Page) (slot : Nat) : page.isUsed slot = (page.valuesAt slot).isSome := rfl

theorem valuesAt_eq_none_of_length_le (page : Page) (slot : Nat) (past : page.slots.length ≤ slot) :
    page.valuesAt slot = none := by
  rw [valuesAt, List.getElem?_eq_none past, Option.join_none]

/-- The page with other contents in one slot. -/
def putAt (page : Page) (slot : Nat) (content : Option (List Value)) : Page :=
  { page with slots := page.slots.set slot content }

theorem valuesAt_putAt (page : Page) (slot other : Nat) (content : Option (List Value))
    (inside : slot < page.slots.length) :
    (page.putAt slot content).valuesAt other = if other = slot then content else page.valuesAt other := by
  rw [valuesAt, putAt, List.getElem?_set]
  by_cases same : slot = other
  · rw [if_pos same, if_pos inside, if_pos same.symm, Option.join_some]
  · rw [if_neg same, if_neg (Ne.symm same), valuesAt]

theorem Sound.sound_putAt {page : Page} (sound : page.Sound) (slot : Nat) (content : Option (List Value))
    (fits : ∀ values, content = some values → Row.Fits values page.schema.types) :
    (page.putAt slot content).Sound where
  slots := by rw [Page.putAt, List.length_set, sound.slots]
  spare := by
    have spare := sound.spare
    simpa only [Page.putAt, List.length_set] using spare
  fits values used := by
    rcases List.mem_or_eq_of_mem_set used with old | new
    · exact sound.fits values old
    · exact fits values new.symm

theorem Sound.sound_markDirty {page : Page} (sound : page.Sound) (txn : TxnId) : (page.markDirty txn).Sound :=
  ⟨sound.slots, sound.spare, sound.fits⟩

theorem Sound.sound_markClean {page : Page} (sound : page.Sound) : page.markClean.Sound :=
  ⟨sound.slots, sound.spare, sound.fits⟩

theorem insert_cases (page : Page) (row : Row) :
    (¬row.schema.sameTypes page.schema ∧
      page.insert row = .error (.schemaMismatch page.schema row.schema)) ∨
    (row.schema.sameTypes page.schema ∧ (∀ slot < page.slots.length, page.isUsed slot) ∧
      page.insert row = .error (.pageFull page.id)) ∨
    (∃ slot < page.slots.length, row.schema.sameTypes page.schema ∧ page.valuesAt slot = none ∧
      (∀ lower < slot, page.isUsed lower) ∧
      page.insert row = .ok (page.putAt slot (some row.values), page.locate slot)) := by
  by_cases same : row.schema.sameTypes page.schema
  · right
    cases found : page.slots.findIdx? Option.isNone with
    | none =>
      left
      refine ⟨same, ?_, by rw [insert, if_pos same, found]⟩
      intro slot inside
      have used := List.findIdx?_eq_none_iff.mp found page.slots[slot] (List.getElem_mem inside)
      rw [isUsed, List.getElem?_eq_getElem inside, Option.join_some]
      simpa [Option.isSome_iff_ne_none] using used
    | some slot =>
      right
      obtain ⟨inside, free, before⟩ := List.findIdx?_eq_some_iff_getElem.mp found
      refine ⟨slot, inside, same, ?_, ?_, by rw [insert, if_pos same, found, putAt]⟩
      · rw [valuesAt, List.getElem?_eq_getElem inside, Option.join_some]
        simpa using free
      · intro lower less
        have used := before lower less
        rw [isUsed, List.getElem?_eq_getElem (by omega), Option.join_some]
        simpa [Option.isSome_iff_ne_none] using used
  · exact .inl ⟨same, by rw [insert, if_neg same]⟩

theorem insert_eq_ok {page changed : Page} {row : Row} {location : RowId}
    (done : page.insert row = .ok (changed, location)) :
    ∃ slot < page.slots.length, page.valuesAt slot = none ∧ changed = page.putAt slot (some row.values) ∧
      location = page.locate slot := by
  rcases page.insert_cases row with ⟨-, refused⟩ | ⟨-, -, refused⟩ | ⟨slot, inside, -, free, -, same⟩
  · exact absurd (done.symm.trans refused) (by simp)
  · exact absurd (done.symm.trans refused) (by simp)
  · cases done.symm.trans same
    exact ⟨slot, inside, free, rfl, rfl⟩

theorem freeSlots_eq_zero_iff (page : Page) :
    page.freeSlots = 0 ↔ ∀ slot < page.slots.length, page.isUsed slot := by
  rw [freeSlots, List.countP_eq_zero]
  constructor
  · intro full slot inside
    have used := full page.slots[slot] (List.getElem_mem inside)
    rw [isUsed, List.getElem?_eq_getElem inside, Option.join_some]
    simpa [Option.isSome_iff_ne_none] using used
  · intro full content inPage
    obtain ⟨slot, inside, rfl⟩ := List.getElem_of_mem inPage
    have used := full slot inside
    rw [isUsed, List.getElem?_eq_getElem inside, Option.join_some] at used
    simpa [Option.isSome_iff_ne_none] using used

theorem delete_cases (page : Page) (row : RowId) :
    (row.page = page.id ∧ (page.valuesAt row.slot).isSome ∧ row.slot < page.slots.length ∧
      page.delete (some row) = .ok (page.putAt row.slot none)) ∨
    (¬(row.page = page.id ∧ (page.valuesAt row.slot).isSome) ∧
      page.delete (some row) = .error (.rowNotFound row)) := by
  by_cases found : row.page = page.id ∧ page.isUsed row.slot
  · left
    refine ⟨found.1, found.2, ?_, by rw [delete, if_pos found, putAt]⟩
    by_contra past
    have free := page.valuesAt_eq_none_of_length_le row.slot (by omega)
    have used := found.2
    rw [isUsed_eq, free] at used
    simp at used
  · exact .inr ⟨found, by rw [delete, if_neg found]⟩

theorem delete_eq_ok {page changed : Page} {row : RowId} (done : page.delete (some row) = .ok changed) :
    changed = page.putAt row.slot none := by
  rcases page.delete_cases row with ⟨-, -, -, same⟩ | ⟨-, refused⟩
  · cases done.symm.trans same
    rfl
  · exact absurd (done.symm.trans refused) (by simp)

/-! ### The rows of a page -/

theorem rows_eq (page : Page) : page.rows = (List.range page.slots.length).filterMap page.row? := by
  have indexed : page.slots.zipIdx = (List.range page.slots.length).map fun slot => (page.valuesAt slot, slot) := by
    apply List.ext_getElem
    · rw [List.length_zipIdx, List.length_map, List.length_range]
    · intro slot inside _
      rw [List.length_zipIdx] at inside
      rw [List.getElem_zipIdx, List.getElem_map, List.getElem_range, valuesAt,
        List.getElem?_eq_getElem inside, Option.join_some, Nat.zero_add]
  rw [rows, indexed, List.filterMap_map]
  rfl

end RowStore.Page
