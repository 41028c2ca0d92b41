import Mathlib
import RowStore.Proofs.Pages
/-!
# What the bytes of a page remember

A page that began blank can be written and read again after any changes, and its bytes say which slots are
used and by which values, and nothing else: what has been done to the page before cannot be told from them,
and a row that was removed leaves nothing behind.
-/

namespace RowStore

inductive PageChange where
  | insert (row : Row)
  | delete (row : Option RowId)
  | mark (dirtier : Option TxnId)

namespace PageChange

/-- A change that is refused leaves the page as it is. -/
def apply (page : Page) : PageChange → Page
  | .insert row =>
    match page.insert row with
    | .ok (changed, _) => changed
    | .error _ => page
  | .delete row =>
    match page.delete row with
    | .ok changed => changed
    | .error _ => page
  | .mark none => page.markClean
  | .mark (some txn) => page.markDirty txn

/-- A row that is put in has been made in the checked way. -/
def Checked : PageChange → Prop
  | .insert row => ∃ made, Row.build row.schema row.values = .ok made
  | _ => True

end PageChange

namespace Page

def after (page : Page) (changes : List PageChange) : Page := changes.foldl PageChange.apply page

/-- The page has kept what it began with: its place, its schema and its size, and no bit is set past its slots. -/
structure Began (id : PageId) (schema : Schema) (size : Nat) (page : Page) : Prop where
  spare : page.spare = List.replicate (8 * Bitmap.size (capacity size schema) - capacity size schema) false
  sound : page.Sound
  id : page.id = id
  schema : page.schema = schema
  size : page.size = size

section

variable {id : PageId} {schema : Schema} {size : Nat} {page : Page}

theorem began_blank (id : PageId) (schema : Schema) (size : Nat) : (blank id schema size).Began id schema size :=
  ⟨rfl, sound_blank id schema size, rfl, rfl, rfl⟩

theorem Began.length_slots (began : page.Began id schema size) : page.slots.length = capacity size schema := by
  rw [began.sound.slots, began.size, began.schema]

theorem Began.began_putAt (began : page.Began id schema size) (slot : Nat) (content : Option (List Value))
    (fits : ∀ values, content = some values → Row.Fits values schema.types) :
    (page.putAt slot content).Began id schema size := by
  refine ⟨began.spare, began.sound.sound_putAt slot content ?_, began.id, began.schema, began.size⟩
  rw [began.schema]
  exact fits

theorem Began.began_apply (began : page.Began id schema size) (change : PageChange) (checked : change.Checked) :
    (change.apply page).Began id schema size := by
  cases change with
  | insert row =>
    obtain ⟨made, built⟩ := checked
    rw [PageChange.apply]
    rcases page.insert_cases row with ⟨-, refused⟩ | ⟨-, -, refused⟩ | ⟨slot, -, same, -, -, done⟩
    · rw [refused]
      exact began
    · rw [refused]
      exact began
    · rw [done]
      apply began.began_putAt
      rintro values ⟨⟩
      obtain ⟨fits, -⟩ := (Row.build_eq_ok_iff row.schema row.values made).mp built
      rw [of_decide_eq_true same, began.schema] at fits
      exact fits
  | delete row =>
    rw [PageChange.apply]
    cases row with
    | none => exact began
    | some row =>
      rcases page.delete_cases row with ⟨-, -, -, done⟩ | ⟨-, refused⟩
      · rw [done]
        exact began.began_putAt row.slot none fun values held => absurd held (by simp)
      · rw [refused]
        exact began
  | mark dirtier =>
    cases dirtier with
    | none => exact ⟨began.spare, began.sound.sound_markClean, began.id, began.schema, began.size⟩
    | some txn => exact ⟨began.spare, began.sound.sound_markDirty txn, began.id, began.schema, began.size⟩

theorem Began.began_after (began : page.Began id schema size) (changes : List PageChange)
    (checked : ∀ change ∈ changes, change.Checked) : (page.after changes).Began id schema size := by
  induction changes generalizing page with
  | nil => exact began
  | cons change rest ih =>
    have next := began.began_apply change (checked change List.mem_cons_self)
    exact ih next fun other later => checked other (List.mem_cons_of_mem _ later)

/-! ### What is in the bytes -/

theorem slots_eq_of_valuesAt {page other : Page} (length : page.slots.length = other.slots.length)
    (same : ∀ slot, page.valuesAt slot = other.valuesAt slot) : page.slots = other.slots := by
  apply List.ext_getElem length
  intro slot inside inside'
  have here := same slot
  rw [valuesAt, valuesAt, List.getElem?_eq_getElem inside, List.getElem?_eq_getElem inside', Option.join_some,
    Option.join_some] at here
  exact here

theorem encodeSlot_congr {schema schema' : Schema} (types : schema'.types = schema.types)
    (slot : Option (List Value)) : encodeSlot schema' slot = encodeSlot schema slot := by
  cases slot with
  | none => rw [encodeSlot, encodeSlot, Schema.recordSize, Schema.recordSize, types]
  | some values => rw [encodeSlot, encodeSlot, types]

theorem capacity_congr {schema schema' : Schema} (types : schema'.types = schema.types) (size : Nat) :
    capacity size schema' = capacity size schema := by
  rw [capacity, capacity, Schema.recordSize, Schema.recordSize, types]

/-- Whatever has been done to the two pages, they are written alike if they hold the same. -/
theorem Began.encode_eq {other : Page} {id' : PageId} {schema' : Schema} (began : page.Began id schema size)
    (began' : other.Began id' schema' size) (types : schema'.types = schema.types)
    (same : ∀ slot, other.valuesAt slot = page.valuesAt slot) : other.encode = page.encode := by
  have slots : other.slots = page.slots := by
    apply slots_eq_of_valuesAt _ same
    rw [began.length_slots, began'.length_slots, capacity_congr types]
  have spare : other.spare = page.spare := by rw [began.spare, began'.spare, capacity_congr types]
  have bits : other.bits = page.bits := by rw [bits, bits, slots, spare]
  have records : other.slots.flatMap (encodeSlot other.schema) = page.slots.flatMap (encodeSlot page.schema) := by
    rw [slots, began.schema, began'.schema]
    exact List.flatMap_congr fun slot _ => encodeSlot_congr types slot
  rw [encode, encode, bits, records, began.size, began'.size]

theorem row?_markClean (page : Page) (slot : Nat) : page.markClean.row? slot = page.row? slot := rfl

theorem Sound.region_free (sound : page.Sound) {slot : Nat} (inside : slot < page.slots.length)
    (free : page.valuesAt slot = none) :
    page.encode.region (Bitmap.size page.slots.length + slot * page.schema.recordSize) page.schema.recordSize =
      Bytes.zeros page.schema.recordSize := by
  have empty : page.slots[slot] = none := by
    rw [valuesAt, List.getElem?_eq_getElem inside, Option.join_some] at free
    exact free
  rw [Bytes.region, encode, List.rightpad, List.append_assoc, ← List.drop_drop,
    List.drop_left' (sound.to_shaped.length_pack_bits page),
    take_drop_flatMap_of_length _ _ _ (sound.to_shaped.length_encodeSlot page) slot inside, empty, encodeSlot]

theorem delete_insert {row : Row} {stored : Page} {location : RowId}
    (inserted : page.insert row = .ok (stored, location)) : stored.delete (some location) = .ok page := by
  obtain ⟨slot, inside, free, rfl, rfl⟩ := insert_eq_ok inserted
  have used : (page.putAt slot (some row.values)).isUsed slot := by
    rw [isUsed_eq, valuesAt_putAt page slot slot _ inside, if_pos rfl]
    rfl
  have empty : page.slots[slot] = none := by
    rw [valuesAt, List.getElem?_eq_getElem inside, Option.join_some] at free
    exact free
  have restored : (page.slots.set slot (some row.values)).set slot none = page.slots := by
    rw [List.set_set, ← empty, List.set_getElem_self]
  rw [delete, if_pos ⟨rfl, used⟩]
  show Except.ok { page with slots := (page.slots.set slot (some row.values)).set slot none } = _
  rw [restored]

end

/-- After any changes a page that began blank is written in exactly its size, and what is read again is clean
and has the same bits and in every slot the same row. What is written depends on nothing but which slots are
used and by which values: a page with another place or other names of columns, or with another past, is
written alike if it holds the same. So the bytes are restored when a row is put in and removed again, and a
slot that is free has no bytes but zeros. -/
theorem bytes_tell_slots_and_no_past (id : PageId) (schema : Schema) (size : Nat) (changes : List PageChange)
    (checked : ∀ change ∈ changes, change.Checked) :
    let page := (blank id schema size).after changes
    page.encode.length = size ∧
    (∃ read, decode? id schema page.encode = some read ∧ read.bits = page.bits ∧
      (∀ slot, read.row? slot = page.row? slot) ∧ read.isDirty = false) ∧
    (∀ (id' : PageId) (schema' : Schema) (past : List PageChange), schema'.types = schema.types →
      (∀ change ∈ past, change.Checked) →
      (∀ slot, ((blank id' schema' size).after past).valuesAt slot = page.valuesAt slot) →
      ((blank id' schema' size).after past).encode = page.encode) ∧
    (∀ row stored location, page.insert row = .ok (stored, location) →
      ∃ restored, stored.delete (some location) = .ok restored ∧ restored.encode = page.encode) ∧
    ∀ slot < capacity size schema, page.valuesAt slot = none →
      page.encode.region (Bitmap.size (capacity size schema) + slot * schema.recordSize) schema.recordSize =
        Bytes.zeros schema.recordSize := by
  intro page
  have began : page.Began id schema size := (began_blank id schema size).began_after changes checked
  refine ⟨?_, ?_, ?_, ?_, ?_⟩
  · rw [began.sound.length_encode, began.size]
  · refine ⟨page.markClean, ?_, rfl, page.row?_markClean, rfl⟩
    have read := began.sound.decode?_encode
    rw [began.id, began.schema] at read
    exact read
  · intro id' schema' past types checked' same
    exact began.encode_eq ((began_blank id' schema' size).began_after past checked') types same
  · intro row stored location inserted
    exact ⟨page, delete_insert inserted, rfl⟩
  · intro slot inside free
    have region := began.sound.region_free (show slot < page.slots.length by rw [began.length_slots]; exact inside) free
    rw [began.length_slots, began.schema] at region
    exact region

/-- Three rows have come and two have gone, and the last one has the slot of the first. -/
def refilled : List PageChange :=
  let row (n : Int32) (s : String) : PageChange :=
    .insert ⟨⟨[⟨some "n", .int⟩, ⟨some "s", .text 5⟩]⟩, [.int n, .text s], none⟩
  [row 7 "seven", row 2 "δύ", .mark (some ⟨3⟩), .delete (some ⟨⟨⟨1⟩, 4⟩, 0⟩), row 9 "", .delete (some ⟨⟨⟨1⟩, 4⟩, 1⟩)]

def filledOnce : List PageChange := [.insert ⟨⟨[⟨none, .int⟩, ⟨none, .text 5⟩]⟩, [.int 9, .text ""], none⟩]

theorem refilled_is_written_as_filledOnce :
    ((blank ⟨⟨2⟩, 0⟩ ⟨[⟨none, .int⟩, ⟨none, .text 5⟩]⟩ 30).after filledOnce).encode =
      ((blank ⟨⟨1⟩, 4⟩ ⟨[⟨some "n", .int⟩, ⟨some "s", .text 5⟩]⟩ 30).after refilled).encode := by
  have checked : ∀ change ∈ refilled, change.Checked := by
    simp only [refilled, List.forall_mem_cons, PageChange.Checked]
    exact ⟨⟨_, rfl⟩, ⟨_, rfl⟩, trivial, trivial, ⟨_, rfl⟩, trivial, by simp⟩
  have checked' : ∀ change ∈ filledOnce, change.Checked := by
    simp only [filledOnce, List.forall_mem_cons, PageChange.Checked]
    exact ⟨⟨_, rfl⟩, by simp⟩
  have slots : ((blank ⟨⟨2⟩, 0⟩ ⟨[⟨none, .int⟩, ⟨none, .text 5⟩]⟩ 30).after filledOnce).slots =
      ((blank ⟨⟨1⟩, 4⟩ ⟨[⟨some "n", .int⟩, ⟨some "s", .text 5⟩]⟩ 30).after refilled).slots := by cbv
  obtain ⟨-, -, alike, -⟩ := bytes_tell_slots_and_no_past ⟨⟨1⟩, 4⟩ ⟨[⟨some "n", .int⟩, ⟨some "s", .text 5⟩]⟩ 30
    refilled checked
  refine alike ⟨⟨2⟩, 0⟩ ⟨[⟨none, .int⟩, ⟨none, .text 5⟩]⟩ filledOnce rfl checked' ?_
  intro slot
  rw [valuesAt, valuesAt, slots]

end Page

end RowStore
