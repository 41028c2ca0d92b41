import Mathlib
import RowStore.Proofs.BitMasks
import RowStore.Proofs.PageHistory
import RowStore.Proofs.Rereading
/-!
# The page beside its bits

In memory a page keeps the bytes of its bits as they were read and, beside them, the rows of its slots. A slot
is looked up and changed in both: its bit by a mask in byte `slot / 8`, its row by its number. Here the page
stands in that form, with every index and every slice checked, and is shown to be the page of which all the
rest is said: the two never disagree, whatever the page was read from and whatever is put in or removed, and
no index is ever past an end.
-/

namespace RowStore

structure HeapPage where
  id : PageId
  schema : Schema
  size : Nat
  /-- The bytes of the bits. -/
  header : Bytes
  slots : List (Option Row)
  dirtier : Option TxnId

namespace HeapPage

/-- The bytes from `start` up to `stop`, nothing if they end before it. -/
def slice? (data : Bytes) (start stop : Nat) : Option Bytes :=
  if start ≤ stop ∧ stop ≤ data.length then some (data.extract start stop) else none

def empty (id : PageId) (schema : Schema) (size : Nat) : HeapPage :=
  let count := Page.capacity size schema
  { id, schema, size
    header := Bytes.zeros (Bitmap.size count)
    slots := List.replicate count none
    dirtier := none }

/-- What the slot holds whose record begins at `start`. -/
def readSlot (id : PageId) (schema : Schema) (data header : Bytes) (slot start : Nat) :
    ExceptT Fault Option (Option Row) := do
  let used ← liftM (Bitmap.bit? header slot)
  if used then
    let record ← liftM (slice? data start (start + schema.recordSize))
    match (Row.decode schema record).1 with
    | none => throw (.corruptPage id)
    | some row => return some (row.placed (some ⟨id, slot⟩))
  else return none

def ofBytes (id : PageId) (schema : Schema) (data : Bytes) : ExceptT Fault Option HeapPage := do
  let count := Page.capacity data.length schema
  let first := Bitmap.size count
  if first + count * schema.recordSize > data.length then throw (.corruptPage id)
  else
    let header ← liftM (slice? data 0 first)
    let slots ← (List.range count).mapM fun slot =>
      readSlot id schema data header slot (first + slot * schema.recordSize)
    return { id, schema, size := data.length, header, slots, dirtier := none }

/-- The bytes of the page, nothing if they are more than its size. -/
def toBytes (page : HeapPage) : Option Bytes :=
  let written := page.header ++ page.slots.flatMap fun slot =>
    (slot.map Row.encode).getD (Bytes.zeros page.schema.recordSize)
  if written.length ≤ page.size then some (written ++ Bytes.zeros (page.size - written.length)) else none

def row? (page : HeapPage) (slot : Nat) : Option Row := page.slots[slot]?.join

def isUsed (page : HeapPage) (slot : Nat) : Option Bool :=
  if slot < page.slots.length then Bitmap.bit? page.header slot else some false

def freeSlots (page : HeapPage) : Option Nat := do
  let free ← (List.range page.slots.length).filterM fun slot => not <$> page.isUsed slot
  return free.length

def rows (page : HeapPage) : Option (List Row) := do
  let used ← (List.range page.slots.length).filterM page.isUsed
  let held ← used.mapM fun slot => page.slots[slot]?
  return held.reduceOption

/-- The bit first, then the row. -/
def store (page : HeapPage) (slot : Nat) (content : Option Row) : Option HeapPage := do
  let header ← Bitmap.setBit? page.header slot content.isSome
  if slot < page.slots.length then return { page with header, slots := page.slots.set slot content } else none

def firstFree (page : HeapPage) : Option (Option Nat) :=
  (List.range page.slots.length).findM? fun slot => not <$> page.isUsed slot

/-- The row goes to the lowest free slot. Answers the page and the row as they are then. -/
def insert (page : HeapPage) (row : Row) : Option (HeapPage × Row × Except Fault RowId) :=
  if row.schema.sameTypes page.schema then do
    match ← page.firstFree with
    | none => return (page, row, .error (.pageFull page.id))
    | some slot =>
      let row := row.placed (some ⟨page.id, slot⟩)
      let changed ← page.store slot (some (row.under page.schema))
      return (changed, row, .ok ⟨page.id, slot⟩)
  else return (page, row, .error (.schemaMismatch page.schema row.schema))

/-- Whether the row's place is on the page and used. The bit is looked up only on the right page. -/
def holds (page : HeapPage) (row : RowId) : Option Bool :=
  if row.page = page.id then page.isUsed row.slot else some false

def delete (page : HeapPage) : Option RowId → Option (HeapPage × Except Fault Unit)
  | none => some (page, .error .rowWithoutLocation)
  | some row => do
    if ← page.holds row then
      let changed ← page.store row.slot none
      return (changed, .ok ())
    else return (page, .error (.rowNotFound row))

/-- A change that is refused leaves the page as it was answered. -/
def apply (page : HeapPage) : PageChange → Option HeapPage
  | .insert row => (page.insert row).map fun answer => answer.1
  | .delete row => (page.delete row).map fun answer => answer.1
  | .mark dirtier => some { page with dirtier }

/-- The page after the changes, nothing if an index was past an end. -/
def after (page : HeapPage) (changes : List PageChange) : Option HeapPage := changes.foldlM apply page

/-- The same page with its bits as they are seen everywhere else. -/
def toPage (page : HeapPage) : Page where
  id := page.id
  schema := page.schema
  size := page.size
  slots := page.slots.map (Option.map Row.values)
  spare := (Bitmap.unpack page.header).drop page.slots.length
  dirtier := page.dirtier

/-- Bits and slots agree, and a row knows where it is. -/
structure Kept (page : HeapPage) : Prop where
  count : page.slots.length = Page.capacity page.size page.schema
  header : page.header.length = Bitmap.size page.slots.length
  bits : ∀ slot < page.slots.length, Bitmap.bit? page.header slot = some (page.row? slot).isSome
  rows : ∀ slot row, page.row? slot = some row → row.schema = page.schema ∧ row.location = some ⟨page.id, slot⟩

/-- The page with other contents in one slot and in its bit, and nothing else changed. -/
structure ChangedAt (page : HeapPage) (slot : Nat) (content : Option Row) (changed : HeapPage) : Prop where
  slots : changed = { page with header := changed.header, slots := page.slots.set slot content }
  bits : ∀ bit, Bitmap.bit? changed.header bit =
    if bit = slot then some content.isSome else Bitmap.bit? page.header bit

/-- What it comes to when a row is put in: the page, the row and the answer there are then. -/
inductive Inserted (page : HeapPage) (row : Row) : HeapPage × Row × Except Fault RowId → Prop where
  | mismatched (other : row.schema.types ≠ page.schema.types) :
      Inserted page row (page, row, .error (.schemaMismatch page.schema row.schema))
  | full (same : row.schema.types = page.schema.types) (used : ∀ slot < page.slots.length, (page.row? slot).isSome) :
      Inserted page row (page, row, .error (.pageFull page.id))
  | stored (same : row.schema.types = page.schema.types) {slot : Nat} (inside : slot < page.slots.length)
      (free : page.row? slot = none) (lowest : ∀ lower < slot, (page.row? lower).isSome) {changed : HeapPage}
      (only : page.ChangedAt slot (some ⟨page.schema, row.values, some ⟨page.id, slot⟩⟩) changed) :
      Inserted page row (changed, row.placed (some ⟨page.id, slot⟩), .ok ⟨page.id, slot⟩)

/-- What it comes to when the row of that place is removed. -/
inductive Deleted (page : HeapPage) : Option RowId → HeapPage × Except Fault Unit → Prop where
  | unplaced : Deleted page none (page, .error .rowWithoutLocation)
  | missing {row : RowId} (absent : ¬(row.page = page.id ∧ (page.row? row.slot).isSome)) :
      Deleted page (some row) (page, .error (.rowNotFound row))
  | removed {row : RowId} (here : row.page = page.id) (used : (page.row? row.slot).isSome) {changed : HeapPage}
      (only : page.ChangedAt row.slot none changed) : Deleted page (some row) (changed, .ok ())

theorem ChangedAt.frame_eq {page changed : HeapPage} {slot : Nat} {content : Option Row}
    (only : page.ChangedAt slot content changed) :
    changed.id = page.id ∧ changed.schema = page.schema ∧ changed.size = page.size := by
  rw [only.slots]
  exact ⟨rfl, rfl, rfl⟩

/-- The page answers as the one of which all the rest is said. -/
structure Answers (page : HeapPage) (plain : Page) : Prop where
  same : page.toPage = plain
  rows : page.rows = some plain.rows
  freeSlots : page.freeSlots = some plain.freeSlots
  isUsed : ∀ slot, page.isUsed slot = some (plain.isUsed slot)
  insert : ∀ row, ∃ changed after answer, page.insert row = some (changed, after, answer) ∧
    plain.insert row = answer.map fun location => (changed.toPage, location)
  delete : ∀ row, ∃ changed answer, page.delete row = some (changed, answer) ∧
    plain.delete row = answer.map fun _ => changed.toPage

/-! ### Reading the slots and their bits -/

theorem mapM_eq_pure {m : Type → Type} [Monad m] [LawfulMonad m] {α β : Type} {f : α → m β} {g : α → β}
    {list : List α} (each : ∀ a ∈ list, f a = pure (g a)) : list.mapM f = pure (list.map g) := by
  induction list with
  | nil => rfl
  | cons a rest ih =>
    obtain ⟨first, later⟩ := List.forall_mem_cons.mp each
    rw [List.mapM_cons, first, ih later]
    simp

theorem filterM_some {α : Type} (test : α → Bool) (list : List α) :
    list.filterM (fun a => some (test a)) = some (list.filter test) := by
  have aux (passed : List α) :
      list.filterAuxM (fun a => some (test a)) passed = some ((list.filter test).reverse ++ passed) := by
    induction list generalizing passed with
    | nil => rfl
    | cons a rest ih => cases here : test a <;> simp [List.filterAuxM, here, ih]
  simp [List.filterM, aux]

theorem slots_eq_map (page : HeapPage) : page.slots = (List.range page.slots.length).map page.row? := by
  apply List.ext_getElem (by simp)
  intro slot inside _
  rw [List.getElem_map, List.getElem_range, row?, List.getElem?_eq_getElem inside, Option.join_some]

theorem valuesAt_toPage (page : HeapPage) (slot : Nat) :
    page.toPage.valuesAt slot = (page.row? slot).map Row.values := by
  rw [Page.valuesAt, toPage, List.getElem?_map, row?]
  cases page.slots[slot]? with
  | none => rfl
  | some held => cases held <;> rfl

theorem isUsed_toPage (page : HeapPage) (slot : Nat) : page.toPage.isUsed slot = (page.row? slot).isSome := by
  rw [Page.isUsed_eq, valuesAt_toPage, Option.isSome_map]

section

variable {page : HeapPage} (kept : page.Kept)

include kept

theorem Kept.isUsed_eq : page.isUsed = fun slot => some (page.row? slot).isSome := by
  ext1 slot
  rw [HeapPage.isUsed]
  split
  case isTrue inside => exact kept.bits slot inside
  case isFalse past => rw [row?, List.getElem?_eq_none (by omega), Option.join_none, Option.isSome_none]

theorem Kept.isFree_eq : (fun slot => not <$> page.isUsed slot) = fun slot => some (page.row? slot).isNone := by
  ext1 slot
  rw [kept.isUsed_eq, Option.map_eq_map, Option.map_some, Option.not_isSome]

theorem Kept.firstFree_eq :
    page.firstFree = some ((List.range page.slots.length).find? fun slot => (page.row? slot).isNone) := by
  rw [HeapPage.firstFree, kept.isFree_eq]
  exact List.findM?_pure _ _

theorem Kept.holds_eq (row : RowId) :
    page.holds row = some (decide (row.page = page.id ∧ (page.row? row.slot).isSome)) := by
  rw [HeapPage.holds, kept.isUsed_eq]
  split <;> simp_all

theorem Kept.freeSlots_eq :
    page.freeSlots = some ((List.range page.slots.length).countP fun slot => (page.row? slot).isNone) := by
  rw [HeapPage.freeSlots, kept.isFree_eq, filterM_some, List.countP_eq_length_filter]
  rfl

theorem Kept.freeSlots_toPage : page.freeSlots = some page.toPage.freeSlots := by
  rw [kept.freeSlots_eq, Page.freeSlots, toPage, slots_eq_map, List.countP_map, List.countP_map, List.length_map,
    List.length_range]
  congr 2
  ext1 slot
  rw [Function.comp_apply, Function.comp_apply, Option.isNone_map]

theorem Kept.rows_eq : page.rows = some ((List.range page.slots.length).filterMap page.row?) := by
  have held : ((List.range page.slots.length).filter fun slot => (page.row? slot).isSome).mapM
      (fun slot => page.slots[slot]?) =
      some (((List.range page.slots.length).filter fun slot => (page.row? slot).isSome).map page.row?) := by
    apply mapM_eq_pure
    intro slot used
    have inside := List.mem_range.mp (List.mem_filter.mp used).1
    rw [row?, List.getElem?_eq_getElem inside, Option.join_some]
    rfl
  rw [HeapPage.rows, kept.isUsed_eq, filterM_some]
  simp only [Option.bind_eq_bind, Option.bind_some, held]
  rw [List.reduceOption, List.filterMap_map, List.filterMap_filter]
  congr 2
  ext1 slot
  cases held : page.row? slot <;> simp [held]

theorem Kept.row?_toPage (slot : Nat) : page.toPage.row? slot = page.row? slot := by
  have values := page.valuesAt_toPage slot
  rw [Page.valuesAt] at values
  rw [Page.row?, values]
  cases held : page.row? slot with
  | none => rfl
  | some row =>
    obtain ⟨schema, location⟩ := kept.rows slot row held
    cases row
    cases schema
    cases location
    rfl

theorem Kept.rows_toPage : page.rows = some page.toPage.rows := by
  rw [kept.rows_eq, Page.rows_eq, toPage, List.length_map]
  congr 2
  ext1 slot
  exact (kept.row?_toPage slot).symm

end

/-! ### Changing a slot and its bit -/

theorem row?_set {page : HeapPage} {slot : Nat} (inside : slot < page.slots.length) (header : Bytes)
    (content : Option Row) (other : Nat) :
    row? { page with header, slots := page.slots.set slot content } other =
      if other = slot then content else page.row? other := by
  rw [row?, List.getElem?_set]
  by_cases same : slot = other
  · rw [if_pos same, if_pos inside, if_pos same.symm, Option.join_some]
  · rw [if_neg same, if_neg (Ne.symm same), row?]

/-- Both are changed together, so that they agree again. -/
theorem Kept.exists_store {page : HeapPage} (kept : page.Kept) {slot : Nat} (inside : slot < page.slots.length)
    (content : Option Row)
    (bound : ∀ row, content = some row → row.schema = page.schema ∧ row.location = some ⟨page.id, slot⟩) :
    ∃ changed, page.store slot content = some changed ∧ changed.Kept ∧ page.ChangedAt slot content changed ∧
      changed.toPage = page.toPage.putAt slot (content.map Row.values) := by
  have whole := Bitmap.size_mul_eight_ge page.slots.length
  rw [← kept.header] at whole
  obtain ⟨header, done, length, bits⟩ := Bitmap.setBit?_eq_some page.header slot content.isSome (by omega)
  have changed (bit : Nat) : Bitmap.bit? header bit =
      if bit = slot then some content.isSome else Bitmap.bit? page.header bit := by
    rw [Bitmap.bit?_eq_getElem?, bits, List.getElem?_set, Bitmap.bit?_eq_getElem?]
    by_cases same : slot = bit
    · rw [if_pos same, if_pos same.symm, Bitmap.length_unpack, if_pos (by omega)]
    · rw [if_neg same, if_neg (Ne.symm same)]
  refine ⟨{ page with header, slots := page.slots.set slot content }, ?_, ⟨?_, ?_, ?_, ?_⟩, ⟨rfl, changed⟩, ?_⟩
  · rw [HeapPage.store, done]
    simp only [Option.bind_eq_bind, Option.bind_some, if_pos inside]
    rfl
  · rw [List.length_set]
    exact kept.count
  · rw [List.length_set, length, kept.header]
  · intro other within
    rw [List.length_set] at within
    rw [changed, row?_set inside]
    split
    · rfl
    · exact kept.bits other within
  · intro other row held
    rw [row?_set inside] at held
    split at held
    case isTrue same => exact same ▸ bound row held
    case isFalse => exact kept.rows other row held
  · rw [toPage, Page.putAt, toPage, bits, List.length_set, List.drop_set_of_lt inside, List.map_set]

section

variable {page : HeapPage} (kept : page.Kept)

include kept

theorem Kept.exists_insert (row : Row) :
    ∃ changed after answer, page.insert row = some (changed, after, answer) ∧
      page.Inserted row (changed, after, answer) ∧ changed.Kept ∧
      page.toPage.insert row = answer.map fun location => (changed.toPage, location) := by
  have length : page.toPage.slots.length = page.slots.length := List.length_map _
  rw [HeapPage.insert, kept.firstFree_eq]
  rcases page.toPage.insert_cases row with ⟨other, refused⟩ | ⟨same, used, refused⟩ |
      ⟨slot, inside, same, free, lowest, done⟩
  · have mismatched : row.schema.types ≠ page.schema.types := fun same => other (decide_eq_true same)
    exact ⟨page, row, _, if_neg other, .mismatched mismatched, kept, refused⟩
  · simp only [length, isUsed_toPage] at used
    have search : ((List.range page.slots.length).find? fun slot => (page.row? slot).isNone) = none := by
      rw [List.find?_range_eq_none]
      intro slot inside
      rw [Option.not_isNone, used slot inside]
    refine ⟨page, row, .error (.pageFull page.id), ?_, .full (of_decide_eq_true same) used, kept, refused⟩
    rw [if_pos (show row.schema.sameTypes page.schema from same), search]
    rfl
  · simp only [length, isUsed_toPage] at inside lowest
    rw [valuesAt_toPage, Option.map_eq_none_iff] at free
    have search : ((List.range page.slots.length).find? fun slot => (page.row? slot).isNone) = some slot := by
      rw [List.find?_range_eq_some]
      refine ⟨by rw [free, Option.isNone_none], List.mem_range.mpr inside, ?_⟩
      intro lower less
      rw [Option.not_isNone, lowest lower less]
    obtain ⟨changed, stored, again, only, same'⟩ := kept.exists_store inside
      (some ⟨page.schema, row.values, some ⟨page.id, slot⟩⟩) (by rintro _ ⟨⟩; exact ⟨rfl, rfl⟩)
    refine ⟨changed, row.placed (some ⟨page.id, slot⟩), .ok ⟨page.id, slot⟩, ?_,
      .stored (of_decide_eq_true same) inside free lowest only, again, ?_⟩
    · rw [if_pos (show row.schema.sameTypes page.schema from same), search]
      change ((page.store slot (some ⟨page.schema, row.values, some ⟨page.id, slot⟩⟩)).bind _) = _
      rw [stored]
      rfl
    · rw [done, same']
      rfl

theorem Kept.exists_delete (row : Option RowId) :
    ∃ changed answer, page.delete row = some (changed, answer) ∧ page.Deleted row (changed, answer) ∧ changed.Kept ∧
      page.toPage.delete row = answer.map fun _ => changed.toPage := by
  cases row with
  | none => exact ⟨page, _, rfl, .unplaced, kept, rfl⟩
  | some row =>
    have cases := page.toPage.delete_cases row
    simp only [valuesAt_toPage, Option.isSome_map] at cases
    rw [HeapPage.delete, kept.holds_eq]
    rcases cases with ⟨here, used, inside, done⟩ | ⟨absent, refused⟩
    · have inside : row.slot < page.slots.length := by
        rw [toPage, List.length_map] at inside
        exact inside
      obtain ⟨changed, stored, again, only, same⟩ := kept.exists_store inside none (by simp)
      refine ⟨changed, .ok (), ?_, .removed here used only, again, ?_⟩
      · rw [decide_eq_true ⟨here, used⟩]
        change (page.store row.slot none).bind _ = _
        rw [stored]
        rfl
      · rw [done, same]
        rfl
    · refine ⟨page, .error (.rowNotFound row), ?_, .missing absent, kept, refused⟩
      rw [decide_eq_false (show ¬(row.page = page.id ∧ (page.row? row.slot).isSome) from absent)]
      rfl

theorem Kept.exists_apply (change : PageChange) :
    ∃ changed, page.apply change = some changed ∧ changed.Kept ∧ changed.toPage = change.apply page.toPage ∧
      changed.id = page.id ∧ changed.schema = page.schema ∧ changed.size = page.size := by
  cases change with
  | insert row =>
    obtain ⟨changed, after, answer, done, inserted, again, same⟩ := kept.exists_insert row
    refine ⟨changed, by rw [HeapPage.apply, done]; rfl, again, ?_, ?_⟩
    · rw [PageChange.apply, same]
      cases inserted <;> rfl
    · cases inserted with
      | mismatched => exact ⟨rfl, rfl, rfl⟩
      | full => exact ⟨rfl, rfl, rfl⟩
      | stored _ _ _ _ only => exact only.frame_eq
  | delete row =>
    obtain ⟨changed, answer, done, deleted, again, same⟩ := kept.exists_delete row
    refine ⟨changed, by rw [HeapPage.apply, done]; rfl, again, ?_, ?_⟩
    · rw [PageChange.apply, same]
      cases deleted <;> rfl
    · cases deleted with
      | unplaced => exact ⟨rfl, rfl, rfl⟩
      | missing => exact ⟨rfl, rfl, rfl⟩
      | removed _ _ only => exact only.frame_eq
  | mark dirtier =>
    refine ⟨{ page with dirtier }, rfl, ⟨kept.count, kept.header, kept.bits, kept.rows⟩, ?_, rfl, rfl, rfl⟩
    cases dirtier <;> rfl

omit kept in
theorem Kept.exists_after (kept : page.Kept) (changes : List PageChange) :
    ∃ changed, page.after changes = some changed ∧ changed.Kept ∧ changed.toPage = page.toPage.after changes ∧
      changed.id = page.id ∧ changed.schema = page.schema ∧ changed.size = page.size := by
  induction changes generalizing page with
  | nil => exact ⟨page, rfl, kept, rfl, rfl, rfl, rfl⟩
  | cons change rest ih =>
    obtain ⟨next, done, again, same, id, schema, size⟩ := kept.exists_apply change
    obtain ⟨last, later, lastly, same', id', schema', size'⟩ := ih again
    refine ⟨last, ?_, lastly, ?_, id'.trans id, schema'.trans schema, size'.trans size⟩
    · rw [HeapPage.after, List.foldlM_cons, done]
      exact later
    · rw [same', same]
      rfl

theorem Kept.answers_toPage : page.Answers page.toPage where
  same := rfl
  rows := kept.rows_toPage
  freeSlots := kept.freeSlots_toPage
  isUsed slot := by rw [kept.isUsed_eq, isUsed_toPage]
  insert row := by
    obtain ⟨changed, after, answer, done, -, -, same⟩ := kept.exists_insert row
    exact ⟨changed, after, answer, done, same⟩
  delete row := by
    obtain ⟨changed, answer, done, -, -, same⟩ := kept.exists_delete row
    exact ⟨changed, answer, done, same⟩

end

/-! ### Where a page comes from -/

theorem unpack_zeros (count : Nat) : Bitmap.unpack (Bytes.zeros count) = List.replicate (8 * count) false := by
  rw [← Bitmap.pack_clear, Bitmap.unpack_pack _ (by rw [List.length_replicate]; exact Nat.dvd_mul_right 8 _)]

theorem kept_empty (id : PageId) (schema : Schema) (size : Nat) : (empty id schema size).Kept where
  count := List.length_replicate
  header := by rw [empty, Bytes.length_zeros, List.length_replicate]
  bits slot inside := by
    have room := Bitmap.size_mul_eight_ge (Page.capacity size schema)
    rw [empty, List.length_replicate] at inside
    rw [empty, row?, Bitmap.bit?_eq_getElem?, unpack_zeros, List.getElem?_replicate, if_pos (by omega),
      List.getElem?_replicate, if_pos inside]
    rfl
  rows slot row held := by
    rw [row?, empty, List.getElem?_replicate] at held
    split at held <;> simp at held

theorem toPage_empty (id : PageId) (schema : Schema) (size : Nat) :
    (empty id schema size).toPage = Page.blank id schema size := by
  rw [toPage, empty, unpack_zeros, List.drop_replicate, List.map_replicate, List.length_replicate]
  rfl

section Reading

variable (id : PageId) (schema : Schema) (data : Bytes)

/-- A record of full length is read, whatever is in it. -/
theorem readSlot_eq {header : Bytes} {slot start : Nat} {used : Bool} {values : List Value}
    (bit : Bitmap.bit? header slot = some used) (fits : start + schema.recordSize ≤ data.length)
    (read : (Row.decodeValues schema.types (data.extract start (start + schema.recordSize))).1 = some values) :
    readSlot id schema data header slot start =
      pure (if used then some ⟨schema, values, some ⟨id, slot⟩⟩ else none) := by
  have sliced : slice? data start (start + schema.recordSize) =
      some (data.extract start (start + schema.recordSize)) := if_pos ⟨Nat.le_add_right _ _, fits⟩
  have decoded : (Row.decode schema (data.extract start (start + schema.recordSize))).1 =
      some ⟨schema, values, none⟩ := congrArg (Option.map fun values => (⟨schema, values, none⟩ : Row)) read
  rw [readSlot, bit, sliced]
  cases used with
  | false => rfl
  | true =>
    change (match (Row.decode schema (data.extract start (start + schema.recordSize))).1 with
      | none => throw (Fault.corruptPage id)
      | some row => pure (some (row.placed (some ⟨id, slot⟩))) : ExceptT Fault Option (Option Row)) = _
    rw [decoded]
    rfl

/-- Every slot of every page can be read, as it is everywhere else. -/
theorem exists_readSlot {slot : Nat} (inside : slot < Page.capacity data.length schema) :
    let first := Bitmap.size (Page.capacity data.length schema)
    ∃ content : Option Row,
      readSlot id schema data (data.take first) slot (first + slot * schema.recordSize) = pure content ∧
      Page.decodeSlot? schema data.toArray (first + slot * schema.recordSize)
        ((Bitmap.unpack (data.take first)).toArray.getD slot false) = some (content.map Row.values) ∧
      Bitmap.bit? (data.take first) slot = some content.isSome ∧
      ∀ row, content = some row → row.schema = schema ∧ row.location = some ⟨id, slot⟩ := by
  intro first
  have room := Page.capacity_fits data.length schema
  have below := Nat.mul_le_mul_right schema.recordSize inside
  rw [Nat.succ_mul] at below
  have bits := Bitmap.size_mul_eight_ge (Page.capacity data.length schema)
  have held : slot < (Bitmap.unpack (data.take first)).length := by
    rw [Bitmap.length_unpack, List.length_take]
    omega
  have fits : first + slot * schema.recordSize + schema.recordSize ≤ data.length := by omega
  generalize first + slot * schema.recordSize = start at fits
  have long : schema.recordSize ≤ (data.extract start (start + schema.recordSize)).length := by
    rw [List.extract_eq_take_drop, List.length_take, List.length_drop]
    omega
  obtain ⟨values, -, taken⟩ := Row.decodeValues_of_le long
  have read := congrArg Prod.fst taken
  obtain ⟨used, bit⟩ : ∃ used, Bitmap.bit? (data.take first) slot = some used :=
    ⟨_, by rw [Bitmap.bit?_eq_getElem?, List.getElem?_eq_getElem held]⟩
  have entry : (Bitmap.unpack (data.take first)).toArray.getD slot false = used := by
    rw [Bitmap.bit?_eq_getElem?] at bit
    simp [Array.getD_eq_getD_getElem?, bit]
  refine ⟨_, readSlot_eq id schema data bit fits read, ?_, ?_, ?_⟩
  · rw [entry, Page.decodeSlot?, List.extract_toArray, List.toList_toArray, read]
    cases used <;> rfl
  · cases used <;> exact bit
  · intro row held
    cases used with
    | false => simp at held
    | true =>
      cases held
      exact ⟨rfl, rfl⟩

/-- Any bytes are read, no slice is past their end, and the page is the one that is read everywhere else. -/
theorem exists_ofBytes :
    ∃ page, ofBytes id schema data = pure page ∧ page.Kept ∧ Page.decode? id schema data = some page.toPage ∧
      page.id = id ∧ page.schema = schema ∧ page.size = data.length := by
  have room := Page.capacity_fits data.length schema
  have each (slot : Nat) (inside : slot ∈ List.range (Page.capacity data.length schema)) :=
    exists_readSlot id schema data (List.mem_range.mp inside)
  choose! content read decoded bits bound using each
  have sliced : slice? data 0 (Bitmap.size (Page.capacity data.length schema)) =
      some (data.take (Bitmap.size (Page.capacity data.length schema))) := by
    rw [slice?, if_pos ⟨Nat.zero_le _, by omega⟩, List.extract_eq_take_drop, Nat.sub_zero, List.drop_zero]
  refine ⟨⟨id, schema, data.length, data.take (Bitmap.size (Page.capacity data.length schema)),
    (List.range (Page.capacity data.length schema)).map content, none⟩, ?_, ⟨?_, ?_, ?_, ?_⟩, ?_, rfl, rfl, rfl⟩
  · rw [ofBytes, if_neg (Nat.not_lt.mpr room), sliced]
    change (List.mapM (fun slot => readSlot id schema data _ slot _) _ >>= _) = _
    rw [mapM_eq_pure read]
    rfl
  · rw [List.length_map, List.length_range]
  · rw [List.length_take, List.length_map, List.length_range]
    omega
  · intro slot inside
    rw [List.length_map, List.length_range] at inside
    rw [bits slot (List.mem_range.mpr inside), row?, List.getElem?_map, List.getElem?_range inside]
    rfl
  · intro slot row held
    rw [row?, List.getElem?_map] at held
    obtain ⟨taken, inRange, held⟩ := Option.join_eq_some_iff.mp held |> Option.map_eq_some_iff.mp
    obtain ⟨inside, rfl⟩ := List.getElem?_eq_some_iff.mp inRange
    rw [List.getElem_range] at held
    exact bound slot (List.mem_range.mpr (by rw [List.length_range] at inside; exact inside)) row held
  · have slots : (List.range (Page.capacity data.length schema)).mapM (fun slot =>
        Page.decodeSlot? schema data.toArray
          (Bitmap.size (Page.capacity data.length schema) + slot * schema.recordSize)
          ((Bitmap.unpack (data.take (Bitmap.size (Page.capacity data.length schema)))).toArray.getD slot false)) =
        some ((List.range (Page.capacity data.length schema)).map fun slot => (content slot).map Row.values) :=
      mapM_eq_pure decoded
    rw [Page.decode?, if_neg (Nat.not_lt.mpr room)]
    simp only [slots, Option.bind_eq_bind, Option.bind_some, toPage, List.length_map, List.map_map]
    rfl

end Reading

/-! ### Writing the page -/

theorem Kept.bits_toPage {page : HeapPage} (kept : page.Kept) : page.toPage.bits = Bitmap.unpack page.header := by
  have front : page.slots.map Option.isSome = (Bitmap.unpack page.header).take page.slots.length := by
    apply List.ext_getElem?
    intro slot
    by_cases inside : slot < page.slots.length
    · have bit := kept.bits slot inside
      rw [Bitmap.bit?_eq_getElem?, row?, List.getElem?_eq_getElem inside, Option.join_some] at bit
      rw [List.getElem?_take_of_lt inside, bit, List.getElem?_map, List.getElem?_eq_getElem inside, Option.map_some]
    · rw [List.getElem?_eq_none (by rw [List.length_map]; omega),
        List.getElem?_eq_none (by rw [List.length_take]; omega)]
  have used : page.toPage.slots.map Option.isSome = page.slots.map Option.isSome := by
    rw [toPage, List.map_map]
    apply List.map_congr_left
    intro slot _
    exact Option.isSome_map
  rw [Page.bits, used, front]
  exact List.take_append_drop _ _

/-- Where the page can be written, no more is written than it has room for, and it is what is written everywhere
else. -/
theorem Kept.toBytes_eq_encode {page : HeapPage} (kept : page.Kept) (shaped : page.toPage.Shaped) :
    page.toBytes = some page.toPage.encode := by
  have records : (page.slots.flatMap fun slot => (slot.map Row.encode).getD (Bytes.zeros page.schema.recordSize)) =
      page.toPage.slots.flatMap (Page.encodeSlot page.schema) := by
    rw [toPage, List.flatMap_map]
    apply List.flatMap_congr
    intro slot inPage
    cases slot with
    | none => rfl
    | some row =>
      obtain ⟨number, inside, here⟩ := List.getElem_of_mem inPage
      obtain ⟨schema, -⟩ := kept.rows number row (by rw [row?, List.getElem?_eq_getElem inside, here, Option.join_some])
      rw [Option.map_some, Option.getD_some, Row.encode, schema]
      rfl
  have header : Bitmap.pack page.toPage.bits = page.header := by rw [kept.bits_toPage, Bitmap.pack_unpack]
  have length := shaped.length_encode
  rw [Page.encode, header, Bytes.length_rightpad] at length
  have fits : (page.header ++ page.toPage.slots.flatMap (Page.encodeSlot page.schema)).length ≤ page.size := by
    change max page.size _ = page.size at length
    change (_ ++ page.toPage.slots.flatMap (Page.encodeSlot page.toPage.schema)).length ≤ page.size
    omega
  rw [HeapPage.toBytes, records, if_pos fits, Page.encode, header, List.rightpad]
  rfl

/-! ### A page from its beginning -/

/-- A page begins without rows or is read from bytes. -/
inductive Origin where
  | blank (size : Nat)
  | bytes (data : Bytes)

namespace Origin

def heapPage (id : PageId) (schema : Schema) : Origin → ExceptT Fault Option HeapPage
  | blank size => pure (empty id schema size)
  | bytes data => ofBytes id schema data

def page? (id : PageId) (schema : Schema) : Origin → Option Page
  | blank size => some (Page.blank id schema size)
  | bytes data => Page.decode? id schema data

def size : Origin → Nat
  | blank size => size
  | bytes data => data.length

theorem exists_heapPage (id : PageId) (schema : Schema) (origin : Origin) :
    ∃ start, origin.heapPage id schema = pure start ∧ start.Kept ∧ origin.page? id schema = some start.toPage ∧
      start.id = id ∧ start.schema = schema ∧ start.size = origin.size := by
  cases origin with
  | blank size =>
    refine ⟨_, rfl, kept_empty id schema size, ?_, rfl, rfl, rfl⟩
    rw [page?, toPage_empty]
  | bytes data => exact exists_ofBytes id schema data

end Origin

/-- A page is a partial map from slots to rows, whatever it was read from and whatever has been put in and
removed, refused changes included: no index is past an end, the page is the one of which all the rest is said,
a bit is set exactly when its slot has a row, and the row has the page's schema and the slot as its place. The
rows are those of the used slots in order, and the free slots are the others, of whatever number a slot is
asked. A row of the page's column types goes to the lowest free slot and is refused exactly when none is free;
exactly the row of a used slot of this page can be removed. Either changes that slot and its bit only, and a
call that is refused changes nothing. -/
theorem bits_and_slots_are_one_map (id : PageId) (schema : Schema) (origin : Origin) (changes : List PageChange) :
    ∃ start page plain, origin.heapPage id schema = pure start ∧ start.after changes = some page ∧
      (origin.page? id schema).map (fun begun => begun.after changes) = some plain ∧ page.Answers plain ∧
      page.id = id ∧ page.schema = schema ∧ page.slots.length = Page.capacity origin.size schema ∧
      (∀ slot < page.slots.length, Bitmap.bit? page.header slot = some (page.row? slot).isSome) ∧
      (∀ slot row, page.row? slot = some row → row.schema = schema ∧ row.location = some ⟨id, slot⟩) ∧
      page.rows = some ((List.range page.slots.length).filterMap page.row?) ∧
      page.freeSlots = some ((List.range page.slots.length).countP fun slot => (page.row? slot).isNone) ∧
      (∀ slot, page.isUsed slot = some (page.row? slot).isSome) ∧
      (∀ row, ∃ answer, page.insert row = some answer ∧ page.Inserted row answer) ∧
      ∀ row, ∃ answer, page.delete row = some answer ∧ page.Deleted row answer := by
  obtain ⟨start, begun, kept, read, rfl, rfl, size⟩ := origin.exists_heapPage id schema
  obtain ⟨page, done, again, same, id', schema', size'⟩ := kept.exists_after changes
  refine ⟨start, page, page.toPage, begun, done, ?_, again.answers_toPage, id', schema', ?_, again.bits, ?_,
    again.rows_eq,
    again.freeSlots_eq, ?_, ?_, ?_⟩
  · rw [read, Option.map_some, same]
  · rw [again.count, schema', size', size]
  · intro slot row held
    rw [← id', ← schema']
    exact again.rows slot row held
  · intro slot
    rw [again.isUsed_eq]
  · intro row
    obtain ⟨changed, after, answer, inserted, outcome, -⟩ := again.exists_insert row
    exact ⟨_, inserted, outcome⟩
  · intro row
    obtain ⟨changed, answer, deleted, outcome, -⟩ := again.exists_delete row
    exact ⟨_, deleted, outcome⟩

theorem fits_iff_le_capacity (size slots : Nat) (schema : Schema) :
    Bitmap.size slots + slots * schema.recordSize ≤ size ↔ slots ≤ Page.capacity size schema := by
  rw [Page.capacity, Nat.le_div_iff_mul_le (show 0 < schema.recordSize * 8 + 1 by omega)]
  have split := Nat.mul_add slots (schema.recordSize * 8) 1
  have records := Nat.mul_assoc slots schema.recordSize 8
  rw [Bitmap.size]
  omega

/-- The layout wastes no slot and any bytes are a page: as many slots as have room on a page of that size, bits
and records, are there and no more. Whatever bytes are read, no slice is past their end, there is a page and not
a fault, and it is written in exactly as many bytes, the padding being what is left. Both are what the page does
everywhere else. -/
theorem layout_is_tight_and_total (schema : Schema) :
    (∀ size, IsGreatest {slots | Bitmap.size slots + slots * schema.recordSize ≤ size} (Page.capacity size schema)) ∧
    ∀ id data, ∃ page written, ofBytes id schema data = pure page ∧ page.toBytes = some written ∧
      written.length = data.length ∧ Page.decode? id schema data = some page.toPage ∧ page.toPage.encode = written := by
  constructor
  · intro size
    constructor
    · exact Page.capacity_fits size schema
    · intro slots room
      exact (fits_iff_le_capacity size slots schema).mp room
  · intro id data
    obtain ⟨page, read, kept, plain, -, -, size⟩ := exists_ofBytes id schema data
    obtain ⟨shaped, -⟩ := Page.of_decode?_eq_some plain
    refine ⟨page, page.toPage.encode, read, kept.toBytes_eq_encode shaped, ?_, plain, rfl⟩
    rw [shaped.length_encode]
    exact size

end HeapPage

end RowStore
