import RowStore.Bitmap
import RowStore.Row.Codec
/-!
# Pages

A page has as many slots as fit together with one bit each. A slot is free or holds the values of a
row; the row's schema is the page's and its location the slot. A page written by someone else may
have bits set past its last slot: they are kept as they were found and mean nothing.

A page in memory also knows the transaction whose changes it holds, if they are not in the file yet.
-/

namespace RowStore

structure Page where
  id : PageId
  schema : Schema
  size : Nat
  slots : List (Option (List Value))
  /-- The bits after those of the slots. -/
  spare : List Bool
  dirtier : Option TxnId
deriving DecidableEq

namespace Page

/-- Slots on a page: each takes a record and one bit. -/
def capacity (pageSize : Nat) (schema : Schema) : Nat :=
  pageSize * 8 / (schema.recordSize * 8 + 1)

def blank (id : PageId) (schema : Schema) (size : Nat) : Page :=
  let slots := capacity size schema
  { id, schema, size
    slots := List.replicate slots none
    spare := List.replicate (8 * Bitmap.size slots - slots) false
    dirtier := none }

def isUsed (page : Page) (slot : Nat) : Bool := page.slots[slot]?.join.isSome

def freeSlots (page : Page) : Nat := page.slots.countP Option.isNone

def locate (page : Page) (slot : Nat) : RowId := ⟨page.id, slot⟩

def row? (page : Page) (slot : Nat) : Option Row :=
  page.slots[slot]?.join.map fun values =>
    { schema := page.schema, values, location := some (page.locate slot) }

/-- The rows on the page, by slot. -/
def rows (page : Page) : List Row :=
  page.slots.zipIdx.filterMap fun (slot, index) =>
    slot.map fun values =>
      { schema := page.schema, values, location := some (page.locate index) }

/-- The row goes to the lowest free slot. -/
def insert (page : Page) (row : Row) : Except Fault (Page × RowId) :=
  if row.schema.sameTypes page.schema then
    match page.slots.findIdx? Option.isNone with
    | none => .error (.pageFull page.id)
    | some slot =>
        .ok ({ page with slots := page.slots.set slot (some row.values) }, page.locate slot)
  else .error (.schemaMismatch page.schema row.schema)

def delete (page : Page) : Option RowId → Except Fault Page
  | none => .error .rowWithoutLocation
  | some row =>
      if row.page = page.id ∧ page.isUsed row.slot then
        .ok { page with slots := page.slots.set row.slot none }
      else .error (.rowNotFound row)

def markDirty (page : Page) (txn : TxnId) : Page := { page with dirtier := some txn }

def markClean (page : Page) : Page := { page with dirtier := none }

def isDirty (page : Page) : Bool := page.dirtier.isSome

end Page

end RowStore
