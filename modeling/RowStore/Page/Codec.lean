import RowStore.Page
/-!
# Pages in a file

A page is written as its bits, packed eight to a byte, then a record for every slot, zeros for a
free one, and zeros up to its size. Any bytes can be read as a page.
-/

namespace RowStore.Page

def bits (page : Page) : List Bool := page.slots.map Option.isSome ++ page.spare

def encodeSlot (schema : Schema) : Option (List Value) → Bytes
  | some values => Row.encodeValues schema.types values
  | none => Bytes.zeros schema.recordSize

def encode (page : Page) : Bytes :=
  (Bitmap.pack page.bits ++ page.slots.flatMap (encodeSlot page.schema)).rightpad page.size 0

/-- The slot whose record starts at `start`. -/
def decodeSlot? (schema : Schema) (data : Array UInt8) (start : Nat) (used : Bool) :
    Option (Option (List Value)) :=
  if used then
    (Row.decodeValues schema.types (data.extract start (start + schema.recordSize)).toList).1.map some
  else some none

/-- Fails only if the records did not fit the bytes. -/
def decode? (id : PageId) (schema : Schema) (bytes : Bytes) : Option Page :=
  let slots := capacity bytes.length schema
  let first := Bitmap.size slots
  if first + slots * schema.recordSize > bytes.length then none
  else do
    let bits := Bitmap.unpack (bytes.take first)
    let used := bits.toArray
    let data := bytes.toArray
    let slots ← (List.range slots).mapM fun slot =>
      decodeSlot? schema data (first + slot * schema.recordSize) (used.getD slot false)
    return { id, schema, size := bytes.length, slots, spare := bits.drop slots.length, dirtier := none }

end RowStore.Page
