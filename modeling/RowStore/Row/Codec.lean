import RowStore.Row
/-!
# Records

A row is stored as a record: its values one after another, each as many bytes as its column takes.
An integer is its four bytes; a string is its length in bytes, then the bytes, then zeros up to the
width of the column. A value of the wrong kind is written as zeros, so that a record never changes
size because of its contents.
-/

namespace RowStore

namespace Value

def encode : Value → ColType → Bytes
  | .int n, .int => Bytes.ofWord n.toUInt32
  | .text s, .text width =>
      let text := (Text.utf8 s).take width.toNat
      Bytes.ofWord (UInt32.ofNat text.length) ++ text.rightpad width.toNat 0
  | _, type => Bytes.zeros type.size

/-- The value the bytes begin with, and the bytes after it. A length below zero counts as zero, one
past the width as the width. -/
def decode? (type : ColType) (bytes : Bytes) : Option (Value × Bytes) :=
  if bytes.length < type.size then none
  else
    let word := (Bytes.toWord (bytes.take 4)).toInt32
    let rest := bytes.drop 4
    match type with
    | .int => some (.int word, rest)
    | .text width =>
        let text := (rest.take width.toNat).take word.toInt.toNat
        some (.text (Text.ofBytes text), rest.drop width.toNat)

end Value

namespace Row

def encodeValues (types : List ColType) (values : List Value) : Bytes :=
  (values.zip types).flatMap fun (value, type) => value.encode type

def encode (row : Row) : Bytes := encodeValues row.schema.types row.values

/-- The values read, if there is one for every type, and the bytes not used. -/
def decodeValues : List ColType → Bytes → Option (List Value) × Bytes
  | [], bytes => (some [], bytes)
  | type :: types, bytes =>
    match Value.decode? type bytes with
    | none => (none, bytes)
    | some (value, rest) =>
      let (values, unused) := decodeValues types rest
      (values.map (value :: ·), unused)

def decode (schema : Schema) (bytes : Bytes) : Option Row × Bytes :=
  let (values, unused) := decodeValues schema.types bytes
  (values.map fun values => { schema, values, location := none }, unused)

end Row

end RowStore
