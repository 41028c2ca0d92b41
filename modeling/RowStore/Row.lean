import RowStore.Fault
/-!
# Rows

A row is one value per column of its schema, and the place it is stored at once it has one. `build`
is the checked way to make a row; the operations below it only rearrange rows that exist already
and check nothing.
-/

namespace RowStore

/-- The value may be stored in a column of that type. -/
def Value.check : Value → ColType → Except Fault Unit
  | .int _, .int => .ok ()
  | .text s, .text width =>
      if s.utf8ByteSize > width.toNat then .error (.valueTooLong s.utf8ByteSize width.toNat)
      else .ok ()
  | value, type => .error (.typeMismatch type value)

structure Row where
  schema : Schema
  values : List Value
  location : Option RowId
deriving DecidableEq

namespace Row

/-- The first value that does not fit its column decides the fault. -/
def checkAll : List Value → List ColType → Except Fault Unit
  | value :: values, type :: types => do
      value.check type
      checkAll values types
  | _, _ => .ok ()

def build (schema : Schema) (values : List Value) : Except Fault Row :=
  if values.length ≠ schema.columns.length then .error (.wrongArity schema values.length)
  else do
    checkAll values schema.types
    return { schema, values, location := none }

def value? (row : Row) (field : Nat) : Option Value := row.values[field]?

def set (row : Row) (field : Nat) (value : Value) : Except Fault Row :=
  match row.schema.types[field]? with
  | none => .error (.noSuchField field)
  | some type => do
      value.check type
      return { row with values := row.values.set field value }

def placed (row : Row) (location : Option RowId) : Row := { row with location }

/-- The same row read under another schema. -/
def under (row : Row) (schema : Schema) : Row := { row with schema }

/-- The columns of `left`, then those of `right`. -/
def joined (schema : Schema) (left right : Row) : Row :=
  { schema, values := left.values ++ right.values, location := none }

/-- Rows agree when their column types and values do, wherever they are stored. -/
def agrees (row other : Row) : Bool :=
  row.schema.sameTypes other.schema && decide (row.values = other.values)

def render (row : Row) : String := "\t".intercalate (row.values.map Value.render)

end Row

end RowStore
