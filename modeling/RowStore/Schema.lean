/-!
# Schemas

A column is a 32-bit integer or a string of bounded width; either way it takes the same number of
bytes in every record. Names are for people: two schemas hold the same records when their column
types agree in order, whatever the columns are called.
-/

namespace RowStore

inductive ColType where
  | int
  | text (width : UInt16)
deriving DecidableEq

namespace ColType

def string : ColType := .text 128

/-- Bytes a value takes in a record; a string has its length in front. -/
def size : ColType → Nat
  | .int => 4
  | .text width => 4 + width.toNat

def isText : ColType → Bool
  | .int => false
  | .text _ => true

def describe : ColType → String
  | .int => "INT"
  | .text width => s!"STRING({width.toNat})"

end ColType

structure Column where
  name : Option String
  type : ColType
deriving DecidableEq

namespace Column

def label (c : Column) : String := c.name.getD "null"

def describe (c : Column) : String := s!"{c.type.describe}({c.label})"

end Column

structure Schema where
  columns : List Column
deriving DecidableEq

namespace Schema

def types (s : Schema) : List ColType := s.columns.map Column.type

def ofTypes (types : List ColType) : Schema := ⟨types.map fun type => ⟨none, type⟩⟩

def recordSize (s : Schema) : Nat := s.types.foldr (fun type size => type.size + size) 0

def sameTypes (s t : Schema) : Bool := decide (s.types = t.types)

def append (s t : Schema) : Schema := ⟨s.columns ++ t.columns⟩

instance : Append Schema := ⟨append⟩

/-- The schema with every column named `owner.column`. -/
def qualified (s : Schema) (owner : String) : Schema :=
  ⟨s.columns.map fun c => { c with name := some s!"{owner}.{c.label}" }⟩

/-- Where the first column of that name stands. -/
def index? (s : Schema) (name : String) : Option Nat :=
  s.columns.findIdx? fun c => decide (c.name = some name)

def describe (s : Schema) : String := ", ".intercalate (s.columns.map Column.describe)

end Schema

end RowStore
