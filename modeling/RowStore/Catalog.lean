import RowStore.Address
import RowStore.FinMap
import RowStore.Schema
/-!
# The catalog

Tables are found by number and by name, and each has one of either. Registering a table drops
whatever had its number or its name before.
-/

namespace RowStore

/-- A table file that is open, by its place among all that have been opened. -/
abbrev FileNo := Nat

structure TableEntry where
  file : FileNo
  schema : Schema
  name : String
deriving DecidableEq

structure Catalog where
  entries : FinMap TableId TableEntry
  names : FinMap String TableId

namespace Catalog

def empty : Catalog := ⟨.empty, .empty⟩

def find? (c : Catalog) (table : TableId) : Option TableEntry := c.entries.get? table

def named? (c : Catalog) (name : String) : Option TableId := c.names.get? name

def dropTable (c : Catalog) (table : TableId) : Catalog :=
  match c.find? table with
  | some entry => ⟨c.entries.erase table, c.names.erase entry.name⟩
  | none => c

def dropName (c : Catalog) (name : String) : Catalog :=
  match c.named? name with
  | some table => ⟨c.entries.erase table, c.names.erase name⟩
  | none => c

def register (c : Catalog) (table : TableId) (entry : TableEntry) : Catalog :=
  let c := (c.dropTable table).dropName entry.name
  ⟨c.entries.insert table entry, c.names.insert entry.name table⟩

def tables (c : Catalog) : List TableId := c.entries.keys.mergeSort fun a b => (compare a b).isLE

end Catalog

end RowStore
