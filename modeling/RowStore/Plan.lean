import RowStore.Condition
import RowStore.Engine.Scan
import RowStore.Grouping
/-!
# Plans

A plan says what rows are wanted and where they come from. A query names its tables and fields; it
becomes a plan when the tables have been found and the fields exist. A plan has a schema whether or
not anybody draws rows from it.
-/

namespace RowStore

inductive Query where
  | rows (schema : Schema) (rows : List (List Value))
  | scan (table : TableId) (txn : TxnId) (owner : Option String)
  | filter (condition : Condition) (child : Query)
  | join (condition : JoinCondition) (left right : Query)
  | aggregate (groupBy : Option Nat) (field : Nat) (summary : Summary) (child : Query)
  | insert (table : TableId) (txn : TxnId) (child : Query)
  | delete (txn : TxnId) (child : Query)

/-- A table to read and the name its columns get. -/
structure ScanOf where
  table : TableId
  entry : TableEntry
  owner : String
  txn : TxnId

def ScanOf.schema (s : ScanOf) : Schema := s.entry.schema.qualified s.owner

inductive Plan where
  | rows (schema : Schema) (rows : List Row)
  | scan (of : ScanOf)
  | filter (condition : Condition) (child : Plan)
  | join (condition : JoinCondition) (left right : Plan)
  | aggregate (grouping : Grouping) (child : Plan)
  | insert (table : TableId) (txn : TxnId) (child : Plan)
  | delete (txn : TxnId) (child : Plan)

namespace Plan

def countSchema (name : String) : Schema := ⟨[⟨some name, .int⟩]⟩

def schema : Plan → Schema
  | .rows schema _ => schema
  | .scan of => of.schema
  | .filter _ child => child.schema
  | .join _ left right => left.schema ++ right.schema
  | .aggregate grouping _ => grouping.output
  | .insert _ _ _ => countSchema "Inserted"
  | .delete _ _ => countSchema "Deleted"

def resolveIn (catalog : Catalog) (table : TableId) : Except Fault TableEntry :=
  match catalog.find? table with
  | some entry => .ok entry
  | none => .error (.unknownTable table)

/-- Children are looked at first, the left one before the right one. -/
def ofQuery (catalog : Catalog) : Query → Except Fault Plan
  | .rows schema lists => do
    return .rows schema (← lists.mapM (Row.build schema))
  | .scan table txn owner => do
    let entry ← resolveIn catalog table
    return .scan { table, entry, owner := owner.getD entry.name, txn }
  | .filter condition child => do
    return .filter condition (← ofQuery catalog child)
  | .join condition left right => do
    let left ← ofQuery catalog left
    let right ← ofQuery catalog right
    return .join condition left right
  | .aggregate groupBy field summary child => do
    let child ← ofQuery catalog child
    return .aggregate (← Grouping.new child.schema groupBy field summary) child
  | .insert table txn child => do
    let child ← ofQuery catalog child
    let entry ← resolveIn catalog table
    if child.schema.sameTypes entry.schema then return .insert table txn child
    else throw (.schemaMismatch entry.schema child.schema)
  | .delete txn child => do
    return .delete txn (← ofQuery catalog child)

end Plan

end RowStore
