import RowStore.Row
/-!
# Grouped summaries

Rows are put into groups by the value of one field, or all into one group, and one field of each
group is summarised. Groups come in the order in which they were first seen. Sums are exact; a
result that is no 32-bit integer is a fault when it is asked for.
-/

namespace RowStore

/-- What is remembered of the values of one group. -/
structure Tally where
  count : Nat
  sum : Int
  least : Option Int
  greatest : Option Int
deriving DecidableEq

namespace Tally

def empty : Tally := ⟨0, 0, none, none⟩

def widen (pick : Int → Int → Int) (n : Int) : Option Int → Option Int
  | none => some n
  | some m => some (pick m n)

/-- A value that is no integer is counted and no more. -/
def add (t : Tally) : Option Int32 → Tally
  | none => { t with count := t.count + 1 }
  | some n =>
    { count := t.count + 1
      sum := t.sum + n.toInt
      least := widen min n.toInt t.least
      greatest := widen max n.toInt t.greatest }

/-- The average is rounded toward zero. -/
def value? (t : Tally) : Summary → Option Int
  | .count => some t.count
  | .sum => some t.sum
  | .avg => some (t.sum.tdiv (max t.count 1 : Nat))
  | .min => t.least
  | .max => t.greatest

def result (t : Tally) (summary : Summary) : Except Fault Value :=
  match (t.value? summary).bind Value.ofInt? with
  | some value => .ok value
  | none => .error (.overflow summary)

end Tally

structure Grouping where
  groupBy : Option Nat
  field : Nat
  summary : Summary
  /-- The schema of the results. -/
  output : Schema
deriving DecidableEq

/-- The groups seen so far, the oldest first. The key is absent when all rows are one group. -/
abbrev Groups := List (Option Value × Tally)

def Groups.add : Groups → Option Value → Option Int32 → Groups
  | [], key, n => [(key, Tally.empty.add n)]
  | (other, tally) :: rest, key, n =>
    if other = key then (other, tally.add n) :: rest else (other, tally) :: Groups.add rest key n

namespace Grouping

/-- Strings can only be counted. -/
def new (input : Schema) (groupBy : Option Nat) (field : Nat) (summary : Summary) :
    Except Fault Grouping :=
  match input.columns[field]? with
  | none => .error (.noSuchField field)
  | some column =>
    if column.type.isText ∧ summary ≠ .count then .error (.unsupported summary column.type)
    else
      let summarised : Column := ⟨some s!"{summary.name} ({column.label})", .int⟩
      match groupBy with
      | none => .ok { groupBy, field, summary, output := ⟨[summarised]⟩ }
      | some g =>
        match input.columns[g]? with
        | none => .error (.noSuchField g)
        | some key => .ok { groupBy, field, summary, output := ⟨[key, summarised]⟩ }

def fieldOf (row : Row) (index : Nat) : Except Fault Value :=
  match row.value? index with
  | some value => .ok value
  | none => .error (.noSuchField index)

def merge (g : Grouping) (groups : Groups) (row : Row) : Except Fault Groups := do
  let key ← g.groupBy.mapM (fieldOf row)
  let value ← fieldOf row g.field
  return groups.add key value.int?

def resultRow (g : Grouping) (key : Option Value) (tally : Tally) : Except Fault Row := do
  let value ← tally.result g.summary
  Row.build g.output (key.toList ++ [value])

def results (g : Grouping) (groups : Groups) : Except Fault (List Row) :=
  groups.mapM fun (key, tally) => g.resultRow key tally

end Grouping

end RowStore
