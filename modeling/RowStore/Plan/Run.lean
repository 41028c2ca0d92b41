import RowStore.Engine.Rows
import RowStore.Plan
import RowStore.Plan.Cursor
/-!
# Running a plan

Each kind of plan is a source of rows, and a plan with children draws from theirs. A source does
nothing before it is asked for a row, except that an aggregate takes in all rows of its child when it
is started.
-/

namespace RowStore.Source

/-- Rows that are there already. -/
def ofRows (rows : List Row) : Source where
  State := List Row
  initial := rows
  start := Step.update fun _ => rows
  finish := id
  replay := none
  fetch := do
    match ← Step.here with
    | [] => return none
    | row :: rest => do
      Step.update fun _ => rest
      return some row
  limit _ := rows.length

/-- The rows of a table, read through a scan that exists while the source is started. -/
def ofTable (s : ScanOf) : Source where
  State := Option FileScan
  initial := none
  start := Step.update fun _ => some (.start s.entry.file s.table s.txn)
  finish _ := none
  replay := none
  fetch := do
    match ← Step.here with
    | none => return none
    | some scan => do
      let row ← Step.within (fun _ => scan) (fun _ scan => some scan) FileScan.next
      return row.map (·.under s.schema)
  /- A page has no more slots than bits. While rows are drawn the file can grow only by pages that
  are in memory already and by pages that stay there. The scan may hold the rows of one page more. -/
  limit e := (e.pagesOf s.entry.file + 2 * e.settings.poolPages + 1) * (8 * e.settings.pageSize)

def filter (condition : Condition) (child : Source) : Source where
  State := Cursor child
  initial := .new child
  start := Cursor.start
  finish := Cursor.close
  replay := none
  fetch := do Cursor.find condition.accepts (← Cursor.turns child)
  limit := child.limit

/-! ### Joining -/

/-- Both sides, and the left row that is being matched. -/
structure Joining (left right : Source) where
  left : Cursor left
  right : Cursor right
  outer : Option Row

namespace Joining

variable {left right : Source} {α : Type}

def onLeft (act : Step (Cursor left) α) : Step (Joining left right) α :=
  Step.within Joining.left (fun j left => { j with left }) act

def onRight (act : Step (Cursor right) α) : Step (Joining left right) α :=
  Step.within Joining.right (fun j right => { j with right }) act

/-- The left row to match, the next one if none is being matched. -/
def current : Step (Joining left right) (Option Row) := do
  match (← Step.here).outer with
  | some row => return some row
  | none => do
    let row ← onLeft Cursor.pull
    Step.update fun j => { j with outer := row }
    return row

/-- The next pair of rows that match. Every turn goes through what is left of the right side for one
left row, and begins the right side again for the next. -/
def nextPair (accepts : Row → Row → Bool) : Nat → Step (Joining left right) (Option (Row × Row))
  | 0 => throw .poolFull
  | turns + 1 => do
    match ← current with
    | none => return none
    | some l => do
      match ← onRight do Cursor.find (accepts l) (← Cursor.turns right) with
      | some r => return some (l, r)
      | none => do
        Step.update fun j => { j with outer := none }
        onRight Cursor.rewind
        nextPair accepts turns

end Joining

/-- For every left row in turn, the right rows that match it. There may be a left row at hand when the
left side begins again: what is left of the right side is then matched with it first. -/
def join (condition : JoinCondition) (schema : Schema) (left right : Source) : Source where
  State := Joining left right
  initial := ⟨.new left, .new right, none⟩
  start := do
    Joining.onLeft Cursor.start
    Joining.onRight Cursor.start
    Step.update fun j => { j with outer := none }
  finish j := ⟨j.left.close, j.right.close, none⟩
  replay := none
  fetch := do
    let turns := left.limit (← Step.theEngine) + 2
    let pair ← Joining.nextPair condition.accepts turns
    return pair.map fun (l, r) => Row.joined schema l r
  limit e := (left.limit e + 1) * right.limit e

/-! ### Aggregates -/

/-- The child, the results, and those of them that are still to come. -/
structure Aggregating (child : Source) where
  child : Cursor child
  results : List Row
  rest : List Row

namespace Aggregating

variable {child : Source} {α : Type}

def onChild (act : Step (Cursor child) α) : Step (Aggregating child) α :=
  Step.within Aggregating.child (fun a child => { a with child }) act

/-- Starts the child and takes in all its rows. -/
def summarise (grouping : Grouping) : Step (Cursor child) (List Row) := do
  Cursor.start
  let merge groups row := Engine.ofExcept (grouping.merge groups row)
  let groups ← Cursor.drain merge (← Cursor.turns child) []
  Step.engine (Engine.ofExcept (grouping.results groups))

end Aggregating

def aggregate (grouping : Grouping) (child : Source) : Source where
  State := Aggregating child
  initial := ⟨.new child, [], []⟩
  start := do
    let rows ← Aggregating.onChild (Aggregating.summarise grouping)
    Step.update fun a => { a with results := rows, rest := rows }
  finish a := ⟨a.child.close, [], []⟩
  replay := some fun a => { a with rest := a.results }
  fetch := do
    match (← Step.here).rest with
    | [] => return none
    | row :: rest => do
      Step.update fun a => { a with rest }
      return some row
  limit := child.limit

/-! ### Changing tables -/

/-- The child, and whether all its rows have been dealt with. -/
structure Changing (child : Source) where
  child : Cursor child
  done : Bool

namespace Changing

variable {child : Source} {α : Type}

def onChild (act : Step (Cursor child) α) : Step (Changing child) α :=
  Step.within Changing.child (fun c child => { c with child }) act

def visit (act : Row → Action Unit) (count : Nat) (row : Row) : Action Nat := do
  act row
  return count + 1

/-- Answers how many rows there were. -/
def visitAll (act : Row → Action Unit) : Step (Cursor child) Nat := do
  Cursor.drain (visit act) (← Cursor.turns child) 0

end Changing

def countRow (name : String) (count : Nat) : Except Fault Row :=
  match Value.ofInt? count with
  | some value => Row.build (Plan.countSchema name) [value]
  | none => .error .tooManyRows

/-- Does something with every row of the child, once and for all, and yields one row with their
number. -/
def change (name : String) (act : Row → Action Unit) (child : Source) : Source where
  State := Changing child
  initial := ⟨.new child, false⟩
  start := Changing.onChild Cursor.start
  finish c := { c with child := c.child.close }
  replay := none
  fetch := do
    let c ← Step.here
    if c.done then return none
    else do
      let count ← Changing.onChild (Changing.visitAll act)
      Step.update fun c => { c with done := true }
      some <$> Step.engine (Engine.ofExcept (countRow name count))
  limit _ := 1

end RowStore.Source

namespace RowStore.Plan

def source : Plan → Source
  | .rows _ list => .ofRows list
  | .scan of => .ofTable of
  | .filter condition child => .filter condition child.source
  | .join condition left right =>
      .join condition (left.schema ++ right.schema) left.source right.source
  | .aggregate grouping child => .aggregate grouping child.source
  | .insert table txn child =>
      .change "Inserted" (fun row => do let _ ← Engine.insert txn table row) child.source
  | .delete txn child =>
      .change "Deleted" (fun row => do let _ ← Engine.delete txn row.location) child.source

end RowStore.Plan
