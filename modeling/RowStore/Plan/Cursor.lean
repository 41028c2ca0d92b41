import RowStore.Engine.Scan
/-!
# Drawing rows

A source of rows has a state of its own, and an engine to work on: it can be started, finished, and
asked for its next row. A cursor draws rows from a source. It is open or closed, and it may hold one
row that was only looked at, so that asking whether there is a next row does not lose it.
-/

namespace RowStore

structure Source where
  State : Type
  initial : State
  start : Step State Unit
  finish : State → State
  /-- How to begin again without starting anew, for a source that can. -/
  replay : Option (State → State)
  fetch : Step State (Option Row)
  /-- From no state does the source yield more rows than that before it comes to its end. -/
  limit : Engine → Nat

structure Cursor (source : Source) where
  isOpen : Bool
  ahead : Option Row
  inner : source.State

namespace Cursor

variable {source : Source} {α β : Type}

def new (source : Source) : Cursor source := ⟨false, none, source.initial⟩

def onInner (act : Step source.State α) : Step (Cursor source) α :=
  Step.within Cursor.inner (fun c inner => { c with inner }) act

def start : Step (Cursor source) Unit := do
  onInner source.start
  Step.update fun c => { c with isOpen := true, ahead := none }

def close (c : Cursor source) : Cursor source := ⟨false, none, source.finish c.inner⟩

def checkOpen : Step (Cursor source) Unit := do
  let c ← Step.here
  if c.isOpen then return else throw .notOpen

def rewind : Step (Cursor source) Unit :=
  match source.replay with
  | none => do
    Step.update close
    start
  | some again => do
    checkOpen
    Step.update fun c => { c with ahead := none, inner := again c.inner }

/-- The next row of the source itself, past the row looked at. -/
def fetch : Step (Cursor source) (Option Row) := onInner source.fetch

/-- The next row, if there is one. -/
def pull : Step (Cursor source) (Option Row) := do
  checkOpen
  match (← Step.here).ahead with
  | some row => do
    Step.update fun c => { c with ahead := none }
    return some row
  | none => fetch

def hasNext : Step (Cursor source) Bool := do
  let row ← pull
  Step.update fun c => { c with ahead := row }
  return row.isSome

def next : Step (Cursor source) Row := do
  match ← pull with
  | some row => return row
  | none => throw .noMoreRows

/-- Up to that many rows, and the fault that ended them early. -/
def take : Nat → Step (Cursor source) (List Row × Option Fault)
  | 0 => pure ([], none)
  | n + 1 => do
    match ← attempt next with
    | .error fault => return ([], some fault)
    | .ok row => do
      let (rows, fault) ← take n
      return (row :: rows, fault)

/-- Draws rows until there is none, and folds them. Rows can come without end only while new pages
fill the pool, so running out of turns would mean that the pool is full. -/
def drain (visit : β → Row → Action β) : Nat → β → Step (Cursor source) β
  | 0, _ => throw .poolFull
  | n + 1, acc => do
    match ← pull with
    | none => return acc
    | some row => do
      let acc ← Step.engine (visit acc row)
      drain visit n acc

/-- Enough for the row looked at, for all that the source can yield, and to see that it has come to
its end. -/
def turns (source : Source) : Step (Cursor source) Nat := do
  return source.limit (← Step.theEngine) + 2

/-- All rows that are still to come. -/
def collect : Step (Cursor source) (List Row) := do
  return (← drain (fun rows row => pure (row :: rows)) (← turns source) []).reverse

/-- The first row to come that passes the test. -/
def find (accepts : Row → Bool) : Nat → Step (Cursor source) (Option Row)
  | 0 => throw .poolFull
  | n + 1 => do
    match ← pull with
    | none => return none
    | some row => if accepts row then return some row else find accepts n

end Cursor

end RowStore
