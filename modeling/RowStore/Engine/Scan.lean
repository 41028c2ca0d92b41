import RowStore.Engine
/-!
# Reading a file through

A scan gives the rows of a file page by page. It holds the rows of one page at a time and passes to
the next page only when it has it, so a scan that failed can be tried again. Pages added meanwhile
are visited too.
-/

namespace RowStore

/-- Something done to a state of its own and to the engine. -/
abbrev Step (σ : Type) := EStateM Fault (σ × Engine)

namespace Step

variable {σ τ α : Type}

def engine (act : Action α) : Step σ α := fun (s, e) =>
  match act e with
  | .ok a e => .ok a (s, e)
  | .error fault e => .error fault (s, e)

/-- A step on a part of the state. -/
def within (part : σ → τ) (replace : σ → τ → σ) (act : Step τ α) : Step σ α := fun (s, e) =>
  match act (part s, e) with
  | .ok a (t, e) => .ok a (replace s t, e)
  | .error fault (t, e) => .error fault (replace s t, e)

def here : Step σ σ := fun (s, e) => .ok s (s, e)

def update (f : σ → σ) : Step σ Unit := fun (s, e) => .ok () (f s, e)

def theEngine : Step σ Engine := fun (s, e) => .ok e (s, e)

end Step

structure FileScan where
  file : FileNo
  table : TableId
  txn : TxnId
  nextPage : Nat
  /-- Rows of the page before `nextPage` that are still to come. -/
  pending : List Row

namespace FileScan

def start (file : FileNo) (table : TableId) (txn : TxnId) : FileScan := ⟨file, table, txn, 0, []⟩

def rewind (s : FileScan) : FileScan := start s.file s.table s.txn

/-- The first row on the pages of these numbers, which begin at `nextPage`. -/
def advance : List Nat → Step FileScan (Option Row)
  | [] => pure none
  | number :: rest => do
    let s ← Step.here
    let page ← Step.engine (Engine.getPage s.txn ⟨s.table, number⟩ .shared)
    match page.rows with
    | [] => do
      Step.update fun s => { s with nextPage := number + 1 }
      advance rest
    | row :: rows => do
      Step.update fun s => { s with nextPage := number + 1, pending := rows }
      return some row

def next : Step FileScan (Option Row) := do
  let s ← Step.here
  match s.pending with
  | row :: rows => do
    Step.update fun s => { s with pending := rows }
    return some row
  | [] => do
    let e ← Step.theEngine
    advance (List.range' s.nextPage (e.pagesOf s.file - s.nextPage))

/-- Up to that many rows, an empty answer where the file ends, and the fault that ended the rows
early. -/
def take : Nat → Step FileScan (List (Option Row) × Option Fault)
  | 0 => pure ([], none)
  | n + 1 => do
    match ← attempt next with
    | .error fault => return ([], some fault)
    | .ok none => return ([none], none)
    | .ok (some row) => do
      let (rows, fault) ← take n
      return (some row :: rows, fault)

end FileScan

end RowStore
