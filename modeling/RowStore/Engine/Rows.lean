import RowStore.Engine
/-!
# Rows in a table

A row goes to the first page with a free slot. Pages are tried in order, each under an exclusive
lock; the lock on a page that turns out to be full is given back, unless the transaction had it
before. When every page is full the file grows by a page. A page that was changed is marked, and
put back into memory if it is not there any more.
-/

namespace RowStore.Engine

/-- Puts the row on a page that is in memory. -/
def place (page : Page) (row : Row) : Action RowId := do
  match page.insert row with
  | .error fault => throw fault
  | .ok (changed, location) => do
    keep changed
    return location

/-- Gives back a lock that was taken only to look at the page. -/
def unlockUnless (held : Bool) (txn : TxnId) (page : PageId) : Action Unit :=
  if held then pure () else unlock txn page

/-- Puts the row on the page if there is room. -/
def insertOn (txn : TxnId) (page : PageId) (row : Row) : Action (Option RowId) := do
  let held := (← get).locks.holds txn page
  let found ← getPage txn page .exclusive
  if found.freeSlots = 0 then do
    unlockUnless held txn page
    return none
  else some <$> place found row

def insertOnFirst (txn : TxnId) (row : Row) : List PageId → Action (Option RowId)
  | [] => pure none
  | page :: rest => do
    match ← insertOn txn page row with
    | some location => return some location
    | none => insertOnFirst txn row rest

/-- Adds pages until one takes the row. A new page is full only if a page of that number has been in
memory since the file was longer, so there are no more of these than pages in memory. -/
def insertOnNew (txn : TxnId) (file : FileNo) (table : TableId) (row : Row) : Nat → Action RowId
  | 0 => throw .poolFull
  | tries + 1 => do
    match ← insertOn txn (← extendFile file table) row with
    | some location => return location
    | none => insertOnNew txn file table row tries

def insertInFile (txn : TxnId) (file : FileNo) (table : TableId) (row : Row) : Action RowId := do
  let e ← get
  let pages := (List.range (e.pagesOf file)).map fun number => PageId.mk table number
  match ← insertOnFirst txn row pages with
  | some location => return location
  | none => insertOnNew txn file table row ((← get).resident.size + 1)

/-- A page as it is handed out: the copy in memory, or one that has been dropped since or never was there. -/
inductive Handle where
  | current (page : PageId)
  | stray (copy : Page)

/-- Marks a copy as changed that is not the one in memory, and puts it there. The page may have been dropped since the
copy was handed out, so there may have to be room made for it. -/
def handBack (txn : TxnId) (copy : Page) : Action Unit := do
  match (← get).resident.get? copy.id with
  | some _ => pure ()
  | none => makeRoom
  keep (copy.markDirty txn)
  touch copy.id

def markDirty (txn : TxnId) : Handle → Action Unit
  | .current page => fun e =>
    match e.resident.get? page with
    | some resident => keep (resident.markDirty txn) e
    | none => .ok () e
  | .stray copy => handBack txn copy

theorem markDirty_current (txn : TxnId) (p : PageId) (e : Engine) :
    markDirty txn (.current p) e =
      match e.resident.get? p with
      | some page => keep (page.markDirty txn) e
      | none => .ok () e := rfl

def checkSchema (expected found : Schema) : Action Unit :=
  if found.sameTypes expected then pure () else throw (.schemaMismatch expected found)

/-- Answers where the row is stored. -/
def insert (txn : TxnId) (table : TableId) (row : Row) : Action RowId := do
  let entry ← resolve table
  checkSchema entry.schema row.schema
  let location ← insertInFile txn entry.file table row
  markDirty txn (.current location.page)
  return location

/-- Makes a row of the table's schema and inserts it. -/
def insertValues (txn : TxnId) (table : TableId) (values : List Value) : Action RowId := do
  let entry ← resolve table
  insert txn table (← ofExcept (Row.build entry.schema values))

/-- Frees the slot, and leaves the page as clean or dirty as it was. Answers the page. -/
def deleteInFile (txn : TxnId) (file : FileNo) (table : TableId) :
    Option RowId → Action PageId
  | none => throw .rowWithoutLocation
  | some row => do
    let pages := (← get).pagesOf file
    if row.page.table ≠ table ∨ pages ≤ row.page.number then throw (.rowNotFound row)
    else do
      let found ← getPage txn row.page .exclusive
      match found.delete (some row) with
      | .error fault => throw fault
      | .ok changed => do
        keep changed
        return row.page

/-- Answers the page the row was on. -/
def delete (txn : TxnId) : Option RowId → Action PageId
  | none => throw .rowWithoutLocation
  | some row => do
    let entry ← resolve row.page.table
    let page ← deleteInFile txn entry.file row.page.table (some row)
    markDirty txn (.current page)
    return page

end RowStore.Engine
