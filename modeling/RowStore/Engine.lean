import RowStore.Catalog
import RowStore.Lock.Table
import RowStore.Recency
import RowStore.Settings
import RowStore.TableFile
import RowStore.Volume
/-!
# The engine

Every page is used through the engine. It locks the page for the transaction that asks, keeps pages
in memory, and gives one up when there are too many: a page that nobody has locked and that holds no
change. A changed page is written when its transaction commits and dropped when it aborts, so a file
never holds what is not committed.

An action that fails has still done what it did before it failed.
-/

namespace RowStore

structure Engine where
  settings : Settings
  volume : Volume
  /-- Every table file opened so far, also those that are no longer registered. -/
  files : List TableFile
  catalog : Catalog
  /-- The pages in memory. -/
  resident : FinMap PageId Page
  recency : Recency
  locks : LockTable

abbrev Action := EStateM Fault Engine

/-- What the action comes to, a fault being one of the outcomes. -/
def attempt {σ α : Type} (act : EStateM Fault σ α) : EStateM Fault σ (Except Fault α) := fun s =>
  match act s with
  | .ok a s => .ok (.ok a) s
  | .error fault s => .ok (.error fault) s

namespace Engine

def start (settings : Settings) (volume : Volume) : Engine where
  settings := settings
  volume := volume
  files := []
  catalog := .empty
  resident := .empty
  recency := .new settings.history
  locks := .empty

def ofExcept {α : Type} : Except Fault α → Action α
  | .ok a => pure a
  | .error fault => throw fault

/-! ### Tables -/

def resolve (table : TableId) : Action TableEntry := fun e =>
  match e.catalog.find? table with
  | some entry => .ok entry e
  | none => .error (.unknownTable table) e

def checkPageSize (pageSize : Nat) (schema : Schema) : Except Fault Unit :=
  if Page.capacity pageSize schema = 0 then .error (.pageTooSmall pageSize schema.recordSize)
  else .ok ()

/-- Opens the file at the path, or makes it, and registers it as a table. -/
def createTable (path : String) (schema : Schema) (name : String) : Action TableId := fun e =>
  match checkPageSize e.settings.pageSize schema with
  | .error fault => .error fault e
  | .ok () =>
    match e.volume.locate path with
    | .error cause => .error (.file cause) e
    | .ok fileName =>
      let (table, volume) := e.volume.openTable fileName
      let file := TableFile.ofContents table fileName schema e.settings.pageSize
        (volume.contents fileName)
      .ok table { e with
        volume
        files := e.files ++ [file]
        catalog := e.catalog.register table ⟨e.files.length, schema, name⟩ }

/-- The number of pages of an open file. -/
def pagesOf (e : Engine) (file : FileNo) : Nat := e.files[file]?.elim 0 TableFile.pages

def setFile (e : Engine) (file : FileNo) (f : TableFile) : Engine :=
  { e with files := e.files.set file f }

def contentsOf (e : Engine) (f : TableFile) : Bytes := e.volume.contents f.name

/-- An open file; one that is not open has no table. -/
def openFile (file : FileNo) (table : TableId) : Action TableFile := fun e =>
  match e.files[file]? with
  | some f => .ok f e
  | none => .error (.unknownTable table) e

def readPage (file : FileNo) (page : PageId) : Action Page := do
  let f ← openFile file page.table
  match f.read ((← get).contentsOf f) page with
  | .error fault => throw fault
  | .ok (loaded, f) => do
    modify fun e => e.setFile file f
    return loaded

def writePage (file : FileNo) (page : Page) : Action Unit := do
  let f ← openFile file page.id.table
  match f.write ((← get).contentsOf f) page with
  | .error fault => throw fault
  | .ok (contents, f) =>
    modify fun e => { e.setFile file f with volume := e.volume.put f.name contents }

def extendFile (file : FileNo) (table : TableId) : Action PageId := do
  let f ← openFile file table
  let (contents, longer) := f.extend ((← get).contentsOf f)
  modify fun e => { e.setFile file longer with volume := e.volume.put f.name contents }
  return f.pageId f.pages

/-! ### Pages in memory -/

def isFull (e : Engine) : Bool := decide (e.settings.poolPages ≤ e.resident.size)

def mayEvict (e : Engine) (page : PageId) : Bool :=
  !e.locks.isLocked page && (e.resident.get? page).any fun resident => !resident.isDirty

def evict : Action Unit := fun e =>
  match e.recency.evict e.mayEvict with
  | some (page, recency) => .ok () { e with recency, resident := e.resident.erase page }
  | none => .error .poolFull e

def makeRoom : Action Unit := fun e => if e.isFull then evict e else .ok () e

def touch (page : PageId) : Action Unit :=
  modify fun e => { e with recency := e.recency.touch page }

/-- Puts the page in memory, in place of the copy that was there. -/
def keep (page : Page) : Action Unit :=
  modify fun e => { e with resident := e.resident.insert page.id page }

def lock (txn : TxnId) (page : PageId) (mode : LockMode) : Action Unit := fun e =>
  match e.locks.requestNow ⟨txn, page, mode⟩ with
  | (.granted, locks) => .ok () { e with locks }
  | (_, locks) => .error (.aborted txn) { e with locks }

def unlock (txn : TxnId) (page : PageId) : Action Unit :=
  modify fun e => { e with locks := e.locks.release txn page }

/-- Brings a page into memory that is not there. -/
def load (page : PageId) : Action Page := do
  makeRoom
  let entry ← resolve page.table
  let loaded ← readPage entry.file page
  keep loaded
  touch page
  return loaded

/-- The page, locked for the transaction. The lock stays also when the page cannot be had. -/
def getPage (txn : TxnId) (page : PageId) (mode : LockMode) : Action Page := do
  lock txn page mode
  match (← get).resident.get? page with
  | some resident => do
    touch page
    return resident
  | none => load page

def discard (page : PageId) : Action Unit :=
  modify fun e =>
    { e with resident := e.resident.erase page, recency := e.recency.forget page }

/-! ### Writing pages back -/

def writeBack (page : PageId) (resident : Page) : Action Unit := do
  let entry ← resolve page.table
  writePage entry.file resident
  keep resident.markClean

/-- Writes the page if it is in memory and holds a change. -/
def flush (page : PageId) : Action Unit := fun e =>
  match e.resident.get? page with
  | none => .ok () e
  | some resident => if resident.isDirty then writeBack page resident e else .ok () e

def flushEach : List PageId → Action Unit
  | [] => pure ()
  | page :: rest => do
    flush page
    flushEach rest

def flushAll : Action Unit := do flushEach (← get).resident.keys

def residentPages (e : Engine) : List PageId := PageId.sorted e.resident.keys

/-- The pages in memory that hold changes of the transaction. -/
def dirtyPages (e : Engine) (txn : TxnId) : List PageId :=
  PageId.sorted (e.resident.filter fun _ page => decide (page.dirtier = some txn)).keys

/-- Answers how many pages were written. -/
def flushPages (txn : TxnId) : Action Nat := do
  let pages := (← get).dirtyPages txn
  flushEach pages
  return pages.length

def discardEach : List PageId → Action Unit
  | [] => pure ()
  | page :: rest => do
    discard page
    discardEach rest

def releaseAll (e : Engine) (txn : TxnId) : Engine := { e with locks := e.locks.releaseAll txn }

/-- Ends the transaction after the action, whatever comes of the action. -/
def ending {α : Type} (txn : TxnId) (act : Action α) : Action α := fun e =>
  match act e with
  | .ok a e => .ok a (e.releaseAll txn)
  | .error fault e => .error fault (e.releaseAll txn)

def commit (txn : TxnId) : Action Unit := ending txn do
  let _ ← flushPages txn

def abort (txn : TxnId) : Action Unit := ending txn do
  discardEach ((← get).dirtyPages txn)

end Engine

end RowStore
