import RowStore.Page.Codec
/-!
# A table in a file

Page `n` of a table takes the bytes from `n * pageSize` on; there is nothing else in the file. How
many pages there are is found out when the file is opened, and from then on only adding a page
changes it: a page that is not among them is past the end, whatever the file has become since.
-/

namespace RowStore

structure TableFile where
  table : TableId
  name : String
  schema : Schema
  pageSize : Nat
  pages : Nat
  /-- How many pages have been read, and how many written. -/
  reads : Nat
  writes : Nat
deriving DecidableEq

namespace TableFile

/-- A part of a page at the end of the file does not count. -/
def ofContents (table : TableId) (name : String) (schema : Schema) (pageSize : Nat)
    (contents : Bytes) : TableFile :=
  { table, name, schema, pageSize, pages := contents.length / pageSize, reads := 0, writes := 0 }

def offset (f : TableFile) (number : Nat) : Nat := number * f.pageSize

def pageId (f : TableFile) (number : Nat) : PageId := ⟨f.table, number⟩

def checkBounds (f : TableFile) (page : PageId) : Except Fault Unit :=
  if page.table ≠ f.table then .error (.unknownTable page.table)
  else if f.pages ≤ page.number then .error (.pastEnd page f.name)
  else .ok ()

def read (f : TableFile) (contents : Bytes) (page : PageId) : Except Fault (Page × TableFile) := do
  f.checkBounds page
  let bytes := contents.region (f.offset page.number) f.pageSize
  if bytes.length < f.pageSize then .error (.file .shortRead)
  else
    match Page.decode? page f.schema bytes with
    | none => .error (.corruptPage page)
    | some loaded => return (loaded, { f with reads := f.reads + 1 })

def write (f : TableFile) (contents : Bytes) (page : Page) : Except Fault (Bytes × TableFile) := do
  f.checkBounds page.id
  return (contents.overwrite (f.offset page.id.number) page.encode, { f with writes := f.writes + 1 })

/-- Adds a page of zeros. -/
def extend (f : TableFile) (contents : Bytes) : Bytes × TableFile :=
  (contents.overwrite (f.offset f.pages) (Bytes.zeros f.pageSize), { f with pages := f.pages + 1 })

end TableFile

end RowStore
