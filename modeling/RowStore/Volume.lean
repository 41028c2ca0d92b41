import RowStore.Fault
import RowStore.FinMap
/-!
# The files of a store

A volume is one directory of files, each under its name. A file that has once been opened as a table
keeps the number it then got, the first one 1, the next 2, and so on, whatever becomes of the store
that opened it.
-/

namespace RowStore

structure Volume where
  files : FinMap String Bytes
  /-- The files opened as tables, the first one first. -/
  tables : List String

namespace Volume

def empty : Volume := ⟨.empty, []⟩

/-- Bytes the name of a file may take. -/
def nameLimit : Nat := 255

/-- Bytes a path may take, beside what is left for that of the directory itself. -/
def pathLimit : Nat := 4096 - 32

/-- The parts of a path between its slashes. -/
def parts (path : String) : List String :=
  (path.toList.foldr (fun c parts =>
    match parts with
    | part :: rest => if c = '/' then [] :: part :: rest else (c :: part) :: rest
    | [] => [[c]]) [[]]).map String.ofList

/-- What stops a walk that takes `name` for a directory. -/
def stopAt (v : Volume) (within : Bool) (name : String) : FileFault :=
  if name.utf8ByteSize > nameLimit then .nameTooLong
  else if within ∧ v.files.contains name then .notDirectory
  else .notFound

/-- A walk that ends in `name`. Outside of the directory there are no files and none are made. -/
def arrive (within : Bool) (name : String) : Except FileFault String :=
  if name.utf8ByteSize > nameLimit then .error .nameTooLong
  else if within then .ok name
  else .error .notFound

/-- Follows the parts of a path; `within` says whether the directory has not been left so far. No
other directory has a name here, so a walk does not get past a name. -/
def walk (v : Volume) (slashAtEnd : Bool) : Bool → List String → Except FileFault String
  | _, [] => .error .isDirectory
  | within, part :: rest =>
    if part = "." then walk v slashAtEnd within rest
    else if part = ".." then walk v slashAtEnd false rest
    else if rest ≠ [] then .error (v.stopAt within part)
    else if slashAtEnd then .error .isDirectory
    else arrive within part

/-- The name of the file a path leads to, whether there is such a file or not. -/
def locate (v : Volume) (path : String) : Except FileFault String :=
  if path.toList.contains '\x00' then .error .invalidPath
  else if path.utf8ByteSize > pathLimit then .error .nameTooLong
  else
    let parts := parts path
    walk v (decide (parts.getLast? = some "")) (decide (path.toList.head? ≠ some '/'))
      (parts.filter fun part => decide (part ≠ ""))

/-- The bytes of a file, none if there is no such file. -/
def contents (v : Volume) (name : String) : Bytes := (v.files.get? name).getD []

def put (v : Volume) (name : String) (bytes : Bytes) : Volume :=
  { v with files := v.files.insert name bytes }

/-- The file under that name, made empty if there was none, and its number. -/
def openTable (v : Volume) (name : String) : TableId × Volume :=
  let v := v.put name (v.contents name)
  match v.tables.idxOf? name with
  | some i => (⟨i + 1⟩, v)
  | none => (⟨v.tables.length + 1⟩, { v with tables := v.tables ++ [name] })

end Volume

end RowStore
