import RowStore.Text
/-!
# Addresses

Tables and transactions are numbered. A page is a table and a number within it, a row a page and a
slot on it.
-/

namespace RowStore

structure TableId where
  number : Nat
deriving DecidableEq, Ord

structure TxnId where
  number : Nat
deriving DecidableEq, Ord

structure PageId where
  table : TableId
  number : Nat
deriving DecidableEq, Ord

structure RowId where
  page : PageId
  slot : Nat
deriving DecidableEq

namespace TableId

def text (t : TableId) : String := s!"TableId({t.number})"

/-- The number a path stands for, the same in every run: the 32-bit FNV-1a hash of its text. -/
def ofPath (path : String) : TableId :=
  ⟨((Text.utf8 path).foldl (fun hash byte => (hash ^^^ byte.toUInt32) * 0x01000193)
    (0x811C9DC5 : UInt32)).toNat⟩

end TableId

def TxnId.text (t : TxnId) : String := s!"Txn({t.number})"

namespace PageId

def text (p : PageId) : String := s!"PageId({p.table.number}, {p.number})"

def sorted (pages : List PageId) : List PageId :=
  pages.mergeSort fun a b => (compare a b).isLE

end PageId

def RowId.text (r : RowId) : String := s!"RecordId({r.page.text}, slot {r.slot})"

end RowStore
