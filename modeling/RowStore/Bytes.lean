/-!
# Bytes

A stretch of a page or a file is a list of bytes, so that cutting and joining are the list
operations. Numbers of 32 bits are written with the most significant byte first.
-/

namespace RowStore

abbrev Bytes := List UInt8

namespace Bytes

def zeros (n : Nat) : Bytes := List.replicate n 0

/-- The `n` bytes from `start` on, or fewer where the bytes end. -/
def region (bytes : Bytes) (start n : Nat) : Bytes := (bytes.drop start).take n

/-- The bytes with `data` written over them from `start` on; a gap before `start` is zero. -/
def overwrite (bytes : Bytes) (start : Nat) (data : Bytes) : Bytes :=
  (bytes.take start).rightpad start 0 ++ data ++ bytes.drop (start + data.length)

def ofWord (word : UInt32) : Bytes :=
  [(word >>> 24).toUInt8, (word >>> 16).toUInt8, (word >>> 8).toUInt8, word.toUInt8]

def toWord (bytes : Bytes) : UInt32 :=
  bytes.foldl (fun word byte => word * 256 + byte.toUInt32) 0

end Bytes

end RowStore
