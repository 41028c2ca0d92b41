import RowStore.Bytes
/-!
# Bits in bytes

Eight bits to a byte, the least significant first: bit `i` is bit `i % 8` of byte `i / 8`.
-/

namespace RowStore.Bitmap

/-- Bytes needed for that many bits. -/
def size (bits : Nat) : Nat := (bits + 7) / 8

def ofByte (byte : UInt8) : List Bool := (List.range 8).map byte.toNat.testBit

def toByte (bits : List Bool) : UInt8 :=
  UInt8.ofNat (bits.foldr (fun bit rest => bit.toNat + 2 * rest) 0)

def unpack (bytes : Bytes) : List Bool := bytes.flatMap ofByte

def pack : List Bool → Bytes
  | [] => []
  | bit :: rest => toByte (bit :: rest.take 7) :: pack (rest.drop 7)
termination_by bits => bits.length
decreasing_by simp only [List.length_drop, List.length_cons]; omega

end RowStore.Bitmap
