import RowStore.Bytes
/-!
# Text as bytes

Text is stored in UTF-8. Reading it back accepts any bytes whatever: where no character can be
read, one replacement character stands for the longest run of bytes that could still have begun a
character, and for a single byte if there is no such run. On bytes that `utf8` wrote nothing is
replaced.
-/

namespace RowStore.Text

def utf8 (s : String) : Bytes := s.toList.flatMap String.utf8EncodeChar

/-- The character the bytes begin with, if they begin with a well-formed one. -/
def firstChar? (bytes : Bytes) : Option Char :=
  (bytes.take 4).toByteArray.utf8DecodeChar? 0

/-- What may follow a leading byte: the least and the greatest second byte, and how many more bytes
come after it. -/
def continuation? (lead : UInt8) : Option (UInt8 × UInt8 × Nat) :=
  if lead < 0xC2 then none
  else if lead < 0xE0 then some (0x80, 0xBF, 0)
  else if lead = 0xE0 then some (0xA0, 0xBF, 1)
  else if lead = 0xED then some (0x80, 0x9F, 1)
  else if lead < 0xF0 then some (0x80, 0xBF, 1)
  else if lead = 0xF0 then some (0x90, 0xBF, 2)
  else if lead < 0xF4 then some (0x80, 0xBF, 2)
  else if lead = 0xF4 then some (0x80, 0x8F, 2)
  else none

/-- How many bytes after the leading one could still have belonged to a character. -/
def brokenTail (lead : UInt8) : Bytes → Nat
  | [] => 0
  | second :: rest =>
    match continuation? lead with
    | none => 0
    | some (least, greatest, more) =>
      if least ≤ second ∧ second ≤ greatest then
        1 + ((rest.take more).takeWhile fun byte => 0x80 ≤ byte ∧ byte ≤ 0xBF).length
      else 0

def readChars : Bytes → List Char
  | [] => []
  | lead :: rest =>
    match firstChar? (lead :: rest) with
    | some c => c :: readChars (rest.drop (c.utf8Size - 1))
    | none => '\uFFFD' :: readChars (rest.drop (brokenTail lead rest))
termination_by bytes => bytes.length
decreasing_by all_goals simp only [List.length_drop, List.length_cons]; omega

def ofBytes (bytes : Bytes) : String := String.ofList (readChars bytes)

end RowStore.Text
