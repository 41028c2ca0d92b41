import RowStore.Schema
import RowStore.Text
/-!
# Values

A value is a 32-bit integer or a string. Values are ordered: every integer comes before every
string, integers by size, strings by their characters, which is the order of their UTF-8 bytes.
-/

namespace RowStore

inductive Value where
  | int (n : Int32)
  | text (s : String)
deriving DecidableEq

namespace Value

/-- The value an integer of any size stands for, unless it takes more than 32 bits. -/
def ofInt? (n : Int) : Option Value :=
  if Int32.minValue.toInt ≤ n ∧ n ≤ Int32.maxValue.toInt then some (.int (Int32.ofInt n)) else none

def int? : Value → Option Int32
  | .int n => some n
  | .text _ => none

def text? : Value → Option String
  | .int _ => none
  | .text s => some s

/-- Whether both are integers or both are strings. -/
def sameKind : Value → Value → Bool
  | .int _, .int _ => true
  | .text _, .text _ => true
  | _, _ => false

def kind : Value → String
  | .int _ => "INT"
  | .text _ => "STRING"

def render : Value → String
  | .int n => toString n.toInt
  | .text s => s

def compare : Value → Value → Ordering
  | .int m, .int n => Ord.compare m.toInt n.toInt
  | .int _, .text _ => .lt
  | .text _, .int _ => .gt
  | .text s, .text t => Ord.compare s t

end Value

end RowStore
