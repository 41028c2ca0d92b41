import RowStore.Row
/-!
# Conditions on rows

A condition compares a field of a row with a constant, a join condition a field of one row with a
field of another. Values of different kinds satisfy no comparison at all, not even inequality, and
a field that a row does not have satisfies none either.
-/

namespace RowStore

inductive Comparison where
  | eq
  | gt
  | lt
  | le
  | ge
  | like
  | ne
deriving DecidableEq

namespace Comparison

def symbol : Comparison → String
  | .eq => "="
  | .gt => ">"
  | .lt => "<"
  | .le => "<="
  | .ge => ">="
  | .like => "LIKE"
  | .ne => "<>"

/-- Whether the first characters stand together somewhere among the second. -/
def occursIn (part : List Char) : List Char → Bool
  | [] => part.isEmpty
  | c :: rest => part.isPrefixOf (c :: rest) || occursIn part rest

/-- `like` holds of strings when the right one occurs in the left one, and of equal integers. -/
def matchesLike : Value → Value → Bool
  | .text s, .text t => occursIn t.toList s.toList
  | left, right => decide (left = right)

def holds (c : Comparison) (left right : Value) : Bool :=
  left.sameKind right &&
    match c with
    | .eq => decide (left = right)
    | .ne => decide (left ≠ right)
    | .gt => (left.compare right).isGT
    | .lt => (left.compare right).isLT
    | .le => (left.compare right).isLE
    | .ge => (left.compare right).isGE
    | .like => matchesLike left right

end Comparison

structure Condition where
  field : Nat
  comparison : Comparison
  operand : Value
deriving DecidableEq

namespace Condition

def accepts (c : Condition) (row : Row) : Bool :=
  (row.value? c.field).any fun value => c.comparison.holds value c.operand

def describe (c : Condition) : String :=
  s!"f{c.field} {c.comparison.symbol} {c.operand.render}"

end Condition

structure JoinCondition where
  leftField : Nat
  comparison : Comparison
  rightField : Nat
deriving DecidableEq

def JoinCondition.accepts (c : JoinCondition) (left right : Row) : Bool :=
  match left.value? c.leftField, right.value? c.rightField with
  | some l, some r => c.comparison.holds l r
  | _, _ => false

end RowStore
