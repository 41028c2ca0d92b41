/-!
# Summaries of a column

The functions that reduce the values of a column to one number.
-/

namespace RowStore

inductive Summary where
  | min
  | max
  | sum
  | avg
  | count
deriving DecidableEq

def Summary.name : Summary → String
  | .min => "min"
  | .max => "max"
  | .sum => "sum"
  | .avg => "avg"
  | .count => "count"

end RowStore
