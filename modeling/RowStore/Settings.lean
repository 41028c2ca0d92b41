/-!
# Settings

What a store is opened with. All files of a store have pages of one size.
-/

namespace RowStore

structure Settings where
  /-- Bytes on a page. -/
  pageSize : Nat := 4096
  /-- Pages that may be in memory at once. -/
  poolPages : Nat := 50
  /-- How many of its last uses decide how long a page stays in memory. -/
  history : Nat := 2
  /-- Milliseconds a request for a lock may wait. -/
  lockWait : Nat := 2000
deriving DecidableEq

end RowStore
