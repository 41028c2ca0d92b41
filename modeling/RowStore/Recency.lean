import RowStore.Address
import RowStore.FinMap
/-!
# Which page to give up

Every use of a page is a tick of a clock, and for each tracked page the ticks of its last `depth`
uses are kept. The page to give up is the one whose `depth`-th last use is longest ago; a page that
has not been used that often goes before any that has, the earliest used first. Since no two uses
share a tick, the choice is unique.
-/

namespace RowStore

structure Recency where
  depth : Nat
  clock : Nat
  /-- The last ticks of each page, the oldest first. -/
  uses : FinMap PageId (List Nat)

namespace Recency

/-- At least one use is kept. -/
def new (depth : Nat) : Recency := ⟨max depth 1, 0, .empty⟩

def size (r : Recency) : Nat := r.uses.size

def lastTicks (depth : Nat) (ticks : List Nat) : List Nat := ticks.drop (ticks.length - depth)

def touch (r : Recency) (page : PageId) : Recency where
  depth := r.depth
  clock := r.clock + 1
  uses := r.uses.insert page
    (lastTicks r.depth ((r.uses.get? page).getD [] ++ [r.clock]))

def forget (r : Recency) (page : PageId) : Recency := { r with uses := r.uses.erase page }

/-- Whether a page with the first ticks goes before one with the second. -/
def goesBefore (depth : Nat) (ticks others : List Nat) : Bool :=
  match decide (ticks.length < depth), decide (others.length < depth) with
  | true, false => true
  | false, true => false
  | _, _ => decide (ticks.headD 0 < others.headD 0)

def first (depth : Nat) : List (PageId × List Nat) → Option (PageId × List Nat)
  | [] => none
  | entry :: rest =>
    match first depth rest with
    | none => some entry
    | some best => if goesBefore depth best.2 entry.2 then some best else some entry

/-- The page to give up among the eligible ones. -/
def victim? (r : Recency) (eligible : PageId → Bool) : Option PageId :=
  (first r.depth (r.uses.entries.filter fun entry => eligible entry.1)).map (·.1)

def evict (r : Recency) (eligible : PageId → Bool) : Option (PageId × Recency) :=
  (r.victim? eligible).map fun page => (page, r.forget page)

end Recency

end RowStore
