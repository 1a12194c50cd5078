import SegmentedView.Address
import SegmentedView.Error

/-!
# Boundaries

The table that turns a list of segments into one document space: entry `i` is
the first position of segment `i`, and one more entry holds the total. A
position is found by binary search in it. Every read of the table is checked,
so a search that left the table would answer `none`; `segmentIndex?` never does.
-/

set_option autoImplicit false

namespace SegmentedView

/-- The last segment that starts where segment `i` starts, `start` being that
place: segments between them are empty. -/
def lastSharing? (starts : Array Nat) (start i : Nat) : Option Nat :=
  if i + 1 < starts.size - 1 then
    match starts[i + 1]? with
    | none => none
    | some next => if next = start then lastSharing? starts start (i + 1) else some i
  else some i
termination_by starts.size - i

/-- Binary search for the segment of `position` among the segments `lo` to
`hi - 1`. A position that meets none of them goes to the segment before `lo`,
kept inside the table. -/
def narrow? (starts : Array Nat) (position lo hi : Nat) : Option Nat :=
  if lo < hi then
    let mid := lo + (hi - lo) / 2
    match starts[mid]? with
    | none => none
    | some start =>
      if position < start then narrow? starts position lo mid
      else if start < position then
        match starts[mid + 1]? with
        | none => none
        | some next =>
          if position < next then some mid else narrow? starts position (mid + 1) hi
      else lastSharing? starts start mid
  else some (min (lo - 1) (starts.size - 1 - 1))
termination_by hi - lo

/-- The segment that holds `position`, for a table of starts that ends with the
total; `none` would mean a read outside the table. -/
def segmentIndex? (starts : Array Nat) (position : Nat) : Option Nat :=
  narrow? starts position 0 (starts.size - 1)

/-- The segment that holds `position`. Where empty segments share their start
with a segment that is not empty, it is the latter. A position outside the
table has no meaningful segment; it is given the nearest one. -/
def segmentIndex (starts : Array Nat) (position : Nat) : Nat :=
  (segmentIndex? starts position).getD 0

/-- The cumulative starts of an ordered list of segments, with the total last. -/
structure Boundaries where
  starts : Array Nat := #[0]
  deriving DecidableEq, Repr

namespace Boundaries

/-- Appends the running totals of `counts` to a table that ends with `total`.
The error names the number of segments whose total still fits a word. -/
def extend (starts : Array Nat) (total : Nat) :
    List Nat → Except Error (Array Nat)
  | [] => .ok starts
  | count :: counts =>
    if total + count ≤ maxWord then
      extend (starts.push (total + count)) (total + count) counts
    else .error (.countOverflow (starts.size - 1))

/-- The table for segments of the given document counts, in order. -/
def ofCounts (counts : List Nat) : Except Error Boundaries :=
  (extend #[0] 0 counts).map Boundaries.mk

/-- The number of segments. -/
def segmentCount (b : Boundaries) : Nat := b.starts.size - 1

/-- The number of documents in all segments. -/
def total (b : Boundaries) : Nat := b.starts.back?.getD 0

/-- The first position of segment `i`; for the number of segments, the total. -/
def start? (b : Boundaries) (i : Nat) : Option Nat := b.starts[i]?

/-- Whether a position lies in the document space. -/
def contains (b : Boundaries) (p : Nat) : Bool := p < b.total

/-- The segment of a position and the offset in it, if it lies in the document
space. -/
def locate (b : Boundaries) (p : Nat) : Option (Nat × Nat) :=
  if b.contains p then
    let i := segmentIndex b.starts p
    some (i, p - b.starts.getD i 0)
  else none

end Boundaries

end SegmentedView
