import SegmentedView.Address

/-!
# Configuration of a view

When a segment counts as already known, from when on a reopen counts as slow,
and whether document counts are checked against what the store reports.
-/

set_option autoImplicit false

namespace SegmentedView

/-- When a segment counts as one that the view already knows. -/
inductive ReusePolicy
  /-- Equal names are enough, whatever the segments hold. -/
  | byName
  /-- Equal names and equal content tokens; a segment without a token is new. -/
  | byNameAndVersion
  deriving DecidableEq, Repr

/-- The configuration of a view. -/
structure Config where
  /-- From this many milliseconds on a reopen is logged as slow. -/
  slowReopenMillis : UInt64 := 1000
  reusePolicy : ReusePolicy := .byName
  /-- Whether segments must add up to the total that the store reports. -/
  validateDocCounts : Bool := true
  deriving DecidableEq, Repr

namespace Config

/-- The slow mark as whole seconds and the nanoseconds that remain. -/
def slowReopenThreshold (c : Config) : Nat × Nat :=
  (c.slowReopenMillis.toNat / 1000, c.slowReopenMillis.toNat % 1000 * 1000000)

/-- Whether a reopen that took this many nanoseconds was slow. -/
def isSlow (c : Config) (nanos : Nat) : Bool := c.slowReopenMillis.toNat * 1000000 ≤ nanos

end Config

end SegmentedView
