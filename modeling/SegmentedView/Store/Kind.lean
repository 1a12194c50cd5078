/-!
# Kinds of store

A view can be built over a store of many segments only; the other kind exists
so that a store can say that it is not one.
-/

set_option autoImplicit false

namespace SegmentedView

/-- The shape of a store. -/
inductive StoreKind
  /-- Many segments, over which a view can be built. -/
  | composite
  /-- One flat reader. -/
  | single
  deriving DecidableEq, Repr

/-- The name of a kind as messages write it. -/
def StoreKind.label : StoreKind → String
  | .composite => "Composite"
  | .single => "Single"

end SegmentedView
