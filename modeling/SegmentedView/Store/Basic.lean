import SegmentedView.Segment

/-!
# Stores

What a view needs of a store: its kind, its version, an enumeration of its
current generation, and to be told when the last holder of a generation lets go.
Enumerating may change the store (a store may count, or cache), so it gives the
store back.
-/

set_option autoImplicit false

namespace SegmentedView

/-- One consistent enumeration of a store. -/
structure Generation where
  version : Nat
  /-- The number of documents as the store reports it. -/
  docCount : Nat
  leaves : List Leaf

/-- A store of segments. -/
class SegmentStore (σ : Type) where
  kind : σ → StoreKind
  /-- Changes whenever the list of segments does. -/
  version : σ → Nat
  /-- Whether the list of segments changed since it had this version. A store may know better
  than its version says. -/
  hasChangedSince : σ → Nat → Bool := fun store since => version store != since
  enumerate : σ → Except Error Generation × σ
  /-- Takes a generation back, by its version. -/
  release : σ → Nat → σ

end SegmentedView
