import SegmentedView.Address
import SegmentedView.Error

/-!
# Segments

An immutable segment as a store shows it: a name, a document count, an optional
content token, and two look-ups. The identity tells apart segments that answer
alike but were made apart.
-/

set_option autoImplicit false

namespace SegmentedView

/-- Which segment this is, beyond what it answers. -/
inductive Segment.Identity
  /-- The segment that a store wrote as its `serial`-th. -/
  | written (serial : Nat)
  /-- A segment made for one enumeration, at one place of it. -/
  | answered (enumeration place : Nat)
  deriving DecidableEq, Repr

/-- One immutable segment. -/
structure Segment where
  identity : Segment.Identity
  name : String
  /-- The number of documents, deleted or not. -/
  docCount : Nat
  /-- The content token: segments of one name and one token hold the same
  documents. -/
  version : Option Nat
  /-- The id of the document at an offset, or none past the end. -/
  stableId : Nat → Option Nat
  /-- The stored content of a document. -/
  storedValue : Nat → Except Error (Option Bytes)

/-- One unit of what a store enumerates. -/
inductive Leaf
  | segment (s : Segment)
  /-- Anything that is not a segment, by the name of its kind. -/
  | foreign (kind : String)

/-- The name of the kind of a leaf. -/
def Leaf.kindName : Leaf → String
  | .segment _ => "segment"
  | .foreign kind => kind

/-- The segment of a leaf, if it is one. -/
def Leaf.segment? : Leaf → Option Segment
  | .segment s => some s
  | .foreign _ => none

end SegmentedView
