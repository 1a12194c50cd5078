import SegmentedView.Reuse

/-!
# Views

Many segments presented as one document space. The segments, their order and the
boundaries never change after a view is made; what moves is the deletes, the
installed id mapper and the closed mark. The functions here do not ask whether
the view is closed: that depends on its lease, which other views share, and is
asked in `SegmentedView.System`.
-/

set_option autoImplicit false

namespace SegmentedView

/-- A look-up from ids to current positions, and which of the look-ups ever
installed it is. -/
structure IdMapper where
  serial : Nat
  position : Nat → Option Nat

/-- A view over one store generation. -/
structure View (P : Type) where
  /-- The number of the lease that holds the generation. -/
  lease : Nat
  decorator : Decorator P
  config : Config
  segments : List (Snapshot P)
  boundaries : Boundaries
  mapper : Option IdMapper := none
  closed : Bool := false

namespace View

variable {P : Type}

/-- A view of its own over the same segments, holding the same lease. -/
def copy (v : View P) : View P :=
  { v with segments := v.segments.map Snapshot.copy, closed := false }

/-- The number of documents of all segments. -/
def total (v : View P) : Nat := v.boundaries.total

/-- The first position of every segment, and the total. -/
def starts (v : View P) : Array Nat := v.boundaries.starts

/-- The place of the last segment of this name. -/
def placeNamed? (v : View P) (name : String) : Option Nat :=
  v.segments.zipIdx.reverse.findSome? fun (s, i) => if s.name == name then some i else none

/-- The last segment of this name. -/
def segmentNamed? (v : View P) (name : String) : Option (Snapshot P) :=
  (v.placeNamed? name).bind fun i => v.segments[i]?

/-- The names of the segments in ascending order, each with the place of its
last segment. -/
def nameTable (v : View P) : List (String × Nat) :=
  let names := (v.segments.map Snapshot.name).eraseDups.mergeSort (· ≤ ·)
  names.filterMap fun name => (v.placeNamed? name).map fun i => (name, i)

/-- The payload of every segment, in order. -/
def payloads (v : View P) : List (Payload P) := v.segments.map Snapshot.payload

/-- The segment of a position and the offset in it. -/
def locate (v : View P) (p : Nat) : Option (Nat × Nat) := v.boundaries.locate p

/-- The snapshot that a position falls into, and the offset in it. -/
def documentAt? (v : View P) (p : Nat) : Option (Snapshot P × Nat) :=
  (v.locate p).bind fun (i, l) => v.segments[i]?.map fun s => (s, l)

/-- The id of the document at a position. -/
def stableIdAt (v : View P) (p : Nat) : Option Nat :=
  (v.documentAt? p).bind fun (s, l) => s.stableIdAt l

/-- Whether a delete of the document at a position has been committed. -/
def isDeleted (v : View P) (p : Nat) : Bool :=
  (v.documentAt? p).any fun (s, l) => s.isDeleted l

/-- The stored content of the document that the mapper finds for an id, read
from the segment of that position. -/
def storedValue (v : View P) (id : Nat) : Except Error (Option Bytes) :=
  match v.mapper.bind fun mapper => mapper.position id with
  | none => .ok none
  | some p =>
    match v.documentAt? p with
    | none => .ok none
    | some (s, _) => s.storedValue id

/-- Applies a change to every snapshot, given its place, and adds up what the
changes answer. -/
def mark (change : Nat → Snapshot P → Snapshot P × Nat) (v : View P) : View P × Nat :=
  let marked := v.segments.mapIdx change
  ({ v with segments := marked.map (·.1) }, addUp (marked.map (·.2)))

/-- Stages deletes of the documents whose id is in `ids`, in every segment, and
counts the new ones. -/
def markIds (v : View P) (ids : List Nat) : View P × Nat :=
  v.mark fun _ s => s.markIds ids

/-- The offsets in segment `i` that some of the positions fall on, in order. -/
def offsetsIn (v : View P) (positions : List Nat) (i : Nat) : List Nat :=
  positions.filterMap fun p =>
    (v.locate p).bind fun (j, l) => if j = i then some l else none

/-- Stages deletes by position and counts the new ones. Positions out of range
are passed over. -/
def markAt (v : View P) (positions : List Nat) : View P × Nat :=
  v.mark fun i s => s.markAll (v.offsetsIn positions i)

/-- Publishes the staged deletes of every segment. -/
def commit (v : View P) : View P :=
  { v with segments := v.segments.map fun s => s.commit.1 }

/-- The number of committed deletes of all segments. -/
def deletedCount (v : View P) : Nat := addUp (v.segments.map Snapshot.deletedCount)

/-- The number of documents that are not deleted. -/
def liveCount (v : View P) : Nat := v.total - v.deletedCount

/-- Changes one segment; its place must exist. -/
def modifySegment (v : View P) (i : Nat) (change : Snapshot P → Snapshot P) : View P :=
  { v with segments := v.segments.modify i change }

end View

end SegmentedView
