import SegmentedView.Decorator
import SegmentedView.Deletes.DeleteState

/-!
# Snapshots

A segment as one view sees it: the segment and its payload, which never change,
and the deletes, which belong to this snapshot alone.
-/

set_option autoImplicit false

namespace SegmentedView

/-- A segment as one view sees it. -/
structure Snapshot (P : Type) where
  segment : Segment
  payload : Payload P
  deletes : DeleteState

namespace Snapshot

variable {P : Type}

/-- A segment seen for the first time, with no deletes. -/
def open? (d : Decorator P) (opening place : Nat) (segment : Segment) :
    Except Error (Snapshot P) :=
  (d.decorate segment).map fun value =>
    ⟨segment, ⟨opening, place, value⟩, .new segment.docCount⟩

/-- A segment that takes the place of the one in `s`, with the deletes of `s`.
The name is taken as proof that the content is the same. -/
def rebase? (s : Snapshot P) (d : Decorator P) (opening place : Nat) (segment : Segment) :
    Except Error (Snapshot P) :=
  (d.redecorate s.payload.value segment).map fun value? =>
    ⟨segment, (value?.map (Payload.mk opening place)).getD s.payload,
      s.deletes.rebase segment.docCount⟩

/-- The same segment and payload, with deletes of its own. -/
def copy (s : Snapshot P) : Snapshot P := ⟨s.segment, s.payload, s.deletes.fork⟩

/-- The name of the segment. -/
def name (s : Snapshot P) : String := s.segment.name

/-- The number of documents, deleted or not. -/
def docCount (s : Snapshot P) : Nat := s.segment.docCount

/-- The content token of the segment. -/
def version (s : Snapshot P) : Option Nat := s.segment.version

/-- Whether a delete of this document has been committed. -/
def isDeleted (s : Snapshot P) (l : Nat) : Bool := s.deletes.isDeleted l

/-- The number of deletes that have been committed. -/
def deletedCount (s : Snapshot P) : Nat := s.deletes.committed.count

/-- The number of documents that are not deleted. -/
def liveCount (s : Snapshot P) : Nat := s.docCount - s.deletedCount

/-- The id of the document at an offset, if the segment has that offset. -/
def stableIdAt (s : Snapshot P) (l : Nat) : Option Nat :=
  if l < s.docCount then s.segment.stableId l else none

/-- The stored content of a document of this segment. -/
def storedValue (s : Snapshot P) (id : Nat) : Except Error (Option Bytes) :=
  s.segment.storedValue id

/-- Stages one delete; true if it was new. -/
def mark (s : Snapshot P) (l : Nat) : Snapshot P × Bool :=
  let marked := s.deletes.mark l
  ({ s with deletes := marked.1 }, marked.2)

/-- Stages deletes and counts the new ones. -/
def markAll (s : Snapshot P) (ls : List Nat) : Snapshot P × Nat :=
  let marked := s.deletes.markAll ls
  ({ s with deletes := marked.1 }, marked.2)

/-- The offsets of the documents whose id is in `ids`. -/
def offsetsOf (s : Snapshot P) (ids : List Nat) : List Nat :=
  (List.range s.docCount).filter fun l => (s.segment.stableId l).any ids.contains

/-- Stages deletes of the documents whose id is in `ids` and counts the new ones. -/
def markIds (s : Snapshot P) (ids : List Nat) : Snapshot P × Nat :=
  s.markAll (s.offsetsOf ids)

/-- Publishes the staged deletes; false if there were none. -/
def commit (s : Snapshot P) : Snapshot P × Bool :=
  let committed := s.deletes.commit
  ({ s with deletes := committed.1 }, committed.2)

end Snapshot

end SegmentedView
