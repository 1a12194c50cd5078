import SegmentedView.Segment

/-!
# Segments in memory

A segment as the list of its documents' ids and the content stored for some of
them. Content is kept by id, so of two documents with one id the last one's
content is stored for both. No segment has more ids than a list in memory can
hold (`maxIds`); whoever numbers the documents of a segment has to see to that.
-/

set_option autoImplicit false

namespace SegmentedView

/-- The most ids that a list in memory can hold: an id takes eight bytes, and a
list less than half of the bytes that words can number. -/
def maxIds : Nat := (UInt64.size / 2 - 1) / 8

/-- A segment held in memory. -/
structure MemorySegment where
  name : String
  version : Option Nat := none
  ids : List Nat := []
  /-- Content by id, in the order it was written. -/
  values : List (Nat × Bytes) := []
  deriving DecidableEq, Repr

namespace MemorySegment

/-- A segment of the given documents, with no stored content. -/
def ofIds (name : String) (ids : List Nat) : MemorySegment :=
  { name := name, ids := ids }

/-- A segment of the given documents and their content. -/
def ofDocs (name : String) (docs : List (Nat × Bytes)) : MemorySegment :=
  { name := name, ids := docs.map (·.1), values := docs }

/-- A segment of `count` documents with consecutive ids from `first`. A program
that asks for more ids than a list can hold is stopped before there is a segment,
so the count has to be one that fits. -/
def sequential (name : String) (first : Nat) (count : Nat)
    (_fits : count ≤ maxIds := by decide) : MemorySegment :=
  ofIds name (List.range' first count)

/-- The same segment under a content token. -/
def withVersion (m : MemorySegment) (version : Nat) : MemorySegment :=
  { m with version := some version }

/-- The number of documents. -/
def docCount (m : MemorySegment) : Nat := m.ids.length

/-- The id of the document at an offset. -/
def stableId (m : MemorySegment) (l : Nat) : Option Nat := m.ids[l]?

/-- The content stored for an id: what was written last. -/
def storedValue? (m : MemorySegment) (id : Nat) : Option Bytes :=
  m.values.reverse.lookup id

/-- Each document with its content, or with empty content where none is stored. -/
def docs (m : MemorySegment) : List (Nat × Bytes) :=
  m.ids.map fun id => (id, (m.storedValue? id).getD [])

/-- What a store shows of this segment. -/
def toSegment (m : MemorySegment) (serial : Nat) : Segment where
  identity := .written serial
  name := m.name
  docCount := m.docCount
  version := m.version
  stableId := m.stableId
  storedValue id := .ok (m.storedValue? id)

end MemorySegment

end SegmentedView
