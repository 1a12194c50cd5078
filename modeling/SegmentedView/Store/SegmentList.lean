import SegmentedView.Segment.Memory
import SegmentedView.Store.Basic

/-!
# Segment lists

A store held in memory: an ordered list of segments, with leaves of other kinds
allowed among them. Every change of the list moves the version up by one, and a
change that fails moves nothing.
-/

set_option autoImplicit false

namespace SegmentedView

/-- One place of a segment list. -/
inductive SegmentList.Entry
  /-- The segment that the store wrote as its `serial`-th. -/
  | segment (serial : Nat) (m : MemorySegment)
  | foreign (kind : String)
  deriving DecidableEq, Repr

/-- A store held in memory. -/
structure SegmentList where
  kind : StoreKind := .composite
  version : Nat := 0
  entries : List SegmentList.Entry := []
  /-- The document count to report in place of the true one. -/
  reportedDocCount : Option Nat := none
  /-- How many segments have been written so far. -/
  written : Nat := 0
  /-- The versions of the generations taken back, in order. -/
  releases : List Nat := []
  deriving DecidableEq, Repr

namespace SegmentList

namespace Entry

/-- Whether this is a segment of the given name. -/
def hasName (name : String) : Entry → Bool
  | .segment _ m => m.name == name
  | .foreign _ => false

/-- The number of documents at this place. -/
def docCount : Entry → Nat
  | .segment _ m => m.docCount
  | .foreign _ => 0

/-- The documents at this place, with their content. -/
def docs : Entry → List (Nat × Bytes)
  | .segment _ m => m.docs
  | .foreign _ => []

/-- What an enumeration shows of this place. -/
def toLeaf : Entry → Leaf
  | .segment serial m => .segment (m.toSegment serial)
  | .foreign kind => .foreign kind

end Entry

/-- An empty list that calls itself a store of the given kind. -/
def ofKind (kind : StoreKind) : SegmentList := { kind := kind }

/-- A list that starts with the given segments. -/
def ofSegments (ms : List MemorySegment) : SegmentList where
  version := 1
  entries := ms.zipIdx.map fun (m, serial) => .segment serial m
  written := ms.length

/-- Segments of the given sizes: the first is called `_i` and its first document
has the id `first`; names and ids run on from one segment to the next. -/
def sized (i : Nat) (first : Nat) :
    (sizes : List Nat) → (∀ size ∈ sizes, size ≤ maxIds) → List MemorySegment
  | [], _ => []
  | size :: sizes, fit =>
    .sequential ("_" ++ toString i) first size (fit size List.mem_cons_self) ::
      sized (i + 1) (first + size) sizes fun size h => fit size (List.mem_cons_of_mem _ h)

/-- The list for a document space cut into segments of the given sizes. -/
def ofSizes (sizes : List Nat) (fit : ∀ size ∈ sizes, size ≤ maxIds := by decide) :
    SegmentList :=
  ofSegments (sized 0 0 sizes fit)

/-- The same for sizes of any kind. A size that is too large for a list of ids stops
the program, and there is no list of segments. -/
def ofSizes? (sizes : List Nat) : Option SegmentList :=
  if fit : ∀ size ∈ sizes, size ≤ maxIds then some (ofSizes sizes fit) else none

/-- The place of the first segment of this name. -/
def place? (s : SegmentList) (name : String) : Option Nat :=
  s.entries.findIdx? (·.hasName name)

/-- The same store one version on, with other entries. -/
def next (s : SegmentList) (entries : List Entry) : SegmentList :=
  { s with entries := entries, version := s.version + 1 }

/-- Appends a segment. -/
def add (s : SegmentList) (m : MemorySegment) : SegmentList :=
  { s.next (s.entries ++ [.segment s.written m]) with written := s.written + 1 }

/-- Appends a leaf of another kind. -/
def addForeign (s : SegmentList) (kind : String) : SegmentList :=
  s.next (s.entries ++ [.foreign kind])

/-- Removes the first segment of this name, if there is one. -/
def remove? (s : SegmentList) (name : String) : Option SegmentList :=
  (s.place? name).map fun i => s.next (s.entries.eraseIdx i)

/-- Puts a segment in the place of the first one of its name, if there is one. -/
def replace? (s : SegmentList) (m : MemorySegment) : Option SegmentList :=
  (s.place? m.name).map fun i =>
    { s.next (s.entries.set i (.segment s.written m)) with written := s.written + 1 }

/-- The places of the named segments; the first name without one is an error. -/
def placesOf (s : SegmentList) : List String → Except Error (List Nat)
  | [] => .ok []
  | name :: names =>
    match s.place? name with
    | none => .error (.segmentMissing name)
    | some i => (s.placesOf names).map (i :: ·)

/-- Takes the entries at `places` out of the list and puts `merged` where the
first of them, at `first`, was. -/
def splice (entries : List Entry) (places : List Nat) (first : Nat) (merged : Entry) :
    List Entry :=
  let left := entries.zipIdx.filter fun (_, i) => !places.contains i
  (left.filter (·.2 < first)).map (·.1) ++ merged :: (left.filter (first ≤ ·.2)).map (·.1)

/-- Merges the named segments into one, in the place of the first of them. It
holds their documents in the order of the list, each source once. -/
def merge (s : SegmentList) (names : List String) (into : String) :
    Except Error SegmentList :=
  match s.placesOf names with
  | .error e => .error e
  | .ok places =>
    match (List.range s.entries.length).filter (places.contains ·) with
    | [] => .error .nothingToMerge
    | first :: rest =>
      let docs := (first :: rest).flatMap fun i => (s.entries[i]?.map Entry.docs).getD []
      let merged := Entry.segment s.written (.ofDocs into docs)
      .ok { s.next (splice s.entries (first :: rest) first merged) with
        written := s.written + 1 }

/-- Reports `total` as the document count from now on, or the true one again. -/
def report (s : SegmentList) (total : Option Nat) : SegmentList :=
  { s.next s.entries with reportedDocCount := total }

/-- The number of documents that an enumeration reports. -/
def docCount (s : SegmentList) : Nat :=
  s.reportedDocCount.getD (addUp (s.entries.map Entry.docCount))

/-- The current generation. -/
def generation (s : SegmentList) : Generation where
  version := s.version
  docCount := s.docCount
  leaves := s.entries.map Entry.toLeaf

/-- The number of places. -/
def segmentCount (s : SegmentList) : Nat := s.entries.length

/-- How often the generation of this version was taken back. -/
def releaseCount (s : SegmentList) (version : Nat) : Nat := s.releases.count version

/-- How many generations were taken back. -/
def totalReleases (s : SegmentList) : Nat := s.releases.length

instance : SegmentStore SegmentList where
  kind := SegmentList.kind
  version := SegmentList.version
  enumerate s := (.ok s.generation, s)
  release s version := { s with releases := s.releases ++ [version] }

/-- One change of a segment list. -/
inductive Change
  | add (m : MemorySegment)
  | addForeign (kind : String)
  | remove (name : String)
  | replace (m : MemorySegment)
  | merge (names : List String) (into : String)
  | report (total : Option Nat)
  deriving DecidableEq, Repr

/-- What a change answers. -/
inductive Changed
  /-- The version after the change. -/
  | version (version : Nat)
  /-- Whether there was a segment to change. -/
  | found (b : Bool)
  | failed (e : Error)
  deriving DecidableEq, Repr

/-- Makes one change. -/
def change (s : SegmentList) : Change → SegmentList × Changed
  | .add m => (s.add m, .version (s.version + 1))
  | .addForeign kind => (s.addForeign kind, .version (s.version + 1))
  | .remove name =>
    match s.remove? name with
    | some s' => (s', .found true)
    | none => (s, .found false)
  | .replace m =>
    match s.replace? m with
    | some s' => (s', .found true)
    | none => (s, .found false)
  | .merge names into =>
    match s.merge names into with
    | .ok s' => (s', .version s'.version)
    | .error e => (s, .failed e)
  | .report total => (s.report total, .version (s.version + 1))

end SegmentList

end SegmentedView
