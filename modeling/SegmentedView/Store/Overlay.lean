import SegmentedView.Store.Basic

/-!
# Overlaid stores

A store behind a cover that can make it fail: another kind, an enumeration that
errs, segments that misreport. The version, the reported total and what is taken
back are those of the store beneath.
-/

set_option autoImplicit false

namespace SegmentedView

/-- How the segments of one name misbehave. They never show a content token. -/
structure Fault where
  name : String
  /-- The document count to answer in place of the true one. -/
  docCount : Option Nat := none
  /-- The error that every look-up of stored content ends with. -/
  valueError : Option String := none
  deriving DecidableEq, Repr

/-- What a segment shows under a fault. -/
def Fault.distort (f : Fault) (identity : Segment.Identity) (s : Segment) : Segment where
  identity := identity
  name := s.name
  docCount := f.docCount.getD s.docCount
  version := none
  stableId := s.stableId
  storedValue id :=
    match f.valueError with
    | some text => .error (.reported .store text)
    | none => s.storedValue id

/-- A store and the cover over it. -/
structure Overlaid (σ : Type) where
  inner : σ
  kind : Option StoreKind := none
  enumerateError : Option String := none
  faults : List Fault := []
  /-- How often the store was enumerated. -/
  enumerations : Nat := 0

namespace Overlaid

variable {σ : Type}

/-- Sets a fault, in place of an earlier one of its name. -/
def setFault (s : Overlaid σ) (f : Fault) : Overlaid σ :=
  { s with faults := f :: s.faults.filter (·.name != f.name) }

/-- What the cover shows of the leaf at one place of an enumeration. -/
def shown (s : Overlaid σ) (leaf : Leaf) (place : Nat) : Leaf :=
  match leaf with
  | .foreign kind => .foreign kind
  | .segment segment =>
    match s.faults.find? (·.name == segment.name) with
    | some fault => .segment (fault.distort (.answered s.enumerations place) segment)
    | none => .segment segment

/-- What the cover shows of a generation. -/
def cover (s : Overlaid σ) (g : Generation) : Generation :=
  { g with leaves := g.leaves.zipIdx.map fun (leaf, place) => s.shown leaf place }

instance [SegmentStore σ] : SegmentStore (Overlaid σ) where
  kind s := s.kind.getD (SegmentStore.kind s.inner)
  version s := SegmentStore.version s.inner
  hasChangedSince s := SegmentStore.hasChangedSince s.inner
  enumerate s :=
    match s.enumerateError with
    | some text => (.error (.reported .store text), s)
    | none =>
      let (answer, inner) := SegmentStore.enumerate s.inner
      (answer.map s.cover, { s with inner := inner, enumerations := s.enumerations + 1 })
  release s version := { s with inner := SegmentStore.release s.inner version }

end Overlaid

end SegmentedView
