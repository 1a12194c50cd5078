import SegmentedView.System.Basic

/-!
# Documents of a view

Looking up, deleting and mapping the documents of one view of a system. Look-ups
of documents and deletes by the whole view need it open; the numbers of its
documents, its mapper and its single segments stay within reach when it is
closed.
-/

set_option autoImplicit false

namespace SegmentedView

/-- A change to one segment of a view. -/
inductive SegmentChange
  | mark (l : Nat)
  | markAll (ls : List Nat)
  | markIds (ids : List Nat)
  | commit
  deriving DecidableEq, Repr

/-- What a change to one segment answers. -/
inductive SegmentAnswer
  | flag (b : Bool)
  | count (n : Nat)
  deriving DecidableEq, Repr

/-- Makes a change to a segment. -/
def Snapshot.change {P : Type} (s : Snapshot P) : SegmentChange → Snapshot P × SegmentAnswer
  | .mark l => ((s.mark l).1, .flag (s.mark l).2)
  | .markAll ls => ((s.markAll ls).1, .count (s.markAll ls).2)
  | .markIds ids => ((s.markIds ids).1, .count (s.markIds ids).2)
  | .commit => (s.commit.1, .flag s.commit.2)

namespace System

variable {σ P : Type}

/-- The id of the document at a position of a view. -/
def stableIdAt (s : System σ P) (slot : Nat) (p : Nat) : Except Error (Option Nat) :=
  (s.findOpenView slot).map fun v => v.stableIdAt p

/-- Whether the document at a position of a view is deleted. -/
def isDeleted (s : System σ P) (slot : Nat) (p : Nat) : Except Error Bool :=
  (s.findOpenView slot).map fun v => v.isDeleted p

/-- The stored content of the document that a view knows by an id. -/
def storedValue (s : System σ P) (slot : Nat) (id : Nat) : Except Error (Option Bytes) :=
  match s.findOpenView slot with
  | .error e => .error e
  | .ok v => v.storedValue id

/-- Stages deletes by id and counts the new ones. -/
def markIds (s : System σ P) (slot : Nat) (ids : List Nat) : Outcome σ P Nat :=
  match s.findOpenView slot with
  | .error e => s.fail e
  | .ok v => (s.setView slot (v.markIds ids).1).done (v.markIds ids).2

/-- Stages deletes by position and counts the new ones. -/
def markAt (s : System σ P) (slot : Nat) (positions : List Nat) : Outcome σ P Nat :=
  match s.findOpenView slot with
  | .error e => s.fail e
  | .ok v => (s.setView slot (v.markAt positions).1).done (v.markAt positions).2

/-- Publishes the staged deletes of a view. -/
def commit (s : System σ P) (slot : Nat) : Outcome σ P Unit :=
  match s.findOpenView slot with
  | .error e => s.fail e
  | .ok v => (s.setView slot v.commit).done ()

/-- Installs an id mapper, in place of an earlier one. -/
def install (s : System σ P) (slot : Nat) (position : Nat → Option Nat) :
    Outcome σ P Unit :=
  match s.findView slot with
  | .error e => s.fail e
  | .ok v =>
    ({ s with mappers := s.mappers + 1 }.setView slot
      { v with mapper := some ⟨s.mappers, position⟩ }).done ()

/-- Makes a change to one segment of a view, closed or not. -/
def changeSegment (s : System σ P) (slot i : Nat) (change : SegmentChange) :
    Outcome σ P SegmentAnswer :=
  match s.findView slot with
  | .error e => s.fail e
  | .ok v =>
    match v.segments[i]? with
    | none => s.fail .noSuchSegment
    | some segment =>
      (s.setView slot (v.modifySegment i fun s => (s.change change).1)).done
        (segment.change change).2

end System

end SegmentedView
