import SegmentedView.Segment

/-!
# Decorators

A decorator makes of a segment whatever the application reads with: its payload.
A view keeps one payload for each segment and never looks inside. When a segment
takes the place of one of its name, the decorator may make a new payload or let
the old one stand.
-/

set_option autoImplicit false

namespace SegmentedView

/-- How payloads are made. -/
structure Decorator (P : Type) where
  /-- The payload for a segment seen for the first time. -/
  decorate : Segment → Except Error P
  /-- The payload for a segment that takes the place of one of its name, or none
  to let the previous payload stand. -/
  redecorate : P → Segment → Except Error (Option P) := fun _ _ => .ok none

/-- A payload and where it was made: the number of the opening, and the place in
it. Two payloads are one object exactly when they were made in one place. -/
structure Payload (P : Type) where
  opening : Nat
  place : Nat
  value : P

/-- Whether two payloads are one object. -/
def Payload.isSame {P : Type} (a b : Payload P) : Bool :=
  a.opening == b.opening && a.place == b.place

/-- How a segment is labelled: its name, document count, first id and token. -/
def Segment.label (s : Segment) : String :=
  let orDash (n : Option Nat) : String := (n.map toString).getD "-"
  s.name ++ "/" ++ toString s.docCount ++ "/" ++ orDash (s.stableId 0) ++ "/" ++ orDash s.version

namespace Decorator

/-- The segment is its own payload, and a new segment makes a new payload. -/
def segments : Decorator Segment where
  decorate s := .ok s
  redecorate _ s := .ok (some s)

/-- The payload is the label of the segment when it was first seen. Segments of
the refused names get none. -/
def labels (refused : List String) : Decorator String where
  decorate s :=
    if refused.contains s.name then
      .error (.reported .store ("cannot decorate " ++ s.name))
    else .ok s.label

/-- The payload is the labels of all segments of the name so far. Segments of
the names in `stuck` cannot take the place of another. -/
def labelHistories (refused stuck : List String) : Decorator String where
  decorate := (labels refused).decorate
  redecorate previous s :=
    if stuck.contains s.name then
      .error (.reported .other ("cannot redecorate " ++ s.name))
    else .ok (some (previous ++ " > " ++ s.label))

end Decorator

end SegmentedView
