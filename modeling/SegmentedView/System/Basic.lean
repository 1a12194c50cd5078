import SegmentedView.Lease
import SegmentedView.View

/-!
# Systems

One store, the leases taken on its generations, and the views that are open over
it. Views are numbered in the order they were made; a number is never given out
twice, and a dropped view leaves its number empty. Views that share a lease
share its fate and nothing else.
-/

set_option autoImplicit false

namespace SegmentedView

/-- A store and everything that is open over it. -/
structure System (σ P : Type) where
  store : σ
  leases : List Lease := []
  views : List (Option (View P)) := []
  /-- How many id mappers have been installed so far. -/
  mappers : Nat := 0

/-- What an operation on a system came to. -/
structure Outcome (σ P α : Type) where
  result : Except Error α
  system : System σ P
  events : List Event := []

namespace System

variable {σ P : Type}

/-- The view of a number. -/
def view? (s : System σ P) (slot : Nat) : Option (View P) := (s.views[slot]?).bind id

/-- The lease of a number. -/
def lease (s : System σ P) (i : Nat) : Lease := s.leases.getD i .vacant

/-- Puts a lease in the place of another. -/
def setLease (s : System σ P) (i : Nat) (l : Lease) : System σ P :=
  { s with leases := s.leases.set i l }

/-- Adds a lease; its number is the number of leases taken before. -/
def addLease (s : System σ P) (l : Lease) : System σ P :=
  { s with leases := s.leases ++ [l] }

/-- Puts a view in the place of another. -/
def setView (s : System σ P) (slot : Nat) (v : View P) : System σ P :=
  { s with views := s.views.set slot (some v) }

/-- Leaves a number empty. -/
def removeView (s : System σ P) (slot : Nat) : System σ P :=
  { s with views := s.views.set slot none }

/-- Adds a view; its number is the number of views made before. -/
def addView (s : System σ P) (v : View P) : System σ P :=
  { s with views := s.views ++ [some v] }

/-- The version of a view's generation. -/
def version (s : System σ P) (v : View P) : Nat := (s.lease v.lease).version

/-- The number of holders of a view's generation. -/
def refCount (s : System σ P) (v : View P) : Nat := (s.lease v.lease).refs

/-- Whether a view is closed, by itself or because its generation went back. -/
def isClosed (s : System σ P) (v : View P) : Bool := v.closed || (s.lease v.lease).released

/-- Fails for a closed view, and says which of the two reasons it has. -/
def checkOpen (s : System σ P) (v : View P) : Except Error Unit :=
  if v.closed then .error .viewClosed
  else if (s.lease v.lease).released then
    .error (.generationReleased (s.lease v.lease).version)
  else .ok ()

/-- The view of a number, for an operation that works on closed views too. -/
def findView (s : System σ P) (slot : Nat) : Except Error (View P) :=
  match s.view? slot with
  | some v => .ok v
  | none => .error .noSuchView

/-- The view of a number, for an operation that needs it open. -/
def findOpenView (s : System σ P) (slot : Nat) : Except Error (View P) :=
  match s.view? slot with
  | none => .error .noSuchView
  | some v =>
    match s.checkOpen v with
    | .error e => .error e
    | .ok () => .ok v

/-! ## What each change does to the views and the leases -/

/-- A view put in its place is found there, and all other views are where they were. -/
theorem view?_setView (s : System σ P) (slot : Nat) (v : View P) (k : Nat) :
    (s.setView slot v).view? k =
      if k = slot ∧ slot < s.views.length then some v else s.view? k := by
  simp only [view?, setView, List.getElem?_set]
  grind

/-- A view that is removed is not found, and all other views are where they were. -/
theorem view?_removeView (s : System σ P) (slot k : Nat) :
    (s.removeView slot).view? k = if k = slot then none else s.view? k := by
  simp only [view?, removeView, List.getElem?_set]
  grind

/-- A view that is added is found under the next number, and all others under theirs. -/
theorem view?_addView (s : System σ P) (v : View P) (k : Nat) :
    (s.addView v).view? k = if k = s.views.length then some v else s.view? k := by
  simp only [view?, addView, List.getElem?_append]
  grind

/-- A lease put in its place is found there, and all other leases are where they were. -/
theorem lease_setLease (s : System σ P) (i : Nat) (l : Lease) (k : Nat) :
    (s.setLease i l).lease k =
      if k = i ∧ i < s.leases.length then l else s.lease k := by
  simp only [lease, setLease, List.getD_eq_getElem?_getD, List.getElem?_set]
  grind

/-- A lease that is added is found under the next number, and all others under theirs. -/
theorem lease_addLease (s : System σ P) (l : Lease) (k : Nat) :
    (s.addLease l).lease k = if k = s.leases.length then l else s.lease k := by
  simp only [lease, addLease, List.getD_eq_getElem?_getD, List.getElem?_append]
  grind

/-- A view is open exactly when neither reason to be closed holds. -/
theorem checkOpen_eq_ok_iff (s : System σ P) (v : View P) :
    s.checkOpen v = .ok () ↔ s.isClosed v = false := by
  simp only [checkOpen, isClosed]
  grind

/-- The operation failed and changed nothing. -/
def fail {α : Type} (s : System σ P) (e : Error) : Outcome σ P α := ⟨.error e, s, []⟩

/-- The operation succeeded in silence. -/
def done {α : Type} (s : System σ P) (answer : α) : Outcome σ P α := ⟨.ok answer, s, []⟩

end System

end SegmentedView
