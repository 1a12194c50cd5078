import SegmentedView.Deletes.DeleteState

/-!
# Families of delete states

Delete states that grow out of one another: each member was new, forked from a
member or rebased from one. A family also knows which members still hold one
and the same published set: a fork holds its parent's, and so does a rebase that
keeps the size, until either side commits something.
-/

set_option autoImplicit false

namespace SegmentedView

/-- A delete state and the number of the publication it holds. -/
structure DeleteFamily.Member where
  state : DeleteState
  publication : Nat
  deriving DecidableEq, Repr

/-- Delete states numbered in the order they were made. -/
structure DeleteFamily where
  members : List DeleteFamily.Member := []
  publications : Nat := 0
  deriving DecidableEq, Repr

namespace DeleteFamily

/-- One operation on a member of a family. -/
inductive Step
  | mark (member : Nat) (l : Nat)
  | markAll (member : Nat) (ls : List Nat)
  | commit (member : Nat)
  | fork (member : Nat)
  | rebase (member : Nat) (n : Nat)
  deriving DecidableEq, Repr

/-- What an operation answers. -/
inductive Answer
  | flag (b : Bool)
  | count (n : Nat)
  /-- The number of the member that was made. -/
  | made (member : Nat)
  /-- There is no member of that number. -/
  | missing
  deriving DecidableEq, Repr

/-- The family of one new state for `n` documents. -/
def new (n : Nat) : DeleteFamily := ⟨[⟨.new n, 0⟩], 1⟩

/-- The member of a number. -/
def member? (f : DeleteFamily) (i : Nat) : Option Member := f.members[i]?

/-- Puts a member in the place of another. -/
def setMember (f : DeleteFamily) (i : Nat) (m : Member) : DeleteFamily :=
  { f with members := f.members.set i m }

/-- Adds a member; its number is the number of members before. -/
def addMember (f : DeleteFamily) (m : Member) : DeleteFamily :=
  { f with members := f.members ++ [m] }

/-- Runs one operation. -/
def step (f : DeleteFamily) : Step → DeleteFamily × Answer
  | .mark i l =>
    match f.member? i with
    | none => (f, .missing)
    | some m =>
      let marked := m.state.mark l
      (f.setMember i { m with state := marked.1 }, .flag marked.2)
  | .markAll i ls =>
    match f.member? i with
    | none => (f, .missing)
    | some m =>
      let marked := m.state.markAll ls
      (f.setMember i { m with state := marked.1 }, .count marked.2)
  | .commit i =>
    match f.member? i with
    | none => (f, .missing)
    | some m =>
      let committed := m.state.commit
      if committed.2 then
        ({ f.setMember i ⟨committed.1, f.publications⟩ with
            publications := f.publications + 1 }, .flag true)
      else (f, .flag false)
  | .fork i =>
    match f.member? i with
    | none => (f, .missing)
    | some m => (f.addMember { m with state := m.state.fork }, .made f.members.length)
  | .rebase i n =>
    match f.member? i with
    | none => (f, .missing)
    | some m =>
      if m.state.committed.size = n then
        (f.addMember { m with state := m.state.rebase n }, .made f.members.length)
      else
        ({ f.addMember ⟨m.state.rebase n, f.publications⟩ with
            publications := f.publications + 1 }, .made f.members.length)

/-- Runs operations in order. -/
def run (f : DeleteFamily) : List Step → DeleteFamily
  | [] => f
  | s :: ss => (f.step s).1.run ss

/-- Whether two members hold one and the same published set. -/
def sharePublication (f : DeleteFamily) (i j : Nat) : Bool :=
  match f.member? i, f.member? j with
  | some m, some m' => m.publication == m'.publication
  | _, _ => false

end DeleteFamily

end SegmentedView
