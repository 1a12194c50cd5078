import SegmentedView.Boundaries
import SegmentedView.Config.Basic
import SegmentedView.Snapshot
import SegmentedView.Store.Basic

/-!
# Reuse of snapshots

How the snapshots of a new generation come about: a segment whose name is known,
if the policy accepts it, takes over the deletes of the snapshot it replaces;
any other segment starts without deletes. One leaf that is no segment fails the
whole generation.
-/

set_option autoImplicit false

namespace SegmentedView

/-- How many snapshots of a generation were carried over, and how many are new. -/
structure ReuseStats where
  reused : Nat := 0
  opened : Nat := 0
  deriving DecidableEq, Repr

/-- Whether a snapshot may pass its deletes to a segment of its name. -/
def ReusePolicy.accepts {P : Type} (policy : ReusePolicy) (previous : Snapshot P)
    (segment : Segment) : Bool :=
  match policy with
  | .byName => true
  | .byNameAndVersion => previous.version.isSome && previous.version == segment.version

variable {P : Type}

/-- The last snapshot of a list that has this name. -/
def Snapshot.lastNamed? (snapshots : List (Snapshot P)) (name : String) :
    Option (Snapshot P) :=
  snapshots.reverse.find? (·.name == name)

/-- The snapshot whose deletes a segment takes over, if there is one. -/
def Snapshot.predecessor? (prior : List (Snapshot P)) (policy : ReusePolicy)
    (segment : Segment) : Option (Snapshot P) :=
  (lastNamed? prior segment.name).filter (policy.accepts · segment)

/-- The snapshot for one leaf, and whether it was carried over. -/
def Leaf.snapshot? (prior : List (Snapshot P)) (d : Decorator P) (policy : ReusePolicy)
    (opening place : Nat) : Leaf → Except Error (Snapshot P × Bool)
  | .foreign kind => .error (.leafNotSegment kind)
  | .segment s =>
    match Snapshot.predecessor? prior policy s with
    | some previous => (previous.rebase? d opening place s).map fun made => (made, true)
    | none => (Snapshot.open? d opening place s).map fun made => (made, false)

/-- The snapshots for leaves in order, the first of them at `place`; the first
leaf that fails decides the error. -/
def snapshotLeaves (prior : List (Snapshot P)) (d : Decorator P) (policy : ReusePolicy)
    (opening place : Nat) : List Leaf → Except Error (List (Snapshot P × Bool))
  | [] => .ok []
  | leaf :: leaves =>
    match leaf.snapshot? prior d policy opening place with
    | .error e => .error e
    | .ok first =>
      (snapshotLeaves prior d policy opening (place + 1) leaves).map (first :: ·)

/-- How many of the snapshots were carried over, and how many are new. -/
def ReuseStats.ofSnapshots (made : List (Snapshot P × Bool)) : ReuseStats :=
  ⟨made.countP (·.2), made.countP (!·.2)⟩

/-- The snapshots for the leaves of a generation, and how they came about. -/
def reuseSnapshots (prior : List (Snapshot P)) (leaves : List Leaf) (d : Decorator P)
    (policy : ReusePolicy) (opening : Nat) : Except Error (List (Snapshot P) × ReuseStats) :=
  (snapshotLeaves prior d policy opening 0 leaves).map fun made =>
    (made.map (·.1), .ofSnapshots made)

/-- What a view of a generation is made of. -/
structure Assembly (P : Type) where
  snapshots : List (Snapshot P)
  boundaries : Boundaries
  stats : ReuseStats

/-- Puts together a view of a generation. Leaves are looked at first, in order,
then the total, and last what the store reports. -/
def Generation.assemble (g : Generation) (prior : List (Snapshot P)) (d : Decorator P)
    (config : Config) (opening : Nat) : Except Error (Assembly P) :=
  match reuseSnapshots prior g.leaves d config.reusePolicy opening with
  | .error e => .error e
  | .ok (snapshots, stats) =>
    match Boundaries.ofCounts (snapshots.map Snapshot.docCount) with
    | .error e => .error e
    | .ok boundaries =>
      if config.validateDocCounts && boundaries.total != g.docCount then
        .error (.docCountMismatch boundaries.total g.version g.docCount)
      else .ok ⟨snapshots, boundaries, stats⟩

end SegmentedView
