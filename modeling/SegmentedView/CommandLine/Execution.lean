import SegmentedView.CommandLine.Report
import SegmentedView.Store.SegmentList
import SegmentedView.System.Documents
import SegmentedView.System.Lifecycle

/-!
# Carrying out a command

Both commands open a view over segments of the given sizes, ask it, and close it
again. The outcome holds the store as it is afterwards. Sizes that no segment can
have stop the program before there is a store, and then there is no outcome.
-/

set_option autoImplicit false

namespace SegmentedView.CommandLine

/-- Opens a view over a list of segments, asks it something, and lets go of it
whatever the answer. -/
def askView {α : Type} (store : SegmentList) (config : Config)
    (ask : System SegmentList Segment → Nat → Except Error α) :
    Outcome SegmentList Segment α :=
  let empty : System SegmentList Segment := { store := store }
  let opened := empty.openView Decorator.segments config
  match opened.result with
  | .error e => ⟨.error e, opened.system, opened.events⟩
  | .ok slot =>
    match ask opened.system slot with
    | .error e =>
      let dropped := opened.system.drop slot
      ⟨.error e, dropped.system, opened.events ++ dropped.events⟩
    | .ok answer =>
      let closed := opened.system.close slot
      let dropped := closed.system.drop slot
      ⟨closed.result.map fun _ => answer, dropped.system,
        opened.events ++ closed.events ++ dropped.events⟩

/-- Asks a view over segments of the given sizes, if there can be such segments. -/
def withView {α : Type} (sizes : List Nat) (config : Config)
    (ask : System SegmentList Segment → Nat → Except Error α) :
    Option (Outcome SegmentList Segment α) :=
  (SegmentList.ofSizes? sizes).map fun store => askView store config ask

/-- The boundaries of segments of the given sizes. -/
def startsReport (sizes : List Nat) (config : Config) :
    Option (Outcome SegmentList Segment StartsReport) :=
  withView sizes config fun s slot =>
    (s.findView slot).map fun v => ⟨v.segments.length, v.total, v.starts.toList⟩

/-- What becomes of positions, in order; the first that fails decides. -/
def resolve (s : System SegmentList Segment) (slot : Nat) :
    List Nat → Except Error (List Resolution)
  | [] => .ok []
  | p :: ps =>
    match s.findView slot with
    | .error e => .error e
    | .ok v =>
      match s.stableIdAt slot p with
      | .error e => .error e
      | .ok id =>
        let found := v.locate p
        (resolve s slot ps).map (⟨p, found.map (·.1), found.map (·.2), id⟩ :: ·)

/-- The segments and offsets of positions. -/
def locateReport (sizes positions : List Nat) (config : Config) :
    Option (Outcome SegmentList Segment (List Resolution)) :=
  withView sizes config fun s slot => resolve s slot positions

/-- Carries out a command, if the program is not stopped on the way. -/
def Command.execute (config : Config) : Command → Option (Except Error Report × List Event)
  | .starts sizes =>
    (startsReport sizes config).map fun outcome =>
      (outcome.result.map .starts, outcome.events)
  | .locate sizes positions =>
    (locateReport sizes positions config).map fun outcome =>
      (outcome.result.map .locate, outcome.events)

end SegmentedView.CommandLine
