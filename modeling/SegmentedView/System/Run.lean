import SegmentedView.System.Documents
import SegmentedView.System.Lifecycle

/-!
# Runs of a system

Everything that can happen to a system, as one type of steps: the store changes
by itself, a view is opened, or something is done with a view. A run is a list
of steps; a step that fails is a step like any other, and the run goes on.
-/

set_option autoImplicit false

namespace SegmentedView

/-- One thing that happens to a system. -/
inductive Step (σ P : Type)
  | changeStore (change : σ → σ)
  | openView (d : Decorator P) (config : Config)
  | reopen (slot nanos : Nat)
  | copy (slot : Nat)
  | drop (slot : Nat)
  | close (slot : Nat)
  | incRef (slot : Nat)
  | decRef (slot : Nat)
  | markIds (slot : Nat) (ids : List Nat)
  | markAt (slot : Nat) (positions : List Nat)
  | commit (slot : Nat)
  | install (slot : Nat) (position : Nat → Option Nat)
  | changeSegment (slot i : Nat) (change : SegmentChange)

/-- What a step answers when it succeeds. -/
inductive Answer
  | done
  /-- The number of the view that was made. -/
  | made (slot : Nat)
  /-- The view that was asked, unchanged. -/
  | same
  | count (n : Nat)
  | flag (b : Bool)
  deriving DecidableEq, Repr

/-- The answer of a reopen. -/
def Reopened.toAnswer : Reopened → Answer
  | .same => .same
  | .fresh slot => .made slot

/-- The answer of a change to one segment. -/
def SegmentAnswer.toAnswer : SegmentAnswer → Answer
  | .flag b => .flag b
  | .count n => .count n

/-- The same outcome with another form of its answer. -/
def Outcome.map {σ P α β : Type} (f : α → β) (o : Outcome σ P α) : Outcome σ P β :=
  ⟨o.result.map f, o.system, o.events⟩

namespace System

variable {σ P : Type} [SegmentStore σ]

/-- Takes one step. -/
def step (s : System σ P) : Step σ P → Outcome σ P Answer
  | .changeStore change => { s with store := change s.store }.done .done
  | .openView d config => (s.openView d config).map .made
  | .reopen slot nanos => (s.reopen slot nanos).map Reopened.toAnswer
  | .copy slot => (s.copy slot).map .made
  | .drop slot => (s.drop slot).map fun _ => .done
  | .close slot => (s.close slot).map fun _ => .done
  | .incRef slot => (s.incRef slot).map fun _ => .done
  | .decRef slot => (s.decRef slot).map fun _ => .done
  | .markIds slot ids => (s.markIds slot ids).map .count
  | .markAt slot positions => (s.markAt slot positions).map .count
  | .commit slot => (s.commit slot).map fun _ => .done
  | .install slot position => (s.install slot position).map fun _ => .done
  | .changeSegment slot i change => (s.changeSegment slot i change).map SegmentAnswer.toAnswer

/-- Takes steps in order. -/
def run (s : System σ P) : List (Step σ P) → System σ P
  | [] => s
  | step :: steps => (s.step step).system.run steps

/-- Drops every view that is left, the first one first. -/
def dropAll (s : System σ P) : Outcome σ P Unit :=
  (List.range s.views.length).foldl
    (fun o slot =>
      match o.system.view? slot with
      | none => o
      | some _ =>
        let dropped := o.system.drop slot
        ⟨dropped.result, dropped.system, o.events ++ dropped.events⟩)
    (s.done ())

end System

end SegmentedView
