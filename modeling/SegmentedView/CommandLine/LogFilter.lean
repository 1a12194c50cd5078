import SegmentedView.Event
import SegmentedView.Text.Pieces

/-!
# Log filters

Which events are logged. A filter is a list of directives, each with the modules
it speaks of and the least important level it lets pass; the directive with the
longest matching module path decides.
-/

set_option autoImplicit false

namespace SegmentedView.CommandLine

open Text

/-- The rank of a level, the most important first. -/
def rank : Level → Nat
  | .error => 1
  | .warn => 2
  | .info => 3
  | .debug => 4
  | .trace => 5

/-- A rule for the modules whose path starts with `target`, or for all. -/
structure Directive where
  target : Option String
  /-- The least important rank that passes; none passes at zero. -/
  most : Nat
  deriving DecidableEq, Repr

/-- The rank that a word stands for, in any case. -/
def rank? (word : String) : Option Nat :=
  match String.ofList (word.toList.map Char.toLower) with
  | "off" => some 0
  | "error" => some 1
  | "warn" => some 2
  | "info" => some 3
  | "debug" => some 4
  | "trace" => some 5
  | _ => none

/-- One directive as it is written: a level, a module path, or both with an
equals sign between; or the part of it that makes no sense. -/
def Directive.read (cs : List Char) : Except String Directive :=
  match splitAt '=' cs with
  | [word] =>
    match rank? (String.ofList word) with
    | some most => .ok ⟨none, most⟩
    | none => .ok ⟨some (String.ofList word), 5⟩
  | [target, level] =>
    if (trimmed level).isEmpty then .ok ⟨some (String.ofList target), 5⟩
    else
      match rank? (String.ofList (trimmed level)) with
      | some most => .ok ⟨some (String.ofList target), most⟩
      | none => .error (String.ofList (trimmed level))
  | _ => .error (String.ofList cs)

/-- The directives of a specification, with commas between them. -/
def readDirectives (spec : String) : List (Except String Directive) :=
  (((splitAt ',' spec.toList).map trimmed).filter (!·.isEmpty)).map Directive.read

/-- Adds a directive, in place of an earlier one for the same modules. -/
def addDirective (ds : List Directive) (d : Directive) : List Directive :=
  if ds.any (·.target == d.target) then ds.map fun e => if e.target == d.target then d else e
  else ds ++ [d]

/-- Which events are logged. -/
structure LogFilter where
  directives : List Directive
  deriving DecidableEq, Repr

namespace LogFilter

/-- The rank that a verbosity lets pass for all modules. -/
def ofVerbosity (verbosity : Nat) : Nat := min (verbosity + 1) 5

/-- The filter for a verbosity, refined by a specification, and the parts of the
specification that make no sense. -/
def make (verbosity : Nat) (spec : Option String) : LogFilter × List String :=
  let read := (spec.map readDirectives).getD []
  let sound := read.filterMap Except.toOption
  let unsound := read.filterMap fun
    | .error part => some part
    | .ok _ => none
  (⟨sound.foldl addDirective [⟨none, ofVerbosity verbosity⟩]⟩, unsound)

/-- Whether a directive speaks of a module path, and how long its own is. -/
def reach? (d : Directive) (target : String) : Option Nat :=
  match d.target with
  | none => some 0
  | some t => if t.toList.isPrefixOf target.toList then some t.utf8ByteSize else none

/-- The directive for a module path: of those that speak of it the one with the
longest path, and of equally long ones the last. -/
def directiveFor? (f : LogFilter) (target : String) : Option Directive :=
  (f.directives.foldl
    (fun (best : Option (Directive × Nat)) d =>
      match reach? d target, best with
      | none, _ => best
      | some n, none => some (d, n)
      | some n, some (_, m) => if m ≤ n then some (d, n) else best)
    none).map (·.1)

/-- Whether an event is logged. -/
def allows (f : LogFilter) (e : Event) : Bool :=
  match f.directiveFor? e.target with
  | none => false
  | some d => rank e.level ≤ d.most

end LogFilter

end SegmentedView.CommandLine
