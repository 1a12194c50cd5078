import SegmentedView.Address
import SegmentedView.CommandLine.Grammar
import SegmentedView.Text.Decimal
import SegmentedView.Text.Pieces

/-!
# Arguments

What a command line asks for: how much to log, how to print, which configuration
to use, and one of two commands over a list of segment sizes.
-/

set_option autoImplicit false

namespace SegmentedView.CommandLine

open Text

/-- How a report is printed. -/
inductive OutputFormat
  | human
  | json
  deriving DecidableEq, Repr

/-- What to do. -/
inductive Command
  /-- Print the boundaries of segments of these sizes. -/
  | starts (sizes : List Nat)
  /-- Find the segments and offsets of positions. -/
  | locate (sizes positions : List Nat)
  deriving DecidableEq, Repr

/-- The options that stand before the command. -/
structure Globals where
  /-- How often more logging was asked for. -/
  verbose : Nat := 0
  quiet : Bool := false
  format : Option OutputFormat := none
  pretty : Bool := false
  config : Option String := none
  deriving DecidableEq, Repr

/-- What a command line asks for. -/
structure Arguments where
  verbose : Nat
  quiet : Bool
  format : OutputFormat
  pretty : Bool
  config : Option String
  command : Command
  deriving DecidableEq, Repr

/-- The most that is counted of one option. -/
def maxVerbose : Nat := 255

/-- How much to log: nothing but errors when quiet, otherwise one step more than
was asked for. -/
def Arguments.verbosity (a : Arguments) : Nat :=
  if a.quiet then 0 else min (a.verbose + 1) maxVerbose

/-- A number written with digits, and maybe a plus sign before them, if it fits
a word. -/
def number? (s : String) : Option Nat :=
  let cs :=
    match s.toList with
    | '+' :: cs => cs
    | cs => cs
  if cs.isEmpty || !cs.all Char.isDigit then none
  else if ofDigits cs ≤ maxWord then some (ofDigits cs) else none

/-- Numbers with commas between them. -/
def numbers? (s : String) : Option (List Nat) :=
  (splitAt ',' s.toList).mapM fun piece => number? (String.ofList piece)

/-- The value, or a usage error where there is none. -/
def orUsage {α : Type} : Option α → Except Stop α
  | some a => .ok a
  | none => .error .usage

/-! ## Before the command -/

/-- An option that stands before the command. -/
inductive GlobalOption
  | verbose
  | quiet
  | format
  | pretty
  | config
  | help
  | version
  deriving DecidableEq, Repr

/-- Sets an option that may be set once only. -/
def setOnce {α : Type} (current : Option α) (value : α) : Except Stop (Option α) :=
  if current.isSome then .error .usage else .ok (some value)

/-- Applies an option that stands before the command. -/
def Globals.apply (g : Globals) : GlobalOption → List String → Except Stop Globals
  | .verbose, _ => .ok { g with verbose := min (g.verbose + 1) maxVerbose }
  | .quiet, _ => if g.quiet then .error .usage else .ok { g with quiet := true }
  | .pretty, _ => if g.pretty then .error .usage else .ok { g with pretty := true }
  | .format, ["human"] => (setOnce g.format .human).map fun f => { g with format := f }
  | .format, ["json"] => (setOnce g.format .json).map fun f => { g with format := f }
  | .format, _ => .error .usage
  | .config, [path] =>
    if path.isEmpty then .error .usage
    else (setOnce g.config path).map fun c => { g with config := c }
  | .config, _ => .error .usage
  | .help, _ => .error .help
  | .version, _ => .error .version

/-- The options before the command. -/
def globalGrammar : Grammar GlobalOption Globals where
  short
    | 'v' => some .verbose
    | 'q' => some .quiet
    | 'f' => some .format
    | 'c' => some .config
    | 'h' => some .help
    | 'V' => some .version
    | _ => none
  long
    | "verbose" => some .verbose
    | "quiet" => some .quiet
    | "format" => some .format
    | "pretty" => some .pretty
    | "config" => some .config
    | "help" => some .help
    | "version" => some .version
    | _ => none
  takesValue o := o == .format || o == .config
  isCommand w := w == "starts" || w == "locate" || w == "help"
  apply := Globals.apply

/-! ## After the command -/

/-- An option that stands after the command. Free words are positions. -/
inductive CommandOption
  | sizes
  | positions
  | help
  deriving DecidableEq, Repr

/-- The numbers that stand after the command. -/
structure Operands where
  sizes : List Nat := []
  positions : List Nat := []
  deriving DecidableEq, Repr

/-- Applies an option that stands after the command. -/
def Operands.apply (a : Operands) : CommandOption → List String → Except Stop Operands
  | .sizes, [s] => (orUsage (numbers? s)).map fun ns => { a with sizes := a.sizes ++ ns }
  | .sizes, _ => .error .usage
  | .positions, words =>
    (orUsage (words.mapM number?)).map fun ns => { a with positions := a.positions ++ ns }
  | .help, _ => .error .help

/-- The options after a command, which may take positions as free words. -/
def operandGrammar (takesPositions : Bool) : Grammar CommandOption Operands where
  short
    | 's' => some .sizes
    | 'h' => some .help
    | _ => none
  long
    | "sizes" => some .sizes
    | "help" => some .help
    | _ => none
  takesValue o := o == .sizes
  free := if takesPositions then some .positions else none
  apply := Operands.apply

/-- Reads the words after a command. -/
def readOperands (takesPositions : Bool) (words : List String) : Except Stop Operands :=
  let g := operandGrammar takesPositions
  match g.readWords ⟨{}, none, false⟩ words with
  | .error e => .error e
  | .ok (s, _) =>
    match g.settle s with
    | .error e => .error e
    | .ok s =>
      if s.settled.sizes.isEmpty then .error .usage
      else if takesPositions && s.settled.positions.isEmpty then .error .usage
      else .ok s.settled

/-- Reads what follows the word that asks for help: at most one command. -/
def readHelp : List String → Stop
  | [] => .help
  | [w] => if globalGrammar.isCommand w then .help else .usage
  | _ => .usage

/-- Reads a command and the words after it. -/
def readCommand (command : String) (words : List String) : Except Stop Command :=
  match command with
  | "starts" => (readOperands false words).map fun a => .starts a.sizes
  | "locate" => (readOperands true words).map fun a => .locate a.sizes a.positions
  | _ => .error (readHelp words)

/-- Takes the path of the configuration from the environment where the command
line gives none. -/
def Globals.complete (g : Globals) (environment : Option String) : Except Stop Globals :=
  match g.config, environment with
  | none, some path => g.apply .config [path]
  | _, _ => .ok g

/-- Reads a command line, without the name of the program. `environment` is the
path of a configuration to use unless the command line gives one. -/
def Arguments.read (environment : Option String) (words : List String) :
    Except Stop Arguments :=
  match globalGrammar.readWords ⟨{}, none, false⟩ words with
  | .error e => .error e
  | .ok (_, none) => .error .usage
  | .ok (s, some (command, rest)) =>
    match readCommand command rest with
    | .error e => .error e
    | .ok command =>
      match globalGrammar.settle s with
      | .error e => .error e
      | .ok s =>
        (s.settled.complete environment).map fun g =>
          { verbose := g.verbose, quiet := g.quiet, format := g.format.getD .human,
            pretty := g.pretty, config := g.config, command := command }

end SegmentedView.CommandLine
