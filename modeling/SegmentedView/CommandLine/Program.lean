import SegmentedView.CommandLine.Execution
import SegmentedView.CommandLine.LogFilter
import SegmentedView.Config.File
import SegmentedView.Text.Terminal

/-!
# The program

The whole program as a function of its arguments, its environment and what the
path of its configuration leads to.
-/

set_option autoImplicit false

namespace SegmentedView.CommandLine

/-- What the program takes from its surroundings. -/
structure Environment where
  /-- The path of a configuration to use by default. -/
  config : Option String := none
  /-- A refinement of what is logged. -/
  log : Option String := none
  /-- Whether the log is written for a terminal: always, never, or by the two
  wishes that follow. -/
  logStyle : Option String := none
  /-- A wish for text without colours; it counts if it is not empty. -/
  noColour : Option String := none
  /-- A wish for text with colours; it counts if it is not zero. -/
  forceColour : Option String := none
  deriving DecidableEq, Repr

/-- Whether control sequences stay in the log. The log does not go to a terminal,
so they stay only where that is asked for. -/
def Environment.keepsSequences (e : Environment) : Bool :=
  match e.logStyle with
  | some "always" => true
  | some "never" => false
  | _ => e.noColour.getD "" == "" && e.forceColour.getD "0" != "0"

/-- What the program prints. -/
inductive Output
  | nothing
  | help
  | text (s : String)
  deriving DecidableEq, Repr

/-- How the program ends. -/
structure Finished where
  exit : Nat
  output : Output := .nothing
  /-- What it logs, line by line. -/
  log : String := ""
  deriving DecidableEq, Repr

/-- The line that names the version. -/
def versionLine : String := "tessera 0.1.0\n"

/-- How to call the program. -/
def usageLine : String :=
  "Usage: tessera [-v]... [-q] [-f human|json] [--pretty] [-c CONFIG_FILE] COMMAND\n"

/-- The help screen. -/
def helpScreen : String :=
  "Inspect composite views over immutable index segments\n\n" ++ usageLine ++ "\n" ++
  "Commands:\n" ++
  "  starts -s SIZES               Print the cumulative boundary table\n" ++
  "  locate -s SIZES POSITION...   Resolve global positions\n" ++
  "  help                          Print this screen\n\n" ++
  "Options:\n" ++
  "  -v, --verbose                 Raise log verbosity\n" ++
  "  -q, --quiet                   Log errors only\n" ++
  "  -f, --format FORMAT           Print for humans or as JSON\n" ++
  "      --pretty                  Print JSON over several lines\n" ++
  "  -c, --config CONFIG_FILE      Read the view configuration from a file\n" ++
  "  -h, --help                    Print this screen\n" ++
  "  -V, --version                 Print the version\n"

/-- What stands on the screen for an output. -/
def Output.toText : Output → String
  | .nothing => ""
  | .help => helpScreen
  | .text s => s

/-- How the program ends when its arguments stop it. -/
def Finished.ofStop : Stop → Finished
  | .usage => { exit := 2, log := usageLine }
  | .help => { exit := 0, output := .help }
  | .version => { exit := 0, output := .text versionLine }

/-- An event as a line of the log. -/
def logLine (e : Event) : String :=
  "[" ++ e.level.label ++ " " ++ e.target ++ "] " ++ e.message ++ "\n"

/-- The lines of the events that a filter lets pass, each as it is shown. -/
def logLines (e : Environment) (f : LogFilter) (events : List Event) : String :=
  let shown (line : String) : String :=
    if e.keepsSequences then line else String.ofList (Text.Terminal.plain line.toList)
  String.join ((events.filter f.allows).map fun event => shown (logLine event))

/-- The line for an error that ends the program. -/
def errorLine (e : Error) : String := "Error: " ++ e.message ++ "\n"

/-- The line for a program that is stopped because a list gets too long. The place
in the program where it is stopped is not named. -/
def stoppedLine : String := "capacity overflow\n"

/-- A complaint about a part of a log specification. -/
def complaint (part : String) : String :=
  "warning: invalid logging spec '" ++ part ++ "', ignoring it\n"

/-- Ends the program after its configuration was read, if there is one to read. -/
def finish (a : Arguments) (e : Environment) (content : Option PathContent) : Finished :=
  let made := LogFilter.make a.verbosity e.log
  let complaints := String.join (made.2.map complaint)
  let loading := (a.config.map Event.loadingConfig).toList
  let config : Except Error Config :=
    match content with
    | none => .ok {}
    | some content => Config.ofFile content
  match config with
  | .error error =>
    { exit := 1, log := complaints ++ logLines e made.1 loading ++ errorLine error }
  | .ok config =>
    match a.command.execute config with
    | none => { exit := 101, log := complaints ++ logLines e made.1 loading ++ stoppedLine }
    | some executed =>
      let log := complaints ++ logLines e made.1 (loading ++ executed.2)
      match executed.1 with
      | .error error => { exit := 1, log := log ++ errorLine error }
      | .ok report =>
        { exit := 0, output := .text (report.render a.format a.pretty ++ "\n"), log := log }

/-- Runs the program, `lookUp` telling what a path leads to. -/
def run {m : Type → Type} [Monad m] (lookUp : String → m PathContent) (e : Environment)
    (words : List String) : m Finished :=
  match Arguments.read e.config words with
  | .error stop => pure (.ofStop stop)
  | .ok a =>
    match a.config with
    | none => pure (finish a e none)
    | some path => do
      let content ← lookUp path
      pure (finish a e (some content))

end SegmentedView.CommandLine
