import SegmentedView.Store.Kind

/-!
# Errors

What can go wrong, by cause. `Error.kind` sorts the causes into the classes a
caller branches on, `Error.text` words one cause, and `Error.message` puts the
heading of its class before it. Absence (a position out of range, an id without
a document) is never an error; it is an `Option`.
-/

set_option autoImplicit false

namespace SegmentedView

/-- The class of an error. -/
inductive ErrorKind
  /-- A store, or one of its leaves, is not what a view can be built from. -/
  | invalidState
  /-- The view is closed, or its store generation was given back. -/
  | closed
  /-- The caller's argument cannot be used. -/
  | invalidArgument
  /-- A store or a decorator failed. -/
  | store
  /-- A file could not be read. -/
  | file
  /-- A configuration text could not be read. -/
  | json
  /-- Anything else. -/
  | other
  /-- An error of another library, passed on. -/
  | external
  /-- A request named a view or a segment that is not there. -/
  | request
  deriving DecidableEq, Repr

/-- How a text fails to be the JSON that is asked for. -/
inductive JsonFlaw
  /-- The text ended too early. -/
  | truncated
  /-- The text is not JSON, or goes on after its value. -/
  | malformed
  /-- The text is JSON of the wrong shape. -/
  | mismatched
  deriving DecidableEq, Repr

/-- How a file fails to be read as text. -/
inductive FileFlaw
  | missing
  | directory
  | notText
  deriving DecidableEq, Repr

/-- What went wrong. -/
inductive Error
  | storeNotComposite (kind : StoreKind)
  | leafNotSegment (kind : String)
  | docCountMismatch (held version reported : Nat)
  | viewClosed
  | generationReleased (version : Nat)
  | leaseSpent (version : Nat)
  | countOverflow (segments : Nat)
  | nothingToMerge
  | segmentMissing (name : String)
  | file (flaw : FileFlaw)
  | json (flaw : JsonFlaw)
  | noSuchView
  | noSuchSegment
  /-- An error worded elsewhere: by a caller, a store or a decorator. -/
  | reported (kind : ErrorKind) (text : String)
  deriving DecidableEq, Repr

/-- The error for a configuration that cannot be used. -/
def Error.invalidConfig (text : String) : Error :=
  .reported .invalidArgument ("Invalid configuration: " ++ text)

/-- The class an error belongs to. -/
def Error.kind : Error → ErrorKind
  | .storeNotComposite _ => .invalidState
  | .leafNotSegment _ => .invalidState
  | .docCountMismatch _ _ _ => .invalidState
  | .viewClosed => .closed
  | .generationReleased _ => .closed
  | .leaseSpent _ => .closed
  | .countOverflow _ => .invalidArgument
  | .nothingToMerge => .invalidArgument
  | .segmentMissing _ => .store
  | .file _ => .file
  | .json _ => .json
  | .noSuchView => .request
  | .noSuchSegment => .request
  | .reported kind _ => kind

/-- The wording of a flaw in a JSON text. -/
def JsonFlaw.text : JsonFlaw → String
  | .truncated => "the text ends too early"
  | .malformed => "the text is not JSON"
  | .mismatched => "the text has the wrong shape"

/-- The wording of a flaw in a file, as the operating system puts it. -/
def FileFlaw.text : FileFlaw → String
  | .missing => "No such file or directory (os error 2)"
  | .directory => "Is a directory (os error 21)"
  | .notText => "stream did not contain valid UTF-8"

/-- The wording of an error, without the heading of its class. -/
def Error.text : Error → String
  | .storeNotComposite kind =>
    "store of kind " ++ kind.label ++ " is not a multi-segment store"
  | .leafNotSegment kind => "leaf of kind '" ++ kind ++ "' is not a segment"
  | .docCountMismatch held version claimed =>
    s!"segments hold {held} documents but store generation {version} reports {claimed}"
  | .viewClosed => "composite view is closed"
  | .generationReleased version => s!"store generation {version} was released"
  | .leaseSpent version => s!"store generation {version} already released"
  | .countOverflow segments => s!"document count overflows after {segments} segments"
  | .nothingToMerge => "nothing to merge"
  | .segmentMissing name => "segment " ++ name ++ " not found"
  | .file flaw => flaw.text
  | .json flaw => flaw.text
  | .noSuchView => "no such view"
  | .noSuchSegment => "no such segment"
  | .reported _ text => text

/-- What is written before the wording of an error of this class. -/
def ErrorKind.heading : ErrorKind → String
  | .invalidState => "Invalid state: "
  | .closed => "Closed: "
  | .invalidArgument => "Invalid argument: "
  | .store => "Store error: "
  | .file => "I/O error: "
  | .json => "JSON error: "
  | .other => "Error: "
  | .external => "Anyhow error: "
  | .request => ""

/-- The whole message of an error: the heading of its class, then its wording. -/
def Error.message (e : Error) : String := e.kind.heading ++ e.text

/-- Whether the error says that a view or its generation is no longer there. -/
def Error.isClosed (e : Error) : Bool := e.kind == .closed

end SegmentedView
