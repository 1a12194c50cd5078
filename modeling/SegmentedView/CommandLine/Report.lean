import SegmentedView.CommandLine.Arguments
import SegmentedView.Json.Writer

/-!
# Reports

What the commands find out, and how it is printed.
-/

set_option autoImplicit false

namespace SegmentedView.CommandLine

open Text

/-- The boundaries of a list of segments. -/
structure StartsReport where
  segments : Nat
  total : Nat
  starts : List Nat
  deriving DecidableEq, Repr

/-- What became of one position: the segment, the offset and the id, each
missing if the position is out of range. -/
structure Resolution where
  position : Nat
  segment : Option Nat
  offset : Option Nat
  stableId : Option Nat
  deriving DecidableEq, Repr

/-- What a command found out. -/
inductive Report
  | starts (r : StartsReport)
  | locate (rs : List Resolution)
  deriving DecidableEq, Repr

/-- The boundaries in words. -/
def StartsReport.human (r : StartsReport) : String :=
  "segments: " ++ decimal r.segments ++ "\ntotal documents: " ++ decimal r.total ++
    "\nstarts: [" ++ ", ".intercalate (r.starts.map decimal) ++ "]"

/-- One position in words. -/
def Resolution.human (r : Resolution) : String :=
  match r.segment, r.offset with
  | some segment, some offset =>
    decimal r.position ++ " -> segment " ++ decimal segment ++ " local " ++ decimal offset ++
      " (stable id " ++ (r.stableId.map decimal).getD "-" ++ ")"
  | _, _ => decimal r.position ++ " -> not found"

/-- A report in words. -/
def Report.human : Report → String
  | .starts r => r.human
  | .locate rs => "\n".intercalate (rs.map Resolution.human)

/-- The boundaries as JSON. -/
def StartsReport.json (r : StartsReport) : Json.Value :=
  .object [("segments", .number r.segments), ("total_doc_count", .number r.total),
    ("starts", .list (r.starts.map .number))]

/-- One position as JSON. -/
def Resolution.json (r : Resolution) : Json.Value :=
  .object [("position", .number r.position), ("segment", .ofOption r.segment),
    ("local", .ofOption r.offset), ("stable_id", .ofOption r.stableId)]

/-- A report as JSON. -/
def Report.json : Report → Json.Value
  | .starts r => r.json
  | .locate rs => .list (rs.map Resolution.json)

/-- A report as the command line asks for it. -/
def Report.render (r : Report) (format : OutputFormat) (pretty : Bool) : String :=
  match format with
  | .human => r.human
  | .json => if pretty then r.json.indented 0 else r.json.compact

end SegmentedView.CommandLine
