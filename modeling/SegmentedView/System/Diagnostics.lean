import SegmentedView.System.Basic
import SegmentedView.Text.Quoted
import SegmentedView.Text.Record

/-!
# Diagnostics

How a snapshot and a view describe themselves to a developer. Only the numbers
and names that identify them are shown, never their documents.
-/

set_option autoImplicit false

namespace SegmentedView

open Text

variable {σ P : Type}

/-- The description of a snapshot. -/
def Snapshot.shown (s : Snapshot P) : Shown :=
  .record "SegmentSnapshot" [
    ("name", .atom (quote s.name)),
    ("doc_count", .atom (toString s.docCount)),
    ("deleted", .atom (toString s.deletedCount))]

/-- The description of a view. -/
def System.shown (s : System σ P) (v : View P) : Shown :=
  .record "CompositeView" [
    ("version", .atom (toString (s.version v))),
    ("segments", .list (v.segments.map Snapshot.shown)),
    ("starts", .list (v.starts.toList.map fun p => .atom (toString p))),
    ("closed", .atom (if s.isClosed v then "true" else "false"))]

end SegmentedView
