import SegmentedView.Config.Reader

/-!
# Configuration files

A configuration read from what a path leads to. The file must be UTF-8 text.
-/

set_option autoImplicit false

namespace SegmentedView

/-- What a path leads to. -/
inductive PathContent
  | nothing
  | directory
  | file (bytes : ByteArray)
  /-- The system refuses, in these words. -/
  | refused (text : String)

/-- The text of a file. -/
def PathContent.text : PathContent → Except Error String
  | .nothing => .error (.file .missing)
  | .directory => .error (.file .directory)
  | .refused text => .error (.reported .file text)
  | .file bytes =>
    match String.fromUTF8? bytes with
    | some text => .ok text
    | none => .error (.file .notText)

/-- The configuration of a file. -/
def Config.ofFile (content : PathContent) : Except Error Config :=
  match content.text with
  | .error e => .error e
  | .ok text => Config.ofText text

end SegmentedView
