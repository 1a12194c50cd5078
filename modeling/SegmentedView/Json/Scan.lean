import SegmentedView.Error

/-!
# Blanks and fixed words

The simplest parts of a JSON text. Every reader of this folder works on the
characters that are left and gives back those that it did not need; the first
problem in the order of the text is the one reported.
-/

set_option autoImplicit false

namespace SegmentedView.Json

/-- A reader: what it found and what is left, or what is wrong. -/
abbrev Reading (α : Type) := Except JsonFlaw (α × List Char)

/-- The four characters that may stand between the parts of a JSON text. -/
def isBlank (c : Char) : Bool := c == ' ' || c == '\t' || c == '\n' || c == '\r'

/-- The text from its first character that is not blank. -/
def skipBlank (cs : List Char) : List Char := cs.dropWhile isBlank

/-- Reads the letters of a fixed word. -/
def expectWord : List Char → List Char → Except JsonFlaw (List Char)
  | [], cs => .ok cs
  | _ :: _, [] => .error .truncated
  | w :: ws, c :: cs => if c = w then expectWord ws cs else .error .malformed

/-- Reads blanks and then one fixed character. -/
def expectChar (mark : Char) (cs : List Char) : Except JsonFlaw (List Char) :=
  match skipBlank cs with
  | [] => .error .truncated
  | c :: cs => if c = mark then .ok cs else .error .malformed

end SegmentedView.Json
