import SegmentedView.Text.Blank

/-!
# Pieces of a text

Cutting a text at a mark, and taking the blanks from around it.
-/

set_option autoImplicit false

namespace SegmentedView.Text

/-- The pieces of a text between the places where `mark` stands: one more than
there are marks. -/
def splitAt (mark : Char) : List Char → List (List Char)
  | [] => [[]]
  | c :: cs =>
    if c = mark then [] :: splitAt mark cs
    else
      match splitAt mark cs with
      | [] => [[c]]
      | piece :: pieces => (c :: piece) :: pieces

/-- A text without the blanks around it. -/
def trimmed (cs : List Char) : List Char :=
  ((cs.dropWhile isBlank).reverse.dropWhile isBlank).reverse

end SegmentedView.Text
