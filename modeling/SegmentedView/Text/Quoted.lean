import SegmentedView.Text.Hex
import SegmentedView.Text.Printable

/-!
# Quoted text

Text between double quotes, as a diagnostic shows a string: the two characters
that would end or confuse it are escaped, and so is whatever cannot be printed.
-/

set_option autoImplicit false

namespace SegmentedView.Text

/-- How one character of a quoted text is written. -/
def escapeChar (c : Char) : List Char :=
  match c with
  | '"' => ['\\', '"']
  | '\\' => ['\\', '\\']
  | '\n' => ['\\', 'n']
  | '\t' => ['\\', 't']
  | '\r' => ['\\', 'r']
  | '\x00' => ['\\', '0']
  | c =>
    if isPrintable c then [c]
    else ['\\', 'u', '\x7b'] ++ hexDigits c.toNat ++ ['\x7d']

/-- A text between quotes. -/
def quote (s : String) : String :=
  String.ofList ('"' :: s.toList.flatMap escapeChar ++ ['"'])

end SegmentedView.Text
