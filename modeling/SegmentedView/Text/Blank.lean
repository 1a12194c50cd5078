/-!
# Blank characters

The characters that are taken from around a text: all that count as white space,
not only those of ASCII.
-/

set_option autoImplicit false

namespace SegmentedView.Text

/-- Whether a character is white space. -/
def isBlank (c : Char) : Bool :=
  let n := c.toNat
  (9 ≤ n && n ≤ 13) || n == 0x20 || n == 0x85 || n == 0xA0 || n == 0x1680 ||
    (0x2000 ≤ n && n ≤ 0x200A) || n == 0x2028 || n == 0x2029 || n == 0x202F ||
    n == 0x205F || n == 0x3000

end SegmentedView.Text
