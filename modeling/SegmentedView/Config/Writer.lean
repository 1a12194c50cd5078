import SegmentedView.Config.Field
import SegmentedView.Text.Decimal

/-!
# Writing a configuration

The text of a configuration: an object with every field in order and no blanks.
-/

set_option autoImplicit false

namespace SegmentedView.Config

open Text

/-- A name between quotes. The names of this library need no escapes. -/
def quoted (name : String) : List Char := '"' :: name.toList ++ ['"']

/-- The value of a field as it is written. -/
def fieldText (c : Config) : Field → List Char
  | .slowReopenMillis => digits c.slowReopenMillis.toNat
  | .reusePolicy => quoted c.reusePolicy.name
  | .validateDocCounts => (if c.validateDocCounts then "true" else "false").toList

/-- A field as it is written. -/
def memberText (c : Config) (field : Field) : List Char :=
  quoted field.name ++ ':' :: c.fieldText field

/-- A configuration as it is written. -/
def write (c : Config) : List Char :=
  '\x7b' :: c.memberText .slowReopenMillis ++ ',' :: c.memberText .reusePolicy ++
    ',' :: c.memberText .validateDocCounts ++ ['\x7d']

/-- The text of a configuration. -/
def toText (c : Config) : String := String.ofList c.write

end SegmentedView.Config
