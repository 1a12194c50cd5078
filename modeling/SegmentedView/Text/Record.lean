/-!
# Records as text

The diagnostic form of a value: atoms, lists in brackets and named records in
braces, either on one line or with every part on a line of its own.
-/

set_option autoImplicit false

namespace SegmentedView.Text

/-- A value to show. -/
inductive Shown
  | atom (text : String)
  | list (items : List Shown)
  | record (name : String) (fields : List (String × Shown))

namespace Shown

mutual

/-- A value on one line. -/
def inLine : Shown → String
  | .atom text => text
  | .list items => "[" ++ ", ".intercalate (itemsInLine items) ++ "]"
  | .record name fields =>
    name ++ " \x7b " ++ ", ".intercalate (fieldsInLine fields) ++ " \x7d"

/-- The values of a list, each on one line. -/
def itemsInLine : List Shown → List String
  | [] => []
  | item :: items => item.inLine :: itemsInLine items

/-- The fields of a record, each on one line. -/
def fieldsInLine : List (String × Shown) → List String
  | [] => []
  | (name, value) :: fields => (name ++ ": " ++ value.inLine) :: fieldsInLine fields

end

/-- Four spaces for each level. -/
def margin (depth : Nat) : String := String.ofList (List.replicate (4 * depth) ' ')

mutual

/-- A value over several lines, its first line standing at `depth` levels. An
empty list stays on its line. -/
def inLines (depth : Nat) : Shown → String
  | .atom text => text
  | .list [] => "[]"
  | .list (item :: items) =>
    "[\n" ++ itemsInLines (depth + 1) (item :: items) ++ margin depth ++ "]"
  | .record name fields =>
    name ++ " \x7b\n" ++ fieldsInLines (depth + 1) fields ++ margin depth ++ "\x7d"

/-- The values of a list, each with a comma after it. -/
def itemsInLines (depth : Nat) : List Shown → String
  | [] => ""
  | item :: items =>
    margin depth ++ item.inLines depth ++ ",\n" ++ itemsInLines depth items

/-- The fields of a record, each with a comma after it. -/
def fieldsInLines (depth : Nat) : List (String × Shown) → String
  | [] => ""
  | (name, value) :: fields =>
    margin depth ++ name ++ ": " ++ value.inLines depth ++ ",\n" ++ fieldsInLines depth fields

end

end Shown

end SegmentedView.Text
