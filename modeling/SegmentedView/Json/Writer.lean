import SegmentedView.Text.Decimal

/-!
# Writing JSON

The JSON values that reports are made of, written without blanks or over several
lines with two spaces for each level. Keys are names of this library and need no
escapes.
-/

set_option autoImplicit false

namespace SegmentedView.Json

open Text

/-- A value of a report. -/
inductive Value
  | null
  | number (n : Nat)
  | list (items : List Value)
  | object (members : List (String × Value))

namespace Value

/-- A number, or null where there is none. -/
def ofOption : Option Nat → Value
  | none => .null
  | some n => .number n

mutual

/-- A value without blanks. -/
def compact : Value → String
  | .null => "null"
  | .number n => decimal n
  | .list items => "[" ++ ",".intercalate (compactItems items) ++ "]"
  | .object members => "\x7b" ++ ",".intercalate (compactMembers members) ++ "\x7d"

/-- The items of a list without blanks. -/
def compactItems : List Value → List String
  | [] => []
  | item :: items => item.compact :: compactItems items

/-- The members of an object without blanks. -/
def compactMembers : List (String × Value) → List String
  | [] => []
  | (key, value) :: members =>
    ("\"" ++ key ++ "\":" ++ value.compact) :: compactMembers members

end

/-- Two spaces for each level. -/
def margin (depth : Nat) : String := String.ofList (List.replicate (2 * depth) ' ')

/-- Parts between two brackets, each part on a line of its own. -/
def bracketed (depth : Nat) (left right : String) (parts : List String) : String :=
  match parts with
  | [] => left ++ right
  | parts =>
    left ++ "\n" ++ ",\n".intercalate (parts.map (margin (depth + 1) ++ ·)) ++ "\n" ++
      margin depth ++ right

mutual

/-- A value over several lines, its first line standing at `depth` levels. -/
def indented (depth : Nat) : Value → String
  | .null => "null"
  | .number n => decimal n
  | .list items => bracketed depth "[" "]" (indentedItems (depth + 1) items)
  | .object members => bracketed depth "\x7b" "\x7d" (indentedMembers (depth + 1) members)

/-- The items of a list over several lines. -/
def indentedItems (depth : Nat) : List Value → List String
  | [] => []
  | item :: items => item.indented depth :: indentedItems depth items

/-- The members of an object over several lines. -/
def indentedMembers (depth : Nat) : List (String × Value) → List String
  | [] => []
  | (key, value) :: members =>
    ("\"" ++ key ++ "\": " ++ value.indented depth) :: indentedMembers depth members

end

end Value

end SegmentedView.Json
