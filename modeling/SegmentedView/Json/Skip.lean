import SegmentedView.Json.Number
import SegmentedView.Json.Text

/-!
# Passing over values

A value whose content does not matter is still checked for its form. Lists and
objects nest without a limit; the number of characters bounds how often the
readers call one another.
-/

set_option autoImplicit false

namespace SegmentedView.Json

mutual

/-- Passes over one value. -/
def skipValueIn : Nat → List Char → Except JsonFlaw (List Char)
  | 0, _ => .error .malformed
  | fuel + 1, cs =>
    match skipBlank cs with
    | [] => .error .truncated
    | 'n' :: cs => expectWord ['u', 'l', 'l'] cs
    | 't' :: cs => expectWord ['r', 'u', 'e'] cs
    | 'f' :: cs => expectWord ['a', 'l', 's', 'e'] cs
    | '"' :: cs => skipString cs
    | '[' :: cs =>
      match skipBlank cs with
      | ']' :: cs => .ok cs
      | cs => skipItemsIn fuel cs
    | '\x7b' :: cs =>
      match skipBlank cs with
      | '\x7d' :: cs => .ok cs
      | cs => skipMembersIn fuel cs
    | c :: cs => if c = '-' ∨ c.isDigit then skipNumber (c :: cs) else .error .malformed

/-- Passes over the values of a list and its closing bracket. -/
def skipItemsIn : Nat → List Char → Except JsonFlaw (List Char)
  | 0, _ => .error .malformed
  | fuel + 1, cs =>
    match skipValueIn fuel cs with
    | .error e => .error e
    | .ok cs =>
      match skipBlank cs with
      | [] => .error .truncated
      | ',' :: cs => skipItemsIn fuel cs
      | ']' :: cs => .ok cs
      | _ => .error .malformed

/-- Passes over the members of an object and its closing brace. -/
def skipMembersIn : Nat → List Char → Except JsonFlaw (List Char)
  | 0, _ => .error .malformed
  | fuel + 1, cs =>
    match expectChar '"' cs with
    | .error e => .error e
    | .ok cs =>
      match skipString cs with
      | .error e => .error e
      | .ok cs =>
        match expectChar ':' cs with
        | .error e => .error e
        | .ok cs =>
          match skipValueIn fuel cs with
          | .error e => .error e
          | .ok cs =>
            match skipBlank cs with
            | [] => .error .truncated
            | ',' :: cs => skipMembersIn fuel cs
            | '\x7d' :: cs => .ok cs
            | _ => .error .malformed

end

/-- Passes over one value, whatever it is. -/
def skipValue (cs : List Char) : Except JsonFlaw (List Char) :=
  skipValueIn (2 * cs.length + 2) cs

end SegmentedView.Json
