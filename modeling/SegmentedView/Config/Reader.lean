import SegmentedView.Config.Field
import SegmentedView.Json.Skip

/-!
# Reading a configuration

A configuration text is one JSON value: an object whose members are fields by
name, or a list whose items are fields in order. What is missing keeps its
default, unknown members are passed over, and a field given twice is refused. The
text is read once from its start, so the first problem in it is the one reported.
-/

set_option autoImplicit false

namespace SegmentedView.Config

open Json

/-- The fields that have been read so far. -/
structure Draft where
  slowReopenMillis : Option UInt64 := none
  reusePolicy : Option ReusePolicy := none
  validateDocCounts : Option Bool := none
  deriving DecidableEq, Repr

/-- The configuration with the fields that were read, the others by default. -/
def Draft.toConfig (d : Draft) : Config :=
  let default : Config := {}
  { slowReopenMillis := d.slowReopenMillis.getD default.slowReopenMillis
    reusePolicy := d.reusePolicy.getD default.reusePolicy
    validateDocCounts := d.validateDocCounts.getD default.validateDocCounts }

/-- Whether a field has been read. -/
def Draft.has (d : Draft) : Field → Bool
  | .slowReopenMillis => d.slowReopenMillis.isSome
  | .reusePolicy => d.reusePolicy.isSome
  | .validateDocCounts => d.validateDocCounts.isSome

/-- What is wrong with a value of a wrong type: words, numbers and strings are
read to their end first, and a flaw in them counts for more. -/
def mismatch : List Char → JsonFlaw
  | [] => .truncated
  | 'n' :: cs => flawOr (expectWord ['u', 'l', 'l'] cs)
  | 't' :: cs => flawOr (expectWord ['r', 'u', 'e'] cs)
  | 'f' :: cs => flawOr (expectWord ['a', 'l', 's', 'e'] cs)
  | '"' :: cs => flawOr (readString cs)
  | '[' :: _ => .mismatched
  | '\x7b' :: _ => .mismatched
  | c :: cs =>
    if c = '-' ∨ c.isDigit then
      match readNumber (c :: cs) with
      | .error e => e
      | .ok (n, _) => if n.isHuge then .malformed else .mismatched
    else .malformed
where
  /-- The flaw that was met, or else that of the type. -/
  flawOr {α : Type} : Except JsonFlaw α → JsonFlaw
    | .error e => e
    | .ok _ => .mismatched

/-- Reads a number of milliseconds: digits alone, and no more than a word. -/
def readMillis (cs : List Char) : Reading UInt64 :=
  let cs := skipBlank cs
  match readNumber cs with
  | .ok (n, rest) =>
    match n.toWord? with
    | some millis => .ok (millis.toUInt64, rest)
    | none => .error (mismatch cs)
  | .error _ => .error (mismatch cs)

/-- Reads a truth value. -/
def readFlag (cs : List Char) : Reading Bool :=
  match skipBlank cs with
  | 't' :: cs => (expectWord ['r', 'u', 'e'] cs).map fun rest => (true, rest)
  | 'f' :: cs => (expectWord ['a', 'l', 's', 'e'] cs).map fun rest => (false, rest)
  | cs => .error (mismatch cs)

/-- Reads the name of a policy, its opening quote being read. -/
def readPolicyName (cs : List Char) : Reading ReusePolicy :=
  match readString cs with
  | .error e => .error e
  | .ok (name, rest) =>
    match ReusePolicy.ofName? (String.ofList name) with
    | some policy => .ok (policy, rest)
    | none => .error .mismatched

/-- Reads a null. -/
def readNull (cs : List Char) : Except JsonFlaw (List Char) :=
  match skipBlank cs with
  | 'n' :: cs => expectWord ['u', 'l', 'l'] cs
  | cs => .error (mismatch cs)

/-- Reads what follows the opening brace of a policy written as an object: its
name as the only key, and null. -/
def readPolicyObject (cs : List Char) : Reading ReusePolicy :=
  match expectChar '"' cs with
  | .error e => .error e
  | .ok cs =>
    match readPolicyName cs with
    | .error e => .error e
    | .ok (policy, cs) =>
      match expectChar ':' cs with
      | .error e => .error e
      | .ok cs =>
        match readNull cs with
        | .error e => .error e
        | .ok cs => (expectChar '\x7d' cs).map fun rest => (policy, rest)

/-- Reads a policy: its name, or an object with that name as its key. -/
def readPolicy (cs : List Char) : Reading ReusePolicy :=
  match skipBlank cs with
  | [] => .error .truncated
  | '\x7b' :: cs => readPolicyObject cs
  | '"' :: cs => readPolicyName cs
  | _ => .error .malformed

/-- Reads the value of a field into a draft. -/
def readField (d : Draft) (cs : List Char) : Field → Reading Draft
  | .slowReopenMillis =>
    (readMillis cs).map fun (n, rest) => ({ d with slowReopenMillis := some n }, rest)
  | .reusePolicy =>
    (readPolicy cs).map fun (p, rest) => ({ d with reusePolicy := some p }, rest)
  | .validateDocCounts =>
    (readFlag cs).map fun (b, rest) => ({ d with validateDocCounts := some b }, rest)

/-- Reads a member from its key on, the opening quote being read. A field that
was there before is refused before its value is looked at. -/
def readMember (d : Draft) (cs : List Char) : Reading Draft :=
  match readString cs with
  | .error e => .error e
  | .ok (key, cs) =>
    match Field.ofName? (String.ofList key) with
    | none =>
      match expectChar ':' cs with
      | .error e => .error e
      | .ok cs => (skipValue cs).map fun rest => (d, rest)
    | some field =>
      if d.has field then .error .mismatched
      else
        match expectChar ':' cs with
        | .error e => .error e
        | .ok cs => readField d cs field

/-- Reads members up to the closing brace, the opening quote of the first key
being read. -/
def readMembersIn : Nat → Draft → List Char → Reading Draft
  | 0, _, _ => .error .malformed
  | fuel + 1, d, cs =>
    match readMember d cs with
    | .error e => .error e
    | .ok (d, cs) =>
      match skipBlank cs with
      | [] => .error .truncated
      | '\x7d' :: cs => .ok (d, cs)
      | ',' :: cs =>
        match expectChar '"' cs with
        | .error e => .error e
        | .ok cs => readMembersIn fuel d cs
      | _ => .error .malformed

/-- Reads the fields of an object, its opening brace being read. -/
def readObject (cs : List Char) : Reading Draft :=
  match skipBlank cs with
  | [] => .error .truncated
  | '\x7d' :: cs => .ok ({}, cs)
  | '"' :: cs => readMembersIn (cs.length + 1) {} cs
  | _ => .error .malformed

/-- Whether a list goes on after an item, and the text from there. -/
def nextItem (cs : List Char) : Reading Bool :=
  match skipBlank cs with
  | [] => .error .truncated
  | ']' :: cs => .ok (false, cs)
  | ',' :: cs =>
    match skipBlank cs with
    | [] => .error .truncated
    | ']' :: _ => .error .malformed
    | cs => .ok (true, cs)
  | _ => .error .malformed

/-- Reads fields in order, the first of them being there; the list may end after
any of them, and must end after the last. -/
def readItems (d : Draft) (cs : List Char) : List Field → Reading Draft
  | [] => .ok (d, cs)
  | [field] =>
    match readField d cs field with
    | .error e => .error e
    | .ok (d, cs) => (expectChar ']' cs).map fun rest => (d, rest)
  | field :: next :: fields =>
    match readField d cs field with
    | .error e => .error e
    | .ok (d, cs) =>
      match nextItem cs with
      | .error e => .error e
      | .ok (false, cs) => .ok (d, cs)
      | .ok (true, cs) => readItems d cs (next :: fields)

/-- Reads the fields of a list, its opening bracket being read. -/
def readList (cs : List Char) : Reading Draft :=
  match skipBlank cs with
  | [] => .error .truncated
  | ']' :: cs => .ok ({}, cs)
  | cs => readItems {} cs [.slowReopenMillis, .reusePolicy, .validateDocCounts]

/-- Reads a configuration and nothing after it. -/
def read (cs : List Char) : Except JsonFlaw Config :=
  let draft : Reading Draft :=
    match skipBlank cs with
    | '[' :: cs => readList cs
    | '\x7b' :: cs => readObject cs
    | cs => .error (mismatch cs)
  match draft with
  | .error e => .error e
  | .ok (d, cs) =>
    match skipBlank cs with
    | [] => .ok d.toConfig
    | _ => .error .malformed

/-- The configuration that a text describes. -/
def ofText (text : String) : Except Error Config := (read text.toList).mapError Error.json

end SegmentedView.Config
