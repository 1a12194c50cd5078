import SegmentedView.Address
import SegmentedView.Json.Scan
import SegmentedView.Text.Decimal

/-!
# Numbers

A JSON number as it is written: a sign, digits, a fraction, an exponent. Its
value is asked for in two ways only: whether it is a plain natural number that
fits a word, and whether it is too large for a double. The latter is decided in
exact integer arithmetic: the leading digits and the power of ten are each
rounded to 53 bits, and their product is compared with the first number that
rounds to infinity.
-/

set_option autoImplicit false

namespace SegmentedView.Json

open Text

/-- A number as it is written. -/
structure Number where
  negative : Bool
  digits : List Char
  fraction : Option (List Char) := none
  /-- Whether the exponent is negative, and its digits. -/
  exponent : Option (Bool × List Char) := none
  deriving DecidableEq, Repr

/-- Reads one digit or more. -/
def readDigits : List Char → Reading (List Char)
  | [] => .error .truncated
  | c :: cs =>
    if c.isDigit then .ok (c :: cs.takeWhile Char.isDigit, cs.dropWhile Char.isDigit)
    else .error .malformed

/-- Reads the digits before the point: one zero, or digits that start with
another one. -/
def readWhole : List Char → Reading (List Char)
  | '0' :: c :: cs => if c.isDigit then .error .malformed else .ok (['0'], c :: cs)
  | cs => readDigits cs

/-- Reads a fraction, if there is one. -/
def readFraction : List Char → Reading (Option (List Char))
  | '.' :: cs => (readDigits cs).map fun (digits, rest) => (some digits, rest)
  | cs => .ok (none, cs)

/-- Reads an exponent, if there is one. -/
def readExponent : List Char → Reading (Option (Bool × List Char))
  | [] => .ok (none, [])
  | c :: cs =>
    if c = 'e' ∨ c = 'E' then
      match cs with
      | '+' :: cs => (readDigits cs).map fun (digits, rest) => (some (false, digits), rest)
      | '-' :: cs => (readDigits cs).map fun (digits, rest) => (some (true, digits), rest)
      | cs => (readDigits cs).map fun (digits, rest) => (some (false, digits), rest)
    else .ok (none, c :: cs)

/-- Reads a number without a sign. -/
def readUnsigned (negative : Bool) (cs : List Char) : Reading Number :=
  match readWhole cs with
  | .error e => .error e
  | .ok (digits, cs) =>
    match readFraction cs with
    | .error e => .error e
    | .ok (fraction, cs) =>
      (readExponent cs).map fun (exponent, rest) =>
        (⟨negative, digits, fraction, exponent⟩, rest)

/-- Reads a number. -/
def readNumber : List Char → Reading Number
  | '-' :: cs => readUnsigned true cs
  | cs => readUnsigned false cs

/-- Passes over a number. One that breaks off is as bad as one that goes wrong. -/
def skipNumber (cs : List Char) : Except JsonFlaw (List Char) :=
  match readNumber cs with
  | .error _ => .error .malformed
  | .ok (_, rest) => .ok rest

/-- The value of a number written with digits alone, if it fits a word. -/
def Number.toWord? (n : Number) : Option Nat :=
  if !n.negative && n.fraction.isNone && n.exponent.isNone && ofDigits n.digits ≤ maxWord then
    some (ofDigits n.digits)
  else none

/-- The longest start of the digits that fits a word after `n`, and how many
digits it takes. -/
def leading (n : Nat) : List Char → Nat × Nat
  | [] => (n, 0)
  | c :: cs =>
    let n' := 10 * n + digitValue c
    if n' ≤ maxWord then
      let rest := leading n' cs
      (rest.1, rest.2 + 1)
    else (n, 0)

/-- A natural number rounded to 53 binary digits, ties to even. -/
def round53 (n : Nat) : Nat :=
  let shift := Nat.log2 n + 1 - 53
  let unit := Nat.pow 2 shift
  let quotient := n / unit
  let twice := 2 * (n % unit)
  if unit < twice ∨ (twice = unit ∧ quotient % 2 = 1) then (quotient + 1) * unit
  else quotient * unit

/-- Whether `n` times ten to the `e` is too large for a double, the two being
rounded before they are multiplied. -/
def overflows (n : Nat) (e : Int) : Bool :=
  match e with
  | .ofNat e =>
    if e ≤ 308 then
      Nat.pow 2 1024 - Nat.pow 2 970 ≤ round53 n * round53 (Nat.pow 10 e)
    else n != 0
  | .negSucc _ => false

/-- Whether a number is too large for a double. Digits past the word that the
leading ones fill count as places only. -/
def Number.isHuge (n : Number) : Bool :=
  let whole := leading 0 n.digits
  let dropped : Int := n.digits.length - whole.2
  let scaled : Nat × Int :=
    match n.fraction with
    | none => (whole.1, dropped)
    | some fraction =>
      let all := leading whole.1 fraction
      (all.1, dropped - all.2)
  match n.exponent with
  | none => overflows scaled.1 scaled.2
  | some (negative, digits) =>
    if ofDigits digits ≤ 2147483647 then
      overflows scaled.1
        (if negative then scaled.2 - ofDigits digits else scaled.2 + ofDigits digits)
    else scaled.1 != 0 && !negative

end SegmentedView.Json
