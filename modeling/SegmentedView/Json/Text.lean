import SegmentedView.Address
import SegmentedView.Json.Scan
import SegmentedView.Text.Hex

/-!
# Strings

A JSON string is first cut into pieces, each a plain character or an escape, and
the pieces are then decoded. Where only the form matters the pieces are enough;
where the content matters, a half of a surrogate pair without the other half is
a flaw of its own, found where it stands.
-/

set_option autoImplicit false

namespace SegmentedView.Json

open Text

/-- One piece of a string as it is written. -/
inductive Piece
  | plain (c : Char)
  /-- A character written by one letter after a backslash. -/
  | letter (c : Char)
  /-- A 16-bit unit written by four digits. -/
  | unit (n : Nat)
  deriving DecidableEq, Repr

/-- The character that a letter after a backslash stands for. -/
def letterValue? : Char → Option Char
  | '"' => some '"'
  | '\\' => some '\\'
  | '/' => some '/'
  | 'b' => some '\x08'
  | 'f' => some '\x0c'
  | 'n' => some '\n'
  | 'r' => some '\r'
  | 't' => some '\t'
  | _ => none

/-- The flaw of a unit for whose four digits fewer than four characters are left:
the text is too short if it also holds fewer than four bytes. -/
def shortUnit (cs : List Char) : JsonFlaw :=
  if addUp (cs.map fun c => c.utf8Size) < 4 then .truncated else .malformed

/-- Cuts a string into pieces, up to and with its closing quote. The pieces
before a flaw are given too. -/
def pieces : List Char → List Piece × Except JsonFlaw (List Char)
  | [] => ([], .error .truncated)
  | '"' :: cs => ([], .ok cs)
  | ['\\'] => ([], .error .truncated)
  | '\\' :: 'u' :: a :: b :: c :: d :: cs =>
    match unit? a b c d with
    | none => ([], .error .malformed)
    | some n =>
      let rest := pieces cs
      (.unit n :: rest.1, rest.2)
  | '\\' :: 'u' :: cs => ([], .error (shortUnit cs))
  | '\\' :: c :: cs =>
    match letterValue? c with
    | none => ([], .error .malformed)
    | some c =>
      let rest := pieces cs
      (.letter c :: rest.1, rest.2)
  | c :: cs =>
    if c.toNat < 32 then ([], .error .malformed)
    else
      let rest := pieces cs
      (.plain c :: rest.1, rest.2)

/-- Passes over a string, its opening quote being read. -/
def skipString (cs : List Char) : Except JsonFlaw (List Char) := (pieces cs).2

/-- Whether a unit is the first half of a surrogate pair. -/
def isLeading (n : Nat) : Bool := 0xD800 ≤ n && n ≤ 0xDBFF

/-- Whether a unit is the second half of a surrogate pair. -/
def isTrailing (n : Nat) : Bool := 0xDC00 ≤ n && n ≤ 0xDFFF

/-- The character of a surrogate pair. -/
def pairValue (n m : Nat) : Char := Char.ofNat ((n - 0xD800) * 1024 + (m - 0xDC00) + 0x10000)

/-- What pieces decode to. -/
inductive Decoded
  | text (cs : List Char)
  /-- The last piece is the first half of a pair. -/
  | half
  /-- Some half of a pair stands alone. -/
  | lone
  deriving DecidableEq, Repr

/-- The same with one more character in front. -/
def Decoded.cons (c : Char) : Decoded → Decoded
  | .text cs => .text (c :: cs)
  | d => d

/-- Decodes pieces from the first on. -/
def decode : List Piece → Decoded
  | [] => .text []
  | .plain c :: ps => (decode ps).cons c
  | .letter c :: ps => (decode ps).cons c
  | [.unit n] =>
    if isTrailing n then .lone
    else if isLeading n then .half
    else .text [Char.ofNat n]
  | .unit n :: .unit m :: ps =>
    if isTrailing n then .lone
    else if isLeading n then
      if isTrailing m then (decode ps).cons (pairValue n m) else .lone
    else (decode (.unit m :: ps)).cons (Char.ofNat n)
  | .unit n :: p :: ps =>
    if isTrailing n || isLeading n then .lone
    else (decode (p :: ps)).cons (Char.ofNat n)

/-- Reads a string, its opening quote being read. -/
def readString (cs : List Char) : Reading (List Char) :=
  let cut := pieces cs
  match decode cut.1, cut.2 with
  | .lone, _ => .error .malformed
  | _, .error e => .error e
  | .half, .ok _ => .error .malformed
  | .text s, .ok rest => .ok (s, rest)

end SegmentedView.Json
