import SegmentedView.Json.Number
import SegmentedView.Json.Text

/-!
# The grammar of JSON texts

What a well-formed JSON text is, said without a reader. `ValueAt t cs rest` says that a text of
the value `t` stands at the start of `cs` and `rest` is what follows it, and the other relations
are read in the same way; there is one for each rule of the grammar. A value is kept as it is
written (`Ast`): a number with its digits, a string with its pieces, an object with all its
members in order. What a string denotes is a matter of its own (`Denotes`), for a half of a
surrogate pair may stand alone in a well-formed string but denotes nothing.
-/

set_option autoImplicit false

namespace SegmentedView.Json

/-- A value as it is written, up to blanks and the spelling of pieces and exponents. -/
inductive Ast
  | null
  | flag (b : Bool)
  | number (n : Number)
  | string (ps : List Piece)
  | list (items : List Ast)
  | object (members : List (List Piece × Ast))

/-- Blanks, or none. -/
inductive BlanksAt : List Char → List Char → Prop
  | none (rest : List Char) : BlanksAt rest rest
  | more {c : Char} {cs rest : List Char} (hc : c ∈ [' ', '\t', '\n', '\r'])
    (h : BlanksAt cs rest) : BlanksAt (c :: cs) rest

/-! ## Numbers -/

/-- One digit or more. -/
structure DigitsAt (ds cs rest : List Char) : Prop where
  nonempty : ds ≠ []
  digit : ∀ c ∈ ds, c.isDigit = true
  split : cs = ds ++ rest

/-- The digits before the point: a zero begins no longer number. -/
structure WholeAt (ds cs rest : List Char) : Prop where
  digits : DigitsAt ds cs rest
  zero : ds.head? = some '0' → ds = ['0']

/-- A minus sign, or none. -/
inductive MinusAt : Bool → List Char → List Char → Prop
  | none (rest : List Char) : MinusAt false rest rest
  | minus (rest : List Char) : MinusAt true ('-' :: rest) rest

/-- A point and digits, or nothing. -/
inductive FractionAt : Option (List Char) → List Char → List Char → Prop
  | none (rest : List Char) : FractionAt none rest rest
  | point {ds cs rest : List Char} (h : DigitsAt ds cs rest) :
    FractionAt (some ds) ('.' :: cs) rest

/-- The sign of an exponent: a plus, which may be left out, or a minus. -/
inductive SignAt : Bool → List Char → List Char → Prop
  | none (rest : List Char) : SignAt false rest rest
  | plus (rest : List Char) : SignAt false ('+' :: rest) rest
  | minus (rest : List Char) : SignAt true ('-' :: rest) rest

/-- An exponent, or nothing. -/
inductive ExponentAt : Option (Bool × List Char) → List Char → List Char → Prop
  | none (rest : List Char) : ExponentAt none rest rest
  | mark {e : Char} {negative : Bool} {ds cs cs' rest : List Char} (he : e ∈ ['e', 'E'])
    (hsign : SignAt negative cs cs') (h : DigitsAt ds cs' rest) :
    ExponentAt (some (negative, ds)) (e :: cs) rest

/-- A number: a sign, digits, a fraction and an exponent. -/
inductive NumberAt : Number → List Char → List Char → Prop
  | parts {negative : Bool} {digits cs₀ cs₁ cs₂ cs₃ rest : List Char}
    {fraction : Option (List Char)} {exponent : Option (Bool × List Char)}
    (hsign : MinusAt negative cs₀ cs₁) (hwhole : WholeAt digits cs₁ cs₂)
    (hfraction : FractionAt fraction cs₂ cs₃) (hexponent : ExponentAt exponent cs₃ rest) :
    NumberAt ⟨negative, digits, fraction, exponent⟩ cs₀ rest

/-! ## Strings -/

/-- The letters that may follow a backslash, and the characters that they stand for. -/
def escapes : List (Char × Char) :=
  [('"', '"'), ('\\', '\\'), ('/', '/'), ('b', '\x08'), ('f', '\x0c'), ('n', '\n'), ('r', '\r'),
    ('t', '\t')]

/-- The digits of base 16 with their values, in either case. -/
def hexTable : List (Char × Nat) :=
  ['0', '1', '2', '3', '4', '5', '6', '7', '8', '9', 'a', 'b', 'c', 'd', 'e', 'f'].zipIdx ++
    ['A', 'B', 'C', 'D', 'E', 'F'].zipIdx 10

/-- Whether a character may stand for itself in a string. -/
def IsPlain (c : Char) : Prop := 0x20 ≤ c.toNat ∧ c ≠ '"' ∧ c ≠ '\\'

instance : DecidablePred IsPlain := fun c =>
  inferInstanceAs (Decidable (0x20 ≤ c.toNat ∧ c ≠ '"' ∧ c ≠ '\\'))

/-- Checked along the list, for a search over every character there is does not end. -/
theorem isPlain_of_all {s : List Char} (h : s.all fun c => decide (IsPlain c)) :
    ∀ c ∈ s, IsPlain c := fun c hc =>
  of_decide_eq_true (List.all_eq_true.1 h c hc)

/-- One piece of a string. -/
inductive PieceAt : Piece → List Char → List Char → Prop
  | plain {c : Char} (h : IsPlain c) (rest : List Char) : PieceAt (.plain c) (c :: rest) rest
  | letter {l c : Char} (h : (l, c) ∈ escapes) (rest : List Char) :
    PieceAt (.letter c) ('\\' :: l :: rest) rest
  | unit {a b c d : Char} {i j k l : Nat} (ha : (a, i) ∈ hexTable) (hb : (b, j) ∈ hexTable)
    (hc : (c, k) ∈ hexTable) (hd : (d, l) ∈ hexTable) (rest : List Char) :
    PieceAt (.unit (((i * 16 + j) * 16 + k) * 16 + l)) ('\\' :: 'u' :: a :: b :: c :: d :: rest)
      rest

/-- The pieces of a string and its closing quote. -/
inductive PiecesAt : List Piece → List Char → List Char → Prop
  | quote (rest : List Char) : PiecesAt [] ('"' :: rest) rest
  | piece {p : Piece} {ps : List Piece} {cs cs' rest : List Char} (h : PieceAt p cs cs')
    (hs : PiecesAt ps cs' rest) : PiecesAt (p :: ps) cs rest

/-- What the pieces of a string denote: every half of a surrogate pair stands beside the other
half, and they are one character. -/
inductive Denotes : List Piece → List Char → Prop
  | nil : Denotes [] []
  | plain {ps : List Piece} {s : List Char} (c : Char) (h : Denotes ps s) :
    Denotes (.plain c :: ps) (c :: s)
  | letter {ps : List Piece} {s : List Char} (c : Char) (h : Denotes ps s) :
    Denotes (.letter c :: ps) (c :: s)
  | unit {ps : List Piece} {s : List Char} {n : Nat} (hn : n < 0xD800 ∨ 0xDFFF < n)
    (h : Denotes ps s) : Denotes (.unit n :: ps) (Char.ofNat n :: s)
  | pair {ps : List Piece} {s : List Char} {n m : Nat} (hn : 0xD800 ≤ n ∧ n ≤ 0xDBFF)
    (hm : 0xDC00 ≤ m ∧ m ≤ 0xDFFF) (h : Denotes ps s) :
    Denotes (.unit n :: .unit m :: ps)
      (Char.ofNat (0x10000 + (n - 0xD800) * 0x400 + (m - 0xDC00)) :: s)

/-! ## Values -/

mutual

/-- A value. -/
inductive ValueAt : Ast → List Char → List Char → Prop
  | null (rest : List Char) : ValueAt .null ('n' :: 'u' :: 'l' :: 'l' :: rest) rest
  | yes (rest : List Char) : ValueAt (.flag true) ('t' :: 'r' :: 'u' :: 'e' :: rest) rest
  | no (rest : List Char) : ValueAt (.flag false) ('f' :: 'a' :: 'l' :: 's' :: 'e' :: rest) rest
  | number {n : Number} {cs rest : List Char} (h : NumberAt n cs rest) :
    ValueAt (.number n) cs rest
  | string {ps : List Piece} {cs rest : List Char} (h : PiecesAt ps cs rest) :
    ValueAt (.string ps) ('"' :: cs) rest
  | emptyList {cs rest : List Char} (h : BlanksAt cs (']' :: rest)) :
    ValueAt (.list []) ('[' :: cs) rest
  | list {items : List Ast} {cs rest : List Char} (h : ItemsAt items cs (']' :: rest)) :
    ValueAt (.list items) ('[' :: cs) rest
  | emptyObject {cs rest : List Char} (h : BlanksAt cs ('\x7d' :: rest)) :
    ValueAt (.object []) ('\x7b' :: cs) rest
  | object {members : List (List Piece × Ast)} {cs rest : List Char}
    (h : MembersAt members cs ('\x7d' :: rest)) : ValueAt (.object members) ('\x7b' :: cs) rest

/-- A value with blanks around it. -/
inductive ElementAt : Ast → List Char → List Char → Prop
  | blanks {t : Ast} {cs cs₁ cs₂ rest : List Char} (hbefore : BlanksAt cs cs₁)
    (h : ValueAt t cs₁ cs₂) (hafter : BlanksAt cs₂ rest) : ElementAt t cs rest

/-- The items of a list, one or more. -/
inductive ItemsAt : List Ast → List Char → List Char → Prop
  | one {t : Ast} {cs rest : List Char} (h : ElementAt t cs rest) : ItemsAt [t] cs rest
  | more {t : Ast} {ts : List Ast} {cs cs' rest : List Char} (h : ElementAt t cs (',' :: cs'))
    (hs : ItemsAt ts cs' rest) : ItemsAt (t :: ts) cs rest

/-- A member of an object: a key, a colon and a value. -/
inductive MemberAt : List Piece × Ast → List Char → List Char → Prop
  | colon {key : List Piece} {t : Ast} {cs cs₁ cs₂ cs₃ rest : List Char}
    (hbefore : BlanksAt cs ('"' :: cs₁)) (hkey : PiecesAt key cs₁ cs₂)
    (hafter : BlanksAt cs₂ (':' :: cs₃)) (h : ElementAt t cs₃ rest) : MemberAt (key, t) cs rest

/-- The members of an object, one or more. -/
inductive MembersAt : List (List Piece × Ast) → List Char → List Char → Prop
  | one {m : List Piece × Ast} {cs rest : List Char} (h : MemberAt m cs rest) :
    MembersAt [m] cs rest
  | more {m : List Piece × Ast} {ms : List (List Piece × Ast)} {cs cs' rest : List Char}
    (h : MemberAt m cs (',' :: cs')) (hs : MembersAt ms cs' rest) : MembersAt (m :: ms) cs rest

end

/-- The whole of a text is a text of this value. -/
def IsText (t : Ast) (text : String) : Prop := ElementAt t text.toList []

/-! ## The plainest texts -/

/-- A value with no blanks around it is an element. -/
theorem ValueAt.element {t : Ast} {cs rest : List Char} (h : ValueAt t cs rest) :
    ElementAt t cs rest := .blanks (.none cs) h (.none rest)

/-- Digits alone are a number. -/
theorem valueAt_digits {ds rest : List Char} (h : WholeAt ds (ds ++ rest) rest) :
    ValueAt (.number ⟨false, ds, none, none⟩) (ds ++ rest) rest :=
  .number (.parts (.none _) h (.none rest) (.none rest))

/-- Characters that stand for themselves are pieces as they are. -/
theorem piecesAt_plain {s : List Char} (hs : ∀ c ∈ s, IsPlain c) (rest : List Char) :
    PiecesAt (s.map Piece.plain) (s ++ '"' :: rest) rest := by
  induction s with
  | nil => exact .quote rest
  | cons c s ih =>
    have hrest : ∀ d ∈ s, IsPlain d := fun d hd => hs d (List.mem_cons_of_mem c hd)
    exact .piece (.plain (hs c List.mem_cons_self) _) (ih hrest)

/-- A key of plain characters between quotes, a colon and an element are a member. -/
theorem memberAt_plain {s cs rest : List Char} (hs : ∀ c ∈ s, IsPlain c) {t : Ast}
    (h : ElementAt t cs rest) :
    MemberAt (s.map Piece.plain, t) ('"' :: (s ++ '"' :: ':' :: cs)) rest :=
  .colon (.none _) (piecesAt_plain hs _) (.none _) h

/-- Plain characters denote themselves. -/
theorem denotes_plain (s : List Char) : Denotes (s.map Piece.plain) s := by
  induction s with
  | nil => exact .nil
  | cons c s ih => exact .plain c ih

end SegmentedView.Json
