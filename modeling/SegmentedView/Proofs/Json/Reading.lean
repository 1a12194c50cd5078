import SegmentedView.Proofs.Json.Grammar
import Mathlib.Tactic

/-!
# Readers of numbers and strings on well-formed texts

Every reader of a part of a value, run where a text of this part stands, takes the text and leaves
what follows it. A number ends where none can go on (`Stops`), as it does before everything that
may follow a value; a string is read to what it denotes, and refused where it denotes nothing.
-/

set_option autoImplicit false

namespace SegmentedView.Json

open Text

variable {cs rest : List Char}

/-! ## Blanks and marks -/

/-- The blanks are the space, the tab, the line feed and the carriage return. -/
theorem isBlank_iff {c : Char} : isBlank c = true ↔ c ∈ [' ', '\t', '\n', '\r'] := by
  simp [isBlank, or_assoc]

/-- What does not begin with a blank is not passed over. -/
theorem skipBlank_cons {c : Char} (hc : isBlank c = false) (cs : List Char) :
    skipBlank (c :: cs) = c :: cs := by
  unfold skipBlank
  rw [List.dropWhile_cons, hc]
  rfl

/-- Passing over blanks makes no difference to what is left when all are passed over. -/
theorem BlanksAt.skipBlank_eq (h : BlanksAt cs rest) : skipBlank cs = skipBlank rest := by
  induction h with
  | none rest => rfl
  | more hc h ih =>
    rw [← ih]
    unfold skipBlank
    rw [List.dropWhile_cons, if_pos (isBlank_iff.2 hc)]

/-- What follows blanks is no longer than what begins with them. -/
theorem BlanksAt.length_le (h : BlanksAt cs rest) : rest.length ≤ cs.length := by
  induction h with
  | none rest => exact le_rfl
  | more hc h ih => exact ih.trans (Nat.le_succ _)

/-- Blanks end at a character that is none. -/
theorem BlanksAt.skipBlank_eq_cons {c : Char} (h : BlanksAt cs (c :: rest))
    (hc : isBlank c = false) : skipBlank cs = c :: rest := by
  rw [h.skipBlank_eq, skipBlank_cons hc]

/-- A mark is met behind blanks if it is none itself. -/
theorem BlanksAt.expectChar {mark : Char} (h : BlanksAt cs (mark :: rest))
    (hmark : isBlank mark = false) : expectChar mark cs = .ok rest := by
  unfold Json.expectChar
  rw [h.skipBlank_eq_cons hmark]
  exact if_pos rfl

/-- No text of a number goes on here. -/
def Stops (cs : List Char) : Prop :=
  ∀ c, cs.head? = some c → c.isDigit = false ∧ c ∉ ['.', 'e', 'E']

/-- A number ends before a character that goes on with none. -/
theorem stops_cons {c : Char} (hc : c.isDigit = false ∧ c ∉ ['.', 'e', 'E']) (cs : List Char) :
    Stops (c :: cs) := by
  intro d hd
  cases hd
  exact hc

/-- Blanks stop a number. -/
theorem BlanksAt.stops (h : BlanksAt cs rest) (hrest : Stops rest) : Stops cs := by
  cases h with
  | none => exact hrest
  | more hc h =>
    refine stops_cons ?_ _
    simp only [List.mem_cons, List.not_mem_nil, or_false] at hc
    rcases hc with rfl | rfl | rfl | rfl <;> decide

/-! ## Numbers -/

/-- A text of digits starts with the first of them. -/
theorem DigitsAt.exists_head {ds : List Char} (h : DigitsAt ds cs rest) :
    ∃ d ds', ds = d :: ds' ∧ d.isDigit = true ∧ cs = d :: (ds' ++ rest) := by
  obtain ⟨hnonempty, hdigit, rfl⟩ := h
  cases ds with
  | nil => exact absurd rfl hnonempty
  | cons d ds => exact ⟨d, ds, rfl, hdigit d List.mem_cons_self, rfl⟩

/-- Digits are read as far as they go. -/
theorem readDigits_of_digitsAt {ds : List Char} (h : DigitsAt ds cs rest)
    (hstop : ∀ c, rest.head? = some c → c.isDigit = false) :
    readDigits cs = .ok (ds, rest) := by
  obtain ⟨d, ds, rfl, hd, rfl⟩ := h.exists_head
  have hds : ∀ c ∈ ds, c.isDigit = true := fun c hc => h.digit c (List.mem_cons_of_mem d hc)
  have hrest : rest.takeWhile Char.isDigit = [] ∧ rest.dropWhile Char.isDigit = rest := by
    cases rest with
    | nil => exact ⟨rfl, rfl⟩
    | cons c rest =>
      rw [List.takeWhile_cons, List.dropWhile_cons, hstop c rfl]
      exact ⟨rfl, rfl⟩
  rw [readDigits, if_pos hd, List.takeWhile_append_of_pos hds, List.dropWhile_append_of_pos hds,
    hrest.1, hrest.2, List.append_nil]

/-- The digits before the point are read as far as they go. -/
theorem readWhole_of_wholeAt {ds : List Char} (h : WholeAt ds cs rest)
    (hstop : ∀ c, rest.head? = some c → c.isDigit = false) :
    readWhole cs = .ok (ds, rest) := by
  have hread := readDigits_of_digitsAt h.digits hstop
  obtain ⟨d, ds, rfl, -, rfl⟩ := h.digits.exists_head
  unfold readWhole
  split
  case h_1 c cs heq =>
    -- Only the one zero starts with a zero, and no digit follows it.
    obtain ⟨rfl, hafter⟩ := List.cons.inj heq
    obtain rfl : ds = [] := (List.cons.inj (h.zero rfl)).2
    obtain rfl : rest = c :: cs := hafter
    rw [if_neg (by rw [hstop c rfl]; exact Bool.false_ne_true)]
  case h_2 => exact hread

/-- A fraction is read as far as it goes. -/
theorem readFraction_of_fractionAt {fraction : Option (List Char)} (h : FractionAt fraction cs rest)
    (hstop : ∀ c, rest.head? = some c → c.isDigit = false ∧ c ≠ '.') :
    readFraction cs = .ok (fraction, rest) := by
  cases h with
  | none =>
    unfold readFraction
    split
    case h_1 cs => exact absurd rfl (hstop '.' rfl).2
    case h_2 => rfl
  | point h =>
    rw [readFraction, readDigits_of_digitsAt h fun c hc => (hstop c hc).1]
    rfl

/-- An exponent is read as far as it goes. -/
theorem readExponent_of_exponentAt {exponent : Option (Bool × List Char)}
    (h : ExponentAt exponent cs rest) (hstop : Stops rest) :
    readExponent cs = .ok (exponent, rest) := by
  cases h with
  | none =>
    cases cs with
    | nil => rfl
    | cons c cs =>
      have hc := (hstop c rfl).2
      simp only [List.mem_cons, List.not_mem_nil, or_false, not_or] at hc
      unfold readExponent
      dsimp only
      rw [if_neg (not_or.2 hc.2)]
  | @mark e negative ds cs cs' _ he hsign h =>
    have hread := readDigits_of_digitsAt h fun c hc => (hstop c hc).1
    have hmark : e = 'e' ∨ e = 'E' := by simpa using he
    unfold readExponent
    dsimp only
    rw [if_pos hmark]
    cases hsign with
    | none =>
      -- The digits follow at once, so what comes first is no sign.
      obtain ⟨d, ds, rfl, hd, rfl⟩ := h.exists_head
      split
      case h_1 heq =>
        obtain ⟨rfl, -⟩ := List.cons.inj heq
        cases hd
      case h_2 heq =>
        obtain ⟨rfl, -⟩ := List.cons.inj heq
        cases hd
      case h_3 =>
        rw [hread]
        rfl
    | plus => exact congrArg (Except.map fun x => (some (false, x.1), x.2)) hread
    | minus => exact congrArg (Except.map fun x => (some (true, x.1), x.2)) hread

/-- What comes after the digits before the point is no digit. -/
theorem FractionAt.head_not_digit {fraction : Option (List Char)} (h : FractionAt fraction cs rest)
    (hrest : ∀ c, rest.head? = some c → c.isDigit = false) {c : Char} (hc : cs.head? = some c) :
    c.isDigit = false := by
  cases h with
  | none => exact hrest c hc
  | point h =>
    cases hc
    decide

/-- What comes after a fraction, or where it is missing, goes on with neither. -/
theorem ExponentAt.head_not_digit {exponent : Option (Bool × List Char)}
    (h : ExponentAt exponent cs rest) (hstop : Stops rest) {c : Char} (hc : cs.head? = some c) :
    c.isDigit = false ∧ c ≠ '.' := by
  cases h with
  | none =>
    refine ⟨(hstop c hc).1, ?_⟩
    rintro rfl
    exact (hstop '.' hc).2 (by simp)
  | mark he hsign h =>
    cases hc
    simp only [List.mem_cons, List.not_mem_nil, or_false] at he
    rcases he with rfl | rfl <;> decide

/-- A number is read as far as it goes. -/
theorem readNumber_of_numberAt {n : Number} (h : NumberAt n cs rest) (hstop : Stops rest) :
    readNumber cs = .ok (n, rest) := by
  obtain ⟨hsign, hwhole, hfraction, hexponent⟩ := h
  rename_i negative digits cs₁ cs₂ cs₃ fraction exponent
  have hunsigned : readUnsigned negative cs₁ =
      .ok (⟨negative, digits, fraction, exponent⟩, rest) := by
    have hafter := fun c (hc : cs₃.head? = some c) => hexponent.head_not_digit hstop hc
    have hpoint := fun c (hc : cs₂.head? = some c) =>
      hfraction.head_not_digit (fun c hc => (hafter c hc).1) hc
    unfold readUnsigned
    rw [readWhole_of_wholeAt hwhole hpoint]
    dsimp only
    rw [readFraction_of_fractionAt hfraction hafter]
    dsimp only
    rw [readExponent_of_exponentAt hexponent hstop]
    rfl
  cases hsign with
  | minus => exact hunsigned
  | none =>
    -- A digit comes first, and so no sign.
    obtain ⟨d, ds, -, hd, rfl⟩ := hwhole.digits.exists_head
    unfold readNumber
    split
    case h_1 heq =>
      obtain ⟨rfl, -⟩ := List.cons.inj heq
      cases hd
    case h_2 => exact hunsigned

/-- A text of a number starts with a sign or a digit. -/
theorem NumberAt.exists_head {n : Number} (h : NumberAt n cs rest) :
    ∃ c cs', cs = c :: cs' ∧ (c = '-' ∨ c.isDigit = true) := by
  obtain ⟨hsign, hwhole, -, -⟩ := h
  cases hsign with
  | minus => exact ⟨'-', _, rfl, .inl rfl⟩
  | none =>
    obtain ⟨d, ds, -, hd, rfl⟩ := hwhole.digits.exists_head
    exact ⟨d, _, rfl, .inr hd⟩

/-- A number begins with a minus sign or a digit. -/
theorem NumberAt.head_eq {n : Number} {c : Char} (h : NumberAt n (c :: cs) rest) :
    c = '-' ∨ c.isDigit = true := by
  obtain ⟨d, ds, heq, hd⟩ := h.exists_head
  obtain ⟨rfl, -⟩ := List.cons.inj heq
  exact hd

/-! ## Strings -/

/-- A letter of the table stands for its character, and is not the letter of a unit. -/
theorem letterValue?_of_mem {l c : Char} (h : (l, c) ∈ escapes) :
    letterValue? l = some c ∧ l ≠ 'u' := by
  have hall : ∀ x ∈ escapes, letterValue? x.1 = some x.2 ∧ x.1 ≠ 'u' := by decide
  exact hall _ h

/-- A digit of the table has its value. -/
theorem hexValue?_of_mem {c : Char} {n : Nat} (h : (c, n) ∈ hexTable) :
    hexValue? c = some n := by
  have hall : ∀ x ∈ hexTable, hexValue? x.1 = some x.2 := by decide
  exact hall _ h

/-- A piece is cut off before the rest is cut. -/
theorem pieces_of_pieceAt {p : Piece} (h : PieceAt p cs rest) :
    pieces cs = (p :: (pieces rest).1, (pieces rest).2) := by
  cases h with
  | plain h =>
    obtain ⟨hvisible, hquote, hescape⟩ := h
    rw [pieces] <;> simp_all
  | letter h =>
    obtain ⟨hvalue, hu⟩ := letterValue?_of_mem h
    rw [pieces] <;> simp_all
  | unit ha hb hc hd =>
    rw [pieces, unit?, hexValue?_of_mem ha, hexValue?_of_mem hb, hexValue?_of_mem hc,
      hexValue?_of_mem hd]

/-- The pieces of a string are read up to its closing quote. -/
theorem pieces_of_piecesAt {ps : List Piece} (h : PiecesAt ps cs rest) :
    pieces cs = (ps, .ok rest) := by
  induction h with
  | quote rest => rw [pieces]
  | piece h hs ih => rw [pieces_of_pieceAt h, ih]

/-- A character in front of what was decoded is a text exactly when the rest is one. -/
theorem Decoded.cons_eq_text_iff {c : Char} {d : Decoded} {s : List Char} :
    d.cons c = .text s ↔ ∃ s', d = .text s' ∧ s = c :: s' := by
  cases d <;> simp [Decoded.cons, eq_comm]

/-- A unit may begin a pair exactly when it is one of these. -/
theorem isLeading_iff {n : Nat} : isLeading n = true ↔ 0xD800 ≤ n ∧ n ≤ 0xDBFF := by
  simp [isLeading]

/-- A unit may end a pair exactly when it is one of these. -/
theorem isTrailing_iff {n : Nat} : isTrailing n = true ↔ 0xDC00 ≤ n ∧ n ≤ 0xDFFF := by
  simp [isTrailing]

/-- A unit is neither half of a pair. -/
theorem neither_half_iff {n : Nat} :
    (¬ isTrailing n = true ∧ ¬ isLeading n = true) ↔ n < 0xD800 ∨ 0xDFFF < n := by
  rw [isTrailing_iff, isLeading_iff]
  omega

/-- A unit that is neither half of a pair is decoded by itself. -/
theorem decode_unit {n : Nat} (hn : n < 0xD800 ∨ 0xDFFF < n) (ps : List Piece) :
    decode (.unit n :: ps) = (decode ps).cons (Char.ofNat n) := by
  obtain ⟨htrailing, hleading⟩ := neither_half_iff.2 hn
  cases ps with
  | nil => simp [decode, htrailing, hleading, Decoded.cons]
  | cons p ps => cases p <;> simp [decode, htrailing, hleading]

/-- A pair stands for a character beyond those of single units. -/
theorem pairValue_eq (n m : Nat) :
    pairValue n m = Char.ofNat (0x10000 + (n - 0xD800) * 0x400 + (m - 0xDC00)) :=
  congrArg Char.ofNat (by omega)

/-- Pieces that denote a string are decoded to it. -/
theorem decode_of_denotes {ps : List Piece} {s : List Char} (h : Denotes ps s) :
    decode ps = .text s := by
  induction h with
  | nil => rfl
  | plain c h ih => rw [decode, ih]; rfl
  | letter c h ih => rw [decode, ih]; rfl
  | unit hn h ih => rw [decode_unit hn, ih]; rfl
  | @pair ps s n m hn hm h ih =>
    have htrailing : ¬ isTrailing n = true := by
      rw [isTrailing_iff]
      omega
    rw [decode, if_neg htrailing, if_pos (isLeading_iff.2 hn), if_pos (isTrailing_iff.2 hm), ih,
      pairValue_eq]
    rfl

/-- Pieces are decoded to what they denote, and to nothing where they denote nothing. -/
theorem decode_eq_text_iff {ps : List Piece} {s : List Char} :
    decode ps = .text s ↔ Denotes ps s := by
  refine ⟨fun h => ?_, decode_of_denotes⟩
  fun_induction decode ps generalizing s with
  | case1 =>
    cases h
    exact .nil
  | case2 c ps ih =>
    obtain ⟨s, hs, rfl⟩ := Decoded.cons_eq_text_iff.1 h
    exact .plain c (ih hs)
  | case3 c ps ih =>
    obtain ⟨s, hs, rfl⟩ := Decoded.cons_eq_text_iff.1 h
    exact .letter c (ih hs)
  | case4 n htrailing => cases h
  | case5 n htrailing hleading => cases h
  | case6 n htrailing hleading =>
    cases h
    exact .unit (neither_half_iff.1 ⟨htrailing, hleading⟩) .nil
  | case7 n m ps htrailing => cases h
  | case8 n m ps htrailing hleading hsecond ih =>
    obtain ⟨s, hs, rfl⟩ := Decoded.cons_eq_text_iff.1 h
    rw [pairValue_eq]
    exact .pair (isLeading_iff.1 hleading) (isTrailing_iff.1 hsecond) (ih hs)
  | case9 n m ps htrailing hleading hsecond => cases h
  | case10 n m ps htrailing hleading ih =>
    obtain ⟨s, hs, rfl⟩ := Decoded.cons_eq_text_iff.1 h
    exact .unit (neither_half_iff.1 ⟨htrailing, hleading⟩) (ih hs)
  | case11 n p ps hp hhalf => cases h
  | case12 n p ps hp hhalf ih =>
    obtain ⟨s, hs, rfl⟩ := Decoded.cons_eq_text_iff.1 h
    rw [Bool.or_eq_true, not_or] at hhalf
    exact .unit (neither_half_iff.1 hhalf) (ih hs)

instance (ps : List Piece) (s : List Char) : Decidable (Denotes ps s) :=
  decidable_of_iff _ decode_eq_text_iff

/-- A string that denotes a text is read as this text. -/
theorem readString_of_piecesAt {ps : List Piece} {s : List Char} (h : PiecesAt ps cs rest)
    (hs : Denotes ps s) : readString cs = .ok (s, rest) := by
  unfold readString
  dsimp only
  rw [pieces_of_piecesAt h, decode_of_denotes hs]

/-- A string that denotes nothing is refused. -/
theorem readString_of_not_denotes {ps : List Piece} (h : PiecesAt ps cs rest)
    (hs : ∀ s, ¬ Denotes ps s) : readString cs = .error .malformed := by
  unfold readString
  dsimp only
  rw [pieces_of_piecesAt h]
  cases hdecode : decode ps with
  | text s => exact absurd (decode_eq_text_iff.1 hdecode) (hs s)
  | half => rfl
  | lone => rfl

/-! ## Values -/

/-- A digit is no blank. -/
theorem isBlank_eq_false_of_isDigit {c : Char} (hc : c.isDigit = true) : isBlank c = false := by
  by_contra hblank
  rw [Bool.not_eq_false, isBlank_iff] at hblank
  simp only [List.mem_cons, List.not_mem_nil, or_false] at hblank
  rcases hblank with rfl | rfl | rfl | rfl <;> cases hc

/-- A text of a value starts with neither a blank nor a closing bracket. -/
theorem ValueAt.exists_head {t : Ast} (h : ValueAt t cs rest) :
    ∃ c cs', cs = c :: cs' ∧ isBlank c = false ∧ c ≠ ']' := by
  cases h with
  | number h =>
    obtain ⟨c, cs', rfl, rfl | hc⟩ := h.exists_head
    · exact ⟨'-', cs', rfl, rfl, by decide⟩
    · refine ⟨c, cs', rfl, isBlank_eq_false_of_isDigit hc, ?_⟩
      rintro rfl
      cases hc
  | _ => exact ⟨_, _, rfl, rfl, by decide⟩

/-- A value begins with no blank. -/
theorem ValueAt.skipBlank_eq {t : Ast} (h : ValueAt t cs rest) : skipBlank cs = cs := by
  obtain ⟨c, cs', rfl, hc, -⟩ := h.exists_head
  exact skipBlank_cons hc cs'

end SegmentedView.Json
