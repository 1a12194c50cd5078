import SegmentedView.Json.Skip
import SegmentedView.Proofs.Json.Reading

/-!
# Passing over values

A text of a value takes at least one character (`ValueAt.length_lt`), which bounds how often the
readers of nested values call one another. So every well-formed value is passed over, at any
depth (`skipValue_of_elementAt`).
-/

set_option autoImplicit false

namespace SegmentedView.Json

variable {cs rest : List Char}

/-! ## Lengths -/

/-- A piece of a string takes at least a character. -/
theorem PieceAt.length_lt {p : Piece} (h : PieceAt p cs rest) : rest.length < cs.length := by
  cases h <;> simp only [List.length_cons] <;> omega

/-- The pieces of a string and its closing quote take at least a character. -/
theorem PiecesAt.length_lt {ps : List Piece} (h : PiecesAt ps cs rest) :
    rest.length < cs.length := by
  induction h with
  | quote rest => exact Nat.lt_succ_self _
  | piece h hs ih => exact ih.trans h.length_lt

/-- Digits take at least a character. -/
theorem DigitsAt.length_lt {ds : List Char} (h : DigitsAt ds cs rest) :
    rest.length < cs.length := by
  obtain ⟨d, ds, -, -, rfl⟩ := h.exists_head
  simp only [List.length_cons, List.length_append]
  omega

/-- A minus sign, or none, gives nothing back. -/
theorem MinusAt.length_le {b : Bool} (h : MinusAt b cs rest) : rest.length ≤ cs.length := by
  cases h <;> simp

/-- The sign of an exponent gives nothing back. -/
theorem SignAt.length_le {b : Bool} (h : SignAt b cs rest) : rest.length ≤ cs.length := by
  cases h <;> simp

/-- A fraction, or none, gives nothing back. -/
theorem FractionAt.length_le {fraction : Option (List Char)} (h : FractionAt fraction cs rest) :
    rest.length ≤ cs.length := by
  cases h with
  | none => exact le_rfl
  | point h => exact h.length_lt.le.trans (Nat.le_succ _)

/-- An exponent, or none, gives nothing back. -/
theorem ExponentAt.length_le {exponent : Option (Bool × List Char)}
    (h : ExponentAt exponent cs rest) : rest.length ≤ cs.length := by
  cases h with
  | none => exact le_rfl
  | mark he hsign h => exact (h.length_lt.le.trans hsign.length_le).trans (Nat.le_succ _)

/-- A number takes at least a character. -/
theorem NumberAt.length_lt {n : Number} (h : NumberAt n cs rest) : rest.length < cs.length := by
  obtain ⟨hsign, hwhole, hfraction, hexponent⟩ := h
  exact (hexponent.length_le.trans hfraction.length_le).trans_lt
    (hwhole.digits.length_lt.trans_le hsign.length_le)

mutual

/-- A value takes at least a character. -/
theorem ValueAt.length_lt {t : Ast} {cs rest : List Char} :
    ValueAt t cs rest → rest.length < cs.length
  | .null rest | .yes rest | .no rest => by
    simp only [List.length_cons]
    omega
  | .number h => h.length_lt
  | .string h => h.length_lt.trans (Nat.lt_succ_self _)
  | .emptyList h | .emptyObject h => by
    have hblanks := h.length_le
    simp only [List.length_cons] at hblanks ⊢
    omega
  | .list h => by
    have hitems := h.length_lt
    simp only [List.length_cons] at hitems ⊢
    omega
  | .object h => by
    have hmembers := h.length_lt
    simp only [List.length_cons] at hmembers ⊢
    omega

/-- An element takes at least a character. -/
theorem ElementAt.length_lt {t : Ast} {cs rest : List Char} :
    ElementAt t cs rest → rest.length < cs.length
  | .blanks hbefore h hafter => hafter.length_le.trans_lt (h.length_lt.trans_le hbefore.length_le)

/-- The items of a list take at least a character. -/
theorem ItemsAt.length_lt {ts : List Ast} {cs rest : List Char} :
    ItemsAt ts cs rest → rest.length < cs.length
  | .one h => h.length_lt
  | .more h hs => (hs.length_lt.trans (Nat.lt_succ_self _)).trans h.length_lt

/-- A member takes at least a character. -/
theorem MemberAt.length_lt {m : List Piece × Ast} {cs rest : List Char} :
    MemberAt m cs rest → rest.length < cs.length
  | .colon hbefore hkey hafter h => by
    have hopen := hbefore.length_le
    have hcolon := hafter.length_le
    have hpieces := hkey.length_lt
    have hvalue := h.length_lt
    simp only [List.length_cons] at hopen hcolon
    omega

/-- The members of an object take at least a character. -/
theorem MembersAt.length_lt {ms : List (List Piece × Ast)} {cs rest : List Char} :
    MembersAt ms cs rest → rest.length < cs.length
  | .one h => h.length_lt
  | .more h hs => (hs.length_lt.trans (Nat.lt_succ_self _)).trans h.length_lt

end

/-! ## Passing over -/

/-- Blanks before a value are passed over. -/
theorem skipValueIn_of_blanksAt {cs' : List Char} (h : BlanksAt cs cs') (fuel : Nat) :
    skipValueIn fuel cs = skipValueIn fuel cs' := by
  cases fuel with
  | zero => rfl
  | succ fuel => rw [skipValueIn, skipValueIn, h.skipBlank_eq]

/-- Blanks before items are passed over. -/
theorem skipItemsIn_of_blanksAt {cs' : List Char} (h : BlanksAt cs cs') (fuel : Nat) :
    skipItemsIn fuel cs = skipItemsIn fuel cs' := by
  cases fuel with
  | zero => rfl
  | succ fuel => rw [skipItemsIn, skipItemsIn, skipValueIn_of_blanksAt h]

/-- Blanks before members are passed over. -/
theorem skipMembersIn_of_blanksAt {cs' : List Char} (h : BlanksAt cs cs') (fuel : Nat) :
    skipMembersIn fuel cs = skipMembersIn fuel cs' := by
  cases fuel with
  | zero => rfl
  | succ fuel => rw [skipMembersIn, skipMembersIn, expectChar, expectChar, h.skipBlank_eq]

/-- A number is passed over. -/
theorem skipValueIn_of_numberAt {n : Number} (h : NumberAt n cs rest) (hstop : Stops rest)
    (fuel : Nat) : skipValueIn (fuel + 1) cs = .ok rest := by
  have hread : skipNumber cs = .ok rest := by
    unfold skipNumber
    rw [readNumber_of_numberAt h hstop]
  rw [skipValueIn, (ValueAt.number h).skipBlank_eq]
  split
  case h_1 =>
    obtain ⟨c, cs', heq, -⟩ := h.exists_head
    cases heq
  case h_8 => rw [if_pos h.head_eq, hread]
  all_goals exact absurd h.head_eq (by decide)

/-- To pass over a list is to pass over its items, if it has any. -/
theorem skipValueIn_list (fuel : Nat) (cs : List Char) :
    skipValueIn (fuel + 1) ('[' :: cs) =
      match skipBlank cs with
      | ']' :: cs => .ok cs
      | cs => skipItemsIn fuel cs := rfl

/-- To pass over an object is to pass over its members, if it has any. -/
theorem skipValueIn_object (fuel : Nat) (cs : List Char) :
    skipValueIn (fuel + 1) ('\x7b' :: cs) =
      match skipBlank cs with
      | '\x7d' :: cs => .ok cs
      | cs => skipMembersIn fuel cs := rfl

/-- The first item of a list is not its end, and blanks before it do not matter. -/
theorem ItemsAt.exists_head {ts : List Ast} (h : ItemsAt ts cs rest) :
    ∃ c cs', BlanksAt cs (c :: cs') ∧ isBlank c = false ∧ c ≠ ']' ∧
      ItemsAt ts (c :: cs') rest := by
  cases h with
  | one h =>
    obtain ⟨hbefore, hvalue, hafter⟩ := h
    obtain ⟨c, cs', rfl, hc, hclose⟩ := hvalue.exists_head
    exact ⟨c, cs', hbefore, hc, hclose, .one (.blanks (.none _) hvalue hafter)⟩
  | more h hs =>
    obtain ⟨hbefore, hvalue, hafter⟩ := h
    obtain ⟨c, cs', rfl, hc, hclose⟩ := hvalue.exists_head
    exact ⟨c, cs', hbefore, hc, hclose, .more (.blanks (.none _) hvalue hafter) hs⟩

/-- The first member of an object starts with a quote. -/
theorem MembersAt.exists_head {ms : List (List Piece × Ast)} (h : MembersAt ms cs rest) :
    ∃ cs', BlanksAt cs ('"' :: cs') := by
  have hmember : ∃ m rest', MemberAt m cs rest' := by
    cases h with
    | one h => exact ⟨_, _, h⟩
    | more h hs => exact ⟨_, _, h⟩
  obtain ⟨m, rest', ⟨hbefore, -, -, -⟩⟩ := hmember
  exact ⟨_, hbefore⟩

mutual

/-- A value is passed over, whatever it holds. -/
theorem skipValueIn_of_valueAt {t : Ast} {cs rest : List Char} :
    ValueAt t cs rest → Stops rest → ∀ fuel, 2 * cs.length ≤ fuel + 1 →
      skipValueIn (fuel + 1) cs = .ok rest
  | .null rest, _, _, _ | .yes rest, _, _, _ | .no rest, _, _, _ => rfl
  | .number h, hstop, fuel, _ => skipValueIn_of_numberAt h hstop fuel
  | .string h, _, _, _ => congrArg Prod.snd (pieces_of_piecesAt h)
  | .emptyList h, _, fuel, _ => by
    rw [skipValueIn_list, h.skipBlank_eq_cons rfl]
    rfl
  | .list h, _, fuel, hfuel => by
    simp only [List.length_cons] at hfuel
    obtain ⟨c, cs', hblanks, hc, hclose, -⟩ := h.exists_head
    have hitems := skipItemsIn_of_itemsAt h rfl fuel (by omega)
    rw [skipItemsIn_of_blanksAt hblanks] at hitems
    rw [skipValueIn_list, hblanks.skipBlank_eq_cons hc]
    split
    case h_1 heq => exact absurd (List.cons.inj heq).1 hclose
    case h_2 => exact hitems
  | .emptyObject h, _, fuel, _ => by
    rw [skipValueIn_object, h.skipBlank_eq_cons rfl]
    rfl
  | .object h, _, fuel, hfuel => by
    simp only [List.length_cons] at hfuel
    obtain ⟨cs', hblanks⟩ := h.exists_head
    have hmembers := skipMembersIn_of_membersAt h rfl fuel (by omega)
    rw [skipMembersIn_of_blanksAt hblanks] at hmembers
    rw [skipValueIn_object, hblanks.skipBlank_eq_cons rfl]
    exact hmembers
termination_by structural h => h

/-- An element is passed over up to the blanks after it. -/
theorem skipValueIn_of_elementAt {t : Ast} {cs rest : List Char} :
    ElementAt t cs rest → Stops rest → ∀ fuel, 2 * cs.length ≤ fuel →
      ∃ cs', BlanksAt cs' rest ∧ skipValueIn fuel cs = .ok cs'
  | .blanks hbefore h hafter, hstop, fuel, hfuel => by
    have hvalue := h.length_lt
    have hle := hbefore.length_le
    obtain ⟨fuel, rfl⟩ : ∃ n, fuel = n + 1 := Nat.exists_eq_succ_of_ne_zero (by omega)
    refine ⟨_, hafter, ?_⟩
    rw [skipValueIn_of_blanksAt hbefore]
    exact skipValueIn_of_valueAt h (hafter.stops hstop) fuel (by omega)
termination_by structural h => h

/-- Items are passed over up to the closing bracket, given enough fuel. -/
theorem skipItemsIn_of_itemsAt {rest : List Char} : ∀ {ts : List Ast} {cs after : List Char},
    ItemsAt ts cs after → after = ']' :: rest → ∀ fuel, 2 * cs.length < fuel →
      skipItemsIn fuel cs = .ok rest
  | _, _, _, .one h, heq, fuel, hfuel => by
    obtain ⟨fuel, rfl⟩ : ∃ n, fuel = n + 1 := Nat.exists_eq_succ_of_ne_zero (by omega)
    obtain ⟨cs', hblanks, hskip⟩ :=
      skipValueIn_of_elementAt h (heq ▸ stops_cons (by decide) rest) fuel (by omega)
    rw [heq] at hblanks
    rw [skipItemsIn, hskip]
    dsimp only
    rw [hblanks.skipBlank_eq_cons rfl]
    rfl
  | _, _, _, @ItemsAt.more _ _ _ cs' _ h hs, heq, fuel, hfuel => by
    obtain ⟨fuel, rfl⟩ : ∃ n, fuel = n + 1 := Nat.exists_eq_succ_of_ne_zero (by omega)
    obtain ⟨cs'', hblanks, hskip⟩ :=
      skipValueIn_of_elementAt h (stops_cons (by decide) cs') fuel (by omega)
    have hlength := h.length_lt
    simp only [List.length_cons] at hlength
    rw [skipItemsIn, hskip]
    dsimp only
    rw [hblanks.skipBlank_eq_cons rfl]
    exact skipItemsIn_of_itemsAt hs heq fuel (by omega)
termination_by structural _ _ _ h => h

/-- A member is passed over, and what follows it decides how the members go on. -/
theorem skipMembersIn_of_memberAt {m : List Piece × Ast} {cs rest : List Char} :
    MemberAt m cs rest → Stops rest → ∀ fuel, 2 * cs.length ≤ fuel →
      ∃ cs', BlanksAt cs' rest ∧ skipMembersIn (fuel + 1) cs =
        match skipBlank cs' with
        | [] => .error .truncated
        | ',' :: cs => skipMembersIn fuel cs
        | '\x7d' :: cs => .ok cs
        | _ => .error .malformed
  | .colon hbefore hkey hafter h, hstop, fuel, hfuel => by
    have hopen := hbefore.length_le
    have hpieces := hkey.length_lt
    have hcolon := hafter.length_le
    simp only [List.length_cons] at hopen hcolon
    obtain ⟨cs', hblanks, hskip⟩ := skipValueIn_of_elementAt h hstop fuel (by omega)
    refine ⟨cs', hblanks, ?_⟩
    rw [skipMembersIn, hbefore.expectChar rfl]
    dsimp only
    rw [skipString, pieces_of_piecesAt hkey]
    dsimp only
    rw [hafter.expectChar rfl]
    dsimp only
    rewrite [hskip]
    rfl
termination_by structural h => h

/-- Members are passed over up to the closing brace, given enough fuel. -/
theorem skipMembersIn_of_membersAt {rest : List Char} :
    ∀ {ms : List (List Piece × Ast)} {cs after : List Char}, MembersAt ms cs after →
      after = '\x7d' :: rest → ∀ fuel, 2 * cs.length < fuel → skipMembersIn fuel cs = .ok rest
  | _, _, _, .one h, heq, fuel, hfuel => by
    obtain ⟨fuel, rfl⟩ : ∃ n, fuel = n + 1 := Nat.exists_eq_succ_of_ne_zero (by omega)
    obtain ⟨cs', hblanks, hskip⟩ :=
      skipMembersIn_of_memberAt h (heq ▸ stops_cons (by decide) rest) fuel (by omega)
    rw [heq] at hblanks
    rw [hskip, hblanks.skipBlank_eq_cons rfl]
    rfl
  | _, _, _, @MembersAt.more _ _ _ cs' _ h hs, heq, fuel, hfuel => by
    obtain ⟨fuel, rfl⟩ : ∃ n, fuel = n + 1 := Nat.exists_eq_succ_of_ne_zero (by omega)
    obtain ⟨cs'', hblanks, hskip⟩ :=
      skipMembersIn_of_memberAt h (stops_cons (by decide) cs') fuel (by omega)
    have hlength := h.length_lt
    simp only [List.length_cons] at hlength
    rw [hskip, hblanks.skipBlank_eq_cons rfl]
    exact skipMembersIn_of_membersAt hs heq fuel (by omega)
termination_by structural _ _ _ h => h

end

/-- A well-formed value is passed over up to the blanks after it. -/
theorem skipValue_of_elementAt {t : Ast} (h : ElementAt t cs rest) (hstop : Stops rest) :
    ∃ cs', BlanksAt cs' rest ∧ skipValue cs = .ok cs' :=
  skipValueIn_of_elementAt h hstop _ (by omega)

end SegmentedView.Json
