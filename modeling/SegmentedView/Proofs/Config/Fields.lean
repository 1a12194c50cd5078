import Mathlib.Data.String.Basic
import SegmentedView.Config.Reader
import SegmentedView.Proofs.Json.Skipping

/-!
# The values of fields

Which values a field admits (`Field.Admits`) and what they make of a configuration
(`Field.Given`), said of values as they are written. The readers of field values accept exactly
these (`toOption_readField`): whatever else is well formed they refuse.
-/

set_option autoImplicit false

namespace SegmentedView.Config

open Json Text

section

variable {α ε : Type} {x : Except ε α}

/-- A result without its error is there exactly when it is a success. -/
theorem toOption_eq_some_iff {a : α} : x.toOption = some a ↔ x = .ok a := by
  cases x <;> simp [Except.toOption]

/-- A result without its error is missing exactly when it is a failure. -/
theorem toOption_eq_none_iff : x.toOption = none ↔ ∃ e, x = .error e := by
  cases x <;> simp [Except.toOption]

end

/-! ## Names -/

/-- A policy is named by its own name only. -/
theorem ofName?_policy_eq_some_iff {name : String} {policy : ReusePolicy} :
    ReusePolicy.ofName? name = some policy ↔ name = policy.name := by
  constructor
  · intro h
    unfold ReusePolicy.ofName? at h
    have hname := List.find?_some h
    exact (beq_iff_eq.1 hname).symm
  · rintro rfl
    cases policy <;> decide

/-- A field is named by its own name only. -/
theorem ofName?_field_eq_some_iff {name : String} {field : Field} :
    Field.ofName? name = some field ↔ name = field.name := by
  constructor
  · intro h
    unfold Field.ofName? at h
    have hname := List.find?_some h
    exact (beq_iff_eq.1 hname).symm
  · rintro rfl
    cases field <;> decide

/-- The name that a string denotes. -/
def nameOf? (key : List Piece) : Option String :=
  match decode key with
  | .text s => some (String.ofList s)
  | _ => none

/-- The name of a string is the one that it denotes. -/
theorem nameOf?_eq_some_iff {key : List Piece} {name : String} :
    nameOf? key = some name ↔ Denotes key name.toList := by
  rw [← decode_eq_text_iff]
  unfold nameOf?
  cases decode key with
  | text s =>
    dsimp only
    rw [Option.some.injEq, String.ofList_eq, Decoded.text.injEq]
  | half => simp
  | lone => simp

/-- The policy that a string names. -/
def policyNamed? (key : List Piece) : Option ReusePolicy :=
  (nameOf? key).bind ReusePolicy.ofName?

/-- A string names a policy exactly when it denotes the policy's name. -/
theorem policyNamed?_eq_some_iff {key : List Piece} {policy : ReusePolicy} :
    policyNamed? key = some policy ↔ Denotes key policy.name.toList := by
  simp only [policyNamed?, Option.bind_eq_some_iff, ofName?_policy_eq_some_iff,
    exists_eq_right, nameOf?_eq_some_iff]

/-- The field that a string names. -/
def fieldNamed? (key : List Piece) : Option Field := (nameOf? key).bind Field.ofName?

/-- A string names a field exactly when it denotes the field's name. -/
theorem fieldNamed?_eq_some_iff {key : List Piece} {field : Field} :
    fieldNamed? key = some field ↔ Denotes key field.name.toList := by
  simp only [fieldNamed?, Option.bind_eq_some_iff, ofName?_field_eq_some_iff,
    exists_eq_right, nameOf?_eq_some_iff]

/-! ## What values mean -/

/-- The milliseconds that a value stands for. -/
def millisOf? : Ast → Option UInt64
  | .number n => n.toWord?.map Nat.toUInt64
  | _ => none

/-- The policy that a value stands for. -/
def policyOf? : Ast → Option ReusePolicy
  | .string key => policyNamed? key
  | .object [(key, .null)] => policyNamed? key
  | _ => none

/-- The truth value that a value stands for. -/
def flagOf? : Ast → Option Bool
  | .flag b => some b
  | _ => none

/-- The values that a field admits: for the milliseconds digits alone, with no sign, fraction or
exponent, that are a word; for the policy its name, or an object with this name as its only key
and null; for the check of counts a truth value. -/
def Field.Admits : Field → Ast → Prop
  | .slowReopenMillis, t => ∃ n : Number, t = .number n ∧ n.negative = false ∧
      n.fraction = none ∧ n.exponent = none ∧ ofDigits n.digits ≤ 2 ^ 64 - 1
  | .reusePolicy, t => ∃ (policy : ReusePolicy) (key : List Piece),
      Denotes key policy.name.toList ∧ (t = .string key ∨ t = .object [(key, .null)])
  | .validateDocCounts, t => ∃ b, t = .flag b

/-- A configuration has in this field what the value stands for. -/
def Field.Given (t : Ast) (c : Config) : Field → Prop
  | .slowReopenMillis => ∃ n : Number, t = .number n ∧ ofDigits n.digits = c.slowReopenMillis.toNat
  | .reusePolicy => ∃ key : List Piece,
      Denotes key c.reusePolicy.name.toList ∧ (t = .string key ∨ t = .object [(key, .null)])
  | .validateDocCounts => t = .flag c.validateDocCounts

/-- Two configurations agree in a field. -/
def Field.Same (c c' : Config) : Field → Prop
  | .slowReopenMillis => c.slowReopenMillis = c'.slowReopenMillis
  | .reusePolicy => c.reusePolicy = c'.reusePolicy
  | .validateDocCounts => c.validateDocCounts = c'.validateDocCounts

/-- A number is a word exactly when it is written with digits alone and is not too large. -/
theorem toWord?_eq_some_iff {n : Number} {word : Nat} : n.toWord? = some word ↔
    n.negative = false ∧ n.fraction = none ∧ n.exponent = none ∧ ofDigits n.digits = word ∧
      word ≤ maxWord := by
  unfold Number.toWord?
  split
  case isTrue h =>
    simp only [Bool.and_eq_true, Bool.not_eq_true', Option.isNone_iff_eq_none,
      decide_eq_true_eq] at h
    obtain ⟨⟨⟨hsign, hfraction⟩, hexponent⟩, hword⟩ := h
    simp only [Option.some.injEq, hsign, hfraction, hexponent, true_and]
    constructor
    · rintro rfl
      exact ⟨rfl, hword⟩
    · exact And.left
  case isFalse h =>
    simp only [reduceCtorEq, false_iff]
    rintro ⟨hsign, hfraction, hexponent, rfl, hword⟩
    exact h (by simp [hsign, hfraction, hexponent, hword])

/-- A value stands for milliseconds exactly when it is a number that is that word. -/
theorem millisOf?_eq_some_iff {t : Ast} {millis : UInt64} : millisOf? t = some millis ↔
    ∃ n : Number, t = .number n ∧ n.negative = false ∧ n.fraction = none ∧ n.exponent = none ∧
      ofDigits n.digits = millis.toNat := by
  cases t with
  | number n =>
    change n.toWord?.map Nat.toUInt64 = some millis ↔ _
    simp only [Option.map_eq_some_iff, toWord?_eq_some_iff, Ast.number.injEq, exists_eq_left']
    constructor
    · rintro ⟨word, ⟨hsign, hfraction, hexponent, hdigits, hword⟩, rfl⟩
      refine ⟨hsign, hfraction, hexponent, hdigits.trans ?_⟩
      exact (UInt64.toNat_ofNat_of_lt' (Nat.lt_succ_of_le hword)).symm
    · rintro ⟨hsign, hfraction, hexponent, hdigits⟩
      exact ⟨millis.toNat, ⟨hsign, hfraction, hexponent, hdigits,
        Nat.le_of_lt_succ millis.toNat_lt_size⟩, UInt64.ofNat_toNat⟩
  | _ => simp [millisOf?]

/-- A value stands for a policy exactly when it is the policy's name, or an object with this name
as its only key and null. -/
theorem policyOf?_eq_some_iff {t : Ast} {policy : ReusePolicy} : policyOf? t = some policy ↔
    ∃ key, Denotes key policy.name.toList ∧ (t = .string key ∨ t = .object [(key, .null)]) := by
  constructor
  · intro h
    unfold policyOf? at h
    split at h
    case h_1 key => exact ⟨key, policyNamed?_eq_some_iff.1 h, .inl rfl⟩
    case h_2 key => exact ⟨key, policyNamed?_eq_some_iff.1 h, .inr rfl⟩
    case h_3 => cases h
  · rintro ⟨key, hkey, rfl | rfl⟩
    · exact policyNamed?_eq_some_iff.2 hkey
    · exact policyNamed?_eq_some_iff.2 hkey

/-- A value stands for a truth value exactly when it is one. -/
theorem flagOf?_eq_some_iff {t : Ast} {b : Bool} : flagOf? t = some b ↔ t = .flag b := by
  cases t <;> simp [flagOf?]

/-- The draft with a value read into a field. -/
def Draft.assign? (d : Draft) (t : Ast) : Field → Option Draft
  | .slowReopenMillis => (millisOf? t).map fun n => { d with slowReopenMillis := some n }
  | .reusePolicy => (policyOf? t).map fun p => { d with reusePolicy := some p }
  | .validateDocCounts => (flagOf? t).map fun b => { d with validateDocCounts := some b }

section Readers

variable {cs₀ cs rest : List Char} {t : Ast}

/-- Of a value, milliseconds are read exactly when it stands for them. -/
theorem toOption_readMillis (hbefore : BlanksAt cs₀ cs) (h : ValueAt t cs rest)
    (hstop : Stops rest) : (readMillis cs₀).toOption = (millisOf? t).map (·, rest) := by
  unfold readMillis
  dsimp only
  rw [hbefore.skipBlank_eq, h.skipBlank_eq]
  cases h with
  | number h =>
    rename_i n
    rw [readNumber_of_numberAt h hstop]
    dsimp only
    change _ = (n.toWord?.map Nat.toUInt64).map (·, rest)
    cases n.toWord? <;> rfl
  | _ => rfl

/-- Of a value, a truth value is read exactly when it stands for one. -/
theorem toOption_readFlag (hbefore : BlanksAt cs₀ cs) (h : ValueAt t cs rest) :
    (readFlag cs₀).toOption = (flagOf? t).map (·, rest) := by
  unfold readFlag
  rw [hbefore.skipBlank_eq, h.skipBlank_eq]
  cases h with
  | number h =>
    split
    case h_1 => exact absurd h.head_eq (by decide)
    case h_2 => exact absurd h.head_eq (by decide)
    case h_3 => rfl
  | _ => rfl

/-- A string is read as the name that it denotes, and refused where it denotes none. -/
theorem toOption_readString {key : List Piece} (h : PiecesAt key cs rest) :
    (readString cs).toOption = (nameOf? key).map fun name => (name.toList, rest) := by
  cases hname : nameOf? key with
  | some name =>
    rw [readString_of_piecesAt h (nameOf?_eq_some_iff.1 hname)]
    rfl
  | none =>
    have hnot : ∀ s, ¬ Denotes key s := by
      intro s hs
      rw [← String.toList_ofList (l := s), ← nameOf?_eq_some_iff, hname] at hs
      cases hs
    rw [readString_of_not_denotes h hnot]
    rfl

/-- Of a string, a policy is read exactly when it names one. -/
theorem toOption_readPolicyName {key : List Piece} (h : PiecesAt key cs rest) :
    (readPolicyName cs).toOption = (policyNamed? key).map (·, rest) := by
  have hread := toOption_readString h
  unfold readPolicyName policyNamed?
  cases hname : nameOf? key with
  | none =>
    rw [hname] at hread
    obtain ⟨e, he⟩ := toOption_eq_none_iff.1 hread
    rw [he]
    rfl
  | some name =>
    rw [hname] at hread
    rw [toOption_eq_some_iff.1 hread]
    dsimp only
    rw [String.ofList_toList, Option.bind_some]
    cases ReusePolicy.ofName? name <;> rfl

/-- A null is read, and nothing else in its place. -/
theorem toOption_readNull (hbefore : BlanksAt cs₀ cs) (h : ValueAt t cs rest) :
    (readNull cs₀).toOption = match t with | .null => some rest | _ => none := by
  unfold readNull
  rw [hbefore.skipBlank_eq, h.skipBlank_eq]
  cases h with
  | number h =>
    split
    case h_1 => exact absurd h.head_eq (by decide)
    case h_2 => rfl
  | _ => rfl

/-- Of an object with one member, a policy is read exactly when it stands for one, up to the
blanks before the closing brace. -/
theorem exists_readPolicyObject {key : List Piece} (h : MemberAt (key, t) cs rest) :
    ∃ cs', BlanksAt cs' rest ∧ (readPolicyObject cs).toOption =
      (policyOf? (.object [(key, t)])).bind fun policy =>
        (expectChar '\x7d' cs').toOption.map (policy, ·) := by
  cases h with
  | colon hbefore hkey hafter h =>
    obtain ⟨hbefore', hvalue, hafter'⟩ := h
    refine ⟨_, hafter', ?_⟩
    have hname := toOption_readPolicyName hkey
    have hnull := toOption_readNull hbefore' hvalue
    unfold readPolicyObject
    rw [hbefore.expectChar rfl]
    dsimp only
    cases hpolicy : policyNamed? key with
    | none =>
      rw [hpolicy] at hname
      obtain ⟨e, he⟩ := toOption_eq_none_iff.1 hname
      have hnone : policyOf? (.object [(key, t)]) = none := by
        cases t <;> first | exact hpolicy | rfl
      rw [he, hnone]
      rfl
    | some policy =>
      rw [hpolicy] at hname
      rw [toOption_eq_some_iff.1 hname]
      dsimp only
      rw [hafter.expectChar rfl]
      dsimp only
      cases t with
      | null =>
        have hsome : policyOf? (.object [(key, .null)]) = some policy := hpolicy
        rw [toOption_eq_some_iff.1 hnull, hsome]
        dsimp only
        cases expectChar '\x7d' _ <;> rfl
      | _ =>
        obtain ⟨e, he⟩ := toOption_eq_none_iff.1 hnull
        rw [he]
        rfl

/-- A policy object is one member, a name and null. -/
theorem toOption_readPolicyObject {members : List (List Piece × Ast)}
    (h : MembersAt members cs ('\x7d' :: rest)) :
    (readPolicyObject cs).toOption = (policyOf? (.object members)).map (·, rest) := by
  cases h with
  | @one m _ _ h =>
    obtain ⟨cs', hblanks, hread⟩ := exists_readPolicyObject h
    rw [hread, hblanks.expectChar rfl]
    cases policyOf? (.object [m]) <;> rfl
  | @more m ms _ _ _ h hs =>
    -- A second member is there where the brace should be.
    obtain ⟨cs', hblanks, hread⟩ := exists_readPolicyObject h
    have hcomma : (expectChar '\x7d' cs').toOption = none := by
      unfold expectChar
      rw [hblanks.skipBlank_eq_cons rfl]
      rfl
    rw [hread, hcomma]
    have hpolicy : policyOf? (.object (m :: ms)) = none := by
      obtain ⟨key, t⟩ := m
      cases hs <;> cases t <;> rfl
    rw [hpolicy]
    cases policyOf? (.object [m]) <;> rfl

/-- Of a value, a policy is read exactly when it stands for one. -/
theorem toOption_readPolicy (hbefore : BlanksAt cs₀ cs) (h : ValueAt t cs rest) :
    (readPolicy cs₀).toOption = (policyOf? t).map (·, rest) := by
  unfold readPolicy
  rw [hbefore.skipBlank_eq, h.skipBlank_eq]
  cases h with
  | string h => exact toOption_readPolicyName h
  | object h => exact toOption_readPolicyObject h
  | emptyObject h =>
    change (readPolicyObject _).toOption = none
    unfold readPolicyObject expectChar
    rw [h.skipBlank_eq_cons rfl]
    rfl
  | number h =>
    split
    case h_1 =>
      obtain ⟨c, cs', heq, -⟩ := h.exists_head
      cases heq
    case h_2 => exact absurd h.head_eq (by decide)
    case h_3 => exact absurd h.head_eq (by decide)
    case h_4 => rfl
  | _ => rfl

/-- What is made of a reading is made of the value that was read. -/
theorem toOption_map_reading {α β : Type} {x : Reading α} {y : Option α} (f : α → β)
    (h : x.toOption = y.map (·, rest)) :
    (x.map fun found => (f found.1, found.2)).toOption = (y.map f).map (·, rest) := by
  cases y with
  | none =>
    obtain ⟨e, rfl⟩ := toOption_eq_none_iff.1 h
    rfl
  | some a =>
    obtain rfl := toOption_eq_some_iff.1 h
    rfl

/-- The value of a field is read where the field admits it, and refused where not. -/
theorem toOption_readField (d : Draft) (field : Field) (hbefore : BlanksAt cs₀ cs)
    (h : ValueAt t cs rest) (hstop : Stops rest) :
    (readField d cs₀ field).toOption = (d.assign? t field).map (·, rest) := by
  cases field with
  | slowReopenMillis =>
    exact toOption_map_reading (fun millis => { d with slowReopenMillis := some millis })
      (toOption_readMillis hbefore h hstop)
  | reusePolicy =>
    exact toOption_map_reading (fun policy => { d with reusePolicy := some policy })
      (toOption_readPolicy hbefore h)
  | validateDocCounts =>
    exact toOption_map_reading (fun b => { d with validateDocCounts := some b })
      (toOption_readFlag hbefore h)

end Readers

/-! ## What a value makes of a draft -/

section

variable {d d' : Draft} {field : Field} {t : Ast} {c c' : Config}

/-- A field can be assigned the values that it admits. -/
theorem admits_iff (d : Draft) : field.Admits t ↔ ∃ d', d.assign? t field = some d' := by
  cases field with
  | slowReopenMillis =>
    constructor
    · rintro ⟨n, ht, hsign, hfraction, hexponent, hdigits⟩
      have hvalue : (ofDigits n.digits).toUInt64.toNat = ofDigits n.digits :=
        UInt64.toNat_ofNat_of_lt' (Nat.lt_of_le_pred (by decide) hdigits)
      have hmillis := millisOf?_eq_some_iff.2 ⟨n, ht, hsign, hfraction, hexponent, hvalue.symm⟩
      exact ⟨_, Option.map_eq_some_iff.2 ⟨_, hmillis, rfl⟩⟩
    · rintro ⟨d', h⟩
      obtain ⟨millis, hmillis, -⟩ := Option.map_eq_some_iff.1 h
      obtain ⟨n, ht, hsign, hfraction, hexponent, hdigits⟩ := millisOf?_eq_some_iff.1 hmillis
      exact ⟨n, ht, hsign, hfraction, hexponent,
        hdigits ▸ Nat.le_pred_of_lt millis.toNat_lt_size⟩
  | reusePolicy =>
    constructor
    · rintro ⟨policy, h⟩
      exact ⟨_, Option.map_eq_some_iff.2 ⟨policy, policyOf?_eq_some_iff.2 h, rfl⟩⟩
    · rintro ⟨d', h⟩
      obtain ⟨policy, hpolicy, -⟩ := Option.map_eq_some_iff.1 h
      exact ⟨policy, policyOf?_eq_some_iff.1 hpolicy⟩
  | validateDocCounts =>
    constructor
    · rintro ⟨b, h⟩
      exact ⟨_, Option.map_eq_some_iff.2 ⟨b, flagOf?_eq_some_iff.2 h, rfl⟩⟩
    · rintro ⟨d', h⟩
      obtain ⟨b, hflag, -⟩ := Option.map_eq_some_iff.1 h
      exact ⟨b, flagOf?_eq_some_iff.1 hflag⟩

/-- The field is read then, as the value has it. -/
theorem given_of_assign? (h : d.assign? t field = some d') :
    d'.has field = true ∧ field.Given t d'.toConfig := by
  cases field with
  | slowReopenMillis =>
    obtain ⟨millis, hmillis, rfl⟩ := Option.map_eq_some_iff.1 h
    obtain ⟨n, ht, -, -, -, hdigits⟩ := millisOf?_eq_some_iff.1 hmillis
    exact ⟨rfl, n, ht, hdigits⟩
  | reusePolicy =>
    obtain ⟨policy, hpolicy, rfl⟩ := Option.map_eq_some_iff.1 h
    exact ⟨rfl, policyOf?_eq_some_iff.1 hpolicy⟩
  | validateDocCounts =>
    obtain ⟨b, hflag, rfl⟩ := Option.map_eq_some_iff.1 h
    exact ⟨rfl, flagOf?_eq_some_iff.1 hflag⟩

/-- The other fields stay as they are. -/
theorem same_of_assign? (h : d.assign? t field = some d') {other : Field} (hne : other ≠ field) :
    d'.has other = d.has other ∧ other.Same d'.toConfig d.toConfig := by
  cases field with
  | slowReopenMillis | reusePolicy | validateDocCounts =>
    obtain ⟨value, -, rfl⟩ := Option.map_eq_some_iff.1 h
    cases other <;> first | exact absurd rfl hne | exact ⟨rfl, rfl⟩

/-- Agreement in a field is passed on. -/
theorem Field.Same.trans {c'' : Config} (h : field.Same c c') (h' : field.Same c' c'') :
    field.Same c c'' := by
  cases field <;> exact Eq.trans h h'

/-- Agreement in a field is mutual. -/
theorem Field.Same.symm (h : field.Same c c') : field.Same c' c := by
  cases field <;> exact Eq.symm h

/-- What a field is given is a matter of this field alone. -/
theorem Field.Given.congr (h : field.Given t c) (hsame : field.Same c' c) :
    field.Given t c' := by
  cases field <;> simp only [Field.Given, Field.Same] at h hsame ⊢ <;> rw [hsame] <;> exact h

/-- A value stands for one thing only. -/
theorem Field.Given.same (h : field.Given t c) (h' : field.Given t c') : field.Same c c' := by
  cases field with
  | slowReopenMillis =>
    obtain ⟨n, rfl, hn⟩ := h
    obtain ⟨m, hm, hm'⟩ := h'
    obtain rfl := Ast.number.inj hm
    exact UInt64.toNat_inj.1 (hn.symm.trans hm')
  | reusePolicy =>
    exact Option.some.inj ((policyOf?_eq_some_iff.2 h).symm.trans (policyOf?_eq_some_iff.2 h'))
  | validateDocCounts => exact Ast.flag.inj (Eq.trans (Eq.symm h) h')

/-- Configurations that agree in every field are one. -/
theorem eq_of_forall_same (h : ∀ field : Field, field.Same c c') : c = c' := by
  have hmillis := h .slowReopenMillis
  have hpolicy := h .reusePolicy
  have hflag := h .validateDocCounts
  cases c
  cases c'
  cases hmillis
  cases hpolicy
  cases hflag
  rfl

end

end SegmentedView.Config
