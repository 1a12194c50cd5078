import SegmentedView.Config.Writer
import SegmentedView.Proofs.Config.Acceptance

/-!
# Configurations written and read

What is written of a configuration is a well-formed object of the three fields
(`isText_toText`), each with the value that the configuration has. Reading it overrides every
default, so the configuration comes back (`ofText_toText`).
-/

set_option autoImplicit false

namespace SegmentedView

namespace Text

/-- No number is written with no digits. -/
theorem digits_ne_nil (n : Nat) : digits n ≠ [] := by
  rw [digits]
  split <;> simp

/-- The digits of a number start with a zero only if it is zero. -/
theorem digits_eq_zero_of_head? {n : Nat} (h : (digits n).head? = some '0') :
    digits n = ['0'] := by
  fun_induction digits n with
  | case1 n hn => simpa using h
  | case2 n hn ih =>
    have hhead : (digits (n / 10)).head? = some '0' := by
      rwa [List.head?_append_of_ne_nil _ (digits_ne_nil _)] at h
    have hzero := ofDigits_digits (n / 10)
    rw [ih hhead] at hzero
    change 0 = n / 10 at hzero
    omega

end Text

namespace Config

open Json Text

/-- The digits of a number are a number before anything. -/
theorem wholeAt_digits (n : Nat) (rest : List Char) : WholeAt (digits n) (digits n ++ rest) rest :=
  ⟨⟨digits_ne_nil n, fun _ hc => isDigit_of_mem_digits hc, rfl⟩, digits_eq_zero_of_head?⟩

/-- The value of a field as it is written. -/
def fieldAst (c : Config) : Field → Ast
  | .slowReopenMillis => .number ⟨false, digits c.slowReopenMillis.toNat, none, none⟩
  | .reusePolicy => .string (c.reusePolicy.name.toList.map .plain)
  | .validateDocCounts => .flag c.validateDocCounts

/-- A field as it is written. -/
def memberAst (c : Config) (field : Field) : List Piece × Ast :=
  (field.name.toList.map .plain, c.fieldAst field)

/-- The characters of a field's name stand for themselves. -/
theorem Field.name_plain (field : Field) :
    ∀ c ∈ field.name.toList, IsPlain c := by
  cases field <;> exact isPlain_of_all (by decide +kernel)

/-- The characters of a policy's name stand for themselves. -/
theorem policy_name_plain (policy : ReusePolicy) :
    ∀ c ∈ policy.name.toList, IsPlain c := by
  cases policy <;> exact isPlain_of_all (by decide +kernel)

/-- A quoted name is a quote, the name and a quote. -/
theorem quoted_append (name : String) (rest : List Char) :
    quoted name ++ rest = '"' :: (name.toList ++ '"' :: rest) := by
  simp [quoted]

/-- The text of a field's value is one of its value. -/
theorem valueAt_fieldText (c : Config) (field : Field) (rest : List Char) :
    ValueAt (c.fieldAst field) (c.fieldText field ++ rest) rest := by
  cases field with
  | slowReopenMillis => exact valueAt_digits (wholeAt_digits _ rest)
  | reusePolicy =>
    unfold fieldAst fieldText
    rw [quoted_append]
    exact .string (piecesAt_plain (policy_name_plain _) rest)
  | validateDocCounts =>
    have hyes : "true".toList = ['t', 'r', 'u', 'e'] := by decide +kernel
    have hno : "false".toList = ['f', 'a', 'l', 's', 'e'] := by decide +kernel
    unfold fieldAst fieldText
    cases c.validateDocCounts with
    | true =>
      rw [if_pos rfl, hyes]
      exact .yes rest
    | false =>
      rw [if_neg Bool.false_ne_true, hno]
      exact .no rest

/-- What is written of a field is a member. -/
theorem memberAt_memberText (c : Config) (field : Field) (rest : List Char) :
    MemberAt (c.memberAst field) (c.memberText field ++ rest) rest := by
  have htext : c.memberText field ++ rest =
      '"' :: (field.name.toList ++ '"' :: ':' :: (c.fieldText field ++ rest)) := by
    unfold memberText
    rw [List.append_assoc, quoted_append, List.cons_append]
  rw [htext]
  exact memberAt_plain field.name_plain (c.valueAt_fieldText field rest).element

/-- What is written of a configuration is an object of its fields. -/
theorem isText_toText (c : Config) : IsText (.object (declared.map c.memberAst)) c.toText := by
  have htext : c.toText.toList = '\x7b' :: (c.memberText .slowReopenMillis ++
      ',' :: (c.memberText .reusePolicy ++
        ',' :: (c.memberText .validateDocCounts ++ ['\x7d']))) := by
    unfold toText write
    rw [String.toList_ofList]
    simp
  unfold IsText
  rw [htext]
  exact (ValueAt.object (.more (c.memberAt_memberText _ _) (.more (c.memberAt_memberText _ _)
    (.one (c.memberAt_memberText _ _))))).element

/-- The member that is written for a field has a key that names the field. -/
theorem fieldNamed?_memberAst (c : Config) (field : Field) :
    fieldNamed? (c.memberAst field).1 = some field :=
  fieldNamed?_eq_some_iff.2 (denotes_plain _)

/-- Among the members that are written every field has its value once. -/
theorem valuesOf_memberAst (c : Config) (field : Field) :
    valuesOf (declared.map c.memberAst) field = [c.fieldAst field] := by
  unfold declared
  simp only [List.map_cons, List.map_nil, valuesOf_cons, fieldNamed?_memberAst]
  cases field <;> rfl

/-- The value that is written for a field is one that the field admits. -/
theorem admits_fieldAst (c : Config) (field : Field) : field.Admits (c.fieldAst field) := by
  cases field with
  | slowReopenMillis =>
    refine ⟨_, rfl, rfl, rfl, rfl, ?_⟩
    rw [ofDigits_digits]
    exact Nat.le_pred_of_lt c.slowReopenMillis.toNat_lt_size
  | reusePolicy => exact ⟨c.reusePolicy, _, denotes_plain _, .inl rfl⟩
  | validateDocCounts => exact ⟨_, rfl⟩

/-- The value that is written for a field gives back what the configuration has there. -/
theorem given_fieldAst (c : Config) (field : Field) : field.Given (c.fieldAst field) c := by
  cases field with
  | slowReopenMillis => exact ⟨_, rfl, ofDigits_digits _⟩
  | reusePolicy => exact ⟨_, denotes_plain _, .inl rfl⟩
  | validateDocCounts => rfl

/-- A configuration that is written and read again is the same. -/
theorem ofText_toText (c : Config) : ofText c.toText = .ok c := by
  have hkeys : KeysDenote (declared.map c.memberAst) := by
    intro m hm
    obtain ⟨field, -, rfl⟩ := List.mem_map.1 hm
    exact ⟨_, denotes_plain _⟩
  refine ofText_of_overrides c.isText_toText hkeys (fun field => ?_) fun field => ?_
  · rw [valuesOf_memberAst]
    exact ⟨le_rfl, by simpa using c.admits_fieldAst field⟩
  · rw [valuesOf_memberAst]
    exact ⟨by simpa using c.given_fieldAst field, by simp⟩

end Config

end SegmentedView
