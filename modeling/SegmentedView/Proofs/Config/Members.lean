import SegmentedView.Proofs.Config.Fields

/-!
# Members and items of a configuration text

A well-formed object is read member by member into a draft (`Draft.enter?`): unknown members
change nothing, and a field is refused where it was read before. A list is read item by item as
values of the fields in the order in which they are declared (`Draft.fill?`). So what is read of
a whole text is a fold over its members or items (`toOption_read_object`, `toOption_read_list`).
-/

set_option autoImplicit false

namespace SegmentedView.Config

open Json

/-! ## Members -/

/-- The draft after a member. -/
def Draft.enter? (d : Draft) (m : List Piece × Ast) : Option Draft :=
  match fieldNamed? m.1 with
  | none => some d
  | some field => if d.has field then none else d.assign? m.2 field

/-- The key of every member denotes a text. -/
def KeysDenote (members : List (List Piece × Ast)) : Prop :=
  ∀ m ∈ members, ∃ s, Denotes m.1 s

/-- How the members go on after one that was read. -/
def afterMember (fuel : Nat) (d : Draft) (cs : List Char) : Reading Draft :=
  match skipBlank cs with
  | [] => .error .truncated
  | '\x7d' :: cs => .ok (d, cs)
  | ',' :: cs =>
    match expectChar '"' cs with
    | .error e => .error e
    | .ok cs => readMembersIn fuel d cs
  | _ => .error .malformed

/-- Members are read by reading one and going on after it. -/
theorem readMembersIn_succ (fuel : Nat) (d : Draft) (cs : List Char) :
    readMembersIn (fuel + 1) d cs =
      match readMember d cs with
      | .error e => .error e
      | .ok (d, cs) => afterMember fuel d cs := rfl

section Reading

variable {cs rest : List Char} {d : Draft}

/-- A closing brace ends the members. -/
theorem afterMember_brace (h : BlanksAt cs ('\x7d' :: rest)) (fuel : Nat) (d : Draft) :
    afterMember fuel d cs = .ok (d, rest) := by
  unfold afterMember
  rw [h.skipBlank_eq_cons rfl]
  rfl

/-- After a comma and a quote the next member is read. -/
theorem afterMember_comma {cs' : List Char} (h : BlanksAt cs (',' :: cs'))
    (hquote : BlanksAt cs' ('"' :: rest)) (fuel : Nat) (d : Draft) :
    afterMember fuel d cs = readMembersIn fuel d rest := by
  unfold afterMember
  rw [h.skipBlank_eq_cons rfl]
  change (match expectChar '"' cs' with
    | .error e => .error e
    | .ok cs => readMembersIn fuel d cs : Reading Draft) = _
  rw [hquote.expectChar rfl]

/-- From its key on, a member is read up to the blanks after its value. -/
theorem exists_readMember {key : List Piece} {t : Ast} {cs₁ cs₂ : List Char}
    (hkey : PiecesAt key cs cs₁) (hcolon : BlanksAt cs₁ (':' :: cs₂)) (h : ElementAt t cs₂ rest)
    (hstop : Stops rest) (hdenotes : ∃ s, Denotes key s) (d : Draft) :
    ∃ cs', BlanksAt cs' rest ∧ (readMember d cs).toOption = (d.enter? (key, t)).map (·, cs') := by
  obtain ⟨s, hs⟩ := hdenotes
  have hfield : fieldNamed? key = Field.ofName? (String.ofList s) := by
    have hname : nameOf? key = some (String.ofList s) := by
      rwa [nameOf?_eq_some_iff, String.toList_ofList]
    unfold fieldNamed?
    rw [hname, Option.bind_some]
  unfold readMember Draft.enter?
  rw [readString_of_piecesAt hkey hs]
  dsimp only
  rw [hfield, hcolon.expectChar rfl]
  cases Field.ofName? (String.ofList s) with
  | none =>
    obtain ⟨cs', hblanks, hskip⟩ := skipValue_of_elementAt h hstop
    refine ⟨cs', hblanks, ?_⟩
    dsimp only
    rw [hskip]
    rfl
  | some field =>
    obtain ⟨hbefore, hvalue, hafter⟩ := h
    refine ⟨_, hafter, ?_⟩
    dsimp only
    by_cases hhas : d.has field = true
    · rw [if_pos hhas, if_pos hhas]
      rfl
    · rw [if_neg hhas, if_neg hhas]
      exact toOption_readField d field hbefore hvalue (hafter.stops hstop)

/-- What comes of the members is what comes of the first and then of those after it. -/
theorem toOption_readMembersIn_succ {m : List Piece × Ast} {cs' : List Char}
    (h : (readMember d cs).toOption = (d.enter? m).map (·, cs')) (fuel : Nat) :
    (readMembersIn (fuel + 1) d cs).toOption =
      (d.enter? m).bind fun d' => (afterMember fuel d' cs').toOption := by
  rw [readMembersIn_succ]
  cases henter : d.enter? m with
  | none =>
    rw [henter] at h
    obtain ⟨e, he⟩ := toOption_eq_none_iff.1 h
    rw [he]
    rfl
  | some d' =>
    rw [henter] at h
    rw [toOption_eq_some_iff.1 h]
    rfl

/-- The members of an object are read one by one, up to the closing brace. -/
theorem exists_readMembersIn {members : List (List Piece × Ast)}
    (h : MembersAt members cs ('\x7d' :: rest)) (hkeys : KeysDenote members) :
    ∃ cs', BlanksAt cs ('"' :: cs') ∧ ∀ (fuel : Nat) (d : Draft), cs'.length < fuel →
      (readMembersIn fuel d cs').toOption = (members.foldlM Draft.enter? d).map (·, rest) := by
  induction members generalizing cs with
  | nil => cases h
  | cons m members ih =>
    obtain ⟨key, t⟩ := m
    have hkey := hkeys (key, t) List.mem_cons_self
    cases h with
    | one h =>
      obtain ⟨hbefore, hpieces, hcolon, helement⟩ := h
      refine ⟨_, hbefore, fun fuel d hfuel => ?_⟩
      obtain ⟨fuel, rfl⟩ : ∃ n, fuel = n + 1 := Nat.exists_eq_succ_of_ne_zero (by omega)
      obtain ⟨cs', hblanks, hread⟩ :=
        exists_readMember hpieces hcolon helement (stops_cons (by decide) rest) hkey d
      rw [toOption_readMembersIn_succ hread, List.foldlM_cons]
      simp only [afterMember_brace hblanks]
      cases d.enter? (key, t) <;> rfl
    | @more _ _ _ cs₁ _ h hs =>
      obtain ⟨hbefore, hpieces, hcolon, helement⟩ := h
      obtain ⟨cs₂, hquote, hmembers⟩ :=
        ih hs fun m' hm' => hkeys m' (List.mem_cons_of_mem _ hm')
      refine ⟨_, hbefore, fun fuel d hfuel => ?_⟩
      obtain ⟨fuel, rfl⟩ : ∃ n, fuel = n + 1 := Nat.exists_eq_succ_of_ne_zero (by omega)
      obtain ⟨cs', hblanks, hread⟩ :=
        exists_readMember hpieces hcolon helement (stops_cons (by decide) cs₁) hkey d
      have hlength : cs₂.length < fuel := by
        have hkeyLength := hpieces.length_lt
        have hcolonLength := hcolon.length_le
        have hvalueLength := helement.length_lt
        have hquoteLength := hquote.length_le
        simp only [List.length_cons] at hcolonLength hvalueLength hquoteLength
        omega
      rw [toOption_readMembersIn_succ hread, List.foldlM_cons]
      simp only [afterMember_comma hblanks hquote]
      cases d.enter? (key, t) with
      | none => rfl
      | some d' => exact hmembers fuel d' hlength

/-- An object is read member by member into an empty draft. -/
theorem readObject_of_members {members : List (List Piece × Ast)}
    (h : MembersAt members cs ('\x7d' :: rest)) (hkeys : KeysDenote members) :
    (readObject cs).toOption = (members.foldlM Draft.enter? {}).map (·, rest) := by
  obtain ⟨cs', hquote, hmembers⟩ := exists_readMembersIn h hkeys
  unfold readObject
  rw [hquote.skipBlank_eq_cons rfl]
  exact hmembers (cs'.length + 1) {} (Nat.lt_succ_self _)

/-- An object of no members leaves the draft empty. -/
theorem readObject_of_blanks (h : BlanksAt cs ('\x7d' :: rest)) :
    readObject cs = .ok ({}, rest) := by
  unfold readObject
  rw [h.skipBlank_eq_cons rfl]
  rfl

/-! ## Items -/

/-- The draft after the value of a field, whether the field was read before or not. -/
def Draft.fill? (d : Draft) (x : Field × Ast) : Option Draft := d.assign? x.2 x.1

/-- A closing bracket ends the items. -/
theorem nextItem_bracket (h : BlanksAt cs (']' :: rest)) : nextItem cs = .ok (false, rest) := by
  unfold nextItem
  rw [h.skipBlank_eq_cons rfl]
  rfl

/-- After a comma the next item is read. -/
theorem nextItem_comma {cs' : List Char} {c : Char} (h : BlanksAt cs (',' :: cs'))
    (hnext : BlanksAt cs' (c :: rest)) (hc : isBlank c = false) (hclose : c ≠ ']') :
    nextItem cs = .ok (true, c :: rest) := by
  unfold nextItem
  simp only [h.skipBlank_eq_cons rfl, hnext.skipBlank_eq_cons hc]
  split
  case h_1 heq => cases heq
  case h_2 heq => exact absurd (List.cons.inj heq).1 hclose
  case h_3 => rfl

/-- The items of a list are read as values of the fields in order, if there are enough fields. -/
theorem toOption_readItems {items : List Ast} {fields : List Field}
    (h : ItemsAt items cs (']' :: rest)) (hlength : items.length ≤ fields.length) (d : Draft) :
    (readItems d cs fields).toOption =
      ((fields.zip items).foldlM Draft.fill? d).map (·, rest) := by
  induction items generalizing fields cs d with
  | nil => cases h
  | cons t items ih =>
    obtain ⟨field, fields, rfl⟩ : ∃ field fields', fields = field :: fields' :=
      List.exists_cons_of_length_pos (by simp at hlength; omega)
    have hfill : d.fill? (field, t) = d.assign? t field := rfl
    rw [List.zip_cons_cons, List.foldlM_cons, hfill]
    cases h with
    | one h =>
      obtain ⟨hbefore, hvalue, hafter⟩ := h
      have hread := toOption_readField d field hbefore hvalue
        (hafter.stops (stops_cons (by decide) rest))
      rw [List.zip_nil_right]
      cases hassign : d.assign? t field with
      | none =>
        rw [hassign] at hread
        obtain ⟨e, he⟩ := toOption_eq_none_iff.1 hread
        cases fields <;> rw [readItems, he] <;> rfl
      | some d' =>
        rw [hassign] at hread
        have hok := toOption_eq_some_iff.1 hread
        cases fields with
        | nil =>
          rw [readItems, hok]
          dsimp only
          rw [hafter.expectChar rfl]
          rfl
        | cons next fields =>
          rw [readItems, hok]
          dsimp only
          rw [nextItem_bracket hafter]
          rfl
    | @more _ _ _ cs₁ _ h hs =>
      obtain ⟨hbefore, hvalue, hafter⟩ := h
      have hread := toOption_readField d field hbefore hvalue
        (hafter.stops (stops_cons (by decide) cs₁))
      obtain ⟨c, cs', hblanks, hc, hclose, hitems⟩ := hs.exists_head
      -- There is another item, and so another field for it.
      obtain ⟨next, fields, rfl⟩ : ∃ next fields', fields = next :: fields' := by
        apply List.exists_cons_of_length_pos
        cases hs <;> simp only [List.length_cons] at hlength <;> omega
      cases hassign : d.assign? t field with
      | none =>
        rw [hassign] at hread
        obtain ⟨e, he⟩ := toOption_eq_none_iff.1 hread
        rw [readItems, he]
        rfl
      | some d' =>
        rw [hassign] at hread
        rw [readItems, toOption_eq_some_iff.1 hread]
        dsimp only
        rw [nextItem_comma hafter hblanks hc hclose]
        exact ih hitems (Nat.le_of_succ_le_succ hlength) d'

end Reading

/-! ## Whole texts -/

/-- The configuration of a draft, with nothing but blanks after it. -/
def finish (x : Reading Draft) : Except JsonFlaw Config :=
  match x with
  | .error e => .error e
  | .ok (d, cs) =>
    match skipBlank cs with
    | [] => .ok d.toConfig
    | _ => .error .malformed

section Texts

variable {cs rest : List Char}

/-- Where nothing but blanks follows, what was read is the configuration. -/
theorem toOption_finish {x : Reading Draft} {draft : Option Draft}
    (hx : x.toOption = draft.map (·, rest)) (hrest : BlanksAt rest []) :
    (finish x).toOption = draft.map Draft.toConfig := by
  cases draft with
  | none =>
    obtain ⟨e, rfl⟩ := toOption_eq_none_iff.1 hx
    rfl
  | some d =>
    obtain rfl := toOption_eq_some_iff.1 hx
    unfold finish
    dsimp only
    rw [hrest.skipBlank_eq]
    rfl

/-- An object is read as the fold of its members over a draft without any field. -/
theorem toOption_read_object {members : List (List Piece × Ast)}
    (h : ElementAt (.object members) cs []) (hkeys : KeysDenote members) :
    (read cs).toOption = (members.foldlM Draft.enter? {}).map Draft.toConfig := by
  obtain ⟨hbefore, hvalue, hafter⟩ := h
  have hskip := hbefore.skipBlank_eq.trans hvalue.skipBlank_eq
  unfold read
  rw [hskip]
  cases hvalue with
  | emptyObject h =>
    change (finish (readObject _)).toOption = _
    rw [readObject_of_blanks h]
    exact toOption_finish rfl hafter
  | object h => exact toOption_finish (readObject_of_members h hkeys) hafter

/-- The fields in the order in which they are declared. -/
def declared : List Field := [.slowReopenMillis, .reusePolicy, .validateDocCounts]

/-- A list of no more items than there are fields is read as their values in order. -/
theorem toOption_read_list {items : List Ast} (h : ElementAt (.list items) cs [])
    (hlength : items.length ≤ 3) : (read cs).toOption =
      ((declared.zip items).foldlM Draft.fill? {}).map Draft.toConfig := by
  obtain @⟨_, _, _, cs₂, _, hbefore, hvalue, hafter⟩ := h
  have hskip := hbefore.skipBlank_eq.trans hvalue.skipBlank_eq
  unfold read
  rw [hskip]
  cases hvalue with
  | @emptyList cs₁ cs₂ h =>
    have hread : readList cs₁ = .ok ({}, cs₂) := by
      unfold readList
      rw [h.skipBlank_eq_cons rfl]
      rfl
    change (finish (readList cs₁)).toOption = _
    rw [hread]
    exact toOption_finish rfl hafter
  | list h =>
    obtain ⟨c, cs', hblanks, hc, hclose, hitems⟩ := h.exists_head
    refine toOption_finish (x := readList _) ?_ hafter
    unfold readList
    rw [hblanks.skipBlank_eq_cons hc]
    split
    case h_1 heq => cases heq
    case h_2 heq => exact absurd (List.cons.inj heq).1 hclose
    case h_3 =>
      have hdeclared : items.length ≤ declared.length := hlength
      exact toOption_readItems hitems hdeclared {}

end Texts

end SegmentedView.Config
