import SegmentedView.Proofs.Config.Members

/-!
# Which configuration texts are accepted

What a draft becomes by the members of an object is, field by field, the one value that the
members give the field or what there was (`Draft.Enters`), in whatever order they stand and
whatever else stands among them. So an object is accepted exactly when no field has two values
and every value is admitted, and it means the default with these fields overridden; a list means
the object that assigns its items to the first fields (`ofText_reads_fields`).
-/

set_option autoImplicit false

namespace SegmentedView.Config

open Json

/-- The values of a field in an object, in order. -/
def valuesOf (members : List (List Piece × Ast)) (field : Field) : List Ast :=
  (members.filter fun m => Denotes m.1 field.name.toList).map Prod.snd

/-- A member adds its value to those of the field that its key names. -/
theorem valuesOf_cons (m : List Piece × Ast) (members : List (List Piece × Ast))
    (field : Field) : valuesOf (m :: members) field =
      (if fieldNamed? m.1 = some field then [m.2] else []) ++ valuesOf members field := by
  unfold valuesOf
  rw [List.filter_cons]
  by_cases hfield : fieldNamed? m.1 = some field
  · rw [if_pos hfield, if_pos (decide_eq_true (fieldNamed?_eq_some_iff.1 hfield))]
    rfl
  · rw [if_neg hfield, if_neg fun h => hfield (fieldNamed?_eq_some_iff.2 (of_decide_eq_true h))]
    rfl

/-- No field has two values, and every value is admitted by its field. -/
def Acceptable (values : Field → List Ast) : Prop :=
  ∀ field, (values field).length ≤ 1 ∧ ∀ t ∈ values field, field.Admits t

/-- A configuration has these values in the fields that there are values of, and is the default
in the others. -/
def Overrides (c : Config) (values : Field → List Ast) : Prop :=
  ∀ field, (∀ t ∈ values field, field.Given t c) ∧ (values field = [] → field.Same c {})

/-- The values decide the configuration. -/
theorem Overrides.unique {c c' : Config} {values : Field → List Ast} (h : c.Overrides values)
    (h' : c'.Overrides values) : c = c' := by
  apply eq_of_forall_same
  intro field
  cases hvalues : values field with
  | nil => exact ((h field).2 hvalues).trans ((h' field).2 hvalues).symm
  | cons t ts =>
    have hmem : t ∈ values field := by
      rw [hvalues]
      exact List.mem_cons_self
    exact ((h field).1 t hmem).same ((h' field).1 t hmem)

/-! ## Drafts -/

/-- What becomes of a field of a draft by these values of it. -/
inductive Draft.Enters (d d' : Draft) (field : Field) : List Ast → Prop
  | kept (hhas : d'.has field = d.has field) (hsame : field.Same d'.toConfig d.toConfig) :
    Enters d d' field []
  | given {t : Ast} (hbefore : d.has field = false) (hafter : d'.has field = true)
    (hadmits : field.Admits t) (hgiven : field.Given t d'.toConfig) : Enters d d' field [t]

section Drafts

variable {d d' : Draft} {field : Field} {members : List (List Piece × Ast)}

/-- A configuration agrees with itself. -/
theorem Field.Same.refl (c : Config) : field.Same c c := by
  cases field <;> rfl

/-- Values after values are values of the field in that order. -/
theorem Draft.Enters.trans {d'' : Draft} {ts us : List Ast} (h : d.Enters d' field ts)
    (h' : d'.Enters d'' field us) : d.Enters d'' field (ts ++ us) := by
  cases h with
  | kept hhas hsame =>
    cases h' with
    | kept hhas' hsame' => exact .kept (hhas'.trans hhas) (hsame'.trans hsame)
    | given hbefore hafter hadmits hgiven =>
      exact .given (hhas.symm.trans hbefore) hafter hadmits hgiven
  | given hbefore hafter hadmits hgiven =>
    cases h' with
    | kept hhas' hsame' => exact .given hbefore (hhas'.trans hafter) hadmits (hgiven.congr hsame')
    | given hbefore' hafter' hadmits' hgiven' =>
      rw [hafter] at hbefore'
      cases hbefore'

/-- A member enters its value into the field that it names, and into no other. -/
theorem enters_of_enter? {m : List Piece × Ast} (h : d.enter? m = some d') (field : Field) :
    d.Enters d' field (if fieldNamed? m.1 = some field then [m.2] else []) := by
  unfold Draft.enter? at h
  split at h
  case h_1 hnamed =>
    obtain rfl := Option.some.inj h
    rw [hnamed, if_neg (by simp)]
    exact .kept rfl (.refl _)
  case h_2 named hnamed =>
    rw [hnamed]
    split at h
    case isTrue => cases h
    case isFalse hhas =>
      by_cases hfield : named = field
      · subst hfield
        obtain ⟨hafter, hgiven⟩ := given_of_assign? h
        rw [if_pos rfl]
        exact .given (Bool.eq_false_iff.2 hhas) hafter ((admits_iff d).2 ⟨d', h⟩) hgiven
      · obtain ⟨hkept, hsame⟩ := same_of_assign? h (Ne.symm hfield)
        rw [if_neg fun heq => hfield (Option.some.inj heq)]
        exact .kept hkept hsame

/-- All members together enter into each field the values that they have of it. -/
theorem enters_of_foldlM (h : members.foldlM Draft.enter? d = some d') (field : Field) :
    d.Enters d' field (valuesOf members field) := by
  induction members generalizing d with
  | nil =>
    obtain rfl := Option.some.inj h
    exact .kept rfl (.refl _)
  | cons m members ih =>
    rw [List.foldlM_cons] at h
    obtain ⟨d₁, henter, hrest⟩ := Option.bind_eq_some_iff.1 h
    rw [valuesOf_cons]
    exact (enters_of_enter? henter field).trans (ih hrest)

/-- Members can be entered where every field has one value at most, none if it was read before,
and admits it. -/
theorem exists_foldlM (hvalues : Acceptable (valuesOf members))
    (hhas : ∀ field, d.has field = true → valuesOf members field = []) :
    ∃ d', members.foldlM Draft.enter? d = some d' := by
  induction members generalizing d with
  | nil => exact ⟨d, rfl⟩
  | cons m members ih =>
    have hrest : Acceptable (valuesOf members) := by
      intro field
      obtain ⟨hlength, hadmits⟩ := hvalues field
      rw [valuesOf_cons] at hlength hadmits
      rw [List.length_append] at hlength
      exact ⟨by omega, fun t ht => hadmits t (List.mem_append_right _ ht)⟩
    rw [List.foldlM_cons]
    cases hnamed : fieldNamed? m.1 with
    | none =>
      have henter : d.enter? m = some d := by
        unfold Draft.enter?
        rw [hnamed]
      rw [henter]
      refine ih hrest fun field hfield => ?_
      have hnone := hhas field hfield
      rw [valuesOf_cons] at hnone
      exact (List.append_eq_nil_iff.1 hnone).2
    | some named =>
      -- The value enters the field, which is not read before and not given again.
      obtain ⟨hlength, hadmits⟩ := hvalues named
      rw [valuesOf_cons, if_pos hnamed] at hlength hadmits
      have hlast : valuesOf members named = [] := by
        rw [List.length_append, List.length_singleton] at hlength
        exact List.eq_nil_of_length_eq_zero (by omega)
      have hunread : ¬ d.has named = true := by
        intro hread
        have hnone := hhas named hread
        rw [valuesOf_cons, if_pos hnamed] at hnone
        cases hnone
      obtain ⟨d₁, hassign⟩ := (admits_iff d).1 (hadmits m.2 (by simp))
      have henter : d.enter? m = some d₁ := by
        unfold Draft.enter?
        rw [hnamed]
        dsimp only
        rw [if_neg hunread, hassign]
      rw [henter]
      refine ih hrest fun field hfield => ?_
      by_cases hsame : field = named
      · rwa [hsame]
      · have hkept := (same_of_assign? hassign hsame).1
        have hnone := hhas field (hkept.symm.trans hfield)
        rw [valuesOf_cons] at hnone
        exact (List.append_eq_nil_iff.1 hnone).2

/-- Members that name different fields, none of them read before, are entered like the items of
a list. -/
theorem foldlM_enter?_eq {pairs : List (Field × Ast)}
    (h : List.Forall₂ (fun m x => Denotes m.1 x.1.name.toList ∧ m.2 = x.2) members pairs)
    (hdistinct : (pairs.map Prod.fst).Nodup) (hhas : ∀ x ∈ pairs, d.has x.1 = false) :
    members.foldlM Draft.enter? d = pairs.foldlM Draft.fill? d := by
  induction h generalizing d with
  | nil => rfl
  | @cons m x members pairs hm h ih =>
    obtain ⟨hkey, hvalue⟩ := hm
    rw [List.map_cons, List.nodup_cons] at hdistinct
    have henter : d.enter? m = d.fill? x := by
      unfold Draft.enter? Draft.fill?
      rw [fieldNamed?_eq_some_iff.2 hkey, hvalue]
      dsimp only
      rw [if_neg (Bool.eq_false_iff.1 (hhas x List.mem_cons_self))]
    rw [List.foldlM_cons, List.foldlM_cons, henter]
    cases hfill : d.fill? x with
    | none => rfl
    | some d₁ =>
      refine ih hdistinct.2 fun y hy => ?_
      have hne : y.1 ≠ x.1 := fun heq => hdistinct.1 (heq ▸ List.mem_map_of_mem hy)
      exact (same_of_assign? hfill hne).1.trans (hhas y (List.mem_cons_of_mem x hy))

/-- Items that the fields admit can be read. -/
theorem exists_foldlM_fill? {pairs : List (Field × Ast)} (h : ∀ x ∈ pairs, x.1.Admits x.2)
    (d : Draft) : ∃ d', pairs.foldlM Draft.fill? d = some d' := by
  induction pairs generalizing d with
  | nil => exact ⟨d, rfl⟩
  | cons x pairs ih =>
    obtain ⟨d₁, hfill⟩ := (admits_iff d).1 (h x List.mem_cons_self)
    obtain ⟨d', hrest⟩ := ih (fun y hy => h y (List.mem_cons_of_mem x hy)) d₁
    refine ⟨d', ?_⟩
    rw [List.foldlM_cons, show d.fill? x = some d₁ from hfill]
    exact hrest

end Drafts

/-! ## Texts -/

section Texts

variable {text : String} {members : List (List Piece × Ast)} {c : Config}

/-- What a text means is what its characters are read as, flaws aside. -/
theorem ofText_eq_ok_iff : ofText text = .ok c ↔ (read text.toList).toOption = some c := by
  rw [toOption_eq_some_iff]
  unfold ofText
  cases read text.toList <;> simp [Except.mapError]

/-- An object that is accepted is acceptable, and overrides the default. -/
theorem overrides_of_ofText (h : IsText (.object members) text) (hkeys : KeysDenote members)
    (hc : ofText text = .ok c) :
    Acceptable (valuesOf members) ∧ c.Overrides (valuesOf members) := by
  rw [ofText_eq_ok_iff, toOption_read_object h hkeys] at hc
  obtain ⟨d, hd, rfl⟩ := Option.map_eq_some_iff.1 hc
  have henters := enters_of_foldlM hd
  refine ⟨fun field => ?_, fun field => ?_⟩
  · have hfield := henters field
    generalize valuesOf members field = values at hfield ⊢
    cases hfield with
    | kept => exact ⟨by simp, by simp⟩
    | given hbefore hafter hadmits hgiven => exact ⟨by simp, by simpa using hadmits⟩
  · have hfield := henters field
    generalize valuesOf members field = values at hfield ⊢
    cases hfield with
    | kept hhas hsame => exact ⟨by simp, fun _ => hsame⟩
    | given hbefore hafter hadmits hgiven => exact ⟨by simpa using hgiven, by simp⟩

/-- An object is accepted exactly when the values of its fields are acceptable. -/
theorem exists_ofText_iff (h : IsText (.object members) text) (hkeys : KeysDenote members) :
    (∃ c, ofText text = .ok c) ↔ Acceptable (valuesOf members) := by
  constructor
  · rintro ⟨c, hc⟩
    exact (overrides_of_ofText h hkeys hc).1
  · intro hvalues
    have hunread : ∀ field, ({} : Draft).has field = true → valuesOf members field = [] := by
      intro field hfield
      cases field <;> cases hfield
    obtain ⟨d, hd⟩ := exists_foldlM hvalues hunread
    refine ⟨d.toConfig, ?_⟩
    rw [ofText_eq_ok_iff, toOption_read_object h hkeys, hd]
    rfl

/-- An acceptable object is read as the configuration that overrides the default by it. -/
theorem ofText_of_overrides (h : IsText (.object members) text) (hkeys : KeysDenote members)
    (hvalues : Acceptable (valuesOf members)) (hc : c.Overrides (valuesOf members)) :
    ofText text = .ok c := by
  obtain ⟨c', hc'⟩ := (exists_ofText_iff h hkeys).2 hvalues
  rw [hc', (overrides_of_ofText h hkeys hc').2.unique hc]

/-- Values in another order are the same values, for there is at most one of each field. -/
theorem valuesOf_eq_of_perm {members' : List (List Piece × Ast)}
    (hvalues : Acceptable (valuesOf members))
    (hperm : ∀ field, (valuesOf members' field).Perm (valuesOf members field)) :
    valuesOf members' = valuesOf members := by
  funext field
  have hlength := (hvalues field).1
  have hfield := hperm field
  generalize valuesOf members field = values at hlength hfield
  match values, hlength with
  | [], _ => exact hfield.eq_nil
  | [t], _ => exact List.perm_singleton.1 hfield

/-- Only the values of the fields count, in whatever order and among whatever else. -/
theorem ofText_eq_ok_of_perm {text' : String} {members' : List (List Piece × Ast)}
    (h : IsText (.object members) text) (hkeys : KeysDenote members)
    (h' : IsText (.object members') text') (hkeys' : KeysDenote members')
    (hperm : ∀ field, (valuesOf members' field).Perm (valuesOf members field))
    (hc : ofText text = .ok c) : ofText text' = .ok c := by
  obtain ⟨hvalues, hoverrides⟩ := overrides_of_ofText h hkeys hc
  have hsame := valuesOf_eq_of_perm hvalues hperm
  rw [← hsame] at hvalues hoverrides
  exact ofText_of_overrides h' hkeys' hvalues hoverrides

/-- Items in order are assigned to different fields. -/
theorem nodup_declared_zip (items : List Ast) :
    ((declared.zip items).map Prod.fst).Nodup := by
  rcases items with _ | ⟨t, _ | ⟨u, _ | ⟨v, items⟩⟩⟩ <;> simp [declared]

/-- Keys that denote the names of fields denote something. -/
theorem keysDenote_of_forall₂ {pairs : List (Field × Ast)}
    (h : List.Forall₂ (fun m x => Denotes m.1 x.1.name.toList ∧ m.2 = x.2) members pairs) :
    KeysDenote members := by
  induction h with
  | nil => exact fun m hm => absurd hm List.not_mem_nil
  | cons hm h ih => exact List.forall_mem_cons.2 ⟨⟨_, hm.1⟩, ih⟩

end Texts

/-- Which configuration texts are accepted, and what they mean. An object text, whatever blanks
and escapes it is written with and whatever other members stand in it, is accepted exactly when
every field occurs at most once and with a value that it admits. It then means the default
configuration with the fields that occur overridden by their values. Texts with the same values
of every field, in any order and among any other members, mean the same. A list of up to three
values that the fields admit in the order of their declaration is accepted, and means what the
object does that assigns them to the fields. -/
theorem ofText_reads_fields :
    (∀ (text : String) (members : List (List Piece × Ast)),
      IsText (.object members) text → KeysDenote members →
        ((∃ c, ofText text = .ok c) ↔ Acceptable (valuesOf members)) ∧
        (∀ c, ofText text = .ok c → c.Overrides (valuesOf members)) ∧
        ∀ (text' : String) (members' : List (List Piece × Ast)),
          IsText (.object members') text' → KeysDenote members' →
          (∀ field, (valuesOf members' field).Perm (valuesOf members field)) →
            ∀ c, ofText text' = .ok c ↔ ofText text = .ok c) ∧
    ∀ (text : String) (items : List Ast), IsText (.list items) text → items.length ≤ 3 →
      (∀ x ∈ declared.zip items, x.1.Admits x.2) →
        ∀ (text' : String) (members : List (List Piece × Ast)),
          IsText (.object members) text' →
          List.Forall₂ (fun m x => Denotes m.1 x.1.name.toList ∧ m.2 = x.2) members
            (declared.zip items) →
            ∃ c, ofText text = .ok c ∧ ofText text' = .ok c := by
  refine ⟨fun text members h hkeys => ⟨exists_ofText_iff h hkeys,
    fun c hc => (overrides_of_ofText h hkeys hc).2, fun text' members' h' hkeys' hperm c => ?_⟩,
    fun text items h hlength hadmits text' members h' hassigns => ?_⟩
  · exact ⟨ofText_eq_ok_of_perm h' hkeys' h hkeys fun field => (hperm field).symm,
      ofText_eq_ok_of_perm h hkeys h' hkeys' hperm⟩
  · have hkeys := keysDenote_of_forall₂ hassigns
    have hunread : ∀ x ∈ declared.zip items, ({} : Draft).has x.1 = false := by
      intro x _
      cases x.1 <;> rfl
    obtain ⟨d, hd⟩ := exists_foldlM_fill? hadmits {}
    have hmembers := foldlM_enter?_eq hassigns (nodup_declared_zip items) hunread
    refine ⟨d.toConfig, ?_, ?_⟩
    · rw [ofText_eq_ok_iff, toOption_read_list h hlength, hd]
      rfl
    · rw [ofText_eq_ok_iff, toOption_read_object h' hkeys, hmembers, hd]
      rfl

/-- A threshold of seven milliseconds, in an object with an unknown member before it, in one
without, and in a list. -/
theorem ofText_reads_fields_of_seven :
    let seven : Ast := .number ⟨false, ['7'], none, none⟩
    let member := (Field.slowReopenMillis.name.toList.map Piece.plain, seven)
    let unknown : List Piece × Ast := ([.plain 'x'], .list [.null])
    let long := "\x7b\"x\":[null],\"slow_reopen_threshold_ms\":7\x7d"
    let short := "\x7b\"slow_reopen_threshold_ms\":7\x7d"
    IsText (.object [unknown, member]) long ∧ IsText (.object [member]) short ∧
      IsText (.list [seven]) "[7]" ∧
      ∃ c, ofText long = .ok c ∧ ofText short = .ok c ∧ ofText "[7]" = .ok c ∧
        c.slowReopenMillis = 7 ∧ c.reusePolicy = .byName := by
  intro seven member unknown long short
  have hseven : ∀ rest, ElementAt seven ('7' :: rest) rest := fun rest =>
    (valueAt_digits ⟨⟨by simp, List.forall_mem_singleton.2 rfl, rfl⟩, by decide⟩).element
  have hname : ∀ c ∈ Field.slowReopenMillis.name.toList, IsPlain c :=
    isPlain_of_all (by decide +kernel)
  have hmember : ∀ rest, MemberAt member ('"' :: (Field.slowReopenMillis.name.toList ++
      '"' :: ':' :: '7' :: rest)) rest := fun rest => memberAt_plain hname (hseven rest)
  have hunknown : ∀ rest, MemberAt unknown
      ('"' :: 'x' :: '"' :: ':' :: '[' :: 'n' :: 'u' :: 'l' :: 'l' :: ']' :: rest) rest :=
    fun rest => memberAt_plain (s := ['x']) (isPlain_of_all (by decide))
      (ValueAt.list (.one (ValueAt.null _).element)).element
  have hlong : IsText (.object [unknown, member]) long := by
    have htext : long.toList = '\x7b' :: ['"', 'x', '"', ':', '[', 'n', 'u', 'l', 'l', ']', ','] ++
      '"' :: (Field.slowReopenMillis.name.toList ++ ['"', ':', '7', '\x7d']) := by
        decide +kernel
    unfold IsText
    rw [htext]
    exact (ValueAt.object (.more (hunknown _) (.one (hmember ['\x7d'])))).element
  have hshort : IsText (.object [member]) short := by
    have htext : short.toList = '\x7b' :: '"' :: (Field.slowReopenMillis.name.toList ++
      ['"', ':', '7', '\x7d']) := by decide +kernel
    unfold IsText
    rw [htext]
    exact (ValueAt.object (.one (hmember ['\x7d']))).element
  have hlist : IsText (.list [seven]) "[7]" := by
    have htext : "[7]".toList = ['[', '7', ']'] := by decide +kernel
    unfold IsText
    rw [htext]
    exact (ValueAt.list (.one (hseven [']']))).element
  have hkeys : KeysDenote [unknown, member] := by
    simp only [KeysDenote, List.forall_mem_cons, List.not_mem_nil, false_imp_iff, implies_true,
      and_true]
    exact ⟨⟨_, denotes_plain ['x']⟩, ⟨_, denotes_plain _⟩⟩
  have hnamed : fieldNamed? member.1 = some .slowReopenMillis :=
    fieldNamed?_eq_some_iff.2 (denotes_plain _)
  have hunnamed : fieldNamed? unknown.1 = none := by decide +kernel
  have hvalues : ∀ field, valuesOf [unknown, member] field =
      if field = .slowReopenMillis then [seven] else [] := by
    intro field
    rw [valuesOf_cons, valuesOf_cons, hnamed, hunnamed]
    cases field <;> rfl
  have hadmits : Field.Admits .slowReopenMillis seven := ⟨_, rfl, rfl, rfl, rfl, by decide⟩
  obtain ⟨hobjects, hlists⟩ := ofText_reads_fields
  obtain ⟨haccepted, hmeans, hsame⟩ := hobjects long [unknown, member] hlong hkeys
  obtain ⟨c, hc⟩ := haccepted.2 fun field => by
    rw [hvalues]
    split
    case isTrue heq => exact ⟨by simp, by simpa [heq] using hadmits⟩
    case isFalse => exact ⟨by simp, by simp⟩
  have hmillis : c.slowReopenMillis = 7 := by
    obtain ⟨n, hn, hdigits⟩ := (hmeans c hc .slowReopenMillis).1 seven (by rw [hvalues]; simp)
    obtain rfl := Ast.number.inj hn
    exact UInt64.toNat_inj.1 hdigits.symm
  have hpolicy : c.reusePolicy = .byName :=
    (hmeans c hc .reusePolicy).2 (by rw [hvalues]; rfl)
  have hshortKeys : KeysDenote [member] := fun m hm => hkeys m (List.mem_cons_of_mem _ hm)
  have hshortValues : ∀ field,
      (valuesOf [member] field).Perm (valuesOf [unknown, member] field) := by
    intro field
    rw [valuesOf_cons unknown, hunnamed]
    exact .refl _
  have hc' := (hsame short [member] hshort hshortKeys hshortValues c).2 hc
  have hassigns : ∀ x ∈ declared.zip [seven], x.1.Admits x.2 := by
    simpa [declared] using hadmits
  obtain ⟨c', hlisted, hassigned⟩ := hlists "[7]" [seven] hlist (by decide) hassigns short [member]
    hshort (.cons ⟨denotes_plain _, rfl⟩ .nil)
  obtain rfl := Except.ok.inj (hassigned.symm.trans hc')
  exact ⟨hlong, hshort, hlist, c', hc, hc', hlisted, hmillis, hpolicy⟩

end SegmentedView.Config
