import SegmentedView.Proofs.Store.Returns
import SegmentedView.Proofs.Store.Revisions
import SegmentedView.Proofs.View.Assembly

/-!
# Merging segments of a list

A merge takes the first segments of some names out of a list and puts one segment in the place of
the earliest of them. Which ones these are is a matter of the names as a set
(`SegmentList.mem_sources`), and what becomes of the list is said by the places alone
(`SegmentList.Joined`): the ids of all documents are the same but for their order, and in the same
order where the sources are adjacent (`Joined.perm_ids`, `Joined.ids_eq`).
-/

set_option autoImplicit false

namespace SegmentedView

/-! ## Lists and their places -/

/-- To keep entries by their places is to read the places that are kept. -/
theorem map_filter_zipIdx {α : Type} (keep : Nat → Bool) (xs : List α) :
    (xs.zipIdx.filter fun x => keep x.2).map (·.1) =
      ((List.range xs.length).filter keep).filterMap (xs[·]?) := by
  induction xs using List.reverseRecOn with
  | nil => rfl
  | append_singleton xs x ih =>
    have hbefore : ((List.range xs.length).filter keep).filterMap ((xs ++ [x])[·]?) =
        ((List.range xs.length).filter keep).filterMap (xs[·]?) := by
      apply List.filterMap_congr
      intro i hi
      have hlt := List.mem_range.1 (List.mem_of_mem_filter hi)
      exact List.getElem?_append_left hlt
    rw [List.zipIdx_append, List.filter_append, List.map_append, ih, List.length_append,
      List.length_singleton, List.range_succ, List.filter_append, List.filterMap_append, hbefore]
    congr 1
    cases hkeep : keep xs.length <;> simp [hkeep]

/-- Read at all places, a list is itself. -/
theorem filterMap_getElem?_range {α : Type} (xs : List α) :
    (List.range xs.length).filterMap (xs[·]?) = xs := by
  have hall := map_filter_zipIdx (fun _ => true) xs
  rw [List.filter_true, List.filter_true] at hall
  rw [← hall]
  exact List.zipIdx_map_fst 0 xs

/-- Read at the first places, a list is its beginning. -/
theorem filterMap_getElem?_range_take {α : Type} {xs : List α} {n : Nat} (h : n ≤ xs.length) :
    (List.range n).filterMap (xs[·]?) = xs.take n := by
  have htake := filterMap_getElem?_range (xs.take n)
  rw [List.length_take_of_le h] at htake
  rw [← htake]
  apply List.filterMap_congr
  intro i hi
  rw [List.getElem?_take_of_lt (List.mem_range.1 hi)]

/-- All places are those before one and those from there on. -/
theorem range_eq_append {m n : Nat} (h : m ≤ n) :
    List.range n = List.range m ++ List.range' m (n - m) := by
  rw [List.range_eq_range', List.range_eq_range', ← Nat.add_sub_cancel' h, Nat.add_sub_cancel_left,
    ← List.range'_append_1, Nat.zero_add]

/-- What stands first in a list may be taken to its front. -/
theorem filter_append_filter_not {α : Type} {keep : α → Bool} {xs : List α}
    (h : xs.Pairwise fun a b => keep b = true → keep a = true) :
    xs.filter keep ++ xs.filter (fun x => !keep x) = xs := by
  induction xs with
  | nil => rfl
  | cons x xs ih =>
    rw [List.pairwise_cons] at h
    cases hx : keep x with
    | true =>
      rw [List.filter_cons_of_pos hx, List.filter_cons_of_neg (by simp [hx]), List.cons_append,
        ih h.2]
    | false =>
      have hnone : xs.filter keep = [] := by
        rw [List.filter_eq_nil_iff]
        intro y hy hkeep
        rw [h.1 y hy hkeep] at hx
        cases hx
      have hrest := ih h.2
      rw [hnone, List.nil_append] at hrest
      rw [List.filter_cons_of_neg (by simp [hx]), hnone, List.nil_append,
        List.filter_cons_of_pos (by simp [hx]), hrest]

/-- Taking elements out of a list one by one from the back leaves those at all other places. -/
theorem foldr_eraseIdx {α : Type} {xs : List α} {places : List Nat}
    (h : places.Pairwise (· < ·)) (hlt : ∀ i ∈ places, i < xs.length) :
    places.foldr (fun i ys => ys.eraseIdx i) xs =
      ((List.range xs.length).filter (!places.contains ·)).filterMap (xs[·]?) := by
  induction places with
  | nil =>
    have hall : (List.range xs.length).filter (!([] : List Nat).contains ·) =
        List.range xs.length := List.filter_eq_self.2 fun _ _ => rfl
    rw [hall, filterMap_getElem?_range]
    rfl
  | cons i places ih =>
    rw [List.pairwise_cons] at h
    rw [List.forall_mem_cons] at hlt
    have hrange : List.range xs.length =
        List.range i ++ i :: List.range' (i + 1) (xs.length - (i + 1)) := by
      rw [range_eq_append (Nat.succ_le_of_lt hlt.1), List.range_succ, List.append_assoc]
      rfl
    -- None of the later places is at `i` or before it, so all of these are left.
    have hleft : ∀ j ≤ i, places.contains j = false := by
      intro j hj
      rw [Bool.eq_false_iff, Ne, List.contains_iff_mem]
      intro hmem
      have hlater := h.1 j hmem
      omega
    have hbefore : (List.range i).filter (!(i :: places).contains ·) = List.range i ∧
        (List.range i).filter (!places.contains ·) = List.range i := by
      refine ⟨List.filter_eq_self.2 fun j hj => ?_, List.filter_eq_self.2 fun j hj => ?_⟩
      · have hj := List.mem_range.1 hj
        rw [List.contains_cons, hleft j hj.le, beq_false_of_ne hj.ne]
        rfl
      · rw [hleft j (List.mem_range.1 hj).le]
        rfl
    have hafter : (List.range' (i + 1) (xs.length - (i + 1))).filter
          (!(i :: places).contains ·) =
        (List.range' (i + 1) (xs.length - (i + 1))).filter (!places.contains ·) := by
      refine List.filter_congr fun j hj => ?_
      have hne : j ≠ i := Nat.ne_of_gt (List.mem_range'_1.1 hj).1
      rw [List.contains_cons, beq_false_of_ne hne, Bool.false_or]
    rw [List.foldr_cons, ih h.2 hlt.2, hrange, List.filter_append, List.filter_append, hbefore.1,
      hbefore.2, List.filter_cons_of_pos (by rw [hleft i le_rfl]; rfl),
      List.filter_cons_of_neg (by simp), hafter, List.filterMap_append, List.filterMap_append,
      filterMap_getElem?_range_take hlt.1.le,
      List.filterMap_cons_some (List.getElem?_eq_getElem hlt.1),
      List.eraseIdx_append_of_length_le (List.length_take_le _ _)]
    rw [List.length_take_of_le hlt.1.le, Nat.sub_self, List.eraseIdx_zero, List.tail_cons]

/-- What is put in at the end of a beginning stands between it and the rest. -/
theorem insertIdx_length_append {α : Type} (xs ys : List α) (y : α) :
    (xs ++ ys).insertIdx xs.length y = xs ++ y :: ys := by
  induction xs with
  | nil => rfl
  | cons x xs ih =>
    rw [List.cons_append, List.length_cons, List.insertIdx_succ_cons, ih, List.cons_append]

namespace SegmentList

variable {s t : SegmentList} {names : List String} {into : String}

/-! ## The sources of a merge -/

/-- Whether a list holds a segment of this name. -/
def Holds (s : SegmentList) (name : String) : Prop := ∃ e ∈ s.entries, e.hasName name = true

instance (name : String) : Decidable (s.Holds name) :=
  inferInstanceAs (Decidable (∃ e ∈ s.entries, e.hasName name = true))

/-- The segment at place `i` is the first one of this name. -/
def FirstNamed (s : SegmentList) (name : String) (i : Nat) : Prop :=
  (∃ e, s.entries[i]? = some e ∧ e.hasName name = true) ∧
    ∀ j < i, ∀ e, s.entries[j]? = some e → e.hasName name = false

/-- The place of a name is that of the first segment with it. -/
theorem place?_eq_some_iff {name : String} {i : Nat} :
    s.place? name = some i ↔ s.FirstNamed name i := by
  unfold place? FirstNamed
  rw [List.findIdx?_eq_some_iff_getElem]
  constructor
  · rintro ⟨hlt, hname, hbefore⟩
    refine ⟨⟨_, List.getElem?_eq_getElem hlt, hname⟩, fun j hj e he => ?_⟩
    obtain ⟨hjlt, rfl⟩ := List.getElem?_eq_some_iff.1 he
    exact Bool.eq_false_iff.2 (hbefore j hj)
  · rintro ⟨⟨e, he, hname⟩, hbefore⟩
    obtain ⟨hlt, rfl⟩ := List.getElem?_eq_some_iff.1 he
    refine ⟨hlt, hname, fun j hj => Bool.eq_false_iff.1 (hbefore j hj _ ?_)⟩
    exact List.getElem?_eq_getElem (hj.trans hlt)

/-- A name has no place exactly when no segment has it. -/
theorem place?_eq_none_iff {name : String} : s.place? name = none ↔ ¬ s.Holds name := by
  unfold place? Holds
  rw [List.findIdx?_eq_none_iff]
  simp

/-- A list holds a name exactly when the name has a place. -/
theorem holds_iff_exists_place? {name : String} :
    s.Holds name ↔ ∃ i, s.place? name = some i := by
  rw [← Option.ne_none_iff_exists', Ne, place?_eq_none_iff, not_not]

/-- Whether the segment at a place is the first one of some of these names. -/
def isSource (s : SegmentList) (names : List String) (i : Nat) : Bool :=
  names.any fun name => s.place? name == some i

/-- The places of the first segments of these names, in the order of the list. -/
def sources (s : SegmentList) (names : List String) : List Nat :=
  (List.range s.entries.length).filter (s.isSource names)

/-- The entries at all other places, in the order of the list. -/
def others (s : SegmentList) (names : List String) : List Entry :=
  ((List.range s.entries.length).filter (!s.isSource names ·)).filterMap (s.entries[·]?)

/-- The entry at a place is a source when it is the first one with one of the names. -/
theorem isSource_iff {i : Nat} :
    s.isSource names i = true ↔ ∃ name ∈ names, s.FirstNamed name i := by
  unfold isSource
  simp only [List.any_eq_true, beq_iff_eq, place?_eq_some_iff]

/-- The sources are the places of the first segments with the names. -/
theorem mem_sources {i : Nat} : i ∈ s.sources names ↔ ∃ name ∈ names, s.FirstNamed name i := by
  unfold sources
  rw [List.mem_filter, isSource_iff, List.mem_range, and_iff_right_iff_imp]
  rintro ⟨name, -, ⟨e, he, -⟩, -⟩
  exact (List.getElem?_eq_some_iff.1 he).1

/-- The sources are in ascending order. -/
theorem pairwise_sources (s : SegmentList) (names : List String) :
    (s.sources names).Pairwise (· < ·) :=
  List.pairwise_lt_range.filter _

/-- A place is among the sources exactly when the entry there is a source. -/
theorem contains_sources (s : SegmentList) (names : List String) (i : Nat) :
    (s.sources names).contains i = s.isSource names i := by
  rw [Bool.eq_iff_iff, List.contains_iff_mem, mem_sources, isSource_iff]

/-- Taking the sources out one by one, the last one first, leaves the others. -/
theorem others_eq_foldr (s : SegmentList) (names : List String) : s.others names =
    (s.sources names).foldr (fun i entries => entries.eraseIdx i) s.entries := by
  rw [foldr_eraseIdx (s.pairwise_sources names) fun i hi =>
    List.mem_range.1 (List.mem_of_mem_filter hi)]
  simp only [contains_sources]
  rfl

section First

variable {first : Nat} (hfirst : (s.sources names).head? = some first)

include hfirst

/-- The first source is a source. -/
theorem first_mem_sources : first ∈ s.sources names := List.mem_of_mem_head? hfirst

/-- The first source is a place of the list. -/
theorem first_lt_length : first < s.entries.length :=
  List.mem_range.1 (List.mem_of_mem_filter (first_mem_sources hfirst))

/-- No place before the first source is one. -/
theorem isSource_of_lt {i : Nat} (hi : i < first) : s.isSource names i = false := by
  rw [Bool.eq_false_iff]
  intro hsource
  have hmem : i ∈ s.sources names := mem_sources.2 (isSource_iff.1 hsource)
  obtain ⟨rest, hrest⟩ := List.head?_eq_some_iff.1 hfirst
  have hsorted := s.pairwise_sources names
  rw [hrest, List.pairwise_cons] at hsorted
  rw [hrest, List.mem_cons] at hmem
  rcases hmem with rfl | hlater
  · exact Nat.lt_irrefl i hi
  · have hlt := hsorted.1 i hlater
    omega

/-- All sources stand at the first one or after it. -/
theorem sources_eq_filter : s.sources names =
    (List.range' first (s.entries.length - first)).filter (s.isSource names) := by
  have hnone : (List.range first).filter (s.isSource names) = [] := by
    rw [List.filter_eq_nil_iff]
    intro i hi
    rw [isSource_of_lt hfirst (List.mem_range.1 hi)]
    exact Bool.false_ne_true
  unfold sources
  rw [range_eq_append (first_lt_length hfirst).le, List.filter_append, hnone, List.nil_append]

/-- What stands before the first source is no source. -/
theorem others_eq_append : s.others names = s.entries.take first ++
    ((List.range' first (s.entries.length - first)).filter
      (!s.isSource names ·)).filterMap (s.entries[·]?) := by
  have hall : (List.range first).filter (!s.isSource names ·) = List.range first := by
    rw [List.filter_eq_self]
    intro i hi
    rw [isSource_of_lt hfirst (List.mem_range.1 hi)]
    rfl
  have hle := (first_lt_length hfirst).le
  unfold others
  rw [range_eq_append hle, List.filter_append, hall, List.filterMap_append,
    filterMap_getElem?_range_take hle]

/-- The list with its sources taken out and something in the place of the first of them. -/
theorem splice_sources (merged : Entry) : splice s.entries (s.sources names) first merged =
    s.entries.take first ++ merged ::
      ((List.range' first (s.entries.length - first)).filter
        (!s.isSource names ·)).filterMap (s.entries[·]?) := by
  have hle := (first_lt_length hfirst).le
  -- The places that `splice` keeps, before the first source and from there on.
  have hbefore : (List.range s.entries.length).filter
      (fun i => decide (i < first) && !s.isSource names i) = List.range first := by
    rw [range_eq_append hle, List.filter_append, List.filter_eq_self.2, List.filter_eq_nil_iff.2,
      List.append_nil]
    · intro i hi
      have hge := (List.mem_range'_1.1 hi).1
      simp [Nat.not_lt.2 hge]
    · intro i hi
      have hlt := List.mem_range.1 hi
      simp [hlt, isSource_of_lt hfirst hlt]
  have hafter : (List.range s.entries.length).filter
      (fun i => decide (first ≤ i) && !s.isSource names i) =
        (List.range' first (s.entries.length - first)).filter (!s.isSource names ·) := by
    rw [range_eq_append hle, List.filter_append, List.filter_eq_nil_iff.2, List.nil_append]
    · apply List.filter_congr
      intro i hi
      simp [(List.mem_range'_1.1 hi).1]
    · intro i hi
      simp [Nat.not_le.2 (List.mem_range.1 hi)]
  unfold splice
  simp only [contains_sources, List.filter_filter]
  rw [map_filter_zipIdx (fun i => decide (i < first) && !s.isSource names i),
    map_filter_zipIdx (fun i => decide (first ≤ i) && !s.isSource names i), hbefore, hafter,
    filterMap_getElem?_range_take hle]

end First

/-! ## What a merge does -/

/-- Names that are all held have places, which are those of the sources. -/
theorem exists_placesOf (h : ∀ name ∈ names, s.Holds name) :
    ∃ places, s.placesOf names = .ok places ∧ ∀ i, places.contains i = s.isSource names i := by
  induction names with
  | nil => exact ⟨[], rfl, fun i => rfl⟩
  | cons name names ih =>
    rw [List.forall_mem_cons] at h
    obtain ⟨i, hi⟩ := holds_iff_exists_place?.1 h.1
    obtain ⟨places, hplaces, hcontains⟩ := ih h.2
    refine ⟨i :: places, ?_, fun j => ?_⟩
    · unfold placesOf
      rw [hi, hplaces]
      rfl
    · have hcomm : (j == i) = (i == j) := Bool.beq_comm
      rw [List.contains_cons, hcontains, isSource, isSource, List.any_cons, hi,
        Option.some_beq_some, hcomm]

/-- Names that have places are all held. -/
theorem holds_of_placesOf {places : List Nat} (h : s.placesOf names = .ok places) :
    ∀ name ∈ names, s.Holds name := by
  induction names generalizing places with
  | nil => simp
  | cons name names ih =>
    unfold placesOf at h
    cases hplace : s.place? name with
    | none =>
      rw [hplace] at h
      cases h
    | some i =>
      rw [hplace] at h
      obtain ⟨rest, hrest, -⟩ := exists_of_map_eq_ok h
      exact List.forall_mem_cons.2 ⟨holds_iff_exists_place?.2 ⟨i, hplace⟩, ih hrest⟩

/-- The places of names are refused for the first name that no segment has. -/
theorem placesOf_eq_error_iff {e : Error} : s.placesOf names = .error e ↔
    ∃ before name after, names = before ++ name :: after ∧ (∀ n ∈ before, s.Holds n) ∧
      ¬ s.Holds name ∧ e = .segmentMissing name := by
  induction names with
  | nil => simp [placesOf]
  | cons first names ih =>
    unfold placesOf
    cases hplace : s.place? first with
    | none =>
      have hmissing := place?_eq_none_iff.1 hplace
      dsimp only
      constructor
      · intro h
        cases h
        exact ⟨[], first, names, rfl, by simp, hmissing, rfl⟩
      · rintro ⟨before, name, after, hsplit, hbefore, hname, rfl⟩
        cases before with
        | nil =>
          obtain ⟨rfl, -⟩ := List.cons.inj hsplit
          rfl
        | cons n before =>
          obtain ⟨rfl, -⟩ := List.cons.inj hsplit
          exact absurd (hbefore first List.mem_cons_self) hmissing
    | some i =>
      have hheld : s.Holds first := holds_iff_exists_place?.2 ⟨i, hplace⟩
      have hrest : (s.placesOf names).map (i :: ·) = .error e ↔ s.placesOf names = .error e := by
        cases s.placesOf names <;> simp [Except.map]
      dsimp only
      rw [hrest, ih]
      constructor
      · rintro ⟨before, name, after, rfl, hbefore, hname, rfl⟩
        exact ⟨first :: before, name, after, rfl, List.forall_mem_cons.2 ⟨hheld, hbefore⟩, hname,
          rfl⟩
      · rintro ⟨before, name, after, hsplit, hbefore, hname, rfl⟩
        cases before with
        | nil =>
          obtain ⟨rfl, -⟩ := List.cons.inj hsplit
          exact absurd hheld hname
        | cons n before =>
          obtain ⟨rfl, rfl⟩ := List.cons.inj hsplit
          exact ⟨before, name, after, rfl, (List.forall_mem_cons.1 hbefore).2, hname, rfl⟩

/-- The ids of the documents at a place. -/
def idsAt (s : SegmentList) (i : Nat) : List Nat := (s.entries[i]?.map Entry.ids).getD []

/-- The documents at a place, with their content. -/
def docsAt (s : SegmentList) (i : Nat) : List (Nat × Bytes) :=
  (s.entries[i]?.map Entry.docs).getD []

/-- The documents at a place have the ids at that place. -/
theorem map_fst_docsAt (s : SegmentList) (i : Nat) : (s.docsAt i).map Prod.fst = s.idsAt i := by
  unfold docsAt idsAt
  cases s.entries[i]? with
  | none => rfl
  | some e =>
    cases e with
    | segment serial m =>
      change (m.ids.map fun id => (id, (m.storedValue? id).getD [])).map Prod.fst = m.ids
      rw [List.map_map]
      exact List.map_id m.ids
    | foreign kind => rfl

/-- And so at many places in order. -/
theorem map_fst_flatMap_docsAt (s : SegmentList) (places : List Nat) :
    (places.flatMap s.docsAt).map Prod.fst = places.flatMap s.idsAt := by
  rw [List.map_flatMap]
  simp only [map_fst_docsAt]

/-- The segment that the sources are merged into. -/
def union (s : SegmentList) (names : List String) (into : String) : MemorySegment :=
  .ofDocs into ((s.sources names).flatMap s.docsAt)

/-- The list `t` is the next version of `s`, with the first segments of these names joined into
one: it stands in the place of the first of them, and all other entries keep their order. -/
structure Joined (s t : SegmentList) (names : List String) (m : MemorySegment) : Prop where
  follows : s.Follows t
  reported : t.reportedDocCount = s.reportedDocCount
  entries : ∃ first after, (s.sources names).head? = some first ∧
    t.entries = s.entries.take first ++ .segment s.written m :: after ∧
    s.entries.take first ++ after = s.others names
  ids : m.ids = (s.sources names).flatMap s.idsAt

/-- A merge of segments that are all there joins them. -/
theorem exists_merge (hnames : names ≠ []) (h : ∀ name ∈ names, s.Holds name) (into : String) :
    ∃ t, s.merge names into = .ok t ∧ s.Joined t names (s.union names into) := by
  obtain ⟨places, hplaces, hcontains⟩ := exists_placesOf h
  obtain ⟨first, hfirst⟩ : ∃ first, (s.sources names).head? = some first := by
    obtain ⟨name, hname⟩ := List.exists_mem_of_ne_nil names hnames
    obtain ⟨i, hi⟩ := holds_iff_exists_place?.1 (h name hname)
    have hmem : i ∈ s.sources names := mem_sources.2 ⟨name, hname, place?_eq_some_iff.1 hi⟩
    exact ⟨_, List.head?_eq_some_head (List.ne_nil_of_mem hmem)⟩
  have hsources : (List.range s.entries.length).filter (places.contains ·) = s.sources names :=
    List.filter_congr fun i _ => hcontains i
  obtain ⟨rest, hrest⟩ := List.head?_eq_some_iff.1 hfirst
  refine ⟨{ s.next (splice s.entries (s.sources names) first
    (.segment s.written (s.union names into))) with written := s.written + 1 }, ?_, ?_⟩
  · unfold merge
    rw [hplaces]
    dsimp only
    rw [hsources, hrest]
    unfold union
    rw [hrest]
    rfl
  · refine ⟨⟨rfl, rfl⟩, rfl, ⟨first, _, hfirst, splice_sources hfirst _,
      (others_eq_append hfirst).symm⟩, ?_⟩
    exact s.map_fst_flatMap_docsAt (s.sources names)

/-- A merge of no names is refused. -/
theorem merge_nil (s : SegmentList) (into : String) :
    s.merge [] into = .error .nothingToMerge := by
  have hnone : (List.range s.entries.length).filter (([] : List Nat).contains ·) = [] :=
    List.filter_eq_nil_iff.2 fun _ _ => Bool.false_ne_true
  unfold merge placesOf
  dsimp only
  rw [hnone]

/-- A merge that succeeds is one of some names, all of them held. -/
theorem holds_of_merge (h : s.merge names into = .ok t) :
    names ≠ [] ∧ ∀ name ∈ names, s.Holds name := by
  refine ⟨?_, ?_⟩
  · rintro rfl
    cases h.symm.trans (s.merge_nil into)
  · cases hplaces : s.placesOf names with
    | error e =>
      unfold merge at h
      rw [hplaces] at h
      cases h
    | ok places => exact holds_of_placesOf hplaces

/-- A merge that succeeds joins the sources into their union. -/
theorem joined_of_merge (h : s.merge names into = .ok t) :
    s.Joined t names (s.union names into) := by
  obtain ⟨hnames, hall⟩ := holds_of_merge h
  obtain ⟨t', ht', hjoined⟩ := exists_merge hnames hall into
  obtain rfl := Except.ok.inj (ht'.symm.trans h)
  exact hjoined

/-- A merge fails when there is nothing to merge, or else for the first name that no segment
has. -/
theorem merge_eq_error_iff {e : Error} : s.merge names into = .error e ↔
    names = [] ∧ e = .nothingToMerge ∨
      ∃ before name after, names = before ++ name :: after ∧ (∀ n ∈ before, s.Holds n) ∧
        ¬ s.Holds name ∧ e = .segmentMissing name := by
  rw [← placesOf_eq_error_iff]
  cases hplaces : s.placesOf names with
  | error e' =>
    have hne : names ≠ [] := by
      rintro rfl
      cases hplaces
    unfold merge
    rw [hplaces]
    simp [hne]
  | ok places =>
    by_cases hnames : names = []
    · subst hnames
      rw [merge_nil]
      simp [eq_comm]
    · obtain ⟨t, ht, -⟩ := exists_merge hnames (holds_of_placesOf hplaces) into
      rw [ht]
      simp [hnames]

/-! ## The documents of a merged list -/

/-- No other entry stands between two sources. -/
def Adjacent (s : SegmentList) (names : List String) : Prop :=
  ∀ i ∈ s.sources names, ∀ k ∈ s.sources names, ∀ j < k, i < j → j ∈ s.sources names

instance : Decidable (s.Adjacent names) :=
  inferInstanceAs (Decidable (∀ i ∈ s.sources names, ∀ k ∈ s.sources names, ∀ j < k, i < j →
    j ∈ s.sources names))

/-- The ids of entries at some places are the ids at these places. -/
theorem flatMap_ids_filterMap (s : SegmentList) (places : List Nat) :
    (places.filterMap (s.entries[·]?)).flatMap Entry.ids = places.flatMap s.idsAt := by
  induction places with
  | nil => rfl
  | cons i places ih =>
    rw [List.flatMap_cons, ← ih]
    unfold idsAt
    cases hi : s.entries[i]? with
    | none =>
      rw [List.filterMap_cons_none hi]
      rfl
    | some e =>
      rw [List.filterMap_cons_some hi]
      rfl

/-- The ids of a list are those of its entries in order. -/
theorem ids_eq_flatMap (s : SegmentList) : s.ids = s.entries.flatMap Entry.ids :=
  List.flatMap_def.symm

namespace Joined

variable {m : MemorySegment}

/-- The two lists agree on what stands before the first source; from there on one has the sources
before the others. -/
theorem exists_ids (h : s.Joined t names m) : ∃ first before,
    (s.sources names).head? = some first ∧
    s.ids = before ++ (List.range' first (s.entries.length - first)).flatMap s.idsAt ∧
    t.ids = before ++
      ((List.range' first (s.entries.length - first)).filter (s.isSource names) ++
        (List.range' first (s.entries.length - first)).filter
          (!s.isSource names ·)).flatMap s.idsAt := by
  obtain ⟨first, after, hfirst, hentries, hothers⟩ := h.entries
  have hle := (first_lt_length hfirst).le
  refine ⟨first, (s.entries.take first).flatMap Entry.ids, hfirst, ?_, ?_⟩
  · have hall := s.flatMap_ids_filterMap (List.range s.entries.length)
    rw [filterMap_getElem?_range, range_eq_append hle, List.flatMap_append,
      ← s.flatMap_ids_filterMap (List.range first), filterMap_getElem?_range_take hle] at hall
    rw [ids_eq_flatMap, hall]
  · rw [others_eq_append hfirst] at hothers
    obtain rfl := List.append_cancel_left hothers
    rw [ids_eq_flatMap, hentries, List.flatMap_append, List.flatMap_cons, flatMap_ids_filterMap,
      List.flatMap_append, ← sources_eq_filter hfirst, ← h.ids]
    rfl

/-- A merged list is the one from which the sources were taken out one by one, the last one first,
with the new segment inserted at the place of the first of them. -/
theorem entries_eq_insertIdx (h : s.Joined t names m) :
    ∃ first, (s.sources names).head? = some first ∧ t.entries =
      ((s.sources names).foldr (fun i entries => entries.eraseIdx i) s.entries).insertIdx first
        (.segment s.written m) := by
  obtain ⟨first, after, hfirst, hentries, hothers⟩ := h.entries
  refine ⟨first, hfirst, ?_⟩
  have hinsert := insertIdx_length_append (s.entries.take first) after (.segment s.written m)
  rw [List.length_take_of_le (first_lt_length hfirst).le, hothers, others_eq_foldr] at hinsert
  rw [hentries, hinsert]

/-- A merged list has the ids of all documents, each as often as before. -/
theorem perm_ids (h : s.Joined t names m) : t.ids.Perm s.ids := by
  obtain ⟨first, before, -, hs, ht⟩ := h.exists_ids
  rw [hs, ht]
  apply List.Perm.append_left
  exact (List.filter_append_perm _ _).flatMap_right _

/-- A merge keeps the number of documents. -/
theorem length_ids (h : s.Joined t names m) : t.ids.length = s.ids.length := h.perm_ids.length_eq

/-- What a merged list holds besides the new segment was there before. -/
theorem mem_entries (h : s.Joined t names m) {e : Entry} (he : e ∈ t.entries) :
    e = .segment s.written m ∨ e ∈ s.entries := by
  obtain ⟨first, after, -, hentries, hothers⟩ := h.entries
  have hold : ∀ e ∈ s.others names, e ∈ s.entries := by
    intro e he
    obtain ⟨i, -, hi⟩ := List.mem_filterMap.1 he
    exact List.mem_of_getElem? hi
  rw [hentries, List.mem_append, List.mem_cons] at he
  rcases he with hbefore | rfl | hafter
  · exact .inr (List.mem_of_mem_take hbefore)
  · exact .inl rfl
  · exact .inr (hold e (hothers ▸ List.mem_append_right _ hafter))

/-- What a list was given back does not matter. -/
theorem congr {u : SegmentList} (h : s.Joined t names m)
    (heq : u.withReleases [] = t.withReleases []) : s.Joined u names m := by
  have hkind : u.kind = t.kind := congrArg (·.kind) heq
  have hversion : u.version = t.version := congrArg (·.version) heq
  have hreported : u.reportedDocCount = t.reportedDocCount := congrArg (·.reportedDocCount) heq
  have hentries : u.entries = t.entries := congrArg (·.entries) heq
  refine ⟨⟨hkind.trans h.follows.kind, hversion.trans h.follows.version⟩,
    hreported.trans h.reported, ?_, h.ids⟩
  rw [hentries]
  exact h.entries

/-- Where the sources are adjacent they are in the same order, too. -/
theorem ids_eq (h : s.Joined t names m) (hadjacent : s.Adjacent names) : t.ids = s.ids := by
  obtain ⟨first, before, hfirst, hs, ht⟩ := h.exists_ids
  rw [hs, ht, filter_append_filter_not]
  refine List.Pairwise.imp_of_mem (fun {i j} hi _ hlt hj => ?_) List.pairwise_lt_range'
  have hmem : j ∈ s.sources names := mem_sources.2 (isSource_iff.1 hj)
  rcases (List.mem_range'_1.1 hi).1.eq_or_lt with rfl | hafter
  · exact isSource_iff.2 (mem_sources.1 (first_mem_sources hfirst))
  · have hbetween := hadjacent first (first_mem_sources hfirst) j hmem i hlt hafter
    exact isSource_iff.2 (mem_sources.1 hbetween)

end Joined

end SegmentList

end SegmentedView
