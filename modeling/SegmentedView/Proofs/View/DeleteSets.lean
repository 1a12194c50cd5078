import SegmentedView.Proofs.View.Documents

/-!
# The deletes of a view as two sets of positions

`DeleteSets` is what the deletes of a view come to: the deleted positions and the staged
ones. Marks and commits of a sound view act on its delete sets as the set operations do
(`deleteSets_markAt`, `deleteSets_markIds`, `deleteSets_commit`), although the view keeps
one pair of marks for each segment and reaches it by position in one case and by scanning
every segment in the other. Both ways of marking are one: offsets are chosen in every
segment, and they are those of a set of positions (`Chooses`).
-/

set_option autoImplicit false

namespace SegmentedView

variable {P : Type}

/-- Positions with committed deletes, and positions whose deletes wait for a commit. -/
structure DeleteSets where
  deleted : Finset Nat
  staged : Finset Nat
  deriving DecidableEq

namespace DeleteSets

/-- Stages every target that is not deleted. -/
def mark (d : DeleteSets) (targets : Finset Nat) : DeleteSets :=
  { d with staged := d.staged ∪ targets \ d.deleted }

/-- How many targets are neither deleted nor staged. -/
def fresh (d : DeleteSets) (targets : Finset Nat) : Nat :=
  (targets \ (d.deleted ∪ d.staged)).card

/-- Deletes what is staged. -/
def commit (d : DeleteSets) : DeleteSets := ⟨d.deleted ∪ d.staged, ∅⟩

end DeleteSets

namespace View

/-- The delete sets of a view. -/
def deleteSets (v : View P) : DeleteSets where
  deleted := (Finset.range v.total).filter fun p => v.isDeleted p = true
  staged := (Finset.range v.total).filter fun p => v.isStaged p = true

/-- The positions of the documents that answer a question, collected below the total. -/
theorem mem_filter_any {v : View P} {asks : Snapshot P × Nat → Bool} {p : Nat} :
    p ∈ (Finset.range v.total).filter (fun q => (v.documentAt? q).any asks = true) ↔
      (v.documentAt? p).any asks = true := by
  simp only [Finset.mem_filter, Finset.mem_range, and_iff_right_iff_imp]
  exact lt_total_of_any

/-- The deleted set holds the positions that are deleted. -/
theorem mem_deleted {v : View P} {p : Nat} : p ∈ v.deleteSets.deleted ↔ v.isDeleted p = true :=
  mem_filter_any

/-- The staged set holds the positions that are staged. -/
theorem mem_staged {v : View P} {p : Nat} : p ∈ v.deleteSets.staged ↔ v.isStaged p = true :=
  mem_filter_any

/-- Two delete sets are equal when they agree on every position. -/
theorem deleteSets_ext {v : View P} {d : DeleteSets}
    (hd : ∀ p, v.isDeleted p = true ↔ p ∈ d.deleted)
    (hs : ∀ p, v.isStaged p = true ↔ p ∈ d.staged) : v.deleteSets = d := by
  cases d
  unfold deleteSets
  congr 1
  · ext p
    rw [← hd p, ← mem_deleted]
    rfl
  · ext p
    rw [← hs p, ← mem_staged]
    rfl

/-! ## Marks -/

/-- The offsets chosen in every segment are those of a set of positions. -/
def Chooses (v : View P) (offsets : Nat → Snapshot P → List Nat) (targets : Finset Nat) :
    Prop :=
  ∀ i s l, v.segments[i]? = some s → l < s.docCount →
    (l ∈ offsets i s ↔ Boundaries.startOf v.counts i + l ∈ targets)

variable {v : View P} {offsets : Nat → Snapshot P → List Nat} {targets : Finset Nat}

/-- Marks the chosen offsets in every segment. -/
def markOffsets (offsets : Nat → Snapshot P → List Nat) (v : View P) : View P × Nat :=
  v.mark fun i s => s.markAll (offsets i s)

/-- The segment at a place has its own offsets marked. -/
theorem getElem?_markOffsets (v : View P) (i : Nat) :
    (v.markOffsets offsets).1.segments[i]? =
      v.segments[i]?.map fun s => (s.markAll (offsets i s)).1 := by
  unfold markOffsets mark
  simp only [List.getElem?_map, List.getElem?_mapIdx, Option.map_map]
  rfl

/-- Marks leave the documents alone. -/
theorem sameDocuments_markOffsets (v : View P) :
    SameDocuments v (v.markOffsets offsets).1 := by
  refine ⟨rfl, ?_⟩
  apply List.ext_getElem?
  intro i
  rw [List.getElem?_map, getElem?_markOffsets, Option.map_map, List.getElem?_map]
  rfl

/-- Marks leave the document counts alone. -/
theorem counts_markOffsets (v : View P) : (v.markOffsets offsets).1.counts = v.counts :=
  (sameDocuments_markOffsets v).counts

/-- Marks keep a view sound. -/
theorem Sound.markOffsets (h : v.Sound) : (v.markOffsets offsets).1.Sound := by
  refine h.of_sameDocuments (sameDocuments_markOffsets v) fun s hs => ?_
  obtain ⟨i, hi⟩ := List.getElem?_of_mem hs
  rw [getElem?_markOffsets] at hi
  obtain ⟨x, hx, rfl⟩ := Option.map_eq_some_iff.1 hi
  exact (h.snapshot x (List.mem_of_getElem? hx)).markAll _

/-- Marks delete nothing before they are committed. -/
theorem Sound.isDeleted_markOffsets (h : v.Sound) (p : Nat) :
    (v.markOffsets offsets).1.isDeleted p = true ↔ v.isDeleted p = true := by
  rw [h.markOffsets.isDeleted_iff, h.isDeleted_iff]
  unfold HasOffset
  rw [counts_markOffsets]
  constructor
  · rintro ⟨i, s, l, hs, hp, hl⟩
    rw [getElem?_markOffsets] at hs
    obtain ⟨x, hx, rfl⟩ := Option.map_eq_some_iff.1 hs
    rw [Snapshot.isDeleted_markAll] at hl
    exact ⟨i, x, l, hx, hp, hl⟩
  · rintro ⟨i, s, l, hs, hp, hl⟩
    refine ⟨i, (s.markAll (offsets i s)).1, l, ?_, hp, ?_⟩
    · rw [getElem?_markOffsets, hs]
      rfl
    · rw [Snapshot.isDeleted_markAll]
      exact hl

/-- The deletes of an offset in the segment at its place, read at its position. -/
theorem Sound.isDeleted_startOf_add (h : v.Sound) {i l : Nat} {s : Snapshot P}
    (hs : v.segments[i]? = some s) (hl : l < s.docCount) :
    v.isDeleted (Boundaries.startOf v.counts i + l) = s.isDeleted l ∧
      v.isStaged (Boundaries.startOf v.counts i + l) = s.isStaged l :=
  isDeleted_of_documentAt? (h.documentAt?_eq_some_iff.2 ⟨i, hs, hl, rfl⟩)

/-- Marks stage the targets below the total that are not deleted. -/
theorem Sound.isStaged_markOffsets (h : v.Sound) (ht : v.Chooses offsets targets) (p : Nat) :
    (v.markOffsets offsets).1.isStaged p = true ↔
      v.isStaged p = true ∨ p < v.total ∧ p ∈ targets ∧ v.isDeleted p = false := by
  rw [h.markOffsets.isStaged_iff]
  unfold HasOffset
  rw [counts_markOffsets]
  constructor
  · rintro ⟨i, s, l, hs, rfl, hl⟩
    rw [getElem?_markOffsets] at hs
    obtain ⟨x, hx, rfl⟩ := Option.map_eq_some_iff.1 hs
    have hsound := h.snapshot x (List.mem_of_getElem? hx)
    rcases (hsound.isStaged_markAll _ l).1 hl with hold | ⟨hmem, hlt, hdel⟩
    · exact .inl (h.isStaged_iff.2 ⟨i, x, l, hx, rfl, hold⟩)
    · have hdoc := h.documentAt?_eq_some_iff.2 ⟨i, hx, hlt, rfl⟩
      exact .inr ⟨lt_total_of_documentAt? hdoc, (ht i x l hx hlt).1 hmem,
        (h.isDeleted_startOf_add hx hlt).1.trans hdel⟩
  · rintro (hold | ⟨hp, hmem, hdel⟩)
    · obtain ⟨i, x, l, hx, rfl, hl⟩ := h.isStaged_iff.1 hold
      have hsound := h.snapshot x (List.mem_of_getElem? hx)
      refine ⟨i, (x.markAll (offsets i x)).1, l, ?_, rfl,
        (hsound.isStaged_markAll _ l).2 (.inl hl)⟩
      rw [getElem?_markOffsets, hx]
      rfl
    · obtain ⟨x, l, hdoc⟩ := h.exists_documentAt? hp
      obtain ⟨i, hx, hlt, rfl⟩ := h.documentAt?_eq_some_iff.1 hdoc
      have hsound := h.snapshot x (List.mem_of_getElem? hx)
      rw [(h.isDeleted_startOf_add hx hlt).1] at hdel
      refine ⟨i, (x.markAll (offsets i x)).1, l, ?_, rfl,
        (hsound.isStaged_markAll _ l).2 (.inr ⟨(ht i x l hx hlt).2 hmem, hlt, hdel⟩)⟩
      rw [getElem?_markOffsets, hx]
      rfl

/-- Marks answer how many of the targets were neither deleted nor staged. -/
theorem Sound.snd_markOffsets (h : v.Sound) (ht : v.Chooses offsets targets) :
    (v.markOffsets offsets).2 = ((Finset.range v.total).filter
      fun p => p ∈ targets ∧ v.isDeleted p = false ∧ v.isStaged p = false).card := by
  have hsum : (v.markOffsets offsets).2 =
      (v.segments.mapIdx fun i s => (s.markAll (offsets i s)).2).sum := by
    refine congrArg List.sum ?_
    apply List.ext_getElem?
    intro i
    simp only [List.getElem?_map, List.getElem?_mapIdx, Option.map_map]
    rfl
  rw [hsum, h.total, Boundaries.card_filter_positions]
  congr 1
  apply List.ext_getElem?
  intro i
  rw [List.getElem?_mapIdx, List.getElem?_mapIdx, getElem?_counts, Option.map_map]
  cases hs : v.segments[i]? with
  | none => rfl
  | some s =>
    have hsound := h.snapshot s (List.mem_of_getElem? hs)
    simp only [Option.map_some, Function.comp_apply, hsound.snd_markAll]
    congr 2
    ext l
    simp only [Finset.mem_filter, Finset.mem_range, and_congr_right_iff]
    intro hl
    rw [ht i s l hs hl, (h.isDeleted_startOf_add hs hl).1, (h.isDeleted_startOf_add hs hl).2]

/-- Marks of the offsets of a set of positions mark that set. -/
theorem Sound.deleteSets_markOffsets (h : v.Sound) (ht : v.Chooses offsets targets)
    (hrange : targets ⊆ Finset.range v.total) :
    (v.markOffsets offsets).1.deleteSets = v.deleteSets.mark targets ∧
      (v.markOffsets offsets).2 = v.deleteSets.fresh targets := by
  constructor
  · refine deleteSets_ext (fun p => ?_) (fun p => ?_)
    · rw [h.isDeleted_markOffsets, ← mem_deleted]
      rfl
    · rw [h.isStaged_markOffsets ht]
      simp only [DeleteSets.mark, Finset.mem_union, Finset.mem_sdiff, mem_staged, mem_deleted,
        Bool.not_eq_true]
      constructor
      · rintro (hold | ⟨-, hmem, hdel⟩)
        · exact .inl hold
        · exact .inr ⟨hmem, hdel⟩
      · rintro (hold | ⟨hmem, hdel⟩)
        · exact .inl hold
        · exact .inr ⟨Finset.mem_range.1 (hrange hmem), hmem, hdel⟩
  · rw [h.snd_markOffsets ht]
    unfold DeleteSets.fresh
    congr 1
    ext p
    simp only [Finset.mem_filter, Finset.mem_sdiff, Finset.mem_union, mem_staged, mem_deleted,
      not_or, Bool.not_eq_true]
    constructor
    · rintro ⟨-, hmem, hrest⟩
      exact ⟨hmem, hrest⟩
    · rintro ⟨hmem, hrest⟩
      exact ⟨hrange hmem, hmem, hrest⟩

/-- The positions of a list that lie in the view. -/
def positionsIn (v : View P) (positions : List Nat) : Finset Nat :=
  positions.toFinset.filter (· < v.total)

/-- The positions whose document has one of the ids. -/
def positionsOf (v : View P) (ids : List Nat) : Finset Nat :=
  (Finset.range v.total).filter fun p => ∃ id ∈ ids, v.stableIdAt p = some id

/-- The offsets of some positions are those of the positions below the total. -/
theorem Sound.chooses_offsetsIn (h : v.Sound) (positions : List Nat) :
    v.Chooses (fun i _ => v.offsetsIn positions i) (v.positionsIn positions) := by
  intro i s l hs hl
  have hloc : v.locate (Boundaries.startOf v.counts i + l) = some (i, l) :=
    h.locate_eq_some_iff.2 ⟨s, hs, hl, rfl⟩
  have hdoc := h.documentAt?_eq_some_iff.2 ⟨i, hs, hl, rfl⟩
  simp only [positionsIn, Finset.mem_filter, List.mem_toFinset, lt_total_of_documentAt? hdoc,
    and_true, offsetsIn, List.mem_filterMap, Option.bind_eq_some_iff, Prod.exists]
  constructor
  · rintro ⟨p, hp, j, m, hp', heq⟩
    split at heq
    case isFalse => cases heq
    case isTrue hj =>
      obtain rfl := Option.some.inj heq
      obtain ⟨-, -, -, rfl⟩ := h.locate_eq_some_iff.1 (hj ▸ hp')
      exact hp
  · intro hp
    exact ⟨_, hp, i, l, hloc, if_pos rfl⟩

/-- The id of an offset in the segment at its place, read at its position. -/
theorem Sound.stableIdAt_startOf_add (h : v.Sound) {i l : Nat} {s : Snapshot P}
    (hs : v.segments[i]? = some s) (hl : l < s.docCount) :
    v.stableIdAt (Boundaries.startOf v.counts i + l) = s.segment.stableId l := by
  have hdoc : v.documentAt? (Boundaries.startOf v.counts i + l) = some (s, l) :=
    h.documentAt?_eq_some_iff.2 ⟨i, hs, hl, rfl⟩
  unfold stableIdAt
  rw [hdoc]
  exact if_pos hl

/-- The offsets of some ids are those of the positions with these ids. -/
theorem Sound.chooses_offsetsOf (h : v.Sound) (ids : List Nat) :
    v.Chooses (fun _ s => s.offsetsOf ids) (v.positionsOf ids) := by
  intro i s l hs hl
  have hdoc := h.documentAt?_eq_some_iff.2 ⟨i, hs, hl, rfl⟩
  simp only [positionsOf, Finset.mem_filter, Finset.mem_range, lt_total_of_documentAt? hdoc,
    true_and, h.stableIdAt_startOf_add hs hl, Snapshot.offsetsOf, List.mem_filter, List.mem_range,
    hl, Option.any_eq_true, List.contains_iff_mem]
  constructor
  · rintro ⟨id, hid, hmem⟩
    exact ⟨id, hmem, hid⟩
  · rintro ⟨id, hmem, hid⟩
    exact ⟨id, hid, hmem⟩

/-- Marks by position mark the positions of the list that lie in the view. -/
theorem Sound.deleteSets_markAt (h : v.Sound) (positions : List Nat) :
    (v.markAt positions).1.deleteSets = v.deleteSets.mark (v.positionsIn positions) ∧
      (v.markAt positions).2 = v.deleteSets.fresh (v.positionsIn positions) := by
  refine h.deleteSets_markOffsets (h.chooses_offsetsIn positions) fun p hp => ?_
  rw [Finset.mem_range]
  exact (Finset.mem_filter.1 hp).2

/-- Marks by id mark the positions of the documents with those ids. -/
theorem Sound.deleteSets_markIds (h : v.Sound) (ids : List Nat) :
    (v.markIds ids).1.deleteSets = v.deleteSets.mark (v.positionsOf ids) ∧
      (v.markIds ids).2 = v.deleteSets.fresh (v.positionsOf ids) :=
  h.deleteSets_markOffsets (h.chooses_offsetsOf ids) (Finset.filter_subset _ _)

/-! ## Commits -/

/-- The segment at a place has its own deletes committed. -/
theorem getElem?_commit (v : View P) (i : Nat) :
    v.commit.segments[i]? = v.segments[i]?.map fun s => s.commit.1 := List.getElem?_map

/-- A commit leaves the documents alone. -/
theorem sameDocuments_commit (v : View P) : SameDocuments v v.commit := by
  refine ⟨rfl, ?_⟩
  unfold commit
  rw [List.map_map]
  rfl

/-- A commit leaves the document counts alone. -/
theorem counts_commit (v : View P) : v.commit.counts = v.counts :=
  (sameDocuments_commit v).counts

/-- A commit keeps a view sound. -/
theorem Sound.commit (h : v.Sound) : v.commit.Sound := by
  refine h.of_sameDocuments (sameDocuments_commit v) fun s hs => ?_
  obtain ⟨x, hx, rfl⟩ := List.mem_map.1 hs
  exact (h.snapshot x hx).commit

/-- A commit deletes the staged positions. -/
theorem Sound.deleteSets_commit (h : v.Sound) : v.commit.deleteSets = v.deleteSets.commit := by
  refine deleteSets_ext (fun p => ?_) (fun p => ?_)
  · simp only [DeleteSets.commit, Finset.mem_union, mem_deleted, mem_staged]
    rw [h.commit.isDeleted_iff, h.isDeleted_iff, h.isStaged_iff]
    unfold HasOffset
    rw [counts_commit]
    constructor
    · rintro ⟨i, s, l, hs, hp, hl⟩
      rw [getElem?_commit] at hs
      obtain ⟨x, hx, rfl⟩ := Option.map_eq_some_iff.1 hs
      rcases ((h.snapshot x (List.mem_of_getElem? hx)).isDeleted_commit l).1 hl with hl | hl
      · exact .inl ⟨i, x, l, hx, hp, hl⟩
      · exact .inr ⟨i, x, l, hx, hp, hl⟩
    · intro hold
      obtain ⟨i, x, l, hx, hp, hl⟩ : ∃ i x l, v.segments[i]? = some x ∧
          p = Boundaries.startOf v.counts i + l ∧
          (x.isDeleted l = true ∨ x.isStaged l = true) := by
        rcases hold with ⟨i, x, l, hx, hp, hl⟩ | ⟨i, x, l, hx, hp, hl⟩
        · exact ⟨i, x, l, hx, hp, .inl hl⟩
        · exact ⟨i, x, l, hx, hp, .inr hl⟩
      refine ⟨i, x.commit.1, l, ?_, hp,
        ((h.snapshot x (List.mem_of_getElem? hx)).isDeleted_commit l).2 hl⟩
      rw [getElem?_commit, hx]
      rfl
  · simp only [DeleteSets.commit, Finset.notMem_empty, iff_false]
    intro hst
    obtain ⟨i, s, l, hs, -, hl⟩ := h.commit.isStaged_iff.1 hst
    rw [getElem?_commit] at hs
    obtain ⟨x, -, rfl⟩ := Option.map_eq_some_iff.1 hs
    rw [Snapshot.isStaged_commit] at hl
    cases hl

end View

end SegmentedView
