import SegmentedView.PositionTable
import SegmentedView.Proofs.View.DeleteSets

/-!
# The table of a view

The table of a view is filled by walking its segments with their starts. The walk comes to the
positions with a live document (`View.Sound.mem_liveDocs`), in ascending order
(`View.Sound.pairwise_liveDocs`), and an id keeps the first position that it is given. So the
table has the lowest live position of every id (`View.Sound.position_ofView_eq_some_iff`) and
as many ids as live documents have (`View.Sound.size_ofView`). Of the deletes only the committed
ones are read (`View.SameCommitted.ofView_eq`).
-/

set_option autoImplicit false

namespace SegmentedView

variable {P : Type}

/-! ## Filling a table -/

namespace PositionTable

/-- Sets the positions of ids that have none, entry by entry. -/
def fillNew (t : PositionTable) (es : List (Nat × Nat)) : PositionTable :=
  es.foldl (fun t e => t.insertNew e.1 e.2) t

/-- What the table has stays, and of the entries of one id the first counts. -/
theorem position_fillNew (t : PositionTable) (es : List (Nat × Nat)) (id : Nat) :
    (t.fillNew es).position id = (t.position id).or (es.lookup id) := by
  induction es generalizing t with
  | nil => exact (Option.or_none).symm
  | cons e es ih =>
    obtain ⟨k, p⟩ := e
    change ((t.insertNew k p).fillNew es).position id = _
    rw [ih, position_insertNew, List.lookup_cons]
    by_cases hid : id = k
    · subst hid
      cases t.position id <;> simp
    · rw [if_neg fun h => hid h.1, beq_false_of_ne hid]

/-- Every id occurs once. -/
def Distinct (t : PositionTable) : Prop := (t.entries.map (·.1)).Nodup

/-- An id is in a table exactly when it has a position there. -/
theorem mem_ids_iff {t : PositionTable} {id : Nat} :
    id ∈ t.entries.map (·.1) ↔ (t.position id).isSome = true := by
  unfold position
  rw [← Option.ne_none_iff_isSome, Ne, List.lookup_eq_none_iff]
  simp only [List.mem_map, bne_iff_ne, ne_eq, not_forall, not_not, exists_prop]
  exact exists_congr fun e => and_congr_right fun _ => eq_comm

/-- An id that is new leaves the ids of a table distinct. -/
theorem Distinct.insertNew {t : PositionTable} (h : t.Distinct) (id p : Nat) :
    (t.insertNew id p).Distinct := by
  unfold PositionTable.insertNew
  split
  case isTrue => exact h
  case isFalse hnew =>
    refine List.nodup_cons.2 ⟨?_, h⟩
    rwa [mem_ids_iff]

/-- Many ids in order leave the ids of a table distinct. -/
theorem Distinct.fillNew {t : PositionTable} (h : t.Distinct) (es : List (Nat × Nat)) :
    (t.fillNew es).Distinct := by
  induction es generalizing t with
  | nil => exact h
  | cons e es ih => exact ih (h.insertNew e.1 e.2)

/-- The size of a table is the number of ids that it has a position of. -/
theorem Distinct.size_eq_card {t : PositionTable} (h : t.Distinct) {ids : Finset Nat}
    (hids : ∀ id, id ∈ ids ↔ (t.position id).isSome = true) : t.size = ids.card := by
  have hsame : ids = (t.entries.map (·.1)).toFinset := by
    ext id
    rw [hids, List.mem_toFinset, mem_ids_iff]
  rw [hsame, List.toFinset_card_of_nodup h, List.length_map]
  rfl

/-- Where positions ascend, the first entry of an id has its lowest position. -/
theorem lookup_eq_some_iff_isLeast {es : List (Nat × Nat)}
    (h : es.Pairwise fun a b => a.2 < b.2) {id p : Nat} :
    es.lookup id = some p ↔ IsLeast {q | (id, q) ∈ es} p := by
  induction es with
  | nil => simp [IsLeast]
  | cons e es ih =>
    obtain ⟨k, q⟩ := e
    obtain ⟨hfirst, hrest⟩ := List.pairwise_cons.1 h
    rw [List.lookup_cons]
    by_cases hid : id = k
    · -- Whatever else has the id comes later, at a higher position.
      subst hid
      have hleast : IsLeast {r | (id, r) ∈ (id, q) :: es} q := by
        refine ⟨List.mem_cons_self, fun r hr => ?_⟩
        rcases List.mem_cons.1 hr with hr | hr
        · exact (Prod.mk.inj hr).2.ge
        · exact (hfirst (id, r) hr).le
      rw [beq_self_eq_true]
      exact ⟨fun hp => Option.some.inj hp ▸ hleast, fun hp => congrArg some (hleast.unique hp)⟩
    · have hlater : {r | (id, r) ∈ (k, q) :: es} = {r | (id, r) ∈ es} := by
        ext r
        simp [hid]
      rw [beq_false_of_ne hid, hlater]
      exact ih hrest

/-- The live documents of a segment are those that are not deleted, with their ids and positions. -/
theorem mem_liveDocs {s : Snapshot P} {start id p : Nat} : (id, p) ∈ liveDocs start s ↔
    ∃ l < s.docCount, p = start + l ∧ s.segment.stableId l = some id ∧ s.isDeleted l = false := by
  unfold liveDocs
  rw [List.mem_filterMap]
  constructor
  · rintro ⟨l, hl, hdoc⟩
    have hlt := List.mem_range.1 hl
    split at hdoc
    case isTrue => cases hdoc
    case isFalse hlive =>
      obtain ⟨i, hi, heq⟩ := Option.map_eq_some_iff.1 hdoc
      obtain ⟨rfl, rfl⟩ := Prod.mk.inj heq
      rw [Snapshot.stableIdAt, if_pos hlt] at hi
      exact ⟨l, hlt, rfl, hi, Bool.eq_false_iff.2 hlive⟩
  · rintro ⟨l, hlt, rfl, hid, hlive⟩
    refine ⟨l, List.mem_range.2 hlt, ?_⟩
    rw [hlive, if_neg Bool.false_ne_true, Snapshot.stableIdAt, if_pos hlt, hid]
    rfl

/-- The live documents of a segment are in the order of their positions. -/
theorem pairwise_liveDocs (start : Nat) (s : Snapshot P) :
    (liveDocs start s).Pairwise fun a b => a.2 < b.2 := by
  unfold liveDocs
  rw [List.pairwise_filterMap]
  refine List.pairwise_lt_range.imp fun {l m} hlm a ha b hb => ?_
  have hat : ∀ {l : Nat} {a : Nat × Nat}, (if s.isDeleted l then none
      else (s.stableIdAt l).map fun id => (id, start + l)) = some a → a.2 = start + l := by
    intro l a ha
    split at ha
    · cases ha
    · obtain ⟨id, -, rfl⟩ := Option.map_eq_some_iff.1 ha
      rfl
  rw [hat ha, hat hb]
  exact Nat.add_lt_add_left hlm start

end PositionTable

/-! ## Walking a view -/

namespace View

/-- A position of the view holds a document of this id that is not deleted. -/
structure LiveAt (v : View P) (id p : Nat) : Prop where
  lt_total : p < v.total
  stableIdAt : v.stableIdAt p = some id
  isDeleted : v.isDeleted p = false

/-- An id is live at a position below the total that has it and is not deleted. -/
theorem liveAt_iff {v : View P} {id p : Nat} :
    v.LiveAt id p ↔ p < v.total ∧ v.stableIdAt p = some id ∧ v.isDeleted p = false :=
  ⟨fun ⟨hp, hid, hlive⟩ => ⟨hp, hid, hlive⟩, fun ⟨hp, hid, hlive⟩ => ⟨hp, hid, hlive⟩⟩

/-- The documents that are not deleted, each with its id and its position, as they are walked. -/
def liveDocs (v : View P) : List (Nat × Nat) :=
  (v.segments.zip v.starts.toList).flatMap fun (s, start) => PositionTable.liveDocs start s

/-- The table of a view is filled with what is walked. -/
theorem ofView_eq (v : View P) :
    PositionTable.ofView v = ({} : PositionTable).fillNew v.liveDocs :=
  rfl

/-- The ids of the documents that are not deleted. -/
def liveIds (v : View P) : Finset Nat :=
  ((Finset.range v.total).filter fun p => v.isDeleted p = false).biUnion fun p =>
    (v.stableIdAt p).toFinset

/-- The live ids are those that are live at some position. -/
theorem mem_liveIds {v : View P} {id : Nat} : id ∈ v.liveIds ↔ ∃ p, v.LiveAt id p := by
  simp only [liveIds, Finset.mem_biUnion, Finset.mem_filter, Finset.mem_range,
    Option.mem_toFinset, Option.mem_def]
  constructor
  · rintro ⟨p, ⟨hp, hlive⟩, hid⟩
    exact ⟨p, hp, hid, hlive⟩
  · rintro ⟨p, hp, hid, hlive⟩
    exact ⟨p, ⟨hp, hlive⟩, hid⟩

namespace Sound

variable {v : View P}

/-- Each segment is walked with its start; the total is left over. -/
theorem getElem?_zip_starts (h : v.Sound) {i : Nat} {s : Snapshot P} {start : Nat} :
    (v.segments.zip v.starts.toList)[i]? = some (s, start) ↔
      v.segments[i]? = some s ∧ start = Boundaries.startOf v.counts i := by
  rw [List.getElem?_zip_eq_some, Array.getElem?_toList]
  refine and_congr_right fun hs => ?_
  rw [h.getElem?_starts hs, Option.some.injEq, eq_comm]

/-- What is walked is what the view says of its positions. -/
theorem mem_liveDocs (h : v.Sound) {id p : Nat} : (id, p) ∈ v.liveDocs ↔ v.LiveAt id p := by
  unfold liveDocs
  rw [List.mem_flatMap]
  constructor
  · rintro ⟨⟨s, start⟩, hmem, hdoc⟩
    obtain ⟨i, hi⟩ := List.getElem?_of_mem hmem
    obtain ⟨hs, rfl⟩ := h.getElem?_zip_starts.1 hi
    obtain ⟨l, hl, rfl, hid, hlive⟩ := PositionTable.mem_liveDocs.1 hdoc
    refine ⟨?_, (h.stableIdAt_startOf_add hs hl).trans hid,
      (h.isDeleted_startOf_add hs hl).1.trans hlive⟩
    exact lt_total_of_documentAt? (h.documentAt?_eq_some_iff.2 ⟨i, hs, hl, rfl⟩)
  · rintro ⟨hp, hid, hlive⟩
    obtain ⟨s, l, hdoc⟩ := h.exists_documentAt? hp
    obtain ⟨i, hs, hl, rfl⟩ := h.documentAt?_eq_some_iff.1 hdoc
    refine ⟨(s, _), List.mem_of_getElem? (h.getElem?_zip_starts.2 ⟨hs, rfl⟩),
      PositionTable.mem_liveDocs.2 ⟨l, hl, rfl, ?_, ?_⟩⟩
    · rw [← h.stableIdAt_startOf_add hs hl, hid]
    · rw [← (h.isDeleted_startOf_add hs hl).1, hlive]

/-- Segments are walked from their starts on, and the next one starts where they end, so that
positions ascend although empty segments share their start. -/
theorem pairwise_liveDocs (h : v.Sound) : v.liveDocs.Pairwise fun a b => a.2 < b.2 := by
  unfold liveDocs
  rw [List.pairwise_flatMap]
  refine ⟨fun x _ => PositionTable.pairwise_liveDocs x.2 x.1, ?_⟩
  rw [List.pairwise_iff_getElem]
  rintro i j hi hj hij ⟨a, p⟩ ha ⟨b, q⟩ hb
  obtain ⟨l, hl, rfl, -⟩ := PositionTable.mem_liveDocs.1 ha
  obtain ⟨m, -, rfl, -⟩ := PositionTable.mem_liveDocs.1 hb
  obtain ⟨hs, hstart⟩ := h.getElem?_zip_starts.1 (List.getElem?_eq_getElem hi)
  obtain ⟨-, hstart'⟩ := h.getElem?_zip_starts.1 (List.getElem?_eq_getElem hj)
  -- The next segment starts where this one ends, and no later one starts before that.
  have hend := Boundaries.startOf_succ ((v.getElem?_counts i).trans (congrArg _ hs))
  have hle := Boundaries.startOf_mono v.counts (Nat.succ_le_of_lt hij)
  dsimp only [Option.map_some, Nat.succ_eq_add_one] at *
  omega

/-- The table has the lowest live position of an id. -/
theorem position_ofView_eq_some_iff (h : v.Sound) {id p : Nat} :
    (PositionTable.ofView v).position id = some p ↔ IsLeast {q | v.LiveAt id q} p := by
  have hset : {q | v.LiveAt id q} = {q | (id, q) ∈ v.liveDocs} := by
    ext q
    exact h.mem_liveDocs.symm
  rw [hset, ← PositionTable.lookup_eq_some_iff_isLeast h.pairwise_liveDocs, ofView_eq,
    PositionTable.position_fillNew, PositionTable.position_empty, Option.none_or]

/-- An id is in the table of a view exactly when it is live. -/
theorem isSome_position_ofView_iff (h : v.Sound) {id : Nat} :
    ((PositionTable.ofView v).position id).isSome = true ↔ ∃ p, v.LiveAt id p := by
  rw [Option.isSome_iff_exists]
  constructor
  · rintro ⟨p, hp⟩
    exact ⟨p, (h.position_ofView_eq_some_iff.1 hp).1⟩
  · intro hlive
    obtain ⟨p, hleast⟩ : ∃ p, IsLeast {q | v.LiveAt id q} p :=
      ⟨sInf _, Nat.sInf_mem hlive, fun q hq => Nat.sInf_le hq⟩
    exact ⟨p, h.position_ofView_eq_some_iff.2 hleast⟩

/-- And none where no live document has the id. -/
theorem position_ofView_eq_none_iff (h : v.Sound) {id : Nat} :
    (PositionTable.ofView v).position id = none ↔ ¬ ∃ p, v.LiveAt id p := by
  rw [← h.isSome_position_ofView_iff, Option.not_isSome_iff_eq_none]

/-- The table has one entry for each id of a live document. -/
theorem size_ofView (h : v.Sound) : (PositionTable.ofView v).size = v.liveIds.card := by
  have hempty : ({} : PositionTable).Distinct := List.nodup_nil
  rw [ofView_eq]
  refine (hempty.fillNew v.liveDocs).size_eq_card fun id => ?_
  exact mem_liveIds.trans h.isSome_position_ofView_iff.symm

end Sound

end View

/-! ## What of a view is read -/

/-- What is walked of a segment: its documents, and the deletes of them that are committed. -/
def Snapshot.published (x : Snapshot P) : Segment × DeletedDocs :=
  (x.segment, x.deletes.committed)

/-- Marks leave what is published alone. -/
@[simp] theorem Snapshot.published_markAll (x : Snapshot P) (ls : List Nat) :
    (x.markAll ls).1.published = x.published :=
  congrArg (Prod.mk x.segment) (x.deletes.committed_markAll ls)

namespace View

/-- Two views with the same boundaries over the same segments, with the same deletes committed,
whatever is staged. -/
structure SameCommitted (v w : View P) : Prop where
  boundaries : w.boundaries = v.boundaries
  segments : w.segments.map Snapshot.published = v.segments.map Snapshot.published

namespace SameCommitted

variable {u v w : View P}

/-- A view has the committed deletes of itself. -/
theorem refl (v : View P) : SameCommitted v v := ⟨rfl, rfl⟩

/-- To have the same committed deletes is passed on. -/
theorem trans (huv : SameCommitted u v) (hvw : SameCommitted v w) : SameCommitted u w :=
  ⟨hvw.boundaries.trans huv.boundaries, hvw.segments.trans huv.segments⟩

/-- The same committed deletes are deletes of the same documents. -/
theorem sameDocuments (h : SameCommitted v w) : SameDocuments v w := by
  refine ⟨h.boundaries, ?_⟩
  have hsegments := congrArg (List.map Prod.fst) h.segments
  rwa [List.map_map, List.map_map] at hsegments

/-- The same committed deletes make the same table. -/
theorem ofView_eq (h : SameCommitted v w) : PositionTable.ofView w = PositionTable.ofView v := by
  have hread : ∀ v : View P, v.liveDocs =
      ((v.segments.map Snapshot.published).zip v.starts.toList).flatMap fun (x, start) =>
        (List.range x.1.docCount).filterMap fun l => if x.2.contains l then none
          else (if l < x.1.docCount then x.1.stableId l else none).map fun id =>
            (id, start + l) := by
    intro v
    rw [List.zip_map_left, List.flatMap_map]
    rfl
  rw [View.ofView_eq, View.ofView_eq, hread, hread, h.segments, View.starts, View.starts,
    h.boundaries]

/-- Marks leave the committed deletes alone. -/
theorem markOffsets (v : View P) (offsets : Nat → Snapshot P → List Nat) :
    SameCommitted v (v.markOffsets offsets).1 := by
  refine ⟨rfl, ?_⟩
  apply List.ext_getElem?
  intro i
  rw [List.getElem?_map, getElem?_markOffsets, Option.map_map, List.getElem?_map]
  congr 1
  funext x
  exact x.published_markAll _

/-- A change of one segment that keeps what is published keeps the committed deletes. -/
theorem modifySegment (v : View P) (i : Nat) {change : Snapshot P → Snapshot P}
    (hchange : ∀ x, (change x).published = x.published) :
    SameCommitted v (v.modifySegment i change) :=
  ⟨rfl, map_modify_eq hchange v.segments i⟩

end SameCommitted

end View

end SegmentedView
