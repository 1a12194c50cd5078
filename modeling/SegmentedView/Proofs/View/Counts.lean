import SegmentedView.Proofs.Boundaries.Overflow
import SegmentedView.Proofs.Deletes.Offsets
import SegmentedView.Proofs.View.Outline

/-!
# The counts of a view

A view answers how many of its documents are deleted by adding up what its segments have
counted. In a sound view with exact counts that is the number of deleted positions
(`View.Sound.deletedCount_eq_card`), so that the live documents are the rest, and nothing on
the way to either number is more than the total.
-/

set_option autoImplicit false

namespace SegmentedView

variable {P : Type}

/-- The total of an outline is a word. -/
theorem Generation.total_le_of_outline {g : Generation} {config : Config} {b : Boundaries}
    (h : g.outline config = .ok b) : b.total ≤ maxWord := by
  unfold outline at h
  split at h
  case h_1 => cases h
  case h_2 segments hsegments =>
    unfold layOut at h
    split at h
    case h_1 => cases h
    case h_2 table htable =>
      split at h
      case isTrue => cases h
      case isFalse =>
        cases h
        rw [(Boundaries.isTableOf_of_ofCounts htable).total]
        exact Boundaries.sum_le_of_ofCounts htable

namespace View.Sound

variable {v : View P}

/-- There is a start for every segment, and the total. -/
theorem size_starts (h : v.Sound) : v.starts.size = v.segments.length + 1 := by
  have hsize := h.table.size
  rwa [counts, List.length_map] at hsize

/-- A segment starts as far before the next one as it has documents. -/
theorem starts_of_getElem? (h : v.Sound) {i : Nat} {x : Snapshot P}
    (hx : v.segments[i]? = some x) :
    ∃ start, v.starts[i]? = some start ∧ v.starts[i + 1]? = some (start + x.docCount) := by
  have hcount : v.counts[i]? = some x.docCount := by
    rw [getElem?_counts, hx, Option.map_some]
  obtain ⟨hi, -⟩ := List.getElem?_eq_some_iff.1 hcount
  have hnext := h.table.start (i + 1) hi
  rw [Boundaries.startOf_succ hcount] at hnext
  exact ⟨Boundaries.startOf v.counts i, h.getElem?_starts hx, hnext⟩

/-- The counted deletes are the deleted positions. -/
theorem deletedCount_eq_card (h : v.Sound) (hexact : ∀ x ∈ v.segments, x.deletes.Exact) :
    v.deletedCount = ((Finset.range v.total).filter fun p => v.isDeleted p = true).card := by
  have hsum : v.deletedCount = (v.segments.map Snapshot.deletedCount).sum := rfl
  rw [hsum, h.total, Boundaries.card_filter_positions]
  congr 1
  apply List.ext_getElem?
  intro i
  rw [List.getElem?_mapIdx, getElem?_counts, List.getElem?_map]
  cases hx : v.segments[i]? with
  | none => rfl
  | some x =>
    have hmem := List.mem_of_getElem? hx
    have hsize : x.deletes.committed.size = x.docCount := (h.snapshot x hmem).size
    simp only [Option.map_some, Option.some.injEq]
    rw [Snapshot.deletedCount, (hexact x hmem).committed.count_eq_card, hsize]
    congr 1
    ext l
    simp only [Finset.mem_filter, Finset.mem_range, and_congr_right_iff]
    intro hl
    rw [(h.isDeleted_startOf_add hx hl).1]
    rfl

/-- No more documents are deleted than there are. -/
theorem deletedCount_le_total (h : v.Sound) (hexact : ∀ x ∈ v.segments, x.deletes.Exact) :
    v.deletedCount ≤ v.total := by
  rw [h.deletedCount_eq_card hexact]
  simpa using Finset.card_filter_le (Finset.range v.total) fun p => v.isDeleted p = true

end View.Sound

/-- Adding up the deletes of the segments never passes the whole. -/
theorem View.addUp_take_le_deletedCount (v : View P) (n : Nat) :
    addUp ((v.segments.map Snapshot.deletedCount).take n) ≤ v.deletedCount :=
  (List.take_sublist n _).sum_le_sum fun _ _ => Nat.zero_le _

end SegmentedView
