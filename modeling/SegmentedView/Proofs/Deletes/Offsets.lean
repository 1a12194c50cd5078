import SegmentedView.Proofs.Deletes.Resizing

/-!
# Deleted offsets, listed and counted

A set of deleted offsets says three times what is in it: by `contains`, by the list of its
`offsets`, and by the count that it carries along. The list is in ascending order
(`pairwise_offsets`), so the count of an exact set is the number of documents that are in it
(`Exact.count_eq_card`); and such a set is known by its size and its offsets
(`Exact.eq_iff`).
-/

set_option autoImplicit false

namespace SegmentedView.DeletedDocs

/-- The offsets of a set are in ascending order. -/
theorem pairwise_offsets (d : DeletedDocs) : d.offsets.Pairwise (· < ·) := by
  have hplaces : d.marks.zipIdx.Pairwise fun a b => a.2 < b.2 := by
    apply List.pairwise_map.1
    rw [List.zipIdx_map_snd]
    exact List.pairwise_lt_range' 1
  refine hplaces.filterMap _ fun a b hlt l hl m hm => ?_
  have hfirst : a.2 = l := Option.some.inj (Option.ite_none_right_eq_some.1 hl).2
  have hsecond : b.2 = m := Option.some.inj (Option.ite_none_right_eq_some.1 hm).2
  rw [← hfirst, ← hsecond]
  exact hlt

/-- A set has an offset for every mark. -/
theorem length_offsets (d : DeletedDocs) : d.offsets.length = d.marks.count true := by
  have hsome : ∀ a : Bool × Nat, (if a.1 then some a.2 else none).isSome = (a.1 == true) := by
    rintro ⟨marked, l⟩
    cases marked <;> rfl
  unfold offsets
  rw [List.length_filterMap_eq_countP, funext hsome, List.count_eq_countP]
  conv_rhs => rw [← List.zipIdx_map_fst 0 d.marks, List.countP_map]
  rfl

/-- The documents in the set, as a set. -/
theorem toFinset_offsets (d : DeletedDocs) :
    d.offsets.toFinset = (Finset.range d.size).filter fun l => d.contains l = true := by
  ext l
  simp only [List.mem_toFinset, mem_offsets, Finset.mem_filter, Finset.mem_range,
    iff_and_self]
  exact lt_size_of_contains

/-- The count of an exact set is the number of documents that are in it. -/
theorem Exact.count_eq_card {d : DeletedDocs} (h : d.Exact) :
    d.count = ((Finset.range d.size).filter fun l => d.contains l = true).card := by
  rw [← toFinset_offsets, List.toFinset_card_of_nodup d.pairwise_offsets.nodup, length_offsets]
  exact h

/-- Exact sets are equal exactly when they have one size and the same offsets. -/
theorem Exact.eq_iff {d e : DeletedDocs} (hd : d.Exact) (he : e.Exact) :
    d = e ↔ d.size = e.size ∧ ∀ l, d.contains l = true ↔ e.contains l = true := by
  constructor
  · rintro rfl
    exact ⟨rfl, fun _ => Iff.rfl⟩
  · rintro ⟨hsize, hcontains⟩
    exact hd.ext he hsize fun l => Bool.eq_iff_iff.2 (hcontains l)

end SegmentedView.DeletedDocs
