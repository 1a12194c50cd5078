import SegmentedView.Proofs.System.Evolution
import SegmentedView.Proofs.View.Counts
import SegmentedView.Store.SegmentList

/-!
# Counts of reachable views

Whatever happens in a system, its views count right: the table of starts, the sizes of the
delete sets, the number of marks that each of them carries along and the number of deleted
documents of the whole view all agree with what can be looked up (`counts_agree`).
-/

set_option autoImplicit false

namespace SegmentedView.System

variable {σ P : Type} [SegmentStore σ]

/-- The documents of a view of a reachable system are counted by a word. -/
theorem Reachable.total_le {s : System σ P} (h : s.Reachable) {k : Nat} {v : View P}
    (hv : s.view? k = some v) : v.total ≤ maxWord := by
  refine h.forall_view (fun v => v.total ≤ maxWord) (fun st k v w hle hevolves => ?_)
    (fun s w ih hborn => ?_) hv
  · rw [hevolves.sameDocuments.total]
    exact hle
  · cases hborn with
    | copied slot v hv hopen => exact ih slot v hv
    | opened prior d config g a hp hg ha =>
      exact Generation.total_le_of_outline (Generation.outline_of_assemble ha)

/-- Counts agree with what can be looked up. In every view of a reachable system the starts are
one for each segment and the total, a segment's documents apart; every delete set speaks of the
documents of its segment and its count is the number of its marks; the deletes of the whole view
are its deleted positions, and those that are looked up while it is open; and they and the live
documents add up to the total, with nothing on the way that is no word. -/
theorem counts_agree {s : System σ P} (hs : s.Reachable) {k : Nat} {v : View P}
    (hv : s.view? k = some v) :
    v.starts.size = v.segments.length + 1 ∧
      (∀ i x, v.segments[i]? = some x → ∃ start, v.starts[i]? = some start ∧
        v.starts[i + 1]? = some (start + x.docCount)) ∧
      (∀ x ∈ v.segments, x.deletes.committed.size = x.docCount ∧
        x.deletes.committed.count = x.deletes.committed.marks.count true) ∧
      v.deletedCount = ((Finset.range v.total).filter fun p => v.isDeleted p = true).card ∧
      (s.isClosed v = false → v.deletedCount =
        ((Finset.range v.total).filter fun p => s.isDeleted k p = .ok true).card) ∧
      v.deletedCount + v.liveCount = v.total ∧ v.total ≤ maxWord ∧
      ∀ n, addUp ((v.segments.map Snapshot.deletedCount).take n) ≤ v.total := by
  have hsound := hs.sound hv
  have hexact := hs.exact hv
  have hcount := hsound.deletedCount_eq_card hexact
  have hle := hsound.deletedCount_le_total hexact
  refine ⟨hsound.size_starts, fun i x hx => hsound.starts_of_getElem? hx, fun x hx => ?_, hcount,
    fun hopen => ?_, Nat.add_sub_of_le hle, hs.total_le hv, fun n => ?_⟩
  · exact ⟨(hsound.snapshot x hx).size, (hexact x hx).committed⟩
  · have hfound : s.findOpenView k = .ok v := findOpenView_eq_ok_iff.2 ⟨hv, hopen⟩
    have hlookup : ∀ p, s.isDeleted k p = .ok true ↔ v.isDeleted p = true := by
      intro p
      unfold isDeleted
      rw [hfound]
      exact ⟨Except.ok.inj, congrArg Except.ok⟩
    simp only [hlookup]
    exact hcount
  · exact (v.addUp_take_le_deletedCount n).trans hle

/-- Segment "a" shrinks from 4 documents to 2 and "c" grows from 3 to 5, each with deletes, one
of them in what is cut off, and an empty segment between them: a copy of the reopened view has
7 documents, of which 3 are deleted. -/
theorem counts_agree_of_resizing :
    let s := ({ store := .ofSegments [.sequential "a" 0 4, .ofIds "b" [], .sequential "c" 10 3] } :
      System SegmentList Segment).run
        [.openView .segments {}, .markAt 0 [0, 3, 5], .commit 0,
          .changeStore fun store => (store.change (.replace (.sequential "a" 0 2))).1,
          .changeStore fun store => (store.change (.replace (.sequential "c" 10 5))).1,
          .markAt 0 [1], .reopen 0 0, .copy 1, .commit 2]
    ∃ v, s.view? 2 = some v ∧ v.starts = #[0, 2, 2, 7] ∧ v.deletedCount = 3 ∧ v.liveCount = 4 ∧
      ((Finset.range 7).filter fun p => s.isDeleted 2 p = .ok true).card = 3 := by
  intro s
  obtain ⟨v, hv, hopen, hstarts⟩ : ∃ v, s.view? 2 = some v ∧ s.isClosed v = false ∧
      v.starts = #[0, 2, 2, 7] := ⟨_, rfl, rfl, rfl⟩
  have hdeleted : (s.view? 2).map View.deletedCount = some 3 := by decide +kernel
  rw [hv, Option.map_some, Option.some.injEq] at hdeleted
  obtain ⟨-, -, -, -, hlookups, hadd, -, -⟩ := counts_agree ⟨_, _, rfl⟩ hv
  have htotal : v.total = 7 := by
    rw [View.total, Boundaries.total, show v.boundaries.starts = #[0, 2, 2, 7] from hstarts]
    rfl
  rw [htotal, hdeleted] at hadd hlookups
  exact ⟨v, hv, hstarts, hdeleted, by omega, (hlookups hopen).symm⟩

end SegmentedView.System
