import SegmentedView.Proofs.System.Closure
import SegmentedView.Proofs.System.Counts
import SegmentedView.Proofs.View.FirstLive

/-!
# Tables in a system

As long as it keeps its number a view keeps its documents, and its committed deletes too while
nothing commits deletes of it (`Evolves.sameCommitted`, `System.sameCommitted_run`). So the table
of a view is the same whatever is staged, and `System.ofView_has_first_live` says what is in it.
-/

set_option autoImplicit false

namespace SegmentedView

variable {σ P : Type}

/-- Whether a step commits deletes of the view of a number, all of them or those of a segment. -/
def Step.commitsOn (k : Nat) : Step σ P → Bool
  | .commit slot => slot == k
  | .changeSegment slot _ .commit => slot == k
  | _ => false

/-- A step that does not commit a view leaves its committed deletes alone. -/
theorem Evolves.sameCommitted {st : Step σ P} {k : Nat} {v w : View P} (h : Evolves st k v w)
    (hst : st.commitsOn k = false) : View.SameCommitted v w := by
  cases h with
  | same => exact .refl v
  | closed => exact ⟨rfl, rfl⟩
  | installed => exact ⟨rfl, rfl⟩
  | markedIds => exact .markOffsets v _
  | markedAt => exact .markOffsets v _
  | committed => simp [Step.commitsOn] at hst
  | segment k i change =>
    apply View.SameCommitted.modifySegment
    intro x
    cases change with
    | mark l => exact x.published_markAll [l]
    | markAll ls => exact x.published_markAll ls
    | markIds ids => exact x.published_markAll _
    | commit => simp [Step.commitsOn] at hst

namespace System

variable [SegmentStore σ]

/-- A run gives out numbers and takes none back. -/
theorem length_views_run (s : System σ P) (steps : List (Step σ P)) :
    s.views.length ≤ (s.run steps).views.length := by
  induction steps generalizing s with
  | nil => exact le_rfl
  | cons st steps ih => exact (s.length_views_step st).trans (ih (s.step st).system)

/-- A number holds a view after a run only if it held one before. -/
theorem exists_view_of_run {s : System σ P} {k : Nat} (hlt : k < s.views.length)
    {steps : List (Step σ P)} {w : View P} (hw : (s.run steps).view? k = some w) :
    ∃ v, s.view? k = some v := by
  induction steps generalizing s with
  | nil => exact ⟨w, hw⟩
  | cons st steps ih =>
    obtain ⟨x, hx⟩ := ih (hlt.trans_le (s.length_views_step st)) hw
    rcases view?_step hx with ⟨v, hv, -⟩ | ⟨hk, -⟩
    · exact ⟨v, hv⟩
    · omega

/-- What a view has, and what the steps of a run keep, the view of its number has after the
run: the number is given to no other. -/
theorem holds_run {s : System σ P} {k : Nat} {v w : View P} (Holds : View P → Prop)
    {steps : List (Step σ P)}
    (hsteps : ∀ st ∈ steps, ∀ x y, Holds x → Evolves st k x y → Holds y)
    (hv : s.view? k = some v) (hholds : Holds v) (hw : (s.run steps).view? k = some w) :
    Holds w := by
  -- From the last step back: the view was there before it, for no new view gets the number.
  induction steps using List.reverseRecOn generalizing w with
  | nil =>
    cases hv.symm.trans hw
    exact hholds
  | append_singleton steps st ih =>
    rw [run_snoc] at hw
    rcases view?_step hw with ⟨u, hu, hevolves⟩ | ⟨hk, -⟩
    · exact hsteps st (by simp) u w
        (ih (fun st hst => hsteps st (List.mem_append_left _ hst)) hu) hevolves
    · have hlt := (lt_length_of_view? hv).trans_le (s.length_views_run steps)
      omega

/-- A run that does not commit a view leaves its committed deletes alone. -/
theorem sameCommitted_run {s : System σ P} {k : Nat} {v w : View P} {steps : List (Step σ P)}
    (hsteps : ∀ st ∈ steps, st.commitsOn k = false) (hv : s.view? k = some v)
    (hw : (s.run steps).view? k = some w) : View.SameCommitted v w :=
  holds_run (View.SameCommitted v)
    (fun st hst _ _ hsame hevolves => hsame.trans (hevolves.sameCommitted (hsteps st hst)))
    hv (.refl v) hw

/-- The table of a view has the first live document of every id and nothing else. It gives a
position for an id exactly when that is the lowest one below the total whose document has the id
and is not deleted, none exactly when there is no such position, and its size is the number of ids
of live documents. What is staged does not matter: the table stays as long as no deletes of the
view are committed. No position on the way passes the total, which is a word; and while the view
is open its look-ups say which documents are live. -/
theorem ofView_has_first_live {s : System σ P} (hs : s.Reachable) {k : Nat} {v : View P}
    (hv : s.view? k = some v) :
    (∀ id p, (PositionTable.ofView v).position id = some p ↔ IsLeast {q | v.LiveAt id q} p) ∧
      (∀ id, (PositionTable.ofView v).position id = none ↔ ¬ ∃ p, v.LiveAt id p) ∧
      (PositionTable.ofView v).size = v.liveIds.card ∧
      (∀ steps : List (Step σ P), (∀ st ∈ steps, st.commitsOn k = false) → ∀ w,
        (s.run steps).view? k = some w → PositionTable.ofView w = PositionTable.ofView v) ∧
      (∀ x start, (x, start) ∈ v.segments.zip v.starts.toList → ∀ l < x.docCount,
        start + l < v.total) ∧
      v.total ≤ maxWord ∧
      (s.isClosed v = false → ∀ id p, v.LiveAt id p ↔
        p < v.total ∧ s.stableIdAt k p = .ok (some id) ∧ s.isDeleted k p = .ok false) := by
  have hsound := hs.sound hv
  refine ⟨fun id p => hsound.position_ofView_eq_some_iff,
    fun id => hsound.position_ofView_eq_none_iff, hsound.size_ofView,
    fun steps hsteps w hw => (sameCommitted_run hsteps hv hw).ofView_eq,
    fun x start hmem l hl => ?_, hs.total_le hv, fun hopen id p => ?_⟩
  · obtain ⟨i, hi⟩ := List.getElem?_of_mem hmem
    obtain ⟨hx, rfl⟩ := hsound.getElem?_zip_starts.1 hi
    exact View.lt_total_of_documentAt? (hsound.documentAt?_eq_some_iff.2 ⟨i, hx, hl, rfl⟩)
  · obtain ⟨hid, hdeleted⟩ := (lookups_of_open hv hopen).1 p
    rw [View.liveAt_iff, hid, hdeleted, Except.ok.injEq, Except.ok.injEq]

/-- Of three documents with the id 7 the first is deleted and the second staged: the second is
the first that is live, although an empty segment starts where it does. -/
theorem ofView_has_first_live_of_repeats :
    let s := ({ store := .ofSegments [.ofIds "a" [7, 8], .ofIds "b" [], .ofIds "c" [7, 7, 9]] } :
      System SegmentList Segment).run
        [.openView .segments {}, .markAt 0 [0], .commit 0, .markAt 0 [2]]
    ∃ v, s.view? 0 = some v ∧ IsLeast {q | v.LiveAt 7 q} 2 ∧ (¬ ∃ q, v.LiveAt 5 q) ∧
      v.liveIds.card = 3 := by
  intro s
  obtain ⟨v, hv⟩ : ∃ v, s.view? 0 = some v := ⟨_, rfl⟩
  obtain ⟨hfirst, hnone, hsize, -⟩ := ofView_has_first_live ⟨_, _, rfl⟩ hv
  have htable : (s.view? 0).map PositionTable.ofView = some ⟨[(9, 4), (7, 2), (8, 1)]⟩ := by
    decide +kernel
  rw [hv, Option.map_some, Option.some.injEq] at htable
  rw [htable] at hfirst hnone hsize
  exact ⟨v, hv, (hfirst 7 2).1 rfl, (hnone 5).1 rfl, hsize.symm⟩

end System

end SegmentedView
