import SegmentedView.Proofs.System.Evolution
import SegmentedView.Store.SegmentList

/-!
# Runs of marks and commits

The deletes of an open view refine two sets of positions: every mark and every commit
answers what the set operation answers, and moves the deletes of the view as the sets
move (`deletes_refine_sets`). The view may be any view of any reachable system, so its
deletes may be new, forked from another view's, or carried over from an earlier
generation and cut or extended to the segments of this one.
-/

set_option autoImplicit false

namespace SegmentedView

variable {σ P : Type}

/-- One operation on the deletes of a view. -/
inductive DeleteOp
  | markIds (ids : List Nat)
  | markAt (positions : List Nat)
  | commit
  deriving DecidableEq, Repr

namespace DeleteOp

/-- The operation as a step of a system, on the view of a number. -/
def toStep (slot : Nat) : DeleteOp → Step σ P
  | .markIds ids => .markIds slot ids
  | .markAt positions => .markAt slot positions
  | .commit => .commit slot

/-- What the operation does to a pair of delete sets, and what it answers: `positionsOf`
gives the positions whose document has an id, and `total` is the end of the view. -/
def onSets (total : Nat) (positionsOf : List Nat → Finset Nat) (d : DeleteSets) :
    DeleteOp → DeleteSets × Answer
  | .markIds ids => (d.mark (positionsOf ids), .count (d.fresh (positionsOf ids)))
  | .markAt positions =>
    (d.mark (positions.toFinset.filter (· < total)),
      .count (d.fresh (positions.toFinset.filter (· < total))))
  | .commit => (d.commit, .done)

/-- What operations do to a pair of delete sets one after the other, and their answers. -/
def runOnSets (total : Nat) (positionsOf : List Nat → Finset Nat) (d : DeleteSets) :
    List DeleteOp → DeleteSets × List Answer
  | [] => (d, [])
  | op :: ops =>
    let after := op.onSets total positionsOf d
    let rest := runOnSets total positionsOf after.1 ops
    (rest.1, after.2 :: rest.2)

end DeleteOp

namespace View

/-- The operation on the view itself. -/
def applyOp (v : View P) : DeleteOp → View P × Answer
  | .markIds ids => ((v.markIds ids).1, .count (v.markIds ids).2)
  | .markAt positions => ((v.markAt positions).1, .count (v.markAt positions).2)
  | .commit => (v.commit, .done)

/-- An operation on deletes keeps a view sound. -/
theorem Sound.sound_applyOp {v : View P} (h : v.Sound) (op : DeleteOp) :
    (v.applyOp op).1.Sound := by
  cases op with
  | markIds ids => exact h.markOffsets
  | markAt positions => exact h.markOffsets
  | commit => exact h.commit

/-- Marks and commits leave the documents alone. -/
theorem sameDocuments_applyOp (v : View P) (op : DeleteOp) :
    SameDocuments v (v.applyOp op).1 := by
  cases op with
  | markIds ids => exact sameDocuments_markOffsets v
  | markAt positions => exact sameDocuments_markOffsets v
  | commit => exact sameDocuments_commit v

/-- Views of the same documents have the same positions of ids. -/
theorem SameDocuments.positionsOf {v w : View P} (h : SameDocuments v w) :
    w.positionsOf = v.positionsOf := by
  funext ids
  unfold View.positionsOf
  rw [h.total]
  congr 1
  ext p
  rw [h.stableIdAt p]

/-- One operation on a sound view acts on its delete sets as on sets. -/
theorem Sound.deleteSets_applyOp {v : View P} (h : v.Sound) (op : DeleteOp) :
    (v.applyOp op).1.deleteSets = (op.onSets v.total v.positionsOf v.deleteSets).1 ∧
      (v.applyOp op).2 = (op.onSets v.total v.positionsOf v.deleteSets).2 := by
  cases op with
  | markIds ids =>
    obtain ⟨hsets, hcount⟩ := h.deleteSets_markIds ids
    exact ⟨hsets, congrArg Answer.count hcount⟩
  | markAt positions =>
    obtain ⟨hsets, hcount⟩ := h.deleteSets_markAt positions
    exact ⟨hsets, congrArg Answer.count hcount⟩
  | commit => exact ⟨h.deleteSets_commit, rfl⟩

end View

namespace System

/-- Marks and commits of an open view do not close it. -/
theorem isClosed_applyOp {s : System σ P} {slot : Nat} {v : View P}
    (hopen : s.isClosed v = false) (op : DeleteOp) :
    (s.setView slot (v.applyOp op).1).isClosed (v.applyOp op).1 = false := by
  have hlease : (v.applyOp op).1.lease = v.lease := by cases op <;> rfl
  have hclosed : (v.applyOp op).1.closed = v.closed := by cases op <;> rfl
  unfold isClosed
  rw [hlease, hclosed, lease_setView]
  exact hopen

variable [SegmentStore σ]

/-- What the steps of a run answer, one after the other. -/
def answers (s : System σ P) : List (Step σ P) → List (Except Error Answer)
  | [] => []
  | st :: steps => (s.step st).result :: (s.step st).system.answers steps

/-- On an open view an operation answers, and the view moves by the operation. -/
theorem step_toStep {s : System σ P} {slot : Nat} {v : View P} (hv : s.view? slot = some v)
    (hopen : s.isClosed v = false) (op : DeleteOp) :
    s.step (op.toStep slot) = (s.setView slot (v.applyOp op).1).done (v.applyOp op).2 := by
  cases op with
  | markIds ids =>
    change (s.markIds slot ids).map Answer.count = _
    rw [markIds_eq, changeOpenView_of_open hv hopen]
    rfl
  | markAt positions =>
    change (s.markAt slot positions).map Answer.count = _
    rw [markAt_eq, changeOpenView_of_open hv hopen]
    rfl
  | commit =>
    change (s.commit slot).map (fun _ => Answer.done) = _
    rw [commit_eq, changeOpenView_of_open hv hopen]
    rfl

/-- An operation on the deletes of a view fails and does nothing, or the view is open and
moves by the operation. -/
theorem toStep_cases (s : System σ P) (slot : Nat) (op : DeleteOp) :
    (∃ e, s.step (op.toStep slot) = s.fail e) ∨
      ∃ v, s.view? slot = some v ∧ s.isClosed v = false ∧
        s.step (op.toStep slot) = (s.setView slot (v.applyOp op).1).done (v.applyOp op).2 := by
  cases hf : s.findOpenView slot with
  | ok v =>
    obtain ⟨hv, hopen⟩ := findOpenView_eq_ok_iff.1 hf
    exact .inr ⟨v, hv, hopen, step_toStep hv hopen op⟩
  | error e =>
    have hfails : ∀ {α : Type} (change : View P → View P × α),
        s.changeOpenView slot change = s.fail e := by
      intro α change
      unfold changeOpenView
      rw [hf]
    left
    refine ⟨e, ?_⟩
    cases op with
    | markIds ids =>
      change (s.markIds slot ids).map Answer.count = _
      rw [markIds_eq, hfails]
      rfl
    | markAt positions =>
      change (s.markAt slot positions).map Answer.count = _
      rw [markAt_eq, hfails]
      rfl
    | commit =>
      change (s.commit slot).map (fun _ => Answer.done) = _
      rw [commit_eq, hfails]
      rfl

/-- A run of marks and commits on an open sound view answers what the sets answer, and
leaves a view that is open and has those sets. -/
theorem run_toStep {s : System σ P} {slot : Nat} {v : View P} (hsound : v.Sound)
    (hv : s.view? slot = some v) (hopen : s.isClosed v = false) (ops : List DeleteOp) :
    ∃ w, (s.run (ops.map (DeleteOp.toStep slot))).view? slot = some w ∧
      (s.run (ops.map (DeleteOp.toStep slot))).isClosed w = false ∧
      w.deleteSets = (DeleteOp.runOnSets v.total v.positionsOf v.deleteSets ops).1 ∧
      s.answers (ops.map (DeleteOp.toStep slot)) =
        (DeleteOp.runOnSets v.total v.positionsOf v.deleteSets ops).2.map .ok := by
  induction ops generalizing s v with
  | nil => exact ⟨v, hv, hopen, rfl, rfl⟩
  | cons op ops ih =>
    have hstep := step_toStep hv hopen op
    obtain ⟨hsets, hanswer⟩ := hsound.deleteSets_applyOp op
    have hsame := v.sameDocuments_applyOp op
    obtain ⟨w, hw, hwopen, hwsets, hwanswers⟩ := ih (hsound.sound_applyOp op)
      (s := s.setView slot (v.applyOp op).1) (view?_setView_self hv) (isClosed_applyOp hopen op)
    rw [hsame.total, hsame.positionsOf, hsets] at hwsets hwanswers
    rw [List.map_cons, run, answers, hstep, system_done, hwanswers, hanswer]
    exact ⟨w, hw, hwopen, hwsets, rfl⟩

/-- The deletes of an open view refine two sets of positions. Any run of marks by id, marks
by position and commits on it answers as on the sets: a mark counts the targets that are
neither deleted nor staged, whatever their order and repetitions, and stages the ones that
are not deleted; a commit deletes what is staged. Afterwards the view has those sets, and
a position is reported as deleted exactly when it is in the first. -/
theorem deletes_refine_sets {s : System σ P} (hs : s.Reachable) {slot : Nat} {v : View P}
    (hv : s.view? slot = some v) (hopen : s.isClosed v = false) (ops : List DeleteOp) :
    let steps := ops.map (DeleteOp.toStep slot)
    let sets := DeleteOp.runOnSets v.total v.positionsOf v.deleteSets ops
    s.answers steps = sets.2.map .ok ∧
      (∃ w, (s.run steps).view? slot = some w ∧ w.deleteSets = sets.1) ∧
      ∀ p, (s.run steps).isDeleted slot p = .ok (decide (p ∈ sets.1.deleted)) := by
  intro steps sets
  obtain ⟨w, hw, hwopen, hwsets, hwanswers⟩ := run_toStep (hs.sound hv) hv hopen ops
  refine ⟨hwanswers, ⟨w, hw, hwsets⟩, fun p => ?_⟩
  unfold isDeleted
  rw [findOpenView_eq_ok_iff.2 ⟨hw, hwopen⟩, show sets.1 = w.deleteSets from hwsets.symm]
  simp only [Except.map, View.mem_deleted, Bool.decide_eq_true]

/-- A copy that inherits staged deletes, over segments of which one is empty: positions
that are repeated, staged already or out of range count for nothing. -/
theorem deletes_refine_sets_of_copy :
    let s := ({ store := .ofSizes [2, 0, 3] } : System SegmentList Segment).run
      [.openView .segments {}, .markAt 0 [1, 3], .copy 0]
    let ops := [.markAt [4, 4, 3, 9, 0], .markIds [2, 77], .commit]
    s.Reachable ∧ ∃ v, s.view? 1 = some v ∧ s.isClosed v = false ∧
      (DeleteOp.runOnSets v.total v.positionsOf v.deleteSets ops).2 =
        [.count 2, .count 1, .done] ∧
      4 ∈ (DeleteOp.runOnSets v.total v.positionsOf v.deleteSets ops).1.deleted := by
  intro s ops
  have hs : s.Reachable := ⟨_, _, rfl⟩
  refine ⟨hs, _, rfl, rfl, ?_⟩
  obtain ⟨hanswers, -, hdeleted⟩ := @deletes_refine_sets _ _ _ s hs 1 _ rfl rfl ops
  have hcounts : s.answers (ops.map (DeleteOp.toStep 1)) =
      [.count 2, .count 1, .done].map .ok := by decide +kernel
  have hfour : (s.run (ops.map (DeleteOp.toStep 1))).isDeleted 1 4 = .ok true := by decide +kernel
  rw [hdeleted 4] at hfour
  refine ⟨List.map_injective_iff.2 (fun _ _ => Except.ok.inj) (hanswers.symm.trans hcounts), ?_⟩
  exact of_decide_eq_true (Except.ok.inj hfour)

end System

end SegmentedView
