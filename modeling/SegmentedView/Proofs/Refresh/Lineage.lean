import SegmentedView.Proofs.Refresh.Chain

/-!
# Where marks come from

A view that was copied or reopened descends from the view it was made of (`Descends`). A
document is a target of a mark when its id is among the ids of a mark by id, or is the id
at one of the positions of a mark by position (`Step.Targets`). `Targeted` puts the two
together: some step of a run succeeded in marking an id, on a view or on one that it
descends from. This is kept by every later step and handed on to copies and reopened views.
-/

set_option autoImplicit false

namespace SegmentedView

variable {σ P : Type}

/-- The change marks the document of this id in the segment. -/
def SegmentChange.Targets (x : Snapshot P) (id? : Option Nat) : SegmentChange → Prop
  | .mark l => l < x.docCount ∧ x.stableIdAt l = id?
  | .markAll ls => ∃ l ∈ ls, l < x.docCount ∧ x.stableIdAt l = id?
  | .markIds ids => ∃ id ∈ ids, id? = some id
  | .commit => False

/-- The step marks the document of this id on the view `u` of number `j`. -/
def Step.Targets (u : View P) (j : Nat) (id? : Option Nat) : Step σ P → Prop
  | .markIds slot ids => slot = j ∧ ∃ id ∈ ids, id? = some id
  | .markAt slot positions => slot = j ∧ ∃ p ∈ positions, p < u.total ∧ u.stableIdAt p = id?
  | .changeSegment slot i change =>
    slot = j ∧ ∃ x, u.segments[i]? = some x ∧ change.Targets x id?
  | _ => False

/-- Only a change to the deletes of a view has targets on it. -/
theorem Step.Targets.changesDeletes {u : View P} {j : Nat} {id? : Option Nat}
    {st : Step σ P} (h : st.Targets u j id?) : st.changesDeletes j = true := by
  cases st with
  | markIds slot ids => exact beq_iff_eq.2 h.1
  | markAt slot positions => exact beq_iff_eq.2 h.1
  | changeSegment slot i change => exact beq_iff_eq.2 h.1
  | _ => exact h.elim

/-! ## Deletes of one segment -/

namespace Snapshot

/-- A delete of this document has been staged, committed or not. -/
def Marked (x : Snapshot P) (l : Nat) : Prop := x.isDeleted l = true ∨ x.isStaged l = true

variable {x : Snapshot P} {l : Nat}

/-- Marks add only offsets of the list that the segment has. -/
theorem Sound.marked_of_markAll (h : x.Sound) {ls : List Nat}
    (hl : (x.markAll ls).1.Marked l) : x.Marked l ∨ l ∈ ls ∧ l < x.docCount := by
  rcases hl with hdeleted | hstaged
  · rw [isDeleted_markAll] at hdeleted
    exact .inl (.inl hdeleted)
  · rcases (h.isStaged_markAll ls l).1 hstaged with hold | ⟨hmem, hlt, -⟩
    · exact .inl (.inr hold)
    · exact .inr ⟨hmem, hlt⟩

/-- A commit marks nothing. -/
theorem Sound.marked_of_commit (h : x.Sound) (hl : x.commit.1.Marked l) : x.Marked l := by
  rcases hl with hdeleted | hstaged
  · exact (h.isDeleted_commit l).1 hdeleted
  · rw [isStaged_commit] at hstaged
    cases hstaged

/-- The offsets of some ids hold documents with these ids. -/
theorem mem_offsetsOf {ids : List Nat} (hl : l ∈ x.offsetsOf ids) :
    ∃ id ∈ ids, x.segment.stableId l = some id := by
  obtain ⟨-, hany⟩ := List.mem_filter.1 hl
  obtain ⟨id, hid, hmem⟩ := (Option.any_eq_true _ _).1 hany
  exact ⟨id, List.contains_iff_mem.1 hmem, hid⟩

/-- Within its segment a snapshot answers the segment's ids. -/
theorem stableIdAt_of_lt (hl : l < x.docCount) : x.stableIdAt l = x.segment.stableId l :=
  if_pos hl

end Snapshot

/-- A segment takes over only offsets that it has and that are marked in the snapshot it
replaces. -/
theorem marked_of_inheritedDeletes {prior : List (Snapshot P)} {policy : ReusePolicy}
    {x : Snapshot P} (hdeletes : x.deletes = inheritedDeletes prior policy x.segment) {l : Nat}
    (hl : x.Marked l) : ∃ previous, Snapshot.predecessor? prior policy x.segment = some previous ∧
      l < x.docCount ∧ previous.Marked l := by
  unfold Snapshot.Marked Snapshot.isDeleted Snapshot.isStaged at hl
  rw [hdeletes] at hl
  unfold inheritedDeletes at hl
  cases hp : Snapshot.predecessor? prior policy x.segment with
  | none => simp [hp, DeleteState.isStaged_new] at hl
  | some previous =>
    simp only [hp, DeleteState.isDeleted_rebase, DeleteState.isStaged_rebase, Bool.and_eq_true,
      decide_eq_true_eq] at hl
    rcases hl with ⟨hlt, hdeleted⟩ | ⟨hlt, hstaged⟩
    · exact ⟨previous, rfl, hlt, .inl hdeleted⟩
    · exact ⟨previous, rfl, hlt, .inr hstaged⟩

/-! ## Deletes of a view -/

/-- What a change of a segment marks there it targets by its id. -/
theorem SegmentChange.targets_of_mem_offsets {x : Snapshot P} {change : SegmentChange} {l : Nat}
    (hl : l ∈ change.offsets x) (hlt : l < x.docCount) :
    change.Targets x (x.segment.stableId l) := by
  cases change with
  | mark m =>
    obtain rfl := List.mem_singleton.1 hl
    exact ⟨hlt, Snapshot.stableIdAt_of_lt hlt⟩
  | markAll ls => exact ⟨l, hl, hlt, Snapshot.stableIdAt_of_lt hlt⟩
  | markIds ids => exact Snapshot.mem_offsetsOf hl
  | commit => cases hl

/-- The documents at the offsets that a step marks are its targets. -/
theorem Step.targets_of_mem_offsets {v : View P} (hsound : v.Sound) {i : Nat} {x : Snapshot P}
    (hx : v.segments[i]? = some x) {st : Step σ P} {k l : Nat} (hl : l ∈ st.offsets v k i x)
    (hlt : l < x.docCount) : st.Targets v k (x.segment.stableId l) := by
  cases st with
  | markIds slot ids =>
    simp only [offsets, List.mem_ite_nil_right] at hl
    exact ⟨hl.1, Snapshot.mem_offsetsOf hl.2⟩
  | markAt slot positions =>
    simp only [offsets, List.mem_ite_nil_right] at hl
    -- The offset is that of one of the positions, and the id there is that of the offset.
    have hchosen := (hsound.chooses_offsetsIn positions i x l hx hlt).1 hl.2
    obtain ⟨hposition, hrange⟩ := Finset.mem_filter.1 hchosen
    exact ⟨hl.1, _, List.mem_toFinset.1 hposition, hrange, hsound.stableIdAt_startOf_add hx hlt⟩
  | changeSegment slot j change =>
    simp only [offsets, List.mem_ite_nil_right] at hl
    obtain ⟨⟨hslot, rfl⟩, hoffset⟩ := hl
    exact ⟨hslot, x, hx, SegmentChange.targets_of_mem_offsets hoffset hlt⟩
  | _ => cases hl

/-- In a segment of a view nothing is marked after a step but what was before and what the
step targets. -/
theorem Evolves.marked {st : Step σ P} {k : Nat} {v w : View P} (h : Evolves st k v w)
    (hsound : v.Sound) {y : Snapshot P} (hy : y ∈ w.segments) :
    ∃ x ∈ v.segments, y.segment = x.segment ∧
      ∀ l, y.Marked l → x.Marked l ∨ st.Targets v k (x.segment.stableId l) := by
  obtain ⟨i, x, hx, hedited⟩ := h.edited hy
  have hmem := List.mem_of_getElem? hx
  have hxsound := hsound.snapshot x hmem
  rcases hedited with rfl | rfl | rfl
  · exact ⟨y, hmem, rfl, fun l hl => .inl hl⟩
  · exact ⟨x, hmem, rfl, fun l hl => .inl (hxsound.marked_of_commit hl)⟩
  · refine ⟨x, hmem, rfl, fun l hl => ?_⟩
    rcases hxsound.marked_of_markAll hl with hold | ⟨hoffset, hlt⟩
    · exact .inl hold
    · exact .inr (Step.targets_of_mem_offsets hsound hx hoffset hlt)

/-- A marked position of a view is a marked offset of a segment, and has its id. -/
theorem View.Sound.exists_marked {v : View P} (h : v.Sound) {p : Nat}
    (hp : v.isDeleted p = true ∨ v.isStaged p = true) :
    ∃ x ∈ v.segments, ∃ l, x.Marked l ∧ v.stableIdAt p = x.segment.stableId l := by
  have hlt : p < v.total := hp.elim lt_total_of_any lt_total_of_any
  obtain ⟨x, l, hdoc⟩ := h.exists_documentAt? hlt
  obtain ⟨hdeleted, hstaged⟩ := isDeleted_of_documentAt? hdoc
  obtain ⟨i, hi, hl, rfl⟩ := h.documentAt?_eq_some_iff.1 hdoc
  rw [hdeleted, hstaged] at hp
  exact ⟨x, mem_of_documentAt? hdoc, l, hp, h.stableIdAt_startOf_add hi hl⟩

namespace System

variable [SegmentStore σ]

/-- What one step marks in a view that keeps its number, the step having succeeded. -/
theorem marked_step {s : System σ P} {st : Step σ P} {k : Nat} {v w : View P}
    (hsound : v.Sound) (hv : s.view? k = some v) (hw : (s.step st).system.view? k = some w)
    (he : Evolves st k v w) {y : Snapshot P} (hy : y ∈ w.segments) {l : Nat} (hl : y.Marked l) :
    ∃ x ∈ v.segments, y.segment = x.segment ∧ (x.Marked l ∨
      (s.step st).result.isOk = true ∧ st.Targets v k (x.segment.stableId l)) := by
  obtain ⟨x, hx, hsegment, hmarked⟩ := he.marked hsound hy
  rcases hmarked l hl with hold | htargets
  · exact ⟨x, hx, hsegment, .inl hold⟩
  · cases hok : (s.step st).result.isOk with
    | true => exact ⟨x, hx, hsegment, .inr ⟨rfl, htargets⟩⟩
    | false =>
      -- A mark that failed did nothing, so that the view is the one of before.
      rw [RefreshChain.system_of_failed htargets.changesDeletes hok, hv] at hw
      obtain rfl := Option.some.inj hw
      exact ⟨y, hy, rfl, .inl hl⟩

/-! ## Descent -/

/-- The view of number `k` after the steps is the view that had number `j` before them, or
was made of it by copies and reopens. -/
inductive Descends (s : System σ P) (j : Nat) : List (Step σ P) → Nat → Prop
  | self : Descends s j [] j
  | stays {steps : List (Step σ P)} {k : Nat} (h : Descends s j steps k) (st : Step σ P) :
    Descends s j (steps ++ [st]) k
  | copied {steps : List (Step σ P)} {i k : Nat} (h : Descends s j steps i)
    (hmade : ((s.run steps).step (.copy i)).result = .ok (.made k)) :
    Descends s j (steps ++ [.copy i]) k
  | reopened {steps : List (Step σ P)} {i k : Nat} (h : Descends s j steps i) (nanos : Nat)
    (hmade : ((s.run steps).step (.reopen i nanos)).result = .ok (.made k)) :
    Descends s j (steps ++ [.reopen i nanos]) k

/-- Some step of the run marked the document of this id, on the view that has number `k`
after the run or on one that it descends from. -/
def Targeted (s : System σ P) (steps : List (Step σ P)) (k : Nat) (id? : Option Nat) : Prop :=
  ∃ before st after j u, steps = before ++ st :: after ∧ (s.run before).view? j = some u ∧
    ((s.run before).step st).result.isOk = true ∧ st.Targets u j id? ∧
    (s.run before).Descends j (st :: after) k

variable {s : System σ P} {steps : List (Step σ P)} {k : Nat} {id? : Option Nat}

/-- What was marked is handed on by every step that makes a descendant. -/
theorem Targeted.snoc (h : s.Targeted steps k id?) {st : Step σ P} {i : Nat}
    (hdescends : ∀ (t : System σ P) (j : Nat) (passed : List (Step σ P)),
      t.run passed = s.run steps → t.Descends j passed k → t.Descends j (passed ++ [st]) i) :
    s.Targeted (steps ++ [st]) i id? := by
  obtain ⟨before, mark, after, j, u, rfl, hu, hok, htargets, hk⟩ := h
  refine ⟨before, mark, after ++ [st], j, u, ?_, hu, hok, htargets, ?_⟩
  · rw [List.append_assoc]
    rfl
  · exact hdescends _ j (mark :: after) (run_append s before (mark :: after)).symm hk

/-- What was targeted stays so. -/
theorem Targeted.stays (h : s.Targeted steps k id?) (st : Step σ P) :
    s.Targeted (steps ++ [st]) k id? :=
  h.snoc fun _ _ _ _ hk => hk.stays st

/-- What was targeted in a view is targeted in its copies. -/
theorem Targeted.copied (h : s.Targeted steps k id?) {i : Nat}
    (hmade : ((s.run steps).step (.copy k)).result = .ok (.made i)) :
    s.Targeted (steps ++ [.copy k]) i id? := by
  refine h.snoc fun t j passed hrun hk => hk.copied ?_
  rw [hrun]
  exact hmade

/-- What was targeted in a view is targeted in what it is reopened as. -/
theorem Targeted.reopened (h : s.Targeted steps k id?) {i nanos : Nat}
    (hmade : ((s.run steps).step (.reopen k nanos)).result = .ok (.made i)) :
    s.Targeted (steps ++ [.reopen k nanos]) i id? := by
  refine h.snoc fun t j passed hrun hk => hk.reopened nanos ?_
  rw [hrun]
  exact hmade

/-- A mark that succeeds marks its targets. -/
theorem targeted_of_targets {st : Step σ P} {u : View P}
    (hu : (s.run steps).view? k = some u) (hok : ((s.run steps).step st).result.isOk = true)
    (htargets : st.Targets u k id?) : s.Targeted (steps ++ [st]) k id? :=
  ⟨steps, st, [], k, u, rfl, hu, hok, htargets, .stays .self st⟩

end System

end SegmentedView
