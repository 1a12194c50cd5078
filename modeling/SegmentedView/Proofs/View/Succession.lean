import SegmentedView.Proofs.System.Isolation
import SegmentedView.Proofs.View.Refusals

/-!
# What segments take over

The segments of a new generation are looked up by name among the snapshots of an earlier one. A
segment that finds a snapshot there, and one that the policy accepts (`Snapshot.PassesTo`), takes
over the deletes of that snapshot as far as it has documents; any other segment starts without
deletes (`Snapshot.Arises`). `reuseSnapshots_builds` says so of all segments of a generation at
once, together with the two numbers that go with them.
-/

set_option autoImplicit false

namespace SegmentedView

variable {P : Type}

/-! ## Tables by name -/

namespace Snapshot

variable {prior : List (Snapshot P)} {policy : ReusePolicy} {name : String} {s : Segment}
  {x : Snapshot P}

/-- What a table that is filled from a list has under a name: the last snapshot of that name. -/
def IsLastNamed (prior : List (Snapshot P)) (name : String) (x : Snapshot P) : Prop :=
  x.name = name ∧ ∃ before after, prior = before ++ x :: after ∧ ∀ y ∈ after, y.name ≠ name

/-- The last snapshot of a name is the one that is found. -/
theorem lastNamed?_eq_some_iff : lastNamed? prior name = some x ↔ IsLastNamed prior name x := by
  unfold lastNamed? IsLastNamed
  rw [List.find?_eq_some_iff_append, beq_iff_eq]
  constructor
  · rintro ⟨hname, after, before, hsplit, hafter⟩
    refine ⟨hname, before.reverse, after.reverse, ?_, fun y hy => ?_⟩
    · rw [← List.reverse_inj, hsplit]
      simp
    · simpa using hafter y (List.mem_reverse.1 hy)
  · rintro ⟨hname, before, after, rfl, hafter⟩
    refine ⟨hname, after.reverse, before.reverse, by simp, fun y hy => ?_⟩
    simpa using hafter y (List.mem_reverse.1 hy)

/-- A snapshot passes its deletes on to a segment: the table has it under the segment's name, and
the policy asks for no more than that, or both have the same content token. -/
structure PassesTo (prior : List (Snapshot P)) (policy : ReusePolicy) (s : Segment)
    (x : Snapshot P) : Prop where
  named : IsLastNamed prior s.name x
  accepted : policy = .byName ∨ ∃ token, x.version = some token ∧ s.version = some token

/-- A policy accepts a segment by its name, or if both have the same token. -/
theorem accepts_iff : policy.accepts x s = true ↔
    policy = .byName ∨ ∃ token, x.version = some token ∧ s.version = some token := by
  cases policy with
  | byName => simp [ReusePolicy.accepts]
  | byNameAndVersion =>
    simp only [ReusePolicy.accepts, Bool.and_eq_true, Option.isSome_iff_exists, beq_iff_eq,
      reduceCtorEq, false_or]
    constructor
    · rintro ⟨⟨token, htoken⟩, hsame⟩
      exact ⟨token, htoken, hsame ▸ htoken⟩
    · rintro ⟨token, htoken, hsame⟩
      exact ⟨⟨token, htoken⟩, htoken.trans hsame.symm⟩

/-- The snapshot to take over from is the one that passes on to the segment. -/
theorem predecessor?_eq_some_iff :
    predecessor? prior policy s = some x ↔ PassesTo prior policy s x := by
  unfold predecessor?
  rw [Option.filter_eq_some_iff, lastNamed?_eq_some_iff, accepts_iff]
  exact ⟨fun ⟨hnamed, haccepted⟩ => ⟨hnamed, haccepted⟩, fun ⟨hnamed, haccepted⟩ =>
    ⟨hnamed, haccepted⟩⟩

/-- There is a snapshot to take over from exactly when one passes on to the segment. -/
theorem predecessor?_isSome_iff :
    (predecessor? prior policy s).isSome = true ↔ ∃ x, PassesTo prior policy s x := by
  rw [Option.isSome_iff_exists]
  exact exists_congr fun _ => predecessor?_eq_some_iff

instance : Decidable (∃ x, PassesTo prior policy s x) :=
  decidable_of_iff _ predecessor?_isSome_iff

end Snapshot

/-! ## Snapshots of a generation -/

/-- The deletes of `n` documents: which of them are deleted, and which are staged to be. -/
structure DeleteState.Holds (d : DeleteState) (n : Nat) (deleted staged : Nat → Prop) :
    Prop where
  size : d.committed.size = n
  size_pending : ∀ pending, d.pending = some pending → pending.size = n
  isDeleted : ∀ l, d.isDeleted l = true ↔ l < n ∧ deleted l
  isStaged : ∀ l, d.isStaged l = true ↔ l < n ∧ staged l

/-- Fresh deletes hold nothing. -/
theorem DeleteState.holds_new (n : Nat) :
    (new n).Holds n (fun _ => False) (fun _ => False) where
  size := size_new n
  size_pending _ h := nomatch h
  isDeleted l := by simp
  isStaged l := by simp [isStaged_new]

/-- Rebased deletes hold what was deleted and staged of the documents that are left. -/
theorem DeleteState.holds_rebase (d : DeleteState) (n : Nat) :
    (d.rebase n).Holds n (fun l => d.isDeleted l = true) (fun l => d.isStaged l = true) where
  size := size_rebase d n
  size_pending pending h := by
    rw [pending_rebase] at h
    obtain ⟨e, -, rfl⟩ := Option.map_eq_some_iff.1 h
    exact DeletedDocs.size_resized e n
  isDeleted l := by rw [isDeleted_rebase, Bool.and_eq_true, decide_eq_true_iff]
  isStaged l := by rw [isStaged_rebase, Bool.and_eq_true, decide_eq_true_iff]

/-- How the snapshot at a place of a generation comes about, and whether it is carried over. One
that is has the deletes of the snapshot before it as far as the segment goes, and the payload
that the decorator makes of the payload before, be it that payload itself; one that is not has no
deletes, and the payload that the decorator makes of the segment. -/
inductive Snapshot.Arises (prior : List (Snapshot P)) (d : Decorator P) (policy : ReusePolicy)
    (opening place : Nat) : Snapshot P → Bool → Prop
  | reused (x previous : Snapshot P) (value? : Option P)
    (hpasses : PassesTo prior policy x.segment previous)
    (hvalue : d.redecorate previous.payload.value x.segment = .ok value?)
    (hpayload : x.payload = (value?.map (Payload.mk opening place)).getD previous.payload)
    (hdeletes : x.deletes.Holds x.docCount (fun l => previous.isDeleted l = true)
      (fun l => previous.isStaged l = true)) : Arises prior d policy opening place x true
  | opened (x : Snapshot P) (value : P)
    (hnone : ¬ ∃ previous, PassesTo prior policy x.segment previous)
    (hvalue : d.decorate x.segment = .ok value) (hpayload : x.payload = ⟨opening, place, value⟩)
    (hdeletes : x.deletes.Holds x.docCount (fun _ => False) (fun _ => False)) :
    Arises prior d policy opening place x false

section

variable {prior : List (Snapshot P)} {d : Decorator P} {policy : ReusePolicy}
  {opening place : Nat}

/-- A snapshot is carried over exactly where there is one to take over from. -/
theorem Snapshot.Arises.reused_eq {x : Snapshot P} {reused : Bool}
    (h : x.Arises prior d policy opening place reused) :
    reused = decide (∃ previous, PassesTo prior policy x.segment previous) := by
  cases h with
  | reused previous value? hpasses hvalue hpayload hdeletes =>
    exact (decide_eq_true ⟨previous, hpasses⟩).symm
  | opened value hnone hvalue hpayload hdeletes => exact (decide_eq_false hnone).symm

/-- What is made of a leaf arises from it. -/
theorem Leaf.arises_of_snapshot? {leaf : Leaf} {made : Snapshot P × Bool}
    (h : leaf.snapshot? prior d policy opening place = .ok made) :
    made.1.Arises prior d policy opening place made.2 := by
  cases leaf with
  | foreign kind => cases h
  | segment s =>
    unfold Leaf.snapshot? at h
    dsimp only at h
    split at h
    case h_1 previous hprevious =>
      obtain ⟨x, hx, rfl⟩ := exists_of_map_eq_ok h
      obtain ⟨value?, hvalue, rfl⟩ := exists_of_map_eq_ok hx
      exact .reused _ previous value? (Snapshot.predecessor?_eq_some_iff.1 hprevious) hvalue rfl
        (previous.deletes.holds_rebase s.docCount)
    case h_2 hprevious =>
      obtain ⟨x, hx, rfl⟩ := exists_of_map_eq_ok h
      obtain ⟨value, hvalue, rfl⟩ := exists_of_map_eq_ok hx
      refine .opened _ value ?_ hvalue rfl (DeleteState.holds_new s.docCount)
      rw [← Snapshot.predecessor?_isSome_iff, hprevious]
      exact Bool.false_ne_true

/-- Leaf by leaf, the first of them at `place`. -/
theorem arises_of_snapshotLeaves {leaves : List Leaf} {made : List (Snapshot P × Bool)}
    (h : snapshotLeaves prior d policy opening place leaves = .ok made) {i : Nat}
    {m : Snapshot P × Bool} (hm : made[i]? = some m) :
    m.1.Arises prior d policy opening (place + i) m.2 := by
  induction leaves generalizing place made i with
  | nil =>
    cases h
    cases hm
  | cons leaf leaves ih =>
    unfold snapshotLeaves at h
    split at h
    case h_1 => cases h
    case h_2 first hfirst =>
      obtain ⟨rest, hrest, rfl⟩ := exists_of_map_eq_ok h
      cases i with
      | zero =>
        obtain rfl := Option.some.inj hm
        exact Leaf.arises_of_snapshot? hfirst
      | succ i =>
        have hlater := ih hrest hm
        rwa [Nat.add_right_comm] at hlater

end

/-- With a decorator that never fails no segment does. -/
theorem Decorator.Total.clear {d : Decorator P} (h : d.Total) (prior : List (Snapshot P))
    (policy : ReusePolicy) (s : Segment) : (Leaf.segment s).Clear prior d policy := by
  intro e hfails
  cases hfails with
  | undecorated _ _ hnew he =>
    obtain ⟨value, hvalue⟩ := h.decorate s
    cases hvalue.symm.trans he
  | stuck _ previous _ hknown he =>
    obtain ⟨value?, hvalue⟩ := h.redecorate previous.payload.value s
    cases hvalue.symm.trans he

/-- An opening leaves alone every view that was there, whatever it takes over from. -/
theorem System.view?_openGeneration {σ : Type} [SegmentStore σ] {s : System σ P} {k : Nat}
    {v : View P} (hv : s.view? k = some v) (prior : List (Snapshot P)) (d : Decorator P)
    (config : Config) : (s.openGeneration prior d config).system.view? k = some v := by
  have hend := s.opening_openGeneration prior d config
  generalize s.openGeneration prior d config = o at hend ⊢
  cases hend with
  | refused e hk => exact hv
  | unread e hk he => exact hv
  | givenBack g e hk hg ha => exact hv
  | opened g a hk hg ha => exact view?_addView_of_some hv _

/-- What segments are made into, where the decorator fails on none of them: one snapshot for each
segment, in order, that takes over the deletes of the snapshot before it where there is one that
the policy accepts, and starts without any where there is none. As many are counted as carried
over as segments have such a snapshot, and all others as new. Whoever opens a generation that
takes over from these snapshots, all views stay as they are, and their snapshots with them. -/
theorem reuseSnapshots_builds {prior : List (Snapshot P)} {d : Decorator P}
    {policy : ReusePolicy} {segments : List Segment}
    (hclear : ∀ s ∈ segments, (Leaf.segment s).Clear prior d policy) (opening : Nat) :
    ∃ (made : List (Snapshot P)) (stats : ReuseStats),
      reuseSnapshots prior (segments.map Leaf.segment) d policy opening = .ok (made, stats) ∧
      made.map Snapshot.segment = segments ∧
      stats.reused = segments.countP (fun s => ∃ x, Snapshot.PassesTo prior policy s x) ∧
      stats.reused + stats.opened = segments.length ∧
      (∀ (place : Nat) (x : Snapshot P), made[place]? = some x →
        x.Arises prior d policy opening place
          (decide (∃ previous, Snapshot.PassesTo prior policy x.segment previous))) ∧
      ∀ (σ : Type) [SegmentStore σ] (s : System σ P) (config : Config) (k : Nat) (v : View P),
        s.view? k = some v → (s.openGeneration prior d config).system.view? k = some v := by
  have hleaves : ∀ leaf ∈ segments.map Leaf.segment, leaf.Clear prior d policy := by
    intro leaf hleaf
    obtain ⟨s, hs, rfl⟩ := List.mem_map.1 hleaf
    exact hclear s hs
  obtain ⟨made, hmade⟩ : ∃ made : List (Snapshot P × Bool),
      snapshotLeaves prior d policy opening 0 (segments.map Leaf.segment) = .ok made :=
    exists_snapshotLeaves hleaves
  have hsegments : made.map (fun m => m.1.segment) = segments := by
    apply List.map_injective_iff.2 fun _ _ => Leaf.segment.inj
    rw [List.map_map]
    exact (segments_of_snapshotLeaves hmade).1.symm
  have harises : ∀ (i : Nat) (m : Snapshot P × Bool), made[i]? = some m →
      m.1.Arises prior d policy opening i m.2 := by
    intro i m hm
    have h := arises_of_snapshotLeaves hmade hm
    rwa [Nat.zero_add] at h
  refine ⟨made.map (·.1), .ofSnapshots made, ?_, ?_, ?_, ?_, fun place x hx => ?_,
    fun σ _ s config k v hv => System.view?_openGeneration hv prior d config⟩
  · unfold reuseSnapshots
    rw [hmade]
    rfl
  · rw [List.map_map]
    exact hsegments
  · -- What is carried over is what has something to take over from.
    have hcount : made.countP (·.2) = made.countP ((fun s : Segment =>
        decide (∃ x, Snapshot.PassesTo prior policy s x)) ∘ fun m => m.1.segment) := by
      apply List.countP_congr
      intro m hm
      obtain ⟨i, hi⟩ := List.getElem?_of_mem hm
      rw [(harises i m hi).reused_eq, Function.comp_apply]
    rw [← hsegments, List.countP_map]
    exact hcount
  · have hlength := congrArg List.length hsegments
    rw [List.length_map] at hlength
    rw [← hlength, List.length_eq_countP_add_countP (fun m : Snapshot P × Bool => m.2)]
    simp [ReuseStats.ofSnapshots]
  · rw [List.getElem?_map] at hx
    obtain ⟨m, hm, rfl⟩ := Option.map_eq_some_iff.1 hx
    rw [← (harises place m hm).reused_eq]
    exact harises place m hm

/-- By name and token, where "a" had the first and the last of 4 documents deleted and the second
marked, "a" of 2 documents keeps the first delete and "a" of 5 documents both; "b" has no token
and "c" is new, so both start without deletes. -/
theorem reuseSnapshots_builds_of_tokens :
    let seen (m : MemorySegment) : Segment := m.toSegment 0
    let a : Snapshot Segment := ⟨seen ((.sequential "a" 0 4 : MemorySegment).withVersion 1),
      ⟨0, 0, seen (.ofIds "a" [])⟩, (((DeleteState.new 4).markAll [0, 3]).1.commit.1.mark 1).1⟩
    let b : Snapshot Segment := ⟨seen (.sequential "b" 9 1), ⟨0, 1, seen (.ofIds "b" [])⟩,
      ((DeleteState.new 1).mark 0).1.commit.1⟩
    let segments : List Segment := [(MemorySegment.sequential "a" 0 2).withVersion 1,
      (MemorySegment.sequential "a" 0 5).withVersion 1, .sequential "b" 9 1,
      .sequential "c" 5 1].map seen
    ∃ (made : List (Snapshot Segment)) (stats : ReuseStats),
      reuseSnapshots [a, b] (segments.map Leaf.segment) .segments .byNameAndVersion 1 =
        .ok (made, stats) ∧
      stats.reused = 2 ∧ stats.opened = 2 ∧
      made.map (fun x => ((List.range x.docCount).filter x.isDeleted,
        (List.range x.docCount).filter x.isStaged)) =
        [([0], [1]), ([0, 3], [1]), ([], []), ([], [])] := by
  intro seen a b segments
  obtain ⟨made, stats, hmade, -, hreused, hadd, -, -⟩ :=
    @reuseSnapshots_builds Segment [a, b] .segments .byNameAndVersion segments
      (fun s _ => Decorator.total_segments.clear [a, b] .byNameAndVersion s) 1
  have hdeletes : (reuseSnapshots [a, b] (segments.map Leaf.segment) .segments
      .byNameAndVersion 1).map (fun m => m.1.map fun x =>
        ((List.range x.docCount).filter x.isDeleted, (List.range x.docCount).filter x.isStaged)) =
      .ok [([0], [1]), ([0, 3], [1]), ([], []), ([], [])] := by
    rfl
  rw [hmade] at hdeletes
  have htwo : stats.reused = 2 := hreused.trans (by decide +kernel)
  have hfour : segments.length = 4 := rfl
  exact ⟨made, stats, hmade, htwo, by omega, Except.ok.inj hdeletes⟩

end SegmentedView
