import SegmentedView.Proofs.View.DeleteSets

/-!
# How a view comes about

What the leaves of a generation are made into, snapshot by snapshot: each keeps the
segment of its leaf and takes over the deletes of the snapshot it replaces, or starts
without any (`inheritedDeletes`). Views assembled from sound snapshots, and copies of
sound views, are sound.
-/

set_option autoImplicit false

namespace SegmentedView

variable {P : Type}

/-- The deletes that a segment starts with in a new generation. -/
def inheritedDeletes (prior : List (Snapshot P)) (policy : ReusePolicy) (s : Segment) :
    DeleteState :=
  match Snapshot.predecessor? prior policy s with
  | some previous => previous.deletes.rebase s.docCount
  | none => .new s.docCount

/-- A mapped result is there exactly because the result is. -/
theorem exists_of_map_eq_ok {α β : Type} {f : α → β} {x : Except Error α} {b : β}
    (h : x.map f = .ok b) : ∃ a, x = .ok a ∧ f a = b := by
  cases x with
  | error e => cases h
  | ok a => exact ⟨a, rfl, Except.ok.inj h⟩

/-- A snapshot made of a leaf has the leaf's segment and the deletes it inherits. -/
theorem Leaf.segment_of_snapshot? {prior : List (Snapshot P)} {d : Decorator P}
    {policy : ReusePolicy} {opening place : Nat} {leaf : Leaf} {made : Snapshot P × Bool}
    (h : leaf.snapshot? prior d policy opening place = .ok made) :
    leaf = .segment made.1.segment ∧
      made.1.deletes = inheritedDeletes prior policy made.1.segment := by
  cases leaf with
  | foreign kind => cases h
  | segment s =>
    unfold Leaf.snapshot? at h
    dsimp only at h
    split at h
    case h_1 previous hp =>
      obtain ⟨x, hx, rfl⟩ := exists_of_map_eq_ok h
      obtain ⟨value, -, rfl⟩ := exists_of_map_eq_ok hx
      simp [inheritedDeletes, hp]
    case h_2 hp =>
      obtain ⟨x, hx, rfl⟩ := exists_of_map_eq_ok h
      obtain ⟨value, -, rfl⟩ := exists_of_map_eq_ok hx
      simp [inheritedDeletes, hp]

/-- The snapshots of a list of leaves are made leaf by leaf. -/
theorem segments_of_snapshotLeaves {prior : List (Snapshot P)} {d : Decorator P}
    {policy : ReusePolicy} {opening place : Nat} {leaves : List Leaf}
    {made : List (Snapshot P × Bool)}
    (h : snapshotLeaves prior d policy opening place leaves = .ok made) :
    leaves = made.map (fun m => .segment m.1.segment) ∧
      ∀ m ∈ made, m.1.deletes = inheritedDeletes prior policy m.1.segment := by
  induction leaves generalizing place made with
  | nil =>
    cases h
    simp
  | cons leaf leaves ih =>
    unfold snapshotLeaves at h
    split at h
    case h_1 => cases h
    case h_2 first hfirst =>
      obtain ⟨rest, hrest, rfl⟩ := exists_of_map_eq_ok h
      obtain ⟨hleaf, hdeletes⟩ := Leaf.segment_of_snapshot? hfirst
      obtain ⟨hleaves, hall⟩ := ih hrest
      refine ⟨?_, fun m hm => ?_⟩
      · rw [List.map_cons, ← hleaf, ← hleaves]
      · rcases List.mem_cons.1 hm with rfl | hm
        · exact hdeletes
        · exact hall m hm

/-- What an assembly is made of: the leaves' segments in order, with the deletes they
inherit, and the table of their counts. -/
structure Assembly.Made (a : Assembly P) (leaves : List Leaf) (prior : List (Snapshot P))
    (policy : ReusePolicy) : Prop where
  leaves : leaves = a.snapshots.map fun s => .segment s.segment
  deletes : ∀ s ∈ a.snapshots, s.deletes = inheritedDeletes prior policy s.segment
  table : a.boundaries.IsTableOf (a.snapshots.map Snapshot.docCount)

/-- What a generation is assembled to is made of its leaves. -/
theorem Generation.made_of_assemble {g : Generation} {prior : List (Snapshot P)}
    {d : Decorator P} {config : Config} {opening : Nat} {a : Assembly P}
    (h : g.assemble prior d config opening = .ok a) :
    a.Made g.leaves prior config.reusePolicy := by
  unfold Generation.assemble at h
  split at h
  case h_1 => cases h
  case h_2 snapshots stats hreuse =>
    obtain ⟨made, hmade, heq⟩ := exists_of_map_eq_ok hreuse
    obtain ⟨rfl, -⟩ := Prod.mk.inj heq
    obtain ⟨hleaves, hdeletes⟩ := segments_of_snapshotLeaves hmade
    split at h
    case h_1 => cases h
    case h_2 boundaries htable =>
      split at h
      case isTrue => cases h
      case isFalse =>
        cases h
        refine ⟨?_, fun s hs => ?_, Boundaries.isTableOf_of_ofCounts htable⟩
        · rw [List.map_map]
          exact hleaves
        · obtain ⟨m, hm, rfl⟩ := List.mem_map.1 hs
          exact hdeletes m hm

/-! ## Soundness -/

namespace Snapshot

variable {prior : List (Snapshot P)} {name : String} {x : Snapshot P}

/-- The last snapshot of a name is one of the snapshots and has the name. -/
theorem mem_of_lastNamed? (h : lastNamed? prior name = some x) : x ∈ prior ∧ x.name = name := by
  unfold lastNamed? at h
  have hname := List.find?_some h
  exact ⟨List.mem_reverse.1 (List.mem_of_find?_eq_some h), eq_of_beq hname⟩

/-- Among snapshots of one name there is a last one. -/
theorem exists_lastNamed? (hx : x ∈ prior) : ∃ y, lastNamed? prior x.name = some y := by
  apply Option.isSome_iff_exists.1
  unfold lastNamed?
  rw [List.find?_isSome]
  exact ⟨x, List.mem_reverse.2 hx, beq_self_eq_true x.name⟩

/-- Where names are different a snapshot is the last one of its name. -/
theorem lastNamed?_of_mem (hnames : (prior.map Snapshot.name).Nodup) (hx : x ∈ prior) :
    lastNamed? prior x.name = some x := by
  obtain ⟨y, hy⟩ := exists_lastNamed? hx
  obtain ⟨hmem, hname⟩ := mem_of_lastNamed? hy
  obtain rfl := List.inj_on_of_nodup_map hnames hmem hx hname
  exact hy

/-- The snapshot whose deletes a segment takes over is one of the list, has the name of the
segment and is accepted by the policy. -/
theorem mem_of_predecessor? {policy : ReusePolicy} {s : Segment}
    (h : predecessor? prior policy s = some x) :
    x ∈ prior ∧ x.name = s.name ∧ policy.accepts x s = true := by
  obtain ⟨hlast, haccept⟩ := Option.filter_eq_some_iff.1 h
  obtain ⟨hmem, hname⟩ := mem_of_lastNamed? hlast
  exact ⟨hmem, hname, haccept⟩

end Snapshot

/-- Inherited deletes speak of the segment that inherits them. -/
theorem sound_inheritedDeletes {prior : List (Snapshot P)} (hprior : ∀ s ∈ prior, s.Sound)
    (policy : ReusePolicy) (s : Segment) :
    (inheritedDeletes prior policy s).Sound ∧
      (inheritedDeletes prior policy s).size = s.docCount := by
  unfold inheritedDeletes
  split
  case h_1 previous hp =>
    have hsound := hprior previous (Snapshot.mem_of_predecessor? hp).1
    exact ⟨hsound.deletes.rebase _, DeleteState.size_rebase _ _⟩
  case h_2 => exact ⟨DeleteState.sound_new _, DeleteState.size_new _⟩

/-- Snapshots assembled from sound ones are sound. -/
theorem Assembly.Made.sound {a : Assembly P} {leaves : List Leaf} {prior : List (Snapshot P)}
    {policy : ReusePolicy} (h : a.Made leaves prior policy) (hprior : ∀ s ∈ prior, s.Sound) :
    ∀ s ∈ a.snapshots, s.Sound := by
  intro s hs
  have hinherited := sound_inheritedDeletes hprior policy s.segment
  rw [← h.deletes s hs] at hinherited
  exact ⟨hinherited.1, hinherited.2⟩

/-- A copy of a sound snapshot is sound. -/
theorem Snapshot.Sound.copy {s : Snapshot P} (h : s.Sound) : s.copy.Sound := ⟨h.deletes, h.size⟩

/-- A copy of a view has the same documents. -/
theorem View.sameDocuments_copy (v : View P) : SameDocuments v v.copy := by
  refine ⟨rfl, ?_⟩
  unfold View.copy
  rw [List.map_map]
  rfl

/-- A copy of a sound view is sound. -/
theorem View.Sound.copy {v : View P} (h : v.Sound) : v.copy.Sound := by
  refine h.of_sameDocuments (sameDocuments_copy v) fun s hs => ?_
  obtain ⟨x, hx, rfl⟩ := List.mem_map.1 hs
  exact (h.snapshot x hx).copy

/-- A change of a snapshot leaves its segment alone. -/
theorem Snapshot.segment_change (s : Snapshot P) (c : SegmentChange) :
    (s.change c).1.segment = s.segment := by
  cases c <;> rfl

/-- A change of one segment leaves the documents alone. -/
theorem View.sameDocuments_modifySegment (v : View P) (i : Nat) (c : SegmentChange) :
    SameDocuments v (v.modifySegment i fun s => (s.change c).1) :=
  ⟨rfl, map_modify_eq (fun s => s.segment_change c) v.segments i⟩

/-- A change of one segment keeps the view sound. -/
theorem View.Sound.modifySegment {v : View P} (h : v.Sound) (i : Nat) (c : SegmentChange) :
    (v.modifySegment i fun s => (s.change c).1).Sound := by
  refine h.of_sameDocuments (sameDocuments_modifySegment v i c) fun s hs => ?_
  have hmodify : (v.modifySegment i fun s => (s.change c).1).segments =
      v.segments.modify i fun s => (s.change c).1 := rfl
  obtain ⟨j, hj⟩ := List.getElem?_of_mem hs
  rw [hmodify, List.getElem?_modify] at hj
  obtain ⟨x, hx, rfl⟩ := Option.map_eq_some_iff.1 hj
  have hsound := h.snapshot x (List.mem_of_getElem? hx)
  split
  · exact hsound.change c
  · exact hsound

end SegmentedView
