import SegmentedView.Proofs.View.Assembly

/-!
# The outline of a generation

Whether a generation can be made into a view, and with which boundaries, is no matter of
the snapshots that it takes over from: it is decided by its leaves, its document counts and
the configuration (`Generation.outline`), unless the decorator refuses a segment. So two
openings of one generation with a decorator that refuses none (`Decorator.Total`) both
succeed, with the same boundaries, or both fail, with the same error
(`Decorator.Total.map_assemble`).
-/

set_option autoImplicit false

namespace SegmentedView

variable {P : Type}

/-- A decorator that makes a payload for every segment. -/
structure Decorator.Total (d : Decorator P) : Prop where
  decorate : ∀ s, ∃ p, d.decorate s = .ok p
  redecorate : ∀ p s, ∃ q, d.redecorate p s = .ok q

/-- The decorator that answers the segments never fails. -/
theorem Decorator.total_segments : Decorator.segments.Total :=
  ⟨fun s => ⟨s, rfl⟩, fun _ s => ⟨some s, rfl⟩⟩

/-- The segments that leaves are; the first leaf that is none decides the error. -/
def segmentsOf : List Leaf → Except Error (List Segment)
  | [] => .ok []
  | .foreign kind :: _ => .error (.leafNotSegment kind)
  | .segment s :: leaves => (segmentsOf leaves).map (s :: ·)

/-- Leaves that are all segments are these segments. -/
theorem segmentsOf_map (segments : List Segment) :
    segmentsOf (segments.map Leaf.segment) = .ok segments := by
  induction segments with
  | nil => rfl
  | cons s segments ih =>
    rw [List.map_cons, segmentsOf, ih]
    rfl

namespace Generation

/-- The boundaries for segments of these counts, which must add up to what the store
reports if the configuration asks for that. -/
def layOut (g : Generation) (config : Config) (counts : List Nat) : Except Error Boundaries :=
  match Boundaries.ofCounts counts with
  | .error e => .error e
  | .ok boundaries =>
    if config.validateDocCounts && boundaries.total != g.docCount then
      .error (.docCountMismatch boundaries.total g.version g.docCount)
    else .ok boundaries

/-- The boundaries of a view of a generation, or why there is none. -/
def outline (g : Generation) (config : Config) : Except Error Boundaries :=
  match segmentsOf g.leaves with
  | .error e => .error e
  | .ok segments => g.layOut config (segments.map Segment.docCount)

variable (g : Generation) (prior : List (Snapshot P)) (d : Decorator P) (config : Config)
  (opening : Nat)

/-- A generation is assembled from its snapshots and laid out by their counts. -/
theorem map_assemble : (g.assemble prior d config opening).map Assembly.boundaries =
    match snapshotLeaves prior d config.reusePolicy opening 0 g.leaves with
    | .error e => .error e
    | .ok made => g.layOut config (made.map fun m => m.1.docCount) := by
  unfold assemble reuseSnapshots layOut
  cases snapshotLeaves prior d config.reusePolicy opening 0 g.leaves with
  | error e => rfl
  | ok made =>
    have hcounts : (made.map (·.1)).map Snapshot.docCount = made.map fun m => m.1.docCount :=
      List.map_map
    simp only [Except.map, hcounts]
    cases Boundaries.ofCounts (made.map fun m => m.1.docCount) with
    | error e => rfl
    | ok boundaries =>
      by_cases hcheck : (config.validateDocCounts && boundaries.total != g.docCount) = true
      · simp only [if_pos hcheck]
      · simp only [if_neg hcheck]

variable {g prior d config opening}

/-- A generation that was assembled is outlined by the boundaries of its view. -/
theorem outline_of_assemble {a : Assembly P}
    (h : g.assemble prior d config opening = .ok a) : g.outline config = .ok a.boundaries := by
  have hmap := g.map_assemble prior d config opening
  rw [h] at hmap
  cases hmade : snapshotLeaves prior d config.reusePolicy opening 0 g.leaves with
  | error e =>
    rw [hmade] at hmap
    cases hmap
  | ok made =>
    rw [hmade] at hmap
    have hleaves := (segments_of_snapshotLeaves hmade).1
    have hsegments : segmentsOf g.leaves = .ok (made.map fun m => m.1.segment) := by
      rw [hleaves, ← segmentsOf_map, List.map_map]
      rfl
    unfold outline
    rw [hsegments]
    dsimp only
    rw [List.map_map]
    exact hmap.symm

end Generation

namespace Decorator.Total

variable {d : Decorator P}

/-- Every segment becomes a snapshot, whether there is one to replace or not. -/
theorem snapshot? (h : d.Total) (prior : List (Snapshot P)) (policy : ReusePolicy)
    (opening place : Nat) (s : Segment) :
    ∃ made, (Leaf.segment s).snapshot? prior d policy opening place = .ok made ∧
      made.1.segment = s := by
  have hmade : ∃ made, (Leaf.segment s).snapshot? prior d policy opening place = .ok made := by
    unfold Leaf.snapshot?
    dsimp only
    split
    case h_1 previous hp =>
      obtain ⟨value?, hvalue⟩ := h.redecorate previous.payload.value s
      unfold Snapshot.rebase?
      rw [hvalue]
      exact ⟨_, rfl⟩
    case h_2 hp =>
      obtain ⟨value, hvalue⟩ := h.decorate s
      unfold Snapshot.open?
      rw [hvalue]
      exact ⟨_, rfl⟩
  obtain ⟨made, hok⟩ := hmade
  have hleaf := (Leaf.segment_of_snapshot? hok).1
  exact ⟨made, hok, (Leaf.segment.inj hleaf).symm⟩

/-- Only a leaf that is no segment stands in the way of the snapshots. -/
theorem map_snapshotLeaves (h : d.Total) (prior : List (Snapshot P)) (policy : ReusePolicy)
    (opening place : Nat) (leaves : List Leaf) :
    (snapshotLeaves prior d policy opening place leaves).map
      (fun made => made.map fun m => m.1.segment) = segmentsOf leaves := by
  induction leaves generalizing place with
  | nil => rfl
  | cons leaf leaves ih =>
    unfold snapshotLeaves
    cases leaf with
    | foreign kind => rfl
    | segment s =>
      obtain ⟨made, hok, hsegment⟩ := h.snapshot? prior policy opening place s
      rw [hok, segmentsOf, ← ih (place + 1)]
      dsimp only
      cases snapshotLeaves prior d policy opening (place + 1) leaves with
      | error e => rfl
      | ok rest =>
        simp only [Except.map, List.map_cons, hsegment]

/-- What a generation is assembled from makes no difference to whether that succeeds, to the
error, or to the boundaries. -/
theorem map_assemble (h : d.Total) (g : Generation) (prior : List (Snapshot P))
    (config : Config) (opening : Nat) :
    (g.assemble prior d config opening).map Assembly.boundaries = g.outline config := by
  have hleaves := h.map_snapshotLeaves prior config.reusePolicy opening 0 g.leaves
  rw [g.map_assemble]
  unfold Generation.outline
  rw [← hleaves]
  cases snapshotLeaves prior d config.reusePolicy opening 0 g.leaves with
  | error e => rfl
  | ok made =>
    simp only [Except.map, List.map_map]
    rfl

/-- With a decorator that never fails, what cannot be assembled cannot be laid out. -/
theorem assemble_eq_error_iff (h : d.Total) {g : Generation} {prior : List (Snapshot P)}
    {config : Config} {opening : Nat} {e : Error} :
    g.assemble prior d config opening = .error e ↔ g.outline config = .error e := by
  rw [← h.map_assemble g prior config opening]
  cases g.assemble prior d config opening <;> simp [Except.map]

/-- With a decorator that never fails, what can be laid out can be assembled, with the same
boundaries. -/
theorem exists_assemble (h : d.Total) {g : Generation} {config : Config} {b : Boundaries}
    (hb : g.outline config = .ok b) (prior : List (Snapshot P)) (opening : Nat) :
    ∃ a, g.assemble prior d config opening = .ok a ∧ a.boundaries = b := by
  rw [← h.map_assemble g prior config opening] at hb
  exact exists_of_map_eq_ok hb

end Decorator.Total

end SegmentedView
