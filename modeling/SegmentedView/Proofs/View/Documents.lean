import SegmentedView.Proofs.Boundaries.Location
import SegmentedView.Proofs.Deletes.Staging
import SegmentedView.System.Documents

/-!
# The documents of a view

A view is sound when its boundaries are the table of its segments and every segment's
deletes speak of that segment (`View.Sound`). A position of a sound view then is a
segment and an offset in it (`documentAt?_eq_some_iff`), and what a view says of a
position is what that segment says of the offset.
-/

set_option autoImplicit false

namespace SegmentedView

variable {P : Type}

/-- Whether a delete of this document waits for a commit. -/
def Snapshot.isStaged (s : Snapshot P) (l : Nat) : Bool := s.deletes.isStaged l

/-- A snapshot whose deletes speak of the documents of its segment. -/
structure Snapshot.Sound (s : Snapshot P) : Prop where
  deletes : s.deletes.Sound
  size : s.deletes.size = s.docCount

namespace Snapshot

/-- Only documents of the segment are deleted. -/
theorem Sound.lt_of_isDeleted {s : Snapshot P} (h : s.Sound) {l : Nat}
    (hl : s.isDeleted l = true) : l < s.docCount :=
  h.size ▸ DeleteState.lt_size_of_isDeleted hl

/-- Only documents of the segment are staged. -/
theorem Sound.lt_of_isStaged {s : Snapshot P} (h : s.Sound) {l : Nat}
    (hl : s.isStaged l = true) : l < s.docCount :=
  h.size ▸ h.deletes.lt_size_of_isStaged hl

/-- Marks delete nothing before they are committed. -/
@[simp] theorem isDeleted_markAll (s : Snapshot P) (ls : List Nat) (l : Nat) :
    (s.markAll ls).1.isDeleted l = s.isDeleted l :=
  s.deletes.isDeleted_markAll ls l

/-- Marks stage the documents of the segment that are not deleted. -/
theorem Sound.isStaged_markAll {s : Snapshot P} (h : s.Sound) (ls : List Nat) (l : Nat) :
    (s.markAll ls).1.isStaged l = true ↔
      s.isStaged l = true ∨ l ∈ ls ∧ l < s.docCount ∧ s.isDeleted l = false := by
  rw [← h.size]
  exact h.deletes.isStaged_markAll ls l

/-- Marks answer how many of them were neither deleted nor staged. -/
theorem Sound.snd_markAll {s : Snapshot P} (h : s.Sound) (ls : List Nat) :
    (s.markAll ls).2 = ((Finset.range s.docCount).filter
      fun l => l ∈ ls ∧ s.isDeleted l = false ∧ s.isStaged l = false).card := by
  rw [← h.size]
  exact h.deletes.snd_markAll ls

/-- Marks keep a snapshot sound. -/
theorem Sound.markAll {s : Snapshot P} (h : s.Sound) (ls : List Nat) : (s.markAll ls).1.Sound :=
  ⟨h.deletes.markAll ls, (s.deletes.size_markAll ls).trans h.size⟩

/-- A commit deletes what was staged. -/
theorem Sound.isDeleted_commit {s : Snapshot P} (h : s.Sound) (l : Nat) :
    s.commit.1.isDeleted l = true ↔ s.isDeleted l = true ∨ s.isStaged l = true :=
  h.deletes.isDeleted_commit l

/-- Nothing is staged after a commit. -/
theorem isStaged_commit (s : Snapshot P) (l : Nat) : s.commit.1.isStaged l = false :=
  s.deletes.isStaged_commit l

/-- A commit keeps a snapshot sound. -/
theorem Sound.commit {s : Snapshot P} (h : s.Sound) : s.commit.1.Sound :=
  ⟨s.deletes.sound_commit, h.deletes.size_commit.trans h.size⟩

/-- A change to one segment keeps it sound and leaves the segment itself alone. -/
theorem Sound.change {s : Snapshot P} (h : s.Sound) (c : SegmentChange) :
    (s.change c).1.Sound := by
  cases c with
  | mark l => exact h.markAll [l]
  | markAll ls => exact h.markAll ls
  | markIds ids => exact h.markAll _
  | commit => exact h.commit

end Snapshot

namespace View

/-- The document counts of the segments, in order. -/
def counts (v : View P) : List Nat := v.segments.map Snapshot.docCount

/-- The boundaries are those of the segments, and every segment is sound. -/
structure Sound (v : View P) : Prop where
  table : v.boundaries.IsTableOf v.counts
  snapshot : ∀ s ∈ v.segments, s.Sound

/-- Whether a delete of the document at a position waits for a commit. -/
def isStaged (v : View P) (p : Nat) : Bool := (v.documentAt? p).any fun (s, l) => s.isStaged l

/-- The total is the sum of the document counts. -/
theorem Sound.total {v : View P} (h : v.Sound) : v.total = v.counts.sum := h.table.total

/-- The count at a place is that of the segment there. -/
theorem getElem?_counts (v : View P) (i : Nat) :
    v.counts[i]? = v.segments[i]?.map Snapshot.docCount := List.getElem?_map

/-- The start at a place is where the segment there starts. -/
theorem Sound.getElem?_starts {v : View P} (h : v.Sound) {i : Nat} {s : Snapshot P}
    (hs : v.segments[i]? = some s) : v.starts[i]? = some (Boundaries.startOf v.counts i) := by
  obtain ⟨hi, -⟩ := List.getElem?_eq_some_iff.1 hs
  refine h.table.start i ?_
  rw [counts, List.length_map]
  exact hi.le

/-- A position is located where its segment starts and the offset says. -/
theorem Sound.locate_eq_some_iff {v : View P} (h : v.Sound) {p i l : Nat} :
    v.locate p = some (i, l) ↔ ∃ s, v.segments[i]? = some s ∧ l < s.docCount ∧
      p = Boundaries.startOf v.counts i + l := by
  unfold locate
  rw [Boundaries.locate_eq_some_iff h.table, getElem?_counts]
  constructor
  · rintro ⟨count, hcount, hl, hp⟩
    obtain ⟨s, hs, rfl⟩ := Option.map_eq_some_iff.1 hcount
    exact ⟨s, hs, hl, hp⟩
  · rintro ⟨s, hs, hl, hp⟩
    exact ⟨s.docCount, by rw [hs]; rfl, hl, hp⟩

/-- The document at a position: the segment whose stretch the position is in, and how far
it is into that stretch. -/
theorem Sound.documentAt?_eq_some_iff {v : View P} (h : v.Sound) {p l : Nat}
    {s : Snapshot P} : v.documentAt? p = some (s, l) ↔ ∃ i, v.segments[i]? = some s ∧
      l < s.docCount ∧ p = Boundaries.startOf v.counts i + l := by
  unfold documentAt?
  simp only [Option.bind_eq_some_iff, Option.map_eq_some_iff, Prod.exists, Prod.mk.injEq]
  constructor
  · rintro ⟨i, m, hloc, x, hx, rfl, rfl⟩
    obtain ⟨y, hy, hl, hp⟩ := h.locate_eq_some_iff.1 hloc
    obtain rfl : x = y := Option.some.inj (hx.symm.trans hy)
    exact ⟨i, hx, hl, hp⟩
  · rintro ⟨i, hs, hl, hp⟩
    exact ⟨i, l, h.locate_eq_some_iff.2 ⟨s, hs, hl, hp⟩, s, hs, rfl, rfl⟩

/-- Every position below the total holds a document. -/
theorem Sound.exists_documentAt? {v : View P} (h : v.Sound) {p : Nat} (hp : p < v.total) :
    ∃ s l, v.documentAt? p = some (s, l) := by
  rw [h.total] at hp
  obtain ⟨i, l, hloc⟩ := Boundaries.exists_locate h.table hp
  obtain ⟨s, hs, hl, hp⟩ := h.locate_eq_some_iff.1 hloc
  exact ⟨s, l, h.documentAt?_eq_some_iff.2 ⟨i, hs, hl, hp⟩⟩

/-- The deletes at a position are those of the document there. -/
theorem isDeleted_of_documentAt? {v : View P} {p l : Nat} {s : Snapshot P}
    (h : v.documentAt? p = some (s, l)) :
    v.isDeleted p = s.isDeleted l ∧ v.isStaged p = s.isStaged l := by
  unfold isDeleted isStaged
  rw [h]
  exact ⟨rfl, rfl⟩

/-- The document at a position is in one of the segments. -/
theorem mem_of_documentAt? {v : View P} {p l : Nat} {s : Snapshot P}
    (h : v.documentAt? p = some (s, l)) : s ∈ v.segments := by
  unfold documentAt? at h
  obtain ⟨x, -, hfound⟩ := Option.bind_eq_some_iff.1 h
  obtain ⟨y, hy, heq⟩ := Option.map_eq_some_iff.1 hfound
  obtain ⟨rfl, rfl⟩ := Prod.mk.inj heq
  exact List.mem_of_getElem? hy

/-- Two views with the same boundaries over the same segments, whatever their deletes. -/
structure SameDocuments (v w : View P) : Prop where
  boundaries : w.boundaries = v.boundaries
  segments : w.segments.map Snapshot.segment = v.segments.map Snapshot.segment

/-- A view has the documents of itself. -/
theorem SameDocuments.refl (v : View P) : SameDocuments v v := ⟨rfl, rfl⟩

/-- To have the same documents is mutual. -/
theorem SameDocuments.symm {v w : View P} (h : SameDocuments v w) : SameDocuments w v :=
  ⟨h.boundaries.symm, h.segments.symm⟩

/-- The same documents are as many. -/
theorem SameDocuments.total {v w : View P} (h : SameDocuments v w) : w.total = v.total := by
  unfold View.total
  rw [h.boundaries]

/-- The same documents are in segments of the same counts. -/
theorem SameDocuments.counts {v w : View P} (h : SameDocuments v w) : w.counts = v.counts := by
  have hseg := congrArg (List.map Segment.docCount) h.segments
  rw [List.map_map, List.map_map] at hseg
  exact hseg

/-- A view of the documents of a sound view is sound if its snapshots are. -/
theorem Sound.of_sameDocuments {v w : View P} (h : v.Sound) (hsame : SameDocuments v w)
    (hw : ∀ s ∈ w.segments, s.Sound) : w.Sound := by
  refine ⟨?_, hw⟩
  rw [hsame.boundaries, hsame.counts]
  exact h.table

/-- The same documents are in the same leaves. -/
theorem SameDocuments.leaves {v w : View P} (h : SameDocuments v w) :
    w.segments.map (fun x => Leaf.segment x.segment) =
      v.segments.map fun x => Leaf.segment x.segment := by
  have hseg := congrArg (List.map Leaf.segment) h.segments
  rw [List.map_map, List.map_map] at hseg
  exact hseg

/-- The segment at a place, as the other view shows it. -/
theorem SameDocuments.getElem? {v w : View P} (h : SameDocuments v w) {i : Nat}
    {s : Snapshot P} (hs : v.segments[i]? = some s) :
    ∃ t, w.segments[i]? = some t ∧ t.segment = s.segment := by
  have hseg := congrArg (·[i]?) h.segments
  simp only [List.getElem?_map, hs, Option.map_some, Option.map_eq_some_iff] at hseg
  exact hseg

/-- What holds a position in one view holds it in the other. -/
theorem SameDocuments.documentAt? {v w : View P} (h : SameDocuments v w) {p l : Nat}
    {s : Snapshot P} (hs : v.documentAt? p = some (s, l)) :
    ∃ t, w.documentAt? p = some (t, l) ∧ t.segment = s.segment := by
  unfold View.documentAt? locate at hs ⊢
  rw [h.boundaries]
  obtain ⟨x, hx, hfound⟩ := Option.bind_eq_some_iff.1 hs
  obtain ⟨y, hy, heq⟩ := Option.map_eq_some_iff.1 hfound
  obtain ⟨rfl, rfl⟩ := Prod.mk.inj heq
  obtain ⟨t, ht, hseg⟩ := h.getElem? hy
  refine ⟨t, ?_, hseg⟩
  rw [hx, Option.bind_some]
  dsimp only
  rw [ht]
  rfl

/-- The id at a position is decided by the boundaries and the segments alone. -/
theorem stableIdAt_eq (v : View P) (p : Nat) :
    v.stableIdAt p = (v.boundaries.locate p).bind fun x =>
      ((v.segments.map Snapshot.segment)[x.1]?).bind fun segment =>
        if x.2 < segment.docCount then segment.stableId x.2 else none := by
  unfold stableIdAt documentAt? locate
  cases v.boundaries.locate p with
  | none => rfl
  | some x =>
    simp only [Option.bind_some, List.getElem?_map]
    cases v.segments[x.1]? <;> rfl

/-- The same documents have the same ids at the same positions. -/
theorem SameDocuments.stableIdAt {v w : View P} (h : SameDocuments v w) (p : Nat) :
    w.stableIdAt p = v.stableIdAt p := by
  rw [stableIdAt_eq, stableIdAt_eq, h.boundaries, h.segments]

/-- A position is an offset, in some segment, of a document that a question is answered with yes
for. -/
def HasOffset (v : View P) (asks : Snapshot P → Nat → Bool) (p : Nat) : Prop :=
  ∃ i s l, v.segments[i]? = some s ∧ p = Boundaries.startOf v.counts i + l ∧ asks s l = true

/-- A question that only documents of a segment are answered with yes for may be asked of the
document at a position or of the offsets of the segments. -/
theorem Sound.any_documentAt?_iff {v : View P} (h : v.Sound) {asks : Snapshot P → Nat → Bool}
    (hasks : ∀ s : Snapshot P, s.Sound → ∀ l, asks s l = true → l < s.docCount) {p : Nat} :
    ((v.documentAt? p).any fun (s, l) => asks s l) = true ↔ v.HasOffset asks p := by
  rw [Option.any_eq_true]
  constructor
  · rintro ⟨⟨s, l⟩, hdoc, hl⟩
    obtain ⟨i, hs, -, hp⟩ := h.documentAt?_eq_some_iff.1 hdoc
    exact ⟨i, s, l, hs, hp, hl⟩
  · rintro ⟨i, s, l, hs, hp, hl⟩
    have hlt := hasks s (h.snapshot s (List.mem_of_getElem? hs)) l hl
    exact ⟨(s, l), h.documentAt?_eq_some_iff.2 ⟨i, hs, hlt, hp⟩, hl⟩

/-- A deleted position is a deleted offset of some segment. -/
theorem Sound.isDeleted_iff {v : View P} (h : v.Sound) {p : Nat} :
    v.isDeleted p = true ↔ v.HasOffset Snapshot.isDeleted p :=
  h.any_documentAt?_iff fun _ hs _ => hs.lt_of_isDeleted

/-- A staged position is a staged offset of some segment. -/
theorem Sound.isStaged_iff {v : View P} (h : v.Sound) {p : Nat} :
    v.isStaged p = true ↔ v.HasOffset Snapshot.isStaged p :=
  h.any_documentAt?_iff fun _ hs _ => hs.lt_of_isStaged

/-- A position that holds a document is below the total. -/
theorem lt_total_of_documentAt? {v : View P} {p : Nat} {x : Snapshot P × Nat}
    (h : v.documentAt? p = some x) : p < v.total := by
  unfold documentAt? locate Boundaries.locate at h
  split at h
  case isTrue hp => exact of_decide_eq_true hp
  case isFalse => cases h

/-- A question that the document at a position answers is not asked beyond the total. -/
theorem lt_total_of_any {v : View P} {asks : Snapshot P × Nat → Bool} {p : Nat}
    (h : (v.documentAt? p).any asks = true) : p < v.total := by
  obtain ⟨x, hx, -⟩ := (Option.any_eq_true _ _).1 h
  exact lt_total_of_documentAt? hx

end View

end SegmentedView
