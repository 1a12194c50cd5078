import SegmentedView.Proofs.View.Assembly

/-!
# The content of a view

Two views can be told apart by the lease that they hold, by being closed, and by where their
payloads were made. What is left when these are put aside is the content of the view
(`View.content`), and it decides everything else: look-ups and counts answer by it, marks and
commits act on it, and a generation takes over from it (`Generation.assemble_congr`). A copy
has the content of its original (`View.content_copy`).
-/

set_option autoImplicit false

namespace SegmentedView

variable {P : Type}

namespace Snapshot

/-- A snapshot without the place where its payload was made. -/
def content (s : Snapshot P) : Snapshot P := { s with payload := ⟨0, 0, s.payload.value⟩ }

/-- The last snapshot of a name is found by content. -/
theorem lastNamed?_content (prior : List (Snapshot P)) (name : String) :
    lastNamed? (prior.map content) name = (lastNamed? prior name).map content := by
  unfold lastNamed?
  rw [← List.map_reverse, List.find?_map]
  rfl

/-- The snapshot to take over from is found by content. -/
theorem predecessor?_content (prior : List (Snapshot P)) (policy : ReusePolicy) (s : Segment) :
    predecessor? (prior.map content) policy s = (predecessor? prior policy s).map content := by
  unfold predecessor?
  rw [lastNamed?_content]
  cases lastNamed? prior s.name with
  | none => rfl
  | some x =>
    have haccepts : policy.accepts x.content s = policy.accepts x s := by
      cases policy <;> rfl
    simp only [Option.map_some, Option.filter, haccepts]
    split <;> rfl

variable (d : Decorator P) (segment : Segment)

/-- The content of a segment that is seen for the first time has nothing to do with its place. -/
theorem content_open? (opening opening' place place' : Nat) :
    (open? d opening place segment).map content =
      (open? d opening' place' segment).map content := by
  unfold open?
  cases d.decorate segment <;> rfl

/-- The content of a segment that was seen before is a matter of the content that it had. -/
theorem content_rebase? (s : Snapshot P) (opening opening' place place' : Nat) :
    (s.rebase? d opening place segment).map content =
      (s.content.rebase? d opening' place' segment).map content := by
  have hvalue : s.content.payload.value = s.payload.value := rfl
  unfold rebase?
  rw [hvalue]
  cases d.redecorate s.payload.value segment with
  | error e => rfl
  | ok value? => cases value? <;> rfl

end Snapshot

namespace View

/-- A view without its lease, its closed mark and the places where its payloads were made. -/
def content (v : View P) : View P :=
  { v with lease := 0, segments := v.segments.map Snapshot.content, closed := false }

/-- A copy of a view has its content. -/
theorem content_copy (v : View P) : v.copy.content = v.content := by
  unfold copy content
  simp only [List.map_map]
  rfl

/-! ## Look-ups -/

/-- The document at a position is a matter of the content. -/
theorem documentAt?_content (v : View P) (p : Nat) :
    v.content.documentAt? p = (v.documentAt? p).map fun x => (x.1.content, x.2) := by
  have hlocate : v.content.locate p = v.locate p := rfl
  unfold documentAt?
  rw [hlocate]
  cases v.locate p with
  | none => rfl
  | some x =>
    simp only [Option.bind_some, content, List.getElem?_map, Option.map_map]
    rfl

/-- The id at a position is a matter of the content. -/
theorem stableIdAt_content (v : View P) (p : Nat) : v.content.stableIdAt p = v.stableIdAt p := by
  unfold stableIdAt
  rw [documentAt?_content]
  cases v.documentAt? p <;> rfl

/-- Whether a position is deleted is a matter of the content. -/
theorem isDeleted_content (v : View P) (p : Nat) : v.content.isDeleted p = v.isDeleted p := by
  unfold isDeleted
  rw [documentAt?_content]
  cases v.documentAt? p <;> rfl

/-- The stored value of an id is a matter of the content. -/
theorem storedValue_content (v : View P) (id : Nat) :
    v.content.storedValue id = v.storedValue id := by
  have hmapper : v.content.mapper = v.mapper := rfl
  unfold storedValue
  rw [hmapper]
  cases v.mapper.bind fun mapper => mapper.position id with
  | none => rfl
  | some p =>
    dsimp only
    rw [documentAt?_content]
    cases v.documentAt? p <;> rfl

/-- The number of deleted documents is a matter of the content. -/
theorem deletedCount_content (v : View P) : v.content.deletedCount = v.deletedCount := by
  unfold deletedCount content
  simp only [List.map_map]
  rfl

/-- The number of live documents is a matter of the content. -/
theorem liveCount_content (v : View P) : v.content.liveCount = v.liveCount := by
  unfold liveCount
  rw [deletedCount_content]
  rfl

/-- The place of a name is a matter of the content. -/
theorem placeNamed?_content (v : View P) (name : String) :
    v.content.placeNamed? name = v.placeNamed? name := by
  unfold placeNamed? content
  simp only [List.zipIdx_map, ← List.map_reverse, List.findSome?_map]
  rfl

/-- The segment of a name is a matter of the content. -/
theorem segmentNamed?_content (v : View P) (name : String) :
    v.content.segmentNamed? name = (v.segmentNamed? name).map Snapshot.content := by
  unfold segmentNamed?
  rw [placeNamed?_content]
  cases v.placeNamed? name with
  | none => rfl
  | some i => exact List.getElem?_map

/-! ## Marks and commits -/

/-- Changes that act on the content of every snapshot act on the content of the view. -/
theorem mark_content (v : View P) {change : Nat → Snapshot P → Snapshot P × Nat}
    (hchange : ∀ i s, (change i s.content).1 = (change i s).1.content ∧
      (change i s.content).2 = (change i s).2) :
    (v.content.mark change).1 = (v.mark change).1.content ∧
      (v.content.mark change).2 = (v.mark change).2 := by
  have hsnapshots : (v.content.segments.mapIdx change).map (·.1) =
      ((v.segments.mapIdx change).map (·.1)).map Snapshot.content := by
    apply List.ext_getElem?
    intro i
    simp only [content, List.getElem?_map, List.getElem?_mapIdx, Option.map_map]
    cases v.segments[i]? with
    | none => rfl
    | some s => exact congrArg some (hchange i s).1
  have hcounts : (v.content.segments.mapIdx change).map (·.2) =
      (v.segments.mapIdx change).map (·.2) := by
    apply List.ext_getElem?
    intro i
    simp only [content, List.getElem?_map, List.getElem?_mapIdx, Option.map_map]
    cases v.segments[i]? with
    | none => rfl
    | some s => exact congrArg some (hchange i s).2
  unfold mark
  dsimp only
  rw [hsnapshots, hcounts]
  exact ⟨rfl, rfl⟩

/-- What marks by ids do and answer is a matter of the content. -/
theorem markIds_content (v : View P) (ids : List Nat) :
    (v.content.markIds ids).1 = (v.markIds ids).1.content ∧
      (v.content.markIds ids).2 = (v.markIds ids).2 :=
  v.mark_content fun _ _ => ⟨rfl, rfl⟩

/-- What marks by positions do and answer is a matter of the content. -/
theorem markAt_content (v : View P) (positions : List Nat) :
    (v.content.markAt positions).1 = (v.markAt positions).1.content ∧
      (v.content.markAt positions).2 = (v.markAt positions).2 :=
  v.mark_content fun _ _ => ⟨rfl, rfl⟩

/-- What a commit does is a matter of the content. -/
theorem commit_content (v : View P) : v.content.commit = v.commit.content := by
  unfold commit content
  simp only [List.map_map]
  rfl

end View

/-! ## Generations -/

/-- Results that are mapped to one result are one error, or values that are mapped to one. -/
theorem cases_of_map_eq_map {α β γ : Type} {f : α → γ} {g : β → γ} {x : Except Error α}
    {y : Except Error β} (h : x.map f = y.map g) :
    (∃ e, x = .error e ∧ y = .error e) ∨ ∃ a b, x = .ok a ∧ y = .ok b ∧ f a = g b := by
  cases x with
  | error e =>
    cases y with
    | error e' =>
      cases h
      exact .inl ⟨e, rfl, rfl⟩
    | ok b => cases h
  | ok a =>
    cases y with
    | error e' => cases h
    | ok b => exact .inr ⟨a, b, rfl, rfl, Except.ok.inj h⟩

section Generations

variable (prior : List (Snapshot P)) (d : Decorator P) (policy : ReusePolicy)

/-- A snapshot that was made, without the place where, and whether it was carried over. -/
def madeContent (made : Snapshot P × Bool) : Snapshot P × Bool := (made.1.content, made.2)

/-- The content of a leaf's snapshot is a matter of the content of what is taken over. -/
theorem Leaf.snapshot?_content (leaf : Leaf) (opening opening' place place' : Nat) :
    (leaf.snapshot? prior d policy opening place).map madeContent =
      (leaf.snapshot? (prior.map Snapshot.content) d policy opening' place').map madeContent := by
  cases leaf with
  | foreign kind => rfl
  | segment s =>
    have hmade : ∀ (made : Except Error (Snapshot P)) (reused : Bool),
        (made.map fun x => (x, reused)).map madeContent =
          (made.map Snapshot.content).map fun x => (x, reused) := by
      intro made reused
      cases made <;> rfl
    unfold Leaf.snapshot?
    dsimp only
    rw [Snapshot.predecessor?_content]
    cases Snapshot.predecessor? prior policy s with
    | none =>
      dsimp only [Option.map_none]
      rw [hmade, hmade, Snapshot.content_open? d s opening opening' place place']
    | some x =>
      dsimp only [Option.map_some]
      rw [hmade, hmade, Snapshot.content_rebase? d s x opening opening' place place']

/-- And so for leaves in order. -/
theorem snapshotLeaves_content (leaves : List Leaf) (opening opening' place place' : Nat) :
    (snapshotLeaves prior d policy opening place leaves).map (·.map madeContent) =
      (snapshotLeaves (prior.map Snapshot.content) d policy opening' place' leaves).map
        (·.map madeContent) := by
  induction leaves generalizing place place' with
  | nil => rfl
  | cons leaf leaves ih =>
    unfold snapshotLeaves
    rcases cases_of_map_eq_map (leaf.snapshot?_content prior d policy opening opening' place place')
      with ⟨e, hleft, hright⟩ | ⟨first, first', hleft, hright, hfirst⟩
    · rw [hleft, hright]
    · rw [hleft, hright]
      dsimp only
      rcases cases_of_map_eq_map (ih (place + 1) (place' + 1)) with
        ⟨e, hleft, hright⟩ | ⟨rest, rest', hleft, hright, hrest⟩
      · rw [hleft, hright]
        rfl
      · rw [hleft, hright]
        exact congrArg Except.ok (congrArg₂ List.cons hfirst hrest)

/-- An assembly without the places where payloads were made. -/
def Assembly.content (a : Assembly P) : Assembly P :=
  { a with snapshots := a.snapshots.map Snapshot.content }

variable {prior} {prior' : List (Snapshot P)}

/-- A generation takes over from the content of snapshots. -/
theorem Generation.assemble_congr (h : prior.map Snapshot.content = prior'.map Snapshot.content)
    (g : Generation) (config : Config) (opening opening' : Nat) :
    (g.assemble prior d config opening).map Assembly.content =
      (g.assemble prior' d config opening').map Assembly.content := by
  have hmade : (snapshotLeaves prior d config.reusePolicy opening 0 g.leaves).map
      (·.map madeContent) =
        (snapshotLeaves prior' d config.reusePolicy opening' 0 g.leaves).map
          (·.map madeContent) := by
    rw [snapshotLeaves_content prior d config.reusePolicy g.leaves opening 0 0 0, h]
    exact (snapshotLeaves_content prior' d config.reusePolicy g.leaves opening' 0 0 0).symm
  unfold Generation.assemble reuseSnapshots
  rcases cases_of_map_eq_map hmade with
    ⟨e, hleft, hright⟩ | ⟨made, made', hleft, hright, hsame⟩
  · rw [hleft, hright]
  · -- Counts, contents and statistics are read off the content of what was made.
    have hcounts : ∀ m : List (Snapshot P × Bool), (m.map (·.1)).map Snapshot.docCount =
        (m.map madeContent).map fun x => x.1.docCount := by
      intro m
      simp only [List.map_map]
      rfl
    have hsnapshots : ∀ m : List (Snapshot P × Bool), (m.map (·.1)).map Snapshot.content =
        (m.map madeContent).map (·.1) := by
      intro m
      simp only [List.map_map]
      rfl
    have hstats : ∀ m : List (Snapshot P × Bool),
        ReuseStats.ofSnapshots m = ReuseStats.ofSnapshots (m.map madeContent) := by
      intro m
      unfold ReuseStats.ofSnapshots
      rw [List.countP_map, List.countP_map]
      rfl
    rw [hleft, hright]
    simp only [Except.map]
    rw [hcounts made, hcounts made', hstats made, hstats made', hsame]
    cases Boundaries.ofCounts ((made'.map madeContent).map fun x => x.1.docCount) with
    | error e => rfl
    | ok boundaries =>
      by_cases hcheck : (config.validateDocCounts && boundaries.total != g.docCount) = true
      · simp only [if_pos hcheck]
      · simp only [if_neg hcheck, Assembly.content, hsnapshots, hsame]

end Generations

end SegmentedView
