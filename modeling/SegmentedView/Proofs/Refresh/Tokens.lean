import SegmentedView.Proofs.Refresh.Lineage
import SegmentedView.Store.SegmentList

/-!
# Content tokens

Under the stronger reuse policy a segment takes over deletes only from a snapshot of its
name and token. Over a store whose tokens mean what they say (`TokenContract`), such a
snapshot holds the same documents at the same offsets. So every delete of a view, staged or
committed, is of a document that was marked by its id on the view or on one that it descends
from (`marks_follow_ids`), however segments were rewritten, removed, added again or merged
in between.
-/

set_option autoImplicit false

namespace SegmentedView

variable {σ P : Type}

/-- Segments of one name and one token have the same documents in the same order. -/
def TokenContract (segments : List Segment) : Prop :=
  ∀ x ∈ segments, ∀ y ∈ segments, x.name = y.name → x.version.isSome = true →
    x.version = y.version →
      x.docCount = y.docCount ∧ ∀ l < x.docCount, x.stableId l = y.stableId l

instance (segments : List Segment) : Decidable (TokenContract segments) := by
  unfold TokenContract
  infer_instance

/-- Some of the segments that keep the contract keep it. -/
theorem TokenContract.mono {xs ys : List Segment} (h : TokenContract ys) (hsub : xs ⊆ ys) :
    TokenContract xs :=
  fun x hx y hy => h x (hsub hx) y (hsub hy)

/-- A snapshot that passes on its deletes has the token of the segment that takes them
over. -/
theorem Snapshot.version_of_predecessor? {prior : List (Snapshot P)} {s : Segment}
    {previous : Snapshot P}
    (h : predecessor? prior .byNameAndVersion s = some previous) :
    previous.version.isSome = true ∧ previous.version = s.version := by
  obtain ⟨-, -, haccepts⟩ := mem_of_predecessor? h
  unfold ReusePolicy.accepts at haccepts
  obtain ⟨hsome, hequal⟩ := Bool.and_eq_true_iff.1 haccepts
  exact ⟨hsome, eq_of_beq hequal⟩

namespace System

variable [SegmentStore σ]

/-! ## What the store shows -/

/-- Whether a step enumerates the store. -/
def enumerates (s : System σ P) : Step σ P → Bool
  | .openView _ _ => (checkComposite s.store).isOk
  | .reopen slot _ =>
    (checkComposite s.store).isOk && match s.findOpenView slot with
      | .ok v => SegmentStore.hasChangedSince s.store (s.version v)
      | .error _ => false
  | _ => false

/-- The segments that the store shows in a step. -/
def shownBy (s : System σ P) (st : Step σ P) : List Segment :=
  if s.enumerates st then
    match (SegmentStore.enumerate s.store).1 with
    | .ok g => g.leaves.filterMap Leaf.segment?
    | .error _ => []
  else []

/-- All segments that the store shows in a run. -/
def shownIn (s : System σ P) : List (Step σ P) → List Segment
  | [] => []
  | st :: steps => s.shownBy st ++ (s.step st).system.shownIn steps

/-- A longer run has shown what the last step shows besides. -/
theorem shownIn_snoc (s : System σ P) (steps : List (Step σ P)) (st : Step σ P) :
    s.shownIn (steps ++ [st]) = s.shownIn steps ++ (s.run steps).shownBy st := by
  induction steps generalizing s with
  | nil => exact List.append_nil _
  | cons first steps ih =>
    rw [List.cons_append, shownIn, ih, shownIn, List.append_assoc]
    rfl

/-- An opening of a store that is admitted enumerates it. -/
theorem enumerates_of_opens {s : System σ P} {st : Step σ P} {prior : List (Snapshot P)}
    {d : Decorator P} {config : Config} (ho : s.Opens st prior d config)
    (hk : checkComposite s.store = .ok ()) : s.enumerates st = true := by
  unfold enumerates
  cases ho with
  | anew => simp [hk, Except.isOk, Except.toBool]
  | refreshed slot nanos v hv hopen hchanged =>
    have hfind : s.findOpenView slot = .ok v := findOpenView_eq_ok_iff.2 ⟨hv, hopen⟩
    simp [hk, hfind, hchanged, Except.isOk, Except.toBool]

/-- An opening makes its snapshots of segments that it was shown. -/
theorem mem_shownBy {s : System σ P} {st : Step σ P} {prior : List (Snapshot P)}
    {d : Decorator P} {config : Config} {g : Generation} {a : Assembly P}
    (ho : s.Opens st prior d config) (hk : checkComposite s.store = .ok ())
    (hg : (SegmentStore.enumerate s.store).1 = .ok g)
    (ha : g.assemble prior d config s.leases.length = .ok a) {x : Snapshot P}
    (hx : x ∈ a.snapshots) : x.segment ∈ s.shownBy st := by
  unfold shownBy
  rw [if_pos (enumerates_of_opens ho hk), hg]
  have hleaf : Leaf.segment x.segment ∈ g.leaves := by
    rw [(Generation.made_of_assemble ha).leaves]
    exact List.mem_map.2 ⟨x, hx, rfl⟩
  exact List.mem_filterMap.2 ⟨_, hleaf, rfl⟩

/-- Every segment of every view was shown by the store. -/
theorem mem_shownIn_of_view? {s : System σ P} (hs : s.views = []) {steps : List (Step σ P)}
    {k : Nat} {v : View P} (hv : (s.run steps).view? k = some v) {x : Snapshot P}
    (hx : x ∈ v.segments) : x.segment ∈ s.shownIn steps := by
  induction steps using List.reverseRecOn generalizing k v x with
  | nil =>
    change s.view? k = some v at hv
    simp [view?, hs] at hv
  | append_singleton steps st ih =>
    rw [run_snoc] at hv
    rw [shownIn_snoc, List.mem_append]
    cases arises_step hv with
    | evolved u v hu he =>
      left
      have hsegment : x.segment ∈ u.segments.map Snapshot.segment := by
        rw [← he.sameDocuments.segments]
        exact List.mem_map_of_mem hx
      obtain ⟨y, hy, heq⟩ := List.mem_map.1 hsegment
      rw [← heq]
      exact ih hu hy
    | opened g a ho hk hg ha hslot hanswer hlease => exact .inr (mem_shownBy ho hk hg ha hx)
    | copied slot u hst hu hopen hslot hanswer =>
      left
      obtain ⟨y, hy, rfl⟩ := List.mem_map.1 hx
      exact ih hu hy

/-! ## Marks -/

/-- What a segment takes over was marked in a snapshot that has the same document there. -/
theorem exists_marked_of_inherited {segments : List Segment} (htokens : TokenContract segments)
    {prior : List (Snapshot P)} (hprior : ∀ y ∈ prior, y.segment ∈ segments) {x : Snapshot P}
    (hshown : x.segment ∈ segments)
    (hdeletes : x.deletes = inheritedDeletes prior .byNameAndVersion x.segment) {l : Nat}
    (hl : x.Marked l) :
    ∃ y ∈ prior, y.Marked l ∧ y.segment.stableId l = x.segment.stableId l := by
  obtain ⟨y, hp, hlt, hy⟩ := marked_of_inheritedDeletes hdeletes hl
  obtain ⟨hmem, hname, -⟩ := Snapshot.mem_of_predecessor? hp
  obtain ⟨hsome, hversion⟩ := Snapshot.version_of_predecessor? hp
  obtain ⟨hcount, hids⟩ := htokens y.segment (hprior y hmem) x.segment hshown hname hsome hversion
  have hly : l < y.segment.docCount := hcount ▸ hlt
  exact ⟨y, hmem, hy, hids l hly⟩

/-- Every marked offset of every view was marked by the id that it has there. -/
theorem targeted_of_marked {s : System σ P} (hs : s.Reachable) (hnone : s.views = [])
    {steps : List (Step σ P)} (htokens : TokenContract (s.shownIn steps)) {k : Nat} {v : View P}
    (hv : (s.run steps).view? k = some v)
    (hpolicy : v.config.reusePolicy = .byNameAndVersion) {x : Snapshot P}
    (hx : x ∈ v.segments) {l : Nat} (hl : x.Marked l) :
    s.Targeted steps k (x.segment.stableId l) := by
  -- By induction on the run: a step marks what it targets, or hands on what was marked. A
  -- reopen hands it on to the same document by the contract, for both segments were shown.
  induction steps using List.reverseRecOn generalizing k v x with
  | nil =>
    change s.view? k = some v at hv
    simp [view?, hnone] at hv
  | append_singleton steps st ih =>
    have hshown := mem_shownIn_of_view? hnone hv hx
    rw [run_snoc] at hv
    have hbefore : s.shownIn steps ⊆ s.shownIn (steps ++ [st]) := by
      rw [shownIn_snoc]
      exact List.subset_append_left _ _
    have hmarked : ∀ {i : Nat} {u : View P}, (s.run steps).view? i = some u →
        u.config.reusePolicy = .byNameAndVersion → ∀ y ∈ u.segments, y.Marked l →
          s.Targeted steps i (y.segment.stableId l) := by
      intro i u hu hupolicy y hy hly
      exact ih (htokens.mono hbefore) hu hupolicy hy hly
    cases arises_step hv with
    | evolved u v hu he =>
      have hsound : u.Sound := (hs.run steps).sound hu
      obtain ⟨y, hy, hsegment, hold | ⟨hok, htargets⟩⟩ := marked_step hsound hu hv he hx hl
      · rw [hsegment]
        exact (hmarked hu (he.sameOpening.config ▸ hpolicy) y hy hold).stays st
      · rw [hsegment]
        exact targeted_of_targets hu hok htargets
    | @opened prior d config g a ho hk hg ha hslot hanswer hlease =>
      have hdeletes := (Generation.made_of_assemble ha).deletes x hx
      change config.reusePolicy = _ at hpolicy
      rw [hpolicy] at hdeletes
      cases ho with
      | anew =>
        obtain ⟨y, hp, -⟩ := marked_of_inheritedDeletes hdeletes hl
        cases hp
      | refreshed slot nanos u hu hopen hchanged =>
        have hprior : ∀ y ∈ u.segments, y.segment ∈ s.shownIn (steps ++ [.reopen slot nanos]) := by
          intro y hy
          exact hbefore (mem_shownIn_of_view? hnone hu hy)
        obtain ⟨y, hy, hly, hid⟩ :=
          exists_marked_of_inherited htokens hprior hshown hdeletes hl
        rw [← hid]
        exact (hmarked hu hpolicy y hy hly).reopened hanswer
    | copied slot u hst hu hopen hslot hanswer =>
      subst hst
      obtain ⟨y, hy, rfl⟩ := List.mem_map.1 hx
      exact (hmarked hu hpolicy y hy hl).copied hanswer

/-- A stale delete never hides a document. Over a store whose segments of one name and one
token always hold the same documents, every position of every view under the stronger policy
that is deleted or staged holds a document whose id was the target of a mark, made on the
view or on one that it descends from by copies and reopens. -/
theorem marks_follow_ids {store : σ} {steps : List (Step σ P)}
    (htokens : TokenContract (({ store := store } : System σ P).shownIn steps)) {k : Nat}
    {v : View P} (hv : (({ store := store } : System σ P).run steps).view? k = some v)
    (hpolicy : v.config.reusePolicy = .byNameAndVersion) {p : Nat}
    (hp : v.isDeleted p = true ∨ v.isStaged p = true) :
    ({ store := store } : System σ P).Targeted steps k (v.stableIdAt p) := by
  have hs : Reachable ({ store := store } : System σ P) := reachable_start store
  have hsound : v.Sound := (hs.run steps).sound hv
  obtain ⟨x, hx, l, hl, hid⟩ := hsound.exists_marked hp
  rw [hid]
  exact targeted_of_marked hs rfl htokens hv hpolicy hx hl

/-- Segment "a" is rewritten under another token and "b" leaves and comes back under its own,
while documents 2 and 3 of them are marked: the delete of 2 is gone, the one of 3 is not. -/
theorem marks_follow_ids_of_rewrite :
    let a (token : Nat) (ids : List Nat) := (MemorySegment.ofIds "a" ids).withVersion token
    let b := (MemorySegment.ofIds "b" [3, 4]).withVersion 7
    let start : System SegmentList Segment := { store := .ofSegments [a 1 [1, 2], b] }
    let steps : List (Step SegmentList Segment) := [
      .openView .segments { reusePolicy := .byNameAndVersion }, .markAt 0 [1, 2],
      .changeStore fun store => (store.replace? (a 2 [9, 8])).getD store,
      .changeStore fun store => (store.remove? "b").getD store,
      .changeStore fun store => store.add b, .commit 0, .reopen 0 0]
    TokenContract (start.shownIn steps) ∧ ∃ v, (start.run steps).view? 1 = some v ∧
      v.isDeleted 1 = false ∧ v.isDeleted 2 = true ∧ start.Targeted steps 1 (some 3) := by
  intro a b start steps
  have htokens : TokenContract (start.shownIn steps) := by decide +kernel
  obtain ⟨v, hv⟩ : ∃ v, (start.run steps).view? 1 = some v :=
    Option.isSome_iff_exists.1 (by decide +kernel)
  have hfound : ((start.run steps).view? 1).map (fun v => (v.config.reusePolicy,
      v.isDeleted 1, v.isDeleted 2, v.stableIdAt 2)) =
        some (.byNameAndVersion, false, true, some 3) := by decide +kernel
  rw [hv] at hfound
  simp only [Option.map_some, Option.some.injEq, Prod.mk.injEq] at hfound
  obtain ⟨hpolicy, hone, htwo, hid⟩ := hfound
  have htargeted := marks_follow_ids htokens hv hpolicy (.inl htwo)
  rw [hid] at htargeted
  exact ⟨htokens, v, hv, hone, htwo, htargeted⟩

end System

end SegmentedView
