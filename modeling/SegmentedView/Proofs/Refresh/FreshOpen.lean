import SegmentedView.Proofs.Leases.Generations
import SegmentedView.Proofs.Store.Revisions
import SegmentedView.Proofs.System.Openings

/-!
# Reopening and opening anew

Over a segment list that changes as it will, a view knows the list of its version
(`View.AsOf`): the list has a later version by now, or it still shows what the view shows.
Hence a reopen and an opening of the same list with the view's configuration agree on
everything but deletes (`reopen_agrees_with_open`), also where the reopen answers the view
itself without looking at the list.
-/

set_option autoImplicit false

namespace SegmentedView

variable {P : Type}

/-- If the store changes by itself, it does so by a change of the segment list. -/
def Step.Mutates : Step SegmentList P → Prop
  | .changeStore change => ∃ c, ∀ store, change store = (SegmentList.change store c).1
  | _ => True

/-- The number of the view that a reopen of the view of number `k` answers. -/
def Reopened.slot (k : Nat) : Reopened → Nat
  | .same => k
  | .fresh slot => slot

/-- A view that was made when the list had this version: while the list has it, the view
shows the generation of the list. -/
structure View.AsOf (v : View P) (version : Nat) (store : SegmentList) : Prop where
  le : version ≤ store.version
  leaves : version = store.version →
    v.segments.map (fun x => Leaf.segment x.segment) = store.generation.leaves
  outline : version = store.version → store.generation.outline v.config = .ok v.boundaries

namespace View.AsOf

variable {v w : View P} {version : Nat} {store next : SegmentList}

/-- What a view is of is a matter of its documents and its configuration. -/
theorem congr (h : v.AsOf version store) (hsame : SameDocuments v w)
    (hconfig : w.config = v.config) : w.AsOf version store := by
  refine ⟨h.le, fun heq => ?_, fun heq => ?_⟩
  · rw [hsame.leaves]
    exact h.leaves heq
  · rw [hconfig, hsame.boundaries]
    exact h.outline heq

/-- The list may stay as it is or go on to a later version. -/
theorem later (h : v.AsOf version store)
    (hnext : next.generation = store.generation ∨ store.version < next.version) :
    v.AsOf version next := by
  rcases hnext with hsame | hlt
  · have hversion : next.version = store.version := congrArg Generation.version hsame
    refine ⟨hversion ▸ h.le, fun heq => ?_, fun heq => ?_⟩
    · rw [hsame]
      exact h.leaves (heq.trans hversion)
    · rw [hsame]
      exact h.outline (heq.trans hversion)
  · have hle := h.le
    exact ⟨by omega, fun heq => by omega, fun heq => by omega⟩

end View.AsOf

namespace System

/-- A step leaves the generation of the list alone or makes a later version of it. -/
theorem generation_step (s : System SegmentList P) {st : Step SegmentList P}
    (hst : st.Mutates) : (s.step st).system.store.generation = s.store.generation ∨
      s.store.version < (s.step st).system.store.version := by
  rcases store_step SegmentList.generation (fun _ => rfl) (fun _ _ => rfl) s st with
    hkept | ⟨change, rfl, hchange⟩
  · exact .inl hkept
  · obtain ⟨c, hc⟩ := hst
    rw [hchange, hc]
    rcases s.store.change_cases c with hsame | hnext
    · rw [hsame]
      exact .inl rfl
    · right
      omega

/-- Every view of a run is a view of the list of its version. -/
theorem asOf_run {store : SegmentList} {steps : List (Step SegmentList P)}
    (hmutates : ∀ st ∈ steps, st.Mutates) {k : Nat} {v : View P}
    (hv : (({ store := store } : System SegmentList P).run steps).view? k = some v) :
    v.AsOf ((({ store := store } : System SegmentList P).run steps).version v)
      (({ store := store } : System SegmentList P).run steps).store := by
  induction steps using List.reverseRecOn generalizing k v with
  | nil => simp [run, view?] at hv
  | append_singleton steps st ih =>
    have hreachable := (reachable_start (P := P) store).run steps
    rw [run_snoc] at hv ⊢
    generalize ({ store := store } : System SegmentList P).run steps = s at hv ih hreachable ⊢
    have hstore := s.generation_step (hmutates st (by simp))
    have hbefore : ∀ st' ∈ steps, st'.Mutates := by
      intro st' hst'
      exact hmutates st' (List.mem_append_left _ hst')
    -- A view that keeps its lease keeps its version.
    have hold : ∀ {i : Nat} {u w : View P}, s.view? i = some u → View.SameDocuments u w →
        w.config = u.config → w.lease = u.lease →
          w.AsOf ((s.step st).system.version w) (s.step st).system.store := by
      intro i u w hu hsame hconfig hlease
      have hversion : (s.step st).system.version w = s.version u := by
        unfold version
        rw [hlease]
        exact (s.lease_step st (hreachable.lease_lt hu)).later.version
      rw [hversion]
      exact ((ih hbefore hu).congr hsame hconfig).later hstore
    cases arises_step hv with
    | evolved u w hu he => exact hold hu he.sameDocuments he.sameOpening.config he.sameOpening.lease
    | copied slot u hst hu hopen hslot hanswer =>
      exact hold hu (View.sameDocuments_copy u) rfl rfl
    | @opened prior d config g a ho hk hg ha hslot hanswer hlease =>
      obtain rfl : s.store.generation = g := Except.ok.inj hg
      have hversion : (s.step st).system.version (s.openedView d config a) =
          s.store.version := by
        unfold version
        exact congrArg Lease.version hlease
      rw [hversion]
      refine View.AsOf.later ⟨le_rfl, fun _ => ?_, fun _ => ?_⟩ hstore
      · exact (Generation.made_of_assemble ha).leaves.symm
      · exact Generation.outline_of_assemble ha

section

variable {s t : System SegmentList P} {store : SegmentList} {k j : Nat} {v w u : View P}
  {b : Boundaries}

/-- A view of a list of segments answers the list's id at every position. -/
theorem Presents.stableIdAt (ht : t.Reachable) (h : t.Presents k w store.generation b)
    (p : Nat) : t.stableIdAt k p = .ok store.ids[p]? := by
  have hids := (ht.sound h.view).stableIdAt_of_leaves h.leaves p
  unfold System.stableIdAt
  rw [findOpenView_eq_ok_iff.2 ⟨h.view, h.isOpen⟩, ← hids]
  rfl

/-- Views that present one generation agree on everything but deletes. -/
theorem Presents.agree (hs : s.Reachable) (ht : t.Reachable)
    (h : s.Presents k w store.generation b) (h' : t.Presents j u store.generation b) :
    ∃ w u, s.view? k = some w ∧ t.view? j = some u ∧ s.version w = t.version u ∧
      w.starts = u.starts ∧
      w.segments.map Snapshot.segment = u.segments.map Snapshot.segment ∧
      ∀ p, s.stableIdAt k p = .ok store.ids[p]? ∧ t.stableIdAt j p = .ok store.ids[p]? := by
  have hstarts : w.starts = u.starts := by
    unfold View.starts
    rw [h.boundaries, h'.boundaries]
  exact ⟨w, u, h.view, h'.view, h.version.trans h'.version.symm, hstarts, h.segments_eq h',
    fun p => ⟨h.stableIdAt hs p, h'.stableIdAt ht p⟩⟩

/-- The reopen of a view that knows its list and a fresh opening of the list both fail, with
one error, or both lead to a view that presents the list under the same boundaries. -/
theorem reopen_presents (hv : s.view? k = some v) (hopen : s.isClosed v = false)
    (hasOf : v.AsOf (s.version v) s.store) (hd : v.decorator.Total) (nanos : Nat) :
    (∃ e, (s.reopen k nanos).result = .error e ∧
        (s.openView v.decorator v.config).result = .error e) ∨
      ∃ answer j w u b, (s.reopen k nanos).result = .ok answer ∧
        (s.openView v.decorator v.config).result = .ok j ∧
        (s.reopen k nanos).system.Presents (answer.slot k) w s.store.generation b ∧
        (s.openView v.decorator v.config).system.Presents j u s.store.generation b := by
  have hread : (SegmentStore.enumerate s.store).1 = .ok s.store.generation := rfl
  have hfresh : (s.openView v.decorator v.config).result =
      (s.openGeneration [] v.decorator v.config).result.map (·.1) := rfl
  cases hk : checkComposite s.store with
  | error e =>
    left
    refine ⟨e, ?_, ?_⟩
    · unfold reopen
      rw [findOpenView_eq_ok_iff.2 ⟨hv, hopen⟩, hk]
      rfl
    · unfold openView openGeneration
      rw [hk]
      rfl
  | ok composite =>
    rcases reopen_of_open hv hopen hk nanos with
      ⟨hunchanged, hresult, hsystem⟩ | ⟨-, hresult, hsystem⟩
    · -- The view answers itself, and what it shows is what the list has now.
      right
      have hversion : s.version v = s.store.version := (bne_eq_false_iff_eq.1 hunchanged).symm
      have hb := hasOf.outline hversion
      obtain ⟨a, -, hopened, hpresents⟩ := presents_openGeneration hk hread hd hb []
      refine ⟨.same, _, v, _, _, hresult, by rw [hfresh, hopened]; rfl, ?_, hpresents⟩
      rw [hsystem]
      exact ⟨hv, hopen, hversion, rfl, hasOf.leaves hversion⟩
    · cases hb : s.store.generation.outline v.config with
      | error e =>
        left
        refine ⟨e, ?_, ?_⟩
        · rw [hresult, openGeneration_of_error hk hread hd hb]
          rfl
        · rw [hfresh, openGeneration_of_error hk hread hd hb]
          rfl
      | ok b =>
        right
        obtain ⟨a, -, hopened, hpresents⟩ := presents_openGeneration hk hread hd hb []
        obtain ⟨a', -, hreopened, hpresents'⟩ :=
          presents_openGeneration hk hread hd hb v.segments
        rw [← hsystem] at hpresents'
        exact ⟨.fresh s.views.length, _, _, _, b, by rw [hresult, hreopened]; rfl,
          by rw [hfresh, hopened]; rfl, hpresents', hpresents⟩

end

/-- A reopen agrees with a fresh opening on everything but deletes. Over a segment list that
was changed in any way, the reopen of an open view succeeds exactly when opening the list
with the decorator and the configuration of the view does, and fails with the same error.
The two views then have the same version, the same boundaries and the same segments in the
same order, and both answer every position with the id at its place in the list. -/
theorem reopen_agrees_with_open {store : SegmentList} {steps : List (Step SegmentList P)}
    (hmutates : ∀ st ∈ steps, st.Mutates) {k : Nat} {v : View P}
    (hv : (({ store := store } : System SegmentList P).run steps).view? k = some v)
    (hopen : (({ store := store } : System SegmentList P).run steps).isClosed v = false)
    (hd : v.decorator.Total) (nanos : Nat) :
    let s := ({ store := store } : System SegmentList P).run steps
    let reopened := s.reopen k nanos
    let opened := s.openView v.decorator v.config
    reopened.result.map (fun _ => ()) = opened.result.map (fun _ => ()) ∧
      ∀ answer j, reopened.result = .ok answer → opened.result = .ok j →
        ∃ w u, reopened.system.view? (answer.slot k) = some w ∧
          opened.system.view? j = some u ∧
          reopened.system.version w = opened.system.version u ∧ w.starts = u.starts ∧
          w.segments.map Snapshot.segment = u.segments.map Snapshot.segment ∧
          ∀ p, reopened.system.stableIdAt (answer.slot k) p = .ok s.store.ids[p]? ∧
            opened.system.stableIdAt j p = .ok s.store.ids[p]? := by
  intro s reopened opened
  have hs : s.Reachable := ⟨store, steps, rfl⟩
  have hreopened : reopened.system.Reachable := hs.step (.reopen k nanos)
  have hopened : opened.system.Reachable := hs.step (.openView v.decorator v.config)
  rcases reopen_presents hv hopen (asOf_run hmutates hv) hd nanos with
    ⟨e, herror, herror'⟩ | ⟨answer, j, w, u, b, hok, hok', hpresents, hpresents'⟩
  · refine ⟨?_, fun answer j hanswer => ?_⟩
    · rw [show reopened.result = .error e from herror, show opened.result = .error e from herror']
      rfl
    · rw [show reopened.result = .error e from herror] at hanswer
      cases hanswer
  · refine ⟨?_, fun answer' j' hanswer hj => ?_⟩
    · rw [show reopened.result = .ok answer from hok, show opened.result = .ok j from hok']
      rfl
    · obtain rfl := Except.ok.inj (hok.symm.trans hanswer)
      obtain rfl := Except.ok.inj (hok'.symm.trans hj)
      exact hpresents.agree hreopened hopened hpresents'

/-- After a segment was added and another one removed, a reopened view and a fresh one have
the same ids at the same positions; a reopen without a change answers the view itself, which
has them too. -/
theorem reopen_agrees_with_open_of_removal :
    let steps : List (Step SegmentList Segment) := [.openView .segments {}, .markAt 0 [3],
      .changeStore fun store => (store.change (.add (.ofIds "a" [8, 9]))).1,
      .changeStore fun store => (store.change (.remove "_0")).1, .reopen 0 0]
    let s := ({ store := .ofSizes [2, 2] } : System SegmentList Segment).run steps
    (∀ st ∈ steps, st.Mutates) ∧ (s.reopen 0 0).result = .ok (.fresh 2) ∧
      (s.reopen 1 0).result = .ok .same ∧ (s.openView .segments {}).result = .ok 2 ∧
      (s.reopen 0 0).system.stableIdAt 2 2 = .ok (some 8) ∧
      (s.reopen 1 0).system.stableIdAt 1 2 = .ok (some 8) ∧
      (s.openView .segments {}).system.stableIdAt 2 2 = .ok (some 8) := by
  intro steps s
  have hmutates : ∀ st ∈ steps, st.Mutates := by
    simp only [steps, List.forall_mem_cons, Step.Mutates, List.not_mem_nil, false_imp_iff,
      implies_true, and_true, true_and]
    exact ⟨⟨.add (.ofIds "a" [8, 9]), fun _ => rfl⟩, ⟨.remove "_0", fun _ => rfl⟩⟩
  have hid : s.store.ids[2]? = some 8 := by decide +kernel
  have hopened : (s.openView .segments {}).result = .ok 2 := by decide +kernel
  have hfresh : (s.reopen 0 0).result = .ok (.fresh 2) := by decide +kernel
  have hsame : (s.reopen 1 0).result = .ok .same := by decide +kernel
  have hview : ∀ k ∈ [0, 1], ∃ v, s.view? k = some v ∧ s.isClosed v = false ∧
      v.decorator = .segments ∧ v.config = {} := by
    simp only [List.forall_mem_cons, List.not_mem_nil, false_imp_iff, implies_true, and_true]
    exact ⟨⟨_, rfl, rfl, rfl, rfl⟩, ⟨_, rfl, rfl, rfl, rfl⟩⟩
  have hagree : ∀ k ∈ [0, 1], ∀ answer, (s.reopen k 0).result = .ok answer →
      (s.reopen k 0).system.stableIdAt (answer.slot k) 2 = .ok (some 8) ∧
        (s.openView .segments {}).system.stableIdAt 2 2 = .ok (some 8) := by
    intro k hk answer hanswer
    obtain ⟨v, hv, hopen, hdecorator, hconfig⟩ := hview k hk
    have hd : v.decorator.Total := hdecorator ▸ Decorator.total_segments
    obtain ⟨-, hboth⟩ := reopen_agrees_with_open hmutates hv hopen hd 0
    rw [hdecorator, hconfig] at hboth
    obtain ⟨w, u, -, -, -, -, -, hids⟩ := hboth answer 2 hanswer hopened
    have htwo := hids 2
    rw [hid] at htwo
    exact htwo
  obtain ⟨hzero, hopenedId⟩ := hagree 0 (by simp) (.fresh 2) hfresh
  obtain ⟨hone, -⟩ := hagree 1 (by simp) .same hsame
  exact ⟨hmutates, hfresh, hsame, hopened, hzero, hone, hopenedId⟩

end System

end SegmentedView
