import SegmentedView.Proofs.View.Assembly
import SegmentedView.System.Run

/-!
# What the operations of a system do

Every operation opened once: which of its branches were taken, and the system that each
of them ends in. An opening has four ends (`Opening`), and a reopen may end in any of
them. The three changes to the deletes of a view are one operation on an open view
(`changeOpenView`). Later proofs read these and never unfold an operation.
-/

set_option autoImplicit false

namespace SegmentedView

variable {σ P α : Type}

namespace System

/-- Answering leaves the system as it is. -/
@[simp] theorem system_done (s : System σ P) (answer : α) : (s.done answer).system = s := rfl

/-- Putting a view in its place leaves the leases alone. -/
@[simp] theorem lease_setView (s : System σ P) (slot : Nat) (v : View P) (i : Nat) :
    (s.setView slot v).lease i = s.lease i := rfl

/-- A number that holds a view has been given out. -/
theorem lt_length_of_view? {s : System σ P} {slot : Nat} {v : View P}
    (h : s.view? slot = some v) : slot < s.views.length := by
  unfold view? at h
  cases hs : s.views[slot]? with
  | none =>
    rw [hs] at h
    cases h
  | some x => exact (List.getElem?_eq_some_iff.1 hs).1

/-- The view that was put in its place is there. -/
theorem view?_setView_self {s : System σ P} {slot : Nat} {v w : View P}
    (hv : s.view? slot = some v) : (s.setView slot w).view? slot = some w := by
  rw [view?_setView, if_pos ⟨rfl, lt_length_of_view? hv⟩]

/-- A view is found exactly when it is there. -/
theorem findView_eq_ok_iff {s : System σ P} {slot : Nat} {v : View P} :
    s.findView slot = .ok v ↔ s.view? slot = some v := by
  unfold findView
  cases s.view? slot <;> simp

/-- An operation finds the views that are there and not closed. -/
theorem findOpenView_eq_ok_iff {s : System σ P} {slot : Nat} {v : View P} :
    s.findOpenView slot = .ok v ↔ s.view? slot = some v ∧ s.isClosed v = false := by
  unfold findOpenView
  cases hv : s.view? slot with
  | none => simp
  | some w =>
    dsimp only
    cases hc : s.checkOpen w with
    | error e =>
      simp only [Option.some.injEq, reduceCtorEq, false_iff, not_and]
      rintro rfl hopen
      rw [(s.checkOpen_eq_ok_iff w).2 hopen] at hc
      cases hc
    | ok u =>
      have hopen := (s.checkOpen_eq_ok_iff w).1 hc
      simp only [Except.ok.injEq, Option.some.injEq]
      constructor
      · rintro rfl
        exact ⟨rfl, hopen⟩
      · rintro ⟨rfl, -⟩
        rfl

/-! ## Deletes -/

/-- Changes an open view and answers. -/
def changeOpenView (s : System σ P) (slot : Nat) (change : View P → View P × α) :
    Outcome σ P α :=
  match s.findOpenView slot with
  | .error e => s.fail e
  | .ok v => (s.setView slot (change v).1).done (change v).2

/-- To mark by ids is to change an open view. -/
theorem markIds_eq (s : System σ P) (slot : Nat) (ids : List Nat) :
    s.markIds slot ids = s.changeOpenView slot (·.markIds ids) := rfl

/-- To mark by positions is to change an open view. -/
theorem markAt_eq (s : System σ P) (slot : Nat) (positions : List Nat) :
    s.markAt slot positions = s.changeOpenView slot (·.markAt positions) := rfl

/-- To commit is to change an open view. -/
theorem commit_eq (s : System σ P) (slot : Nat) :
    s.commit slot = s.changeOpenView slot fun v => (v.commit, ()) := rfl

/-- A change of an open view happens to it. -/
theorem changeOpenView_of_open {s : System σ P} {slot : Nat} {v : View P}
    (hv : s.view? slot = some v) (hopen : s.isClosed v = false) (change : View P → View P × α) :
    s.changeOpenView slot change = (s.setView slot (change v).1).done (change v).2 := by
  unfold changeOpenView
  rw [findOpenView_eq_ok_iff.2 ⟨hv, hopen⟩]

/-- A change of an open view fails and does nothing, or happens to that view. -/
theorem changeOpenView_cases (s : System σ P) (slot : Nat) (change : View P → View P × α) :
    (∃ e, s.changeOpenView slot change = s.fail e) ∨
      ∃ v, s.view? slot = some v ∧ s.isClosed v = false ∧
        s.changeOpenView slot change = (s.setView slot (change v).1).done (change v).2 := by
  cases hf : s.findOpenView slot with
  | error e =>
    left
    refine ⟨e, ?_⟩
    unfold changeOpenView
    rw [hf]
  | ok v =>
    obtain ⟨hv, hopen⟩ := findOpenView_eq_ok_iff.1 hf
    exact .inr ⟨v, hv, hopen, changeOpenView_of_open hv hopen change⟩

/-- Installing a mapper fails and does nothing, or sets the mapper of a view. -/
theorem install_cases (s : System σ P) (slot : Nat) (position : Nat → Option Nat) :
    (∃ e, s.install slot position = s.fail e) ∨
      ∃ v, s.view? slot = some v ∧ s.install slot position =
        ({ s with mappers := s.mappers + 1 }.setView slot
          { v with mapper := some ⟨s.mappers, position⟩ }).done () := by
  unfold install
  cases hf : s.findView slot with
  | error e => exact .inl ⟨e, rfl⟩
  | ok v => exact .inr ⟨v, findView_eq_ok_iff.1 hf, rfl⟩

/-- A change of one segment fails and does nothing, or happens in a view. -/
theorem changeSegment_cases (s : System σ P) (slot i : Nat) (change : SegmentChange) :
    (∃ e, s.changeSegment slot i change = s.fail e) ∨
      ∃ v answer, s.view? slot = some v ∧ s.changeSegment slot i change =
        (s.setView slot (v.modifySegment i fun x => (x.change change).1)).done answer := by
  unfold changeSegment
  cases hf : s.findView slot with
  | error e => exact .inl ⟨e, rfl⟩
  | ok v =>
    dsimp only
    cases hi : v.segments[i]? with
    | none => exact .inl ⟨_, rfl⟩
    | some x => exact .inr ⟨v, _, findView_eq_ok_iff.1 hf, rfl⟩

/-! ## Holds on a generation -/

/-- A holder joins a lease that has holders, and no other. -/
theorem takeLease_cases (s : System σ P) (i : Nat) :
    (∃ e, s.takeLease i = s.fail e) ∨ (s.lease i).refs ≠ 0 ∧
      s.takeLease i = (s.setLease i { s.lease i with refs := (s.lease i).refs + 1 }).done () := by
  unfold takeLease Lease.take
  by_cases hrefs : (s.lease i).refs = 0
  · left
    exact ⟨.leaseSpent (s.lease i).version, by rw [if_pos hrefs]⟩
  · right
    exact ⟨hrefs, by rw [if_neg hrefs]⟩

/-- Taking an extra hold fails and does nothing, or adds a holder to a lease that has
some. -/
theorem incRef_cases (s : System σ P) (slot : Nat) :
    (∃ e, s.incRef slot = s.fail e) ∨
      ∃ v, s.view? slot = some v ∧ s.isClosed v = false ∧ (s.lease v.lease).refs ≠ 0 ∧
        s.incRef slot = (s.setLease v.lease
          { s.lease v.lease with refs := (s.lease v.lease).refs + 1 }).done () := by
  unfold incRef
  cases hf : s.findOpenView slot with
  | error e => exact .inl ⟨e, rfl⟩
  | ok v =>
    obtain ⟨hv, hopen⟩ := findOpenView_eq_ok_iff.1 hf
    rcases s.takeLease_cases v.lease with ⟨e, htake⟩ | ⟨hrefs, htake⟩
    · exact .inl ⟨e, htake⟩
    · exact .inr ⟨v, hv, hopen, hrefs, htake⟩

/-- A copy fails and does nothing, or adds a holder to the lease and the copy to the
views. -/
theorem copy_cases (s : System σ P) (slot : Nat) :
    (∃ e, s.copy slot = s.fail e) ∨
      ∃ v, s.view? slot = some v ∧ s.isClosed v = false ∧ (s.lease v.lease).refs ≠ 0 ∧
        s.copy slot = ((s.setLease v.lease
          { s.lease v.lease with refs := (s.lease v.lease).refs + 1 }).addView v.copy).done
            s.views.length := by
  unfold copy
  cases hf : s.findOpenView slot with
  | error e => exact .inl ⟨e, rfl⟩
  | ok v =>
    obtain ⟨hv, hopen⟩ := findOpenView_eq_ok_iff.1 hf
    dsimp only
    rcases s.takeLease_cases v.lease with ⟨e, htake⟩ | ⟨hrefs, htake⟩
    · rw [htake]
      exact .inl ⟨e, rfl⟩
    · rw [htake]
      exact .inr ⟨v, hv, hopen, hrefs, rfl⟩

variable [SegmentStore σ]

/-- Giving back a hold leaves the views alone. -/
@[simp] theorem views_giveBackLease (s : System σ P) (i : Nat) :
    (s.giveBackLease i).system.views = s.views := rfl

/-- Giving back an extra hold fails where there is no view, and otherwise gives back one on its
lease. -/
theorem decRef_cases (s : System σ P) (slot : Nat) :
    (∃ e, s.view? slot = none ∧ s.decRef slot = s.fail e) ∨
      ∃ v, s.view? slot = some v ∧ s.decRef slot = s.giveBackLease v.lease := by
  unfold decRef findView
  cases hv : s.view? slot with
  | none => exact .inl ⟨_, rfl, rfl⟩
  | some v => exact .inr ⟨v, rfl, rfl⟩

/-- A close does nothing where there is no view or the view was closed; otherwise it marks
the view and gives its hold back. -/
theorem close_cases (s : System σ P) (slot : Nat) :
    (s.close slot).system = s ∨ ∃ v, s.view? slot = some v ∧ v.closed = false ∧
      s.close slot = (s.setView slot { v with closed := true }).giveBackLease v.lease := by
  unfold close
  cases hf : s.findView slot with
  | error e => exact .inl rfl
  | ok v =>
    dsimp only
    cases hc : v.closed with
    | true => exact .inl rfl
    | false => exact .inr ⟨v, findView_eq_ok_iff.1 hf, hc, by simp⟩

/-- A drop does nothing where there is no view; otherwise the view is gone, and its hold
is given back unless the view was closed. -/
theorem drop_cases (s : System σ P) (slot : Nat) :
    (s.view? slot = none ∧ (s.drop slot).system = s) ∨
      ∃ v, s.view? slot = some v ∧
        ((v.closed = true ∧ (s.drop slot).system = s.removeView slot) ∨
          v.closed = false ∧
            (s.drop slot).system = ((s.removeView slot).giveBackLease v.lease).system) := by
  unfold drop findView
  cases hv : s.view? slot with
  | none => exact .inl ⟨rfl, rfl⟩
  | some v =>
    refine .inr ⟨v, rfl, ?_⟩
    dsimp only
    cases hc : v.closed with
    | true => exact .inl ⟨rfl, rfl⟩
    | false => exact .inr ⟨rfl, rfl⟩

/-! ## Openings -/

/-- The view that an opening adds. -/
def openedView (s : System σ P) (d : Decorator P) (config : Config) (a : Assembly P) : View P :=
  { lease := s.leases.length, decorator := d, config := config, segments := a.snapshots,
    boundaries := a.boundaries }

/-- A store is admitted exactly when it is one of segments. -/
theorem checkComposite_eq_ok_iff {store : σ} :
    checkComposite store = .ok () ↔ SegmentStore.kind store = .composite := by
  unfold checkComposite
  cases SegmentStore.kind store <;> simp

/-- A store is refused exactly when it is not one of segments, and the error names its kind. -/
theorem checkComposite_eq_error_iff {store : σ} {e : Error} :
    checkComposite store = .error e ↔ SegmentStore.kind store ≠ .composite ∧
      e = .storeNotComposite (SegmentStore.kind store) := by
  unfold checkComposite
  cases SegmentStore.kind store with
  | composite => simp
  | single => simp [eq_comm]

/-- The ends of an opening: the store is of the wrong kind, it cannot be enumerated, its
generation cannot be made into a view and is given back, or a view is added. -/
inductive Opening (s : System σ P) (prior : List (Snapshot P)) (d : Decorator P)
    (config : Config) : Outcome σ P (Nat × Nat × ReuseStats) → Prop
  | refused (e : Error) (h : checkComposite s.store = .error e) :
    Opening s prior d config (s.fail e)
  | unread (e : Error) (h : checkComposite s.store = .ok ())
    (he : (SegmentStore.enumerate s.store).1 = .error e) :
    Opening s prior d config ({ s with store := (SegmentStore.enumerate s.store).2 }.fail e)
  | givenBack (g : Generation) (e : Error) (h : checkComposite s.store = .ok ())
    (hg : (SegmentStore.enumerate s.store).1 = .ok g)
    (ha : g.assemble prior d config s.leases.length = .error e) :
    Opening s prior d config
      ⟨.error e,
        { s with store := SegmentStore.release (SegmentStore.enumerate s.store).2 g.version },
        [.releasing g.version]⟩
  | opened (g : Generation) (a : Assembly P) (h : checkComposite s.store = .ok ())
    (hg : (SegmentStore.enumerate s.store).1 = .ok g)
    (ha : g.assemble prior d config s.leases.length = .ok a) :
    Opening s prior d config
      ((({ s with store := (SegmentStore.enumerate s.store).2 }.addLease
        (Lease.new g.version)).addView (s.openedView d config a)).done
          (s.views.length, g.version, a.stats))

/-- Every opening comes to one of these ends. -/
theorem opening_openGeneration (s : System σ P) (prior : List (Snapshot P)) (d : Decorator P)
    (config : Config) : Opening s prior d config (s.openGeneration prior d config) := by
  unfold openGeneration
  cases hk : checkComposite s.store with
  | error e => exact .refused e hk
  | ok u =>
    dsimp only
    cases hg : (SegmentStore.enumerate s.store).1 with
    | error e => exact .unread e hk hg
    | ok g =>
      dsimp only
      cases ha : g.assemble prior d config s.leases.length with
      | error e => exact .givenBack g e hk hg ha
      | ok a => exact .opened g a hk hg ha

/-- An opening that succeeds answers the number of the view that it adds. -/
theorem openGeneration_eq_ok {s : System σ P} {prior : List (Snapshot P)} {d : Decorator P}
    {config : Config} {opened : Nat × Nat × ReuseStats}
    (h : (s.openGeneration prior d config).result = .ok opened) :
    ∃ (g : Generation) (a : Assembly P), g.assemble prior d config s.leases.length = .ok a ∧
      (s.openGeneration prior d config).system.view? opened.1 =
        some (s.openedView d config a) := by
  have hend := s.opening_openGeneration prior d config
  generalize s.openGeneration prior d config = o at h hend ⊢
  cases hend with
  | refused e hk => cases h
  | unread e hk he => cases h
  | givenBack g e hk hg ha => cases h
  | opened g a hk hg ha =>
    cases h
    refine ⟨g, a, ha, ?_⟩
    rw [system_done, view?_addView]
    exact if_pos rfl

/-- Over a store of segments the reopen of an open view answers the view itself if the store
has not changed, and otherwise opens the store anew with the view's snapshots at hand. -/
theorem reopen_of_open {s : System σ P} {slot : Nat} {v : View P} (hv : s.view? slot = some v)
    (hopen : s.isClosed v = false) (hk : checkComposite s.store = .ok ()) (nanos : Nat) :
    (SegmentStore.hasChangedSince s.store (s.version v) = false ∧
        (s.reopen slot nanos).result = .ok .same ∧ (s.reopen slot nanos).system = s) ∨
      SegmentStore.hasChangedSince s.store (s.version v) = true ∧
        (s.reopen slot nanos).result =
          (s.openGeneration v.segments v.decorator v.config).result.map
            (fun opened => .fresh opened.1) ∧
        (s.reopen slot nanos).system =
          (s.openGeneration v.segments v.decorator v.config).system := by
  unfold reopen
  rw [findOpenView_eq_ok_iff.2 ⟨hv, hopen⟩, hk]
  dsimp only
  cases hchanged : SegmentStore.hasChangedSince s.store (s.version v) with
  | false => exact .inl ⟨rfl, rfl, rfl⟩
  | true =>
    right
    refine ⟨rfl, ?_⟩
    simp only [if_true]
    cases hr : (s.openGeneration v.segments v.decorator v.config).result with
    | error e => exact ⟨rfl, rfl⟩
    | ok opened => exact ⟨rfl, rfl⟩

/-- Over a store that is not one of segments a reopen fails and does nothing. -/
theorem reopen_of_wrong_kind {s : System σ P} {slot : Nat} {v : View P}
    (hv : s.view? slot = some v) (hopen : s.isClosed v = false) {e : Error}
    (hk : checkComposite s.store = .error e) (nanos : Nat) : s.reopen slot nanos = s.fail e := by
  unfold reopen
  rw [findOpenView_eq_ok_iff.2 ⟨hv, hopen⟩, hk]

/-- The ends of a reopen: the view is not there or closed, the store is of the wrong kind,
the store has not changed, or the store is opened anew. -/
theorem reopen_cases (s : System σ P) (slot nanos : Nat) :
    (∃ e, s.reopen slot nanos = s.fail e) ∨
      ∃ v, s.view? slot = some v ∧ s.isClosed v = false ∧
        checkComposite s.store = .ok () ∧
        ((SegmentStore.hasChangedSince s.store (s.version v) = false ∧
            (s.reopen slot nanos).result = .ok .same ∧ (s.reopen slot nanos).system = s) ∨
          SegmentStore.hasChangedSince s.store (s.version v) = true ∧
            (s.reopen slot nanos).result =
              (s.openGeneration v.segments v.decorator v.config).result.map
                (fun opened => .fresh opened.1) ∧
            (s.reopen slot nanos).system =
              (s.openGeneration v.segments v.decorator v.config).system) := by
  cases hf : s.findOpenView slot with
  | error e =>
    left
    refine ⟨e, ?_⟩
    unfold reopen
    rw [hf]
  | ok v =>
    obtain ⟨hv, hopen⟩ := findOpenView_eq_ok_iff.1 hf
    cases hk : checkComposite s.store with
    | error e => exact .inl ⟨e, reopen_of_wrong_kind hv hopen hk nanos⟩
    | ok u => exact .inr ⟨v, hv, hopen, rfl, reopen_of_open hv hopen hk nanos⟩

end System

end SegmentedView
