import SegmentedView.Proofs.Leases.Holders

/-!
# What a step does to the leases

One step of a system does one of four things to the leases and their holders
(`Settlement`): it leaves them as they are, opens a view of a new lease, takes a hold or
gives one back. A hold is taken by a copy or by hand, and given back by a view that is
closed or dropped or by hand; which of the two it was shows in whether the holders or the
extra holds change. Where the leases stay, `StoreEffect` says what became of the store.
-/

set_option autoImplicit false

namespace SegmentedView

variable {σ P : Type}

/-- Whether a step opens the store's current generation. -/
def Step.opens : Step σ P → Bool
  | .openView _ _ => true
  | .reopen _ _ => true
  | _ => false

namespace System

/-- Whether a step takes an extra hold on a lease: it is an `incRef` that succeeds, of a
view that shares the lease. -/
def takesHold (s : System σ P) (i : Nat) : Step σ P → Bool
  | .incRef slot => (s.incRef slot).result.isOk && (s.view? slot).any (·.lease == i)
  | _ => false

/-- Whether a step gives an extra hold on a lease back: it is a `decRef` of a view that
shares the lease. -/
def returnsHold (s : System σ P) (i : Nat) : Step σ P → Bool
  | .decRef slot => (s.view? slot).any (·.lease == i)
  | _ => false

/-- Taking an extra hold is one if it succeeds, on the lease of the view. -/
theorem takesHold_incRef (s : System σ P) (i slot : Nat) : s.takesHold i (.incRef slot) =
    ((s.incRef slot).result.isOk && (s.view? slot).any (·.lease == i)) := rfl

/-- Giving back an extra hold is one, on the lease of the view. -/
theorem returnsHold_decRef (s : System σ P) (i slot : Nat) :
    s.returnsHold i (.decRef slot) = (s.view? slot).any (·.lease == i) := rfl

/-- The step neither takes nor gives back an extra hold. -/
def NoExtraHold (s : System σ P) (st : Step σ P) : Prop :=
  ∀ i, s.takesHold i st = false ∧ s.returnsHold i st = false

/-- An opening neither takes nor gives back an extra hold. -/
theorem noExtraHold_of_opens (s : System σ P) {st : Step σ P} (h : st.opens = true) :
    s.NoExtraHold st := by
  intro i
  cases st with
  | openView d config => exact ⟨rfl, rfl⟩
  | reopen slot nanos => exact ⟨rfl, rfl⟩
  | _ => cases h

variable [SegmentStore σ]

/-- What a step that leaves the leases alone can do to the store: nothing, a change that
the store makes by itself, a reading, or a reading that a failed opening gives back. -/
inductive StoreEffect (s : System σ P) (st : Step σ P) : σ → Prop
  | untouched : StoreEffect s st s.store
  | changed (change : σ → σ) (hst : st = .changeStore change) :
    StoreEffect s st (change s.store)
  | read (hopens : st.opens = true) : StoreEffect s st (SegmentStore.enumerate s.store).2
  | givenBack (g : Generation) (hopens : st.opens = true)
    (hfailed : (s.step st).result.isOk = false)
    (hshown : (SegmentStore.enumerate s.store).1 = .ok g) :
    StoreEffect s st (SegmentStore.release (SegmentStore.enumerate s.store).2 g.version)

/-- What a step can do to the leases and their holders, `t` being the system after it. -/
inductive Settlement (s : System σ P) (st : Step σ P) (t : System σ P) : Prop
  | kept (hextra : s.NoExtraHold st) (hleases : t.leases = s.leases)
    (hholders : ∀ i, t.holders i = s.holders i) (hstore : StoreEffect s st t.store)
  | opened (version : Nat) (hopens : st.opens = true)
    (hstore : t.store = (SegmentStore.enumerate s.store).2)
    (hleases : t.leases = s.leases ++ [Lease.new version])
    (hholders : ∀ i, t.holders i = s.holders i + if i = s.leases.length then 1 else 0)
  | taken (i : Nat) (hreturns : ∀ j, s.returnsHold j st = false)
    (hrefs : (s.lease i).refs ≠ 0) (hstore : t.store = s.store)
    (hleases : t.leases =
      s.leases.set i { s.lease i with refs := (s.lease i).refs + 1 })
    (hholds : ∀ j, t.holders j + (if s.takesHold j st then 1 else 0) =
      s.holders j + if j = i then 1 else 0)
  | returned (i : Nat) (u : System σ P) (htakes : ∀ j, s.takesHold j st = false)
    (hstore : u.store = s.store) (hleases : u.leases = s.leases)
    (hholds : ∀ j, u.holders j + (if j = i then 1 else 0) =
      s.holders j + if s.returnsHold j st then 1 else 0)
    (ht : t = (u.giveBackLease i).system)

/-! ## The cases -/

/-- A step that changes nothing settles, if it is about no extra hold. -/
theorem settlement_refl {s : System σ P} {st : Step σ P} (h : s.NoExtraHold st) :
    Settlement s st s :=
  .kept h rfl (fun _ => rfl) .untouched

/-- A view whose lease and closed mark stay leaves the holders as they are. -/
theorem settlement_setView {s : System σ P} {st : Step σ P} {slot : Nat} {v w : View P}
    (h : s.NoExtraHold st) (hv : s.view? slot = some v) (hlease : w.lease = v.lease)
    (hclosed : w.closed = v.closed) : Settlement s st (s.setView slot w) := by
  refine .kept h rfl (fun i => ?_) .untouched
  have hset := holders_setView hv w i
  have hholds : w.holds i = v.holds i := by
    unfold View.holds
    rw [hlease, hclosed]
  rw [hholds] at hset
  omega

/-- A change of an open view that keeps its hold settles. -/
theorem settlement_changeOpenView {α : Type} {s : System σ P} {st : Step σ P}
    (h : s.NoExtraHold st) (slot : Nat) (change : View P → View P × α)
    (hlease : ∀ v, (change v).1.lease = v.lease)
    (hclosed : ∀ v, (change v).1.closed = v.closed) :
    Settlement s st (s.changeOpenView slot change).system := by
  rcases s.changeOpenView_cases slot change with ⟨e, he⟩ | ⟨v, hv, -, hc⟩
  · rw [he]
    exact settlement_refl h
  · rw [hc]
    exact settlement_setView h hv (hlease v) (hclosed v)

/-- A new view of a new lease is its only holder. -/
theorem settlement_openGeneration {s : System σ P} {st : Step σ P} (hopens : st.opens = true)
    {prior : List (Snapshot P)} {d : Decorator P} {config : Config}
    (hfailed : ∀ e, (s.openGeneration prior d config).result = .error e →
      (s.step st).result.isOk = false) :
    Settlement s st (s.openGeneration prior d config).system := by
  have hend := s.opening_openGeneration prior d config
  generalize s.openGeneration prior d config = o at hend hfailed ⊢
  have hquiet := s.noExtraHold_of_opens hopens
  cases hend with
  | refused e h => exact settlement_refl hquiet
  | unread e h he => exact .kept hquiet rfl (fun _ => rfl) (.read hopens)
  | givenBack g e h hg ha =>
    exact .kept hquiet rfl (fun _ => rfl) (.givenBack g hopens (hfailed e rfl) hg)
  | opened g a h hg ha =>
    refine .opened g.version hopens rfl rfl fun i => ?_
    have hadd := holders_addView ({ s with
      store := (SegmentStore.enumerate s.store).2 }.addLease (Lease.new g.version))
      (s.openedView d config a) i
    rw [View.holds_eq_of_open (v := s.openedView d config a) rfl i] at hadd
    simp only [decide_eq_true_eq] at hadd
    exact hadd

/-- Taking an extra hold settles. -/
theorem settlement_incRef (s : System σ P) (slot : Nat) :
    Settlement s (.incRef slot) (s.incRef slot).system := by
  rcases s.incRef_cases slot with ⟨e, he⟩ | ⟨v, hv, -, hrefs, hc⟩
  · rw [he]
    refine settlement_refl fun i => ⟨?_, rfl⟩
    rw [takesHold_incRef, he]
    rfl
  · refine .taken v.lease (fun j => rfl) hrefs (by rw [hc]; rfl) (by rw [hc]; rfl) fun j => ?_
    have hholders : (s.incRef slot).system.holders j = s.holders j := by
      rw [hc]
      rfl
    have htakes : s.takesHold j (.incRef slot) = (j == v.lease) := by
      rw [takesHold_incRef, hc, hv]
      exact (Bool.true_and _).trans BEq.comm
    rw [hholders, htakes]
    simp only [beq_iff_eq]

/-- A copy settles. -/
theorem settlement_copy (s : System σ P) (slot : Nat) :
    Settlement s (.copy slot) (s.copy slot).system := by
  rcases s.copy_cases slot with ⟨e, he⟩ | ⟨v, hv, -, hrefs, hc⟩
  · rw [he]
    exact settlement_refl fun i => ⟨rfl, rfl⟩
  · refine .taken v.lease (fun j => rfl) hrefs (by rw [hc]; rfl) (by rw [hc]; rfl) fun j => ?_
    have hadd := holders_addView (s.setLease v.lease
      { s.lease v.lease with refs := (s.lease v.lease).refs + 1 }) v.copy j
    rw [View.holds_eq_of_open (v := v.copy) rfl j] at hadd
    simp only [decide_eq_true_eq] at hadd
    rw [hc]
    exact hadd

/-- Giving back an extra hold settles. -/
theorem settlement_decRef (s : System σ P) (slot : Nat) :
    Settlement s (.decRef slot) (s.decRef slot).system := by
  rcases s.decRef_cases slot with ⟨e, hnone, he⟩ | ⟨v, hv, hc⟩
  · rw [he]
    refine settlement_refl fun i => ⟨rfl, ?_⟩
    rw [returnsHold_decRef, hnone]
    rfl
  · refine .returned v.lease s (fun j => rfl) rfl rfl (fun j => ?_) (by rw [hc])
    have hreturns : s.returnsHold j (.decRef slot) = (j == v.lease) := by
      rw [returnsHold_decRef, hv]
      exact BEq.comm
    rw [hreturns]
    simp only [beq_iff_eq]

/-- A close settles. -/
theorem settlement_close (s : System σ P) (slot : Nat) :
    Settlement s (.close slot) (s.close slot).system := by
  rcases s.close_cases slot with hsame | ⟨v, hv, hopen, hc⟩
  · rw [hsame]
    exact settlement_refl fun i => ⟨rfl, rfl⟩
  · refine .returned v.lease (s.setView slot { v with closed := true }) (fun j => rfl) rfl
      rfl (fun j => ?_) (by rw [hc])
    have hset := holders_setView hv { v with closed := true } j
    rw [View.holds_eq_of_open hopen j, View.holds_of_closed rfl j] at hset
    simp only [decide_eq_true_eq] at hset
    exact hset

/-- A drop settles. -/
theorem settlement_drop (s : System σ P) (slot : Nat) :
    Settlement s (.drop slot) (s.drop slot).system := by
  rcases s.drop_cases slot with ⟨-, hsame⟩ | ⟨v, hv, ⟨hclosed, hc⟩ | ⟨hopen, hc⟩⟩
  · rw [hsame]
    exact settlement_refl fun i => ⟨rfl, rfl⟩
  · rw [hc]
    refine .kept (fun i => ⟨rfl, rfl⟩) rfl (fun i => ?_) .untouched
    have hremove := holders_removeView hv i
    rw [View.holds_of_closed hclosed i] at hremove
    exact hremove
  · refine .returned v.lease (s.removeView slot) (fun j => rfl) rfl rfl (fun j => ?_) hc
    have hremove := holders_removeView hv j
    rw [View.holds_eq_of_open hopen j] at hremove
    simp only [decide_eq_true_eq] at hremove
    exact hremove

/-- A reopen settles. -/
theorem settlement_reopen (s : System σ P) (slot nanos : Nat) :
    Settlement s (.reopen slot nanos) (s.reopen slot nanos).system := by
  have hquiet : s.NoExtraHold (.reopen slot nanos) := fun i => ⟨rfl, rfl⟩
  rcases s.reopen_cases slot nanos with
    ⟨e, he⟩ | ⟨v, -, -, -, ⟨-, -, hsame⟩ | ⟨-, hresult, hsystem⟩⟩
  · rw [he]
    exact settlement_refl hquiet
  · rw [hsame]
    exact settlement_refl hquiet
  · rw [hsystem]
    refine settlement_openGeneration rfl fun e he => ?_
    change ((s.reopen slot nanos).result.map Reopened.toAnswer).isOk = false
    rw [hresult, he]
    rfl

/-- Every step does one of the four things. -/
theorem settlement_step (s : System σ P) (st : Step σ P) :
    Settlement s st (s.step st).system := by
  cases st with
  | changeStore change =>
    exact .kept (fun i => ⟨rfl, rfl⟩) rfl (fun _ => rfl) (.changed change rfl)
  | openView d config =>
    change Settlement s _ (s.openGeneration [] d config).system
    refine settlement_openGeneration rfl fun e he => ?_
    change (((s.openGeneration [] d config).result.map (·.1)).map Answer.made).isOk = false
    rw [he]
    rfl
  | reopen slot nanos => exact s.settlement_reopen slot nanos
  | copy slot => exact s.settlement_copy slot
  | drop slot => exact s.settlement_drop slot
  | close slot => exact s.settlement_close slot
  | incRef slot => exact s.settlement_incRef slot
  | decRef slot => exact s.settlement_decRef slot
  | markIds slot ids =>
    exact settlement_changeOpenView (fun i => ⟨rfl, rfl⟩) slot (·.markIds ids)
      (fun _ => rfl) fun _ => rfl
  | markAt slot positions =>
    exact settlement_changeOpenView (fun i => ⟨rfl, rfl⟩) slot (·.markAt positions)
      (fun _ => rfl) fun _ => rfl
  | commit slot =>
    exact settlement_changeOpenView (fun i => ⟨rfl, rfl⟩) slot (fun v => (v.commit, ()))
      (fun _ => rfl) fun _ => rfl
  | install slot position =>
    have hquiet : s.NoExtraHold (.install slot position) := fun i => ⟨rfl, rfl⟩
    change Settlement s _ (s.install slot position).system
    rcases s.install_cases slot position with ⟨e, he⟩ | ⟨v, hv, hc⟩
    · rw [he]
      exact settlement_refl hquiet
    · rw [hc]
      refine .kept hquiet rfl (fun i => ?_) .untouched
      have hset := holders_setView hv { v with mapper := some ⟨s.mappers, position⟩ } i
      exact Nat.add_right_cancel hset
  | changeSegment slot i change =>
    have hquiet : s.NoExtraHold (.changeSegment slot i change) := fun i => ⟨rfl, rfl⟩
    change Settlement s _ (s.changeSegment slot i change).system
    rcases s.changeSegment_cases slot i change with ⟨e, he⟩ | ⟨v, answer, hv, hc⟩
    · rw [he]
      exact settlement_refl hquiet
    · rw [hc]
      exact settlement_setView hquiet hv rfl rfl

end System

end SegmentedView
