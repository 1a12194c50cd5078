import SegmentedView.Proofs.System.Operations

/-!
# Stores that answer alike

A relation between stores that no system can see (`Unseen`): related stores answer alike,
and stay related when they are read and when they take a generation back. Two systems that
differ in nothing but related stores answer every step alike, and still differ in nothing
else after it (`alike_step`).
-/

set_option autoImplicit false

namespace SegmentedView

variable {σ τ P α β : Type}

/-- Related stores answer alike, and stay related whatever a system calls them for. -/
structure Unseen [SegmentStore σ] [SegmentStore τ] (R : σ → τ → Prop) : Prop where
  kind : ∀ {a b}, R a b → SegmentStore.kind b = SegmentStore.kind a
  changed : ∀ {a b}, R a b → ∀ since,
    SegmentStore.hasChangedSince b since = SegmentStore.hasChangedSince a since
  shown : ∀ {a b}, R a b → (SegmentStore.enumerate b).1 = (SegmentStore.enumerate a).1
  read : ∀ {a b}, R a b → R (SegmentStore.enumerate a).2 (SegmentStore.enumerate b).2
  release : ∀ {a b}, R a b → ∀ version,
    R (SegmentStore.release a version) (SegmentStore.release b version)

/-- The same system over another store. -/
def System.over (s : System σ P) (store : τ) : System τ P where
  store := store
  leases := s.leases
  views := s.views
  mappers := s.mappers

/-- The same outcome over another store. -/
def Outcome.over (o : Outcome σ P α) (store : τ) : Outcome τ P α :=
  ⟨o.result, o.system.over store, o.events⟩

/-- An outcome that differs from another in nothing but a related store. -/
def Outcome.Alike (R : σ → τ → Prop) (o : Outcome σ P α) (o' : Outcome τ P α) : Prop :=
  ∃ store, R o.system.store store ∧ o' = o.over store

/-- The same step over another store, which changes by itself as `change` says. -/
def Step.over (change : (σ → σ) → τ → τ) : Step σ P → Step τ P
  | .changeStore f => .changeStore (change f)
  | .openView d config => .openView d config
  | .reopen slot nanos => .reopen slot nanos
  | .copy slot => .copy slot
  | .drop slot => .drop slot
  | .close slot => .close slot
  | .incRef slot => .incRef slot
  | .decRef slot => .decRef slot
  | .markIds slot ids => .markIds slot ids
  | .markAt slot positions => .markAt slot positions
  | .commit slot => .commit slot
  | .install slot position => .install slot position
  | .changeSegment slot i change => .changeSegment slot i change

/-- Over the same store a step is the same. -/
theorem Step.over_id (st : Step σ P) : st.over id = st := by
  cases st <;> rfl

/-- Answers may be read alike. -/
theorem Outcome.Alike.map {R : σ → τ → Prop} {o : Outcome σ P α} {o' : Outcome τ P α}
    (h : o.Alike R o') (f : α → β) : (o.map f).Alike R (o'.map f) := by
  obtain ⟨store, hstore, rfl⟩ := h
  exact ⟨store, hstore, rfl⟩

namespace System

variable {R : σ → τ → Prop} {s : System σ P} {store : τ}

/-! ## Operations that leave the store alone -/

/-- A change of an open view is alike over both stores. -/
theorem alike_changeOpenView (h : R s.store store) (slot : Nat)
    (change : View P → View P × α) :
    (s.changeOpenView slot change).Alike R ((s.over store).changeOpenView slot change) := by
  have hfind : (s.over store).findOpenView slot = s.findOpenView slot := rfl
  unfold changeOpenView
  rw [hfind]
  cases s.findOpenView slot <;> exact ⟨store, h, rfl⟩

/-- Installing a mapper is alike over both stores. -/
theorem alike_install (h : R s.store store) (slot : Nat) (position : Nat → Option Nat) :
    (s.install slot position).Alike R ((s.over store).install slot position) := by
  have hfind : (s.over store).findView slot = s.findView slot := rfl
  unfold install
  rw [hfind]
  cases s.findView slot <;> exact ⟨store, h, rfl⟩

/-- A change of one segment is alike over both stores. -/
theorem alike_changeSegment (h : R s.store store) (slot i : Nat) (change : SegmentChange) :
    (s.changeSegment slot i change).Alike R ((s.over store).changeSegment slot i change) := by
  have hfind : (s.over store).findView slot = s.findView slot := rfl
  unfold changeSegment
  rw [hfind]
  cases s.findView slot with
  | error e => exact ⟨store, h, rfl⟩
  | ok v =>
    dsimp only
    cases v.segments[i]? <;> exact ⟨store, h, rfl⟩

/-- Taking a hold is alike over both stores. -/
theorem alike_takeLease (h : R s.store store) (i : Nat) :
    (s.takeLease i).Alike R ((s.over store).takeLease i) := by
  have hlease : (s.over store).lease i = s.lease i := rfl
  unfold takeLease
  rw [hlease]
  cases (s.lease i).take <;> exact ⟨store, h, rfl⟩

/-- Taking an extra hold is alike over both stores. -/
theorem alike_incRef (h : R s.store store) (slot : Nat) :
    (s.incRef slot).Alike R ((s.over store).incRef slot) := by
  have hfind : (s.over store).findOpenView slot = s.findOpenView slot := rfl
  unfold incRef
  rw [hfind]
  cases s.findOpenView slot with
  | error e => exact ⟨store, h, rfl⟩
  | ok v => exact alike_takeLease h v.lease

/-- A copy is alike over both stores. -/
theorem alike_copy (h : R s.store store) (slot : Nat) :
    (s.copy slot).Alike R ((s.over store).copy slot) := by
  have hfind : (s.over store).findOpenView slot = s.findOpenView slot := rfl
  unfold copy
  rw [hfind]
  cases s.findOpenView slot with
  | error e => exact ⟨store, h, rfl⟩
  | ok v =>
    obtain ⟨next, hnext, htaken⟩ := alike_takeLease h v.lease
    dsimp only
    rw [htaken]
    unfold Outcome.over
    dsimp only
    cases (s.takeLease v.lease).result <;> exact ⟨next, hnext, rfl⟩

/-! ## Operations that call the store -/

variable [SegmentStore σ] [SegmentStore τ]

/-- Giving back a hold is alike over both stores. -/
theorem alike_giveBackLease (hR : Unseen R) (h : R s.store store) (i : Nat) :
    (s.giveBackLease i).Alike R ((s.over store).giveBackLease i) := by
  have hlease : (s.over store).lease i = s.lease i := rfl
  unfold giveBackLease Lease.giveBack Lease.releaseOnce
  rw [hlease]
  split
  · exact ⟨store, h, rfl⟩
  · split
    · cases (s.lease i).released with
      | true => exact ⟨store, h, rfl⟩
      | false => exact ⟨_, hR.release h (s.lease i).version, rfl⟩
    · exact ⟨store, h, rfl⟩

/-- Giving back an extra hold is alike over both stores. -/
theorem alike_decRef (hR : Unseen R) (h : R s.store store) (slot : Nat) :
    (s.decRef slot).Alike R ((s.over store).decRef slot) := by
  have hfind : (s.over store).findView slot = s.findView slot := rfl
  unfold decRef
  rw [hfind]
  cases s.findView slot with
  | error e => exact ⟨store, h, rfl⟩
  | ok v => exact alike_giveBackLease hR h v.lease

/-- A close is alike over both stores. -/
theorem alike_close (hR : Unseen R) (h : R s.store store) (slot : Nat) :
    (s.close slot).Alike R ((s.over store).close slot) := by
  have hfind : (s.over store).findView slot = s.findView slot := rfl
  unfold close
  rw [hfind]
  cases s.findView slot with
  | error e => exact ⟨store, h, rfl⟩
  | ok v =>
    dsimp only
    cases v.closed with
    | true => exact ⟨store, h, rfl⟩
    | false =>
      exact alike_giveBackLease (s := s.setView slot { v with closed := true }) hR h v.lease

/-- A drop is alike over both stores. -/
theorem alike_drop (hR : Unseen R) (h : R s.store store) (slot : Nat) :
    (s.drop slot).Alike R ((s.over store).drop slot) := by
  have hfind : (s.over store).findView slot = s.findView slot := rfl
  unfold drop
  rw [hfind]
  cases s.findView slot with
  | error e => exact ⟨store, h, rfl⟩
  | ok v =>
    dsimp only
    cases v.closed with
    | true => exact ⟨store, h, rfl⟩
    | false =>
      obtain ⟨next, hnext, hreturned⟩ :=
        alike_giveBackLease (s := s.removeView slot) hR h v.lease
      refine ⟨next, hnext, ?_⟩
      have hremove : (s.over store).removeView slot = (s.removeView slot).over store := rfl
      simp only [Bool.false_eq_true, if_false]
      rw [hremove, hreturned]
      rfl

/-- Stores of one kind are refused or admitted together. -/
theorem checkComposite_congr {a : σ} {b : τ}
    (h : SegmentStore.kind b = SegmentStore.kind a) : checkComposite b = checkComposite a := by
  unfold checkComposite
  rw [h]

/-- Making a view of what the store shows is alike over both stores. -/
theorem alike_openGeneration (hR : Unseen R) (h : R s.store store)
    (prior : List (Snapshot P)) (d : Decorator P) (config : Config) :
    (s.openGeneration prior d config).Alike R
      ((s.over store).openGeneration prior d config) := by
  have hkind : checkComposite (s.over store).store = checkComposite s.store :=
    checkComposite_congr (hR.kind h)
  have hshown : (SegmentStore.enumerate (s.over store).store).1 =
      (SegmentStore.enumerate s.store).1 := hR.shown h
  have hread := hR.read h
  unfold openGeneration
  rw [hkind]
  cases checkComposite s.store with
  | error e => exact ⟨store, h, rfl⟩
  | ok u =>
    dsimp only
    rw [hshown]
    cases (SegmentStore.enumerate s.store).1 with
    | error e => exact ⟨_, hread, rfl⟩
    | ok g =>
      dsimp only
      -- Payloads are numbered by the leases taken so far, and those are the same.
      have hassemble : g.assemble prior d config (s.over store).leases.length =
          g.assemble prior d config s.leases.length := rfl
      rw [hassemble]
      cases g.assemble prior d config s.leases.length with
      | error e => exact ⟨_, hR.release hread g.version, rfl⟩
      | ok a => exact ⟨_, hread, rfl⟩

/-- An opening is alike over both stores. -/
theorem alike_openView (hR : Unseen R) (h : R s.store store) (d : Decorator P)
    (config : Config) :
    (s.openView d config).Alike R ((s.over store).openView d config) :=
  (alike_openGeneration hR h [] d config).map (·.1)

/-- A reopen is alike over both stores. -/
theorem alike_reopen (hR : Unseen R) (h : R s.store store) (slot nanos : Nat) :
    (s.reopen slot nanos).Alike R ((s.over store).reopen slot nanos) := by
  have hfind : (s.over store).findOpenView slot = s.findOpenView slot := rfl
  have hkind : checkComposite (s.over store).store = checkComposite s.store :=
    checkComposite_congr (hR.kind h)
  unfold reopen
  rw [hfind, hkind]
  cases s.findOpenView slot with
  | error e => exact ⟨store, h, rfl⟩
  | ok v =>
    dsimp only
    cases checkComposite s.store with
    | error e => exact ⟨store, h, rfl⟩
    | ok u =>
      have hchanged : SegmentStore.hasChangedSince (s.over store).store
          ((s.over store).version v) = SegmentStore.hasChangedSince s.store (s.version v) :=
        hR.changed h (s.version v)
      obtain ⟨next, hnext, hopened⟩ :=
        alike_openGeneration hR h v.segments v.decorator v.config
      dsimp only
      rw [hchanged, hopened]
      cases SegmentStore.hasChangedSince s.store (s.version v) with
      | false => exact ⟨store, h, rfl⟩
      | true =>
        unfold Outcome.over
        simp only [if_true]
        cases (s.openGeneration v.segments v.decorator v.config).result <;>
          exact ⟨next, hnext, rfl⟩

/-- Systems over related stores answer a step alike and stay alike, if the stores stay
related where the step changes them. -/
theorem alike_step (hR : Unseen R) (h : R s.store store) {change : (σ → σ) → τ → τ}
    {st : Step σ P} (hst : ∀ f, st = .changeStore f → R (f s.store) (change f store)) :
    (s.step st).Alike R ((s.over store).step (st.over change)) := by
  cases st with
  | changeStore f => exact ⟨change f store, hst f rfl, rfl⟩
  | openView d config => exact (alike_openView hR h d config).map _
  | reopen slot nanos => exact (alike_reopen hR h slot nanos).map _
  | copy slot => exact (alike_copy h slot).map _
  | drop slot => exact (alike_drop hR h slot).map _
  | close slot => exact (alike_close hR h slot).map _
  | incRef slot => exact (alike_incRef h slot).map _
  | decRef slot => exact (alike_decRef hR h slot).map _
  | markIds slot ids => exact (alike_changeOpenView h slot _).map _
  | markAt slot positions => exact (alike_changeOpenView h slot _).map _
  | commit slot => exact (alike_changeOpenView h slot fun v => (v.commit, ())).map _
  | install slot position => exact (alike_install h slot position).map _
  | changeSegment slot i c => exact (alike_changeSegment h slot i c).map _

end System

end SegmentedView
