import SegmentedView.Proofs.Leases.Holders

/-!
# The generation of a view

A view keeps its lease for life, and a lease that was given out keeps its version: a step
can move its count and send its generation back, but never fetch it again (`Lease.Later`).
A step that does not act on a lease leaves even the count alone (`lease_step`). Opening and
giving back are the only calls that a store receives, so that what these two leave alone in
a store is changed by nothing but the store itself (`store_step`).
-/

set_option autoImplicit false

namespace SegmentedView

variable {σ P : Type}

/-- What can become of a lease: its version stays, and a generation that went back stays
away. -/
structure Lease.Later (l m : Lease) : Prop where
  version : m.version = l.version
  released : l.released = true → m.released = true

namespace Lease

/-- A lease is a later state of itself. -/
theorem Later.refl (l : Lease) : l.Later l := ⟨rfl, id⟩

/-- A later state of a later state is a later state. -/
theorem Later.trans {l m n : Lease} (hlm : l.Later m) (hmn : m.Later n) : l.Later n :=
  ⟨hmn.version.trans hlm.version, fun h => hmn.released (hlm.released h)⟩

/-- The count of holders is no part of it. -/
theorem later_refs (l : Lease) (n : Nat) : l.Later { l with refs := n } := ⟨rfl, id⟩

/-- A hold given back leads to a later state. -/
theorem later_giveBack [SegmentStore σ] (l : Lease) (store : σ) :
    l.Later (l.giveBack store).lease := by
  unfold giveBack releaseOnce
  split
  · exact .refl l
  · split
    · split
      · exact l.later_refs 0
      · exact ⟨rfl, fun _ => rfl⟩
    · exact l.later_refs _

end Lease

namespace System

/-- Whether a step acts on a lease: it takes a hold on it or gives one back, for itself or
for a view that is copied, closed or dropped. -/
def actsOnLease (s : System σ P) (i : Nat) : Step σ P → Bool
  | .copy slot => (s.view? slot).any (·.lease == i)
  | .drop slot => (s.view? slot).any (·.lease == i)
  | .close slot => (s.view? slot).any (·.lease == i)
  | .incRef slot => (s.view? slot).any (·.lease == i)
  | .decRef slot => (s.view? slot).any (·.lease == i)
  | _ => false

/-- A view that does not share a lease has another one. -/
theorem ne_of_any_eq_false {s : System σ P} {slot i : Nat} {v : View P}
    (hv : s.view? slot = some v) (h : (s.view? slot).any (·.lease == i) = false) :
    i ≠ v.lease := by
  rw [hv] at h
  have hne : v.lease ≠ i := by simpa using h
  exact hne.symm

/-- What a step can do to a lease: nothing unless it acts on it, and never fetch a
generation that went back. -/
structure Settles (s : System σ P) (st : Step σ P) (i : Nat) (t : System σ P) : Prop where
  given : i < t.leases.length
  later : (s.lease i).Later (t.lease i)
  kept : s.actsOnLease i st = false → t.lease i = s.lease i

/-- A step that leaves the leases alone settles with all of them. -/
theorem settles_of_leases {s t : System σ P} {st : Step σ P} {i : Nat}
    (hi : i < s.leases.length) (h : t.leases = s.leases) : s.Settles st i t := by
  have hlease : t.lease i = s.lease i := lease_congr h i
  refine ⟨by rw [h]; exact hi, ?_, fun _ => hlease⟩
  rw [hlease]
  exact .refl _

/-- A step that adds a lease settles with those that were there. -/
theorem settles_of_append {s t : System σ P} {st : Step σ P} {i : Nat} {l : Lease}
    (hi : i < s.leases.length) (h : t.leases = s.leases ++ [l]) : s.Settles st i t := by
  have hlease : t.lease i = s.lease i := by
    rw [lease_of_append h, if_neg (by omega)]
  refine ⟨?_, ?_, fun _ => hlease⟩
  · rw [h, List.length_append]
    omega
  · rw [hlease]
    exact .refl _

/-- Another number of holders on one lease. -/
theorem settles_of_setLease {s t : System σ P} {st : Step σ P} {i j n : Nat}
    (hi : i < s.leases.length) (hst : s.actsOnLease i st = false → i ≠ j)
    (h : t.leases = s.leases.set j { s.lease j with refs := n }) : s.Settles st i t := by
  have hlease : t.lease i = if i = j ∧ j < s.leases.length then
      { s.lease j with refs := n } else s.lease i := by
    rw [← lease_setLease]
    exact lease_congr h i
  refine ⟨by rw [h, List.length_set]; exact hi, ?_, fun hacts => ?_⟩
  · rw [hlease]
    split
    case isTrue hij =>
      rw [← hij.1]
      exact (s.lease i).later_refs n
    case isFalse => exact .refl _
  · rw [hlease, if_neg]
    intro hij
    exact hst hacts hij.1

variable [SegmentStore σ]

/-- A hold given back on one lease. -/
theorem settles_of_giveBack {s u : System σ P} {st : Step σ P} {i j : Nat}
    (hi : i < s.leases.length) (hst : s.actsOnLease i st = false → i ≠ j)
    (hu : u.leases = s.leases) : s.Settles st i (u.giveBackLease j).system := by
  have hlease : (u.giveBackLease j).system.lease i = if i = j ∧ j < s.leases.length then
      ((s.lease j).giveBack u.store).lease else s.lease i := by
    rw [lease_giveBackLease_eq, lease_congr hu, lease_congr hu, hu]
  refine ⟨by rw [length_giveBackLease, hu]; exact hi, ?_, fun hacts => ?_⟩
  · rw [hlease]
    split
    case isTrue hij =>
      rw [← hij.1]
      exact (s.lease i).later_giveBack u.store
    case isFalse => exact .refl _
  · rw [hlease, if_neg]
    intro hij
    exact hst hacts hij.1

/-- What a step does to a lease that was given out. -/
theorem lease_step (s : System σ P) (st : Step σ P) {i : Nat} (hi : i < s.leases.length) :
    s.Settles st i (s.step st).system := by
  have hmoves := s.transition_step st
  generalize (s.step st).result = r at hmoves
  generalize (s.step st).system = t at hmoves ⊢
  cases hmoves with
  | opened g a ho hk hg ha => exact settles_of_append hi rfl
  | copied slot v hv hopen hrefs =>
    exact settles_of_setLease hi (ne_of_any_eq_false hv) rfl
  | held slot v hv hopen hrefs => exact settles_of_setLease hi (ne_of_any_eq_false hv) rfl
  | returned slot v hv => exact settles_of_giveBack hi (ne_of_any_eq_false hv) rfl
  | closed slot v hv hopen => exact settles_of_giveBack hi (ne_of_any_eq_false hv) rfl
  | droppedOpen slot v hv hopen => exact settles_of_giveBack hi (ne_of_any_eq_false hv) rfl
  | _ => exact settles_of_leases hi rfl

/-- Every view of a reachable system is of a lease that was given out. -/
theorem Reachable.lease_lt {s : System σ P} (h : s.Reachable) {k : Nat} {v : View P}
    (hv : s.view? k = some v) : v.lease < s.leases.length := by
  refine h.invariant (fun s => ∀ k v, s.view? k = some v → v.lease < s.leases.length)
    ?_ ?_ k v hv
  · intro store k v hv
    simp [view?] at hv
  · intro s st ih k w hw
    cases arises_step hw with
    | evolved v w hv he =>
      rw [he.sameOpening.lease]
      exact (s.lease_step st (ih k v hv)).given
    | opened g a ho hk hg ha hslot hanswer hlease =>
      apply lt_length_of_refs
      change ((s.step st).system.lease s.leases.length).refs ≠ 0
      rw [hlease]
      exact Nat.one_ne_zero
    | copied slot v hst hv hopen hslot hanswer => exact (s.lease_step st (ih slot v hv)).given

/-! ## The store -/

/-- Of what reading and giving back leave alone in a store, a step changes nothing unless
the store changes by itself. -/
theorem store_step {α : Type} (kept : σ → α)
    (hread : ∀ store, kept (SegmentStore.enumerate store).2 = kept store)
    (hrelease : ∀ (store : σ) version, kept (SegmentStore.release store version) = kept store)
    (s : System σ P) (st : Step σ P) :
    kept (s.step st).system.store = kept s.store ∨
      ∃ change, st = .changeStore change ∧ (s.step st).system.store = change s.store := by
  have hgiveBack : ∀ (u : System σ P) i, kept (u.giveBackLease i).system.store =
      kept u.store := by
    intro u i
    change kept ((u.lease i).giveBack u.store).store = _
    unfold Lease.giveBack Lease.releaseOnce
    split
    · rfl
    · split
      · split
        · rfl
        · exact hrelease _ _
      · rfl
  have hmoves := s.transition_step st
  generalize (s.step st).result = r at hmoves
  generalize (s.step st).system = t at hmoves ⊢
  cases hmoves with
  | storeChanged change => exact .inr ⟨change, rfl, rfl⟩
  | unread e ho hk he => exact .inl (hread s.store)
  | handedBack g e ho hk hg ha => exact .inl ((hrelease _ _).trans (hread s.store))
  | opened g a ho hk hg ha => exact .inl (hread s.store)
  | returned slot v hv => exact .inl (hgiveBack _ _)
  | closed slot v hv hopen => exact .inl (hgiveBack _ _)
  | droppedOpen slot v hv hopen => exact .inl (hgiveBack _ _)
  | _ => exact .inl rfl

end System

end SegmentedView
