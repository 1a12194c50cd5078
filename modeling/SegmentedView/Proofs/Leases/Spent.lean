import SegmentedView.Proofs.Leases.Generations

/-!
# Spent leases

A lease keeps two records of its end: the count of its holders, and the mark that its
generation went back. They never disagree (`Reachable.consistent`), whoever gives holds back
and however often, so a lease that is not spent can always be taken.
-/

set_option autoImplicit false

namespace SegmentedView

variable {σ P : Type}

/-- A lease is marked as released exactly when nobody holds it. -/
def Lease.Consistent (l : Lease) : Prop := l.released = decide (l.refs = 0)

namespace Lease.Consistent

variable {l : Lease}

/-- A consistent lease has holders exactly when it has not been released. -/
theorem refs_ne_zero_iff (h : l.Consistent) : l.refs ≠ 0 ↔ l.released = false := by
  rw [h]
  exact decide_eq_false_iff_not.symm

/-- One holder more leaves a lease consistent that had some. -/
theorem take (h : l.Consistent) (hrefs : l.refs ≠ 0) :
    Lease.Consistent { l with refs := l.refs + 1 } := by
  change l.released = decide (l.refs + 1 = 0)
  rw [h.refs_ne_zero_iff.1 hrefs]
  rfl

/-- One holder less leaves a lease consistent. -/
theorem giveBack [SegmentStore σ] (h : l.Consistent) (store : σ) :
    (l.giveBack store).lease.Consistent := by
  by_cases hrefs : l.refs = 0
  · rw [Lease.giveBack_of_spent hrefs]
    exact h
  · rw [Lease.giveBack_of_held hrefs (h.refs_ne_zero_iff.1 hrefs)]
    change decide (l.refs = 1) = decide (l.refs - 1 = 0)
    exact decide_eq_decide.2 (by omega)

end Lease.Consistent

namespace System

variable [SegmentStore σ]

/-- What new leases have, and takers and leavers keep, holds of every lease of every
reachable system. -/
theorem Reachable.forall_lease (Holds : Lease → Prop) (hvacant : Holds .vacant)
    (hnew : ∀ version, Holds (.new version))
    (htake : ∀ l : Lease, l.refs ≠ 0 → Holds l → Holds { l with refs := l.refs + 1 })
    (hgiveBack : ∀ (l : Lease) (store : σ), Holds l → Holds (l.giveBack store).lease)
    {s : System σ P} (h : s.Reachable) (i : Nat) : Holds (s.lease i) := by
  refine h.invariant (fun s => ∀ i, Holds (s.lease i)) (fun store i => hvacant) ?_ i
  intro s st ih i
  have hreturned : ∀ (u : System σ P) (j : Nat), u.leases = s.leases →
      Holds ((u.giveBackLease j).system.lease i) := by
    intro u j hu
    rw [lease_giveBackLease_eq, lease_congr hu, lease_congr hu]
    split
    case isTrue => exact hgiveBack _ _ (ih j)
    case isFalse => exact ih i
  have htaken : ∀ (t : System σ P) (j : Nat), (s.lease j).refs ≠ 0 →
      t.leases = s.leases.set j { s.lease j with refs := (s.lease j).refs + 1 } →
      Holds (t.lease i) := by
    intro t j hrefs ht
    rw [lease_of_take hrefs ht]
    split
    case isTrue => exact htake _ hrefs (ih j)
    case isFalse => exact ih i
  -- Every other transition leaves the leases as they are.
  have hmoves := s.transition_step st
  generalize (s.step st).result = r at hmoves
  generalize (s.step st).system = t at hmoves ⊢
  cases hmoves with
  | opened g a ho hk hg ha =>
    rw [lease_of_append (s := s) (l := Lease.new g.version) rfl]
    split
    case isTrue => exact hnew _
    case isFalse => exact ih i
  | copied slot v hv hopen hrefs => exact htaken _ v.lease hrefs rfl
  | held slot v hv hopen hrefs => exact htaken _ v.lease hrefs rfl
  | returned slot v hv => exact hreturned s v.lease rfl
  | closed slot v hv hopen => exact hreturned _ v.lease rfl
  | droppedOpen slot v hv hopen => exact hreturned _ v.lease rfl
  | _ => exact ih i

/-- In a reachable system no lease is released while it is held, and none is held no more
without being released. -/
theorem Reachable.consistent {s : System σ P} (h : s.Reachable) (i : Nat) :
    (s.lease i).Consistent :=
  h.forall_lease Lease.Consistent rfl (fun _ => rfl) (fun _ hrefs hl => hl.take hrefs)
    (fun _ store hl => hl.giveBack store) i

/-- A view that is not closed is of a lease that is held. -/
theorem Reachable.refs_ne_zero {s : System σ P} (h : s.Reachable) {v : View P}
    (hopen : s.isClosed v = false) : (s.lease v.lease).refs ≠ 0 := by
  obtain ⟨-, hreleased⟩ := Bool.or_eq_false_iff.1 hopen
  exact (h.consistent v.lease).refs_ne_zero_iff.2 hreleased

end System

end SegmentedView
