import SegmentedView.Proofs.Store.Journal

/-!
# The holders of a lease

The views that share a lease and were not closed are its holders. This module says how
their number moves when a view is put in a place, taken away or added, and what giving
back a hold does to the lease and to the store.
-/

set_option autoImplicit false

namespace SegmentedView

variable {σ P : Type}

/-- Whether a view holds a lease: it shares it and was not closed. -/
def View.holds (v : View P) (i : Nat) : Bool := v.lease == i && !v.closed

/-- A view that was not closed holds its own lease. -/
theorem View.holds_eq_of_open {v : View P} (h : v.closed = false) (i : Nat) :
    v.holds i = decide (i = v.lease) := by
  unfold View.holds
  rw [h]
  by_cases heq : i = v.lease
  · simp [heq]
  · have hne : v.lease ≠ i := fun h => heq h.symm
    simp [heq, hne]

/-- A view that was closed holds no lease. -/
theorem View.holds_of_closed {v : View P} (h : v.closed = true) (i : Nat) :
    v.holds i = false := by
  simp [View.holds, h]

/-- A hold that is there is taken away, and the last one leaves the lease released. -/
theorem Lease.giveBack_of_held [SegmentStore σ] {l : Lease} (hrefs : l.refs ≠ 0)
    (hreleased : l.released = false) (store : σ) : (l.giveBack store).lease =
      { l with refs := l.refs - 1, released := decide (l.refs = 1) } := by
  unfold Lease.giveBack Lease.releaseOnce
  rw [if_neg hrefs]
  by_cases hone : l.refs = 1
  · simp [hone, hreleased]
  · simp [hone, hreleased]

/-- Where nobody holds the lease there is nothing to take away. -/
theorem Lease.giveBack_of_spent [SegmentStore σ] {l : Lease} (hrefs : l.refs = 0) (store : σ) :
    l.giveBack store =
      ⟨.error (.leaseSpent l.version), l, store, [.overReturned l.version]⟩ := by
  unfold Lease.giveBack
  rw [if_pos hrefs]

namespace System

/-- The number of views that hold a lease. -/
def holders (s : System σ P) (i : Nat) : Nat := s.views.countP fun v? => v?.any (·.holds i)

/-- A view that is there stands at its number. -/
theorem getElem?_views {s : System σ P} {slot : Nat} {v : View P} (h : s.view? slot = some v) :
    ∃ hlt : slot < s.views.length, s.views[slot] = some v := by
  have hlt := lt_length_of_view? h
  refine ⟨hlt, ?_⟩
  unfold view? at h
  rw [List.getElem?_eq_getElem hlt] at h
  exact h

/-- How many holders a lease has is a matter of the views alone. -/
theorem holders_congr {τ : Type} {s : System σ P} {t : System τ P} (h : t.views = s.views)
    (i : Nat) : t.holders i = s.holders i := by
  unfold holders
  rw [h]

/-- A view that holds a lease is one of its holders. -/
theorem le_holders {s : System σ P} {slot : Nat} {v : View P} (h : s.view? slot = some v)
    (i : Nat) : (if v.holds i then 1 else 0) ≤ s.holders i := by
  split
  case isTrue hholds =>
    refine List.countP_pos_iff.2 ⟨some v, ?_, hholds⟩
    obtain ⟨hlt, hget⟩ := getElem?_views h
    exact hget ▸ List.getElem_mem hlt
  case isFalse => exact Nat.zero_le _

/-- What comes in the place of a view trades its hold. -/
theorem holders_set {s : System σ P} {slot : Nat} {v : View P} (h : s.view? slot = some v)
    (w? : Option (View P)) (i : Nat) :
    { s with views := s.views.set slot w? }.holders i + (if v.holds i then 1 else 0) =
      s.holders i + (if w?.any (·.holds i) then 1 else 0) := by
  have hle := le_holders h i
  obtain ⟨hlt, hget⟩ := getElem?_views h
  have hset : { s with views := s.views.set slot w? }.holders i =
      s.holders i - (if v.holds i then 1 else 0) + (if w?.any (·.holds i) then 1 else 0) := by
    unfold holders
    rw [List.countP_set hlt, hget]
    rfl
  omega

/-- Putting a view in the place of another trades their holds. -/
theorem holders_setView {s : System σ P} {slot : Nat} {v : View P} (h : s.view? slot = some v)
    (w : View P) (i : Nat) : (s.setView slot w).holders i + (if v.holds i then 1 else 0) =
      s.holders i + (if w.holds i then 1 else 0) :=
  holders_set h (some w) i

/-- A view that leaves takes its hold along. -/
theorem holders_removeView {s : System σ P} {slot : Nat} {v : View P}
    (h : s.view? slot = some v) (i : Nat) :
    (s.removeView slot).holders i + (if v.holds i then 1 else 0) = s.holders i :=
  holders_set h none i

/-- A view that is added is one holder more of its lease, unless it is closed. -/
theorem holders_addView (s : System σ P) (w : View P) (i : Nat) :
    (s.addView w).holders i = s.holders i + (if w.holds i then 1 else 0) := by
  unfold holders addView
  rw [List.countP_append, List.countP_singleton]
  rfl

/-! ## What a step does to the leases -/

/-- A number that was not given out stands for no lease. -/
theorem lease_eq_vacant {s : System σ P} {i : Nat} (h : s.leases.length ≤ i) :
    s.lease i = .vacant := by
  unfold lease
  rw [List.getD_eq_getElem?_getD, List.getElem?_eq_none h]
  rfl

/-- A number that was given out stands for its lease. -/
theorem lease_eq_getElem {s : System σ P} {i : Nat} (hlt : i < s.leases.length) :
    s.lease i = s.leases[i] := by
  unfold lease
  rw [List.getD_eq_getElem?_getD, List.getElem?_eq_getElem hlt]
  rfl

/-- A lease that somebody holds has been given out. -/
theorem lt_length_of_refs {s : System σ P} {i : Nat} (h : (s.lease i).refs ≠ 0) :
    i < s.leases.length := by
  by_contra hlt
  rw [lease_eq_vacant (by omega)] at h
  exact h rfl

/-- What lease a number stands for is a matter of the leases alone. -/
theorem lease_congr {τ : Type} {s : System σ P} {t : System τ P} (h : t.leases = s.leases)
    (i : Nat) : t.lease i = s.lease i := by
  unfold lease
  rw [h]

/-- A lease more is found under the next number, and all others under theirs. -/
theorem lease_of_append {s t : System σ P} {l : Lease} (hleases : t.leases = s.leases ++ [l])
    (i : Nat) : t.lease i = if i = s.leases.length then l else s.lease i := by
  rw [← lease_addLease]
  exact lease_congr hleases i

/-- Where a lease that somebody holds was given one holder more. -/
theorem lease_of_take {s t : System σ P} {i : Nat} (hrefs : (s.lease i).refs ≠ 0)
    (hleases : t.leases = s.leases.set i { s.lease i with refs := (s.lease i).refs + 1 })
    (j : Nat) : t.lease j =
      if j = i then { s.lease i with refs := (s.lease i).refs + 1 } else s.lease j := by
  have hlt := lt_length_of_refs hrefs
  have hset := s.lease_setLease i { s.lease i with refs := (s.lease i).refs + 1 } j
  rw [lease_congr (t := t) (s := s.setLease i _) hleases, hset]
  simp only [hlt, and_true]

/-- A lease in its own place changes nothing. -/
theorem setLease_self (s : System σ P) (i : Nat) : s.setLease i (s.lease i) = s := by
  have hset : s.leases.set i (s.lease i) = s.leases := by
    apply List.ext_getElem?
    intro j
    rw [List.getElem?_set]
    split
    case isTrue hij =>
      subst hij
      unfold lease
      rw [List.getD_eq_getElem?_getD]
      cases hget : s.leases[i]? with
      | none => simp [List.getElem?_eq_none_iff.1 hget]
      | some l => simp [(List.getElem?_eq_some_iff.1 hget).1]
    case isFalse => rfl
  unfold setLease
  rw [hset]

variable [SegmentStore σ]

/-- Giving back fails only where there is no holder. -/
theorem refs_of_giveBackLease_eq_error {s : System σ P} {i : Nat} {e : Error}
    (h : (s.giveBackLease i).result = .error e) : (s.lease i).refs = 0 := by
  by_contra hrefs
  change ((s.lease i).giveBack s.store).result = .error e at h
  unfold Lease.giveBack Lease.releaseOnce at h
  rw [if_neg hrefs] at h
  split at h
  · split at h <;> cases h
  · cases h

/-- A hold that nobody has is not given back. -/
theorem system_giveBackLease_of_spent {s : System σ P} {i : Nat} (h : (s.lease i).refs = 0) :
    (s.giveBackLease i).system = s := by
  unfold giveBackLease
  rw [Lease.giveBack_of_spent h]
  exact s.setLease_self i

/-- A hold given back on a lease leaves all others as they are. -/
theorem lease_giveBackLease_eq (s : System σ P) (i j : Nat) :
    (s.giveBackLease i).system.lease j = if j = i ∧ i < s.leases.length then
      ((s.lease i).giveBack s.store).lease else s.lease j :=
  s.lease_setLease i ((s.lease i).giveBack s.store).lease j

/-- Giving back a hold that is there takes one holder away, and the last one leaves the
lease released. -/
theorem lease_giveBackLease {s : System σ P} {i : Nat} (hrefs : (s.lease i).refs ≠ 0)
    (hreleased : (s.lease i).released = false) (j : Nat) :
    (s.giveBackLease i).system.lease j = if j = i then
      { s.lease i with
        refs := (s.lease i).refs - 1, released := decide ((s.lease i).refs = 1) }
      else s.lease j := by
  have hlt := lt_length_of_refs hrefs
  rw [lease_giveBackLease_eq]
  by_cases hj : j = i
  · rw [if_pos ⟨hj, hlt⟩, if_pos hj]
    exact Lease.giveBack_of_held hrefs hreleased s.store
  · rw [if_neg (fun h => hj h.1), if_neg hj]

/-- Giving back a hold neither adds nor removes a lease. -/
theorem length_giveBackLease (s : System σ P) (i : Nat) :
    (s.giveBackLease i).system.leases.length = s.leases.length :=
  List.length_set

/-- The generation goes to the store with the last hold, and only then. -/
theorem store_giveBackLease {s : System σ P} {i : Nat}
    (hreleased : (s.lease i).released = false) :
    (s.giveBackLease i).system.store = if (s.lease i).refs = 1 then
      SegmentStore.release s.store (s.lease i).version else s.store := by
  have hstore : (s.giveBackLease i).system.store =
      ((s.lease i).giveBack s.store).store := rfl
  rw [hstore]
  unfold Lease.giveBack Lease.releaseOnce
  by_cases hzero : (s.lease i).refs = 0
  · rw [if_pos hzero, if_neg (by omega)]
  · rw [if_neg hzero]
    by_cases hone : (s.lease i).refs = 1
    · simp [hone, hreleased]
    · simp [hone]

end System

end SegmentedView
