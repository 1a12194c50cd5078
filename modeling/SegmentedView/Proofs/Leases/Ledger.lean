import SegmentedView.Proofs.Leases.Settlement

/-!
# The ledger of the leases

Every lease counts the views that hold it and the extra holds on it that were not given
back, and is released exactly when that sum is zero (`Ledger`). Each of the four things a
step can do keeps the ledger, as long as an extra hold is given back only where one is out,
and a lease whose last hold went is never held again.
-/

set_option autoImplicit false

namespace SegmentedView

variable {σ P : Type}

namespace System

/-- Every lease counts its holders and the extra holds on it, and is released when there
are none. -/
structure Ledger (s : System σ P) (extra : Nat → Nat) : Prop where
  refs : ∀ i, (s.lease i).refs = s.holders i + extra i
  released : ∀ i, (s.lease i).released = decide ((s.lease i).refs = 0)

/-- Before the first step nothing is held. -/
theorem ledger_start (store : σ) : Ledger ({ store := store } : System σ P) fun _ => 0 :=
  ⟨fun _ => rfl, fun _ => rfl⟩

namespace Ledger

variable {s t : System σ P} {extra extra' : Nat → Nat}

/-- A lease that is held has not been released. -/
theorem released_eq_false (h : Ledger s extra) {i : Nat} (hrefs : (s.lease i).refs ≠ 0) :
    (s.lease i).released = false := by
  rw [h.released]
  exact decide_eq_false hrefs

/-- A view that was not closed is not closed by its lease either. -/
theorem isClosed_eq_false (h : Ledger s extra) {slot : Nat} {v : View P}
    (hv : s.view? slot = some v) (hopen : v.closed = false) : s.isClosed v = false := by
  have hle := le_holders hv v.lease
  rw [View.holds_eq_of_open hopen] at hle
  simp only [decide_true, if_true] at hle
  have hrefs := h.refs v.lease
  unfold isClosed
  rw [hopen, h.released_eq_false (by omega)]
  rfl

/-! ## What keeps the ledger -/

/-- The ledger is a matter of the leases and their holders. -/
theorem congr (h : Ledger s extra) (hleases : t.leases = s.leases)
    (hholders : ∀ i, t.holders i = s.holders i) : Ledger t extra := by
  refine ⟨fun i => ?_, fun i => ?_⟩
  · rw [lease_congr hleases, hholders]
    exact h.refs i
  · rw [lease_congr hleases]
    exact h.released i

/-- A new lease starts with one holder. -/
theorem opened (h : Ledger s extra) {version : Nat}
    (hleases : t.leases = s.leases ++ [Lease.new version])
    (hholders : ∀ i, t.holders i = s.holders i + if i = s.leases.length then 1 else 0) :
    Ledger t extra := by
  have hlease := lease_of_append hleases
  refine ⟨fun i => ?_, fun i => ?_⟩
  · have hrefs := h.refs i
    rw [hlease, hholders]
    by_cases hi : i = s.leases.length
    · -- The number was vacant, so nobody held it.
      rw [lease_eq_vacant (by omega)] at hrefs
      change 0 = _ at hrefs
      rw [if_pos hi, if_pos hi]
      change 1 = _
      omega
    · rw [if_neg hi, if_neg hi]
      exact hrefs
  · rw [hlease]
    by_cases hi : i = s.leases.length
    · rw [if_pos hi]
      rfl
    · rw [if_neg hi]
      exact h.released i

/-- One more hold is counted on the lease it is taken on. -/
theorem take (h : Ledger s extra) {i : Nat} (hrefs : (s.lease i).refs ≠ 0)
    (hleases : t.leases = s.leases.set i { s.lease i with refs := (s.lease i).refs + 1 })
    (hholds : ∀ j, t.holders j + extra' j =
      s.holders j + extra j + if j = i then 1 else 0) : Ledger t extra' := by
  have hlease := lease_of_take hrefs hleases
  refine ⟨fun j => ?_, fun j => ?_⟩
  · have hj := h.refs j
    have hsum := hholds j
    rw [hlease]
    split at hsum
    case isTrue heq =>
      subst heq
      rw [if_pos rfl]
      change (s.lease j).refs + 1 = _
      omega
    case isFalse hne =>
      rw [if_neg hne]
      omega
  · rw [hlease]
    split
    case isTrue heq =>
      change (s.lease i).released = decide ((s.lease i).refs + 1 = 0)
      rw [h.released_eq_false hrefs]
      rfl
    case isFalse => exact h.released j

/-- A hold that a step gives back was there, if the extra holds it gives back are out. -/
theorem refs_ne_zero (h : Ledger s extra) {st : Step σ P}
    (hout : ∀ i, s.returnsHold i st = true → 0 < extra i) {u : System σ P} {i : Nat}
    (hholds : ∀ j, u.holders j + (if j = i then 1 else 0) =
      s.holders j + if s.returnsHold j st then 1 else 0) : (s.lease i).refs ≠ 0 := by
  have hi := hholds i
  have hrefs := h.refs i
  rw [if_pos rfl] at hi
  by_cases hreturns : s.returnsHold i st = true
  · have hextra := hout i hreturns
    omega
  · rw [if_neg hreturns] at hi
    omega

variable [SegmentStore σ]

/-- What giving back a hold does to the leases of a system whose leases are the same. -/
theorem lease_giveBack (h : Ledger s extra) {u : System σ P} {i : Nat}
    (hrefs : (s.lease i).refs ≠ 0) (hleases : u.leases = s.leases) (j : Nat) :
    (u.giveBackLease i).system.lease j = if j = i then
      { s.lease i with
        refs := (s.lease i).refs - 1, released := decide ((s.lease i).refs = 1) }
      else s.lease j := by
  have hu := lease_congr hleases
  rw [lease_giveBackLease (by rw [hu]; exact hrefs)
    (by rw [hu]; exact h.released_eq_false hrefs), hu, hu]

/-- One hold less is counted on the lease it is given back to, which is released with the
last one. -/
theorem giveBack (h : Ledger s extra) {u : System σ P} {i : Nat}
    (hrefs : (s.lease i).refs ≠ 0) (hleases : u.leases = s.leases)
    (hholds : ∀ j, u.holders j + extra' j + (if j = i then 1 else 0) =
      s.holders j + extra j) : Ledger (u.giveBackLease i).system extra' := by
  have hlease := h.lease_giveBack hrefs hleases
  refine ⟨fun j => ?_, fun j => ?_⟩
  · have hj := h.refs j
    have hsum := hholds j
    rw [hlease, holders_congr (u.views_giveBackLease i)]
    split at hsum
    case isTrue heq =>
      subst heq
      rw [if_pos rfl]
      change (s.lease j).refs - 1 = _
      omega
    case isFalse hne =>
      rw [if_neg hne]
      omega
  · rw [hlease]
    split
    case isTrue heq =>
      change decide ((s.lease i).refs = 1) = decide ((s.lease i).refs - 1 = 0)
      exact decide_eq_decide.2 (by omega)
    case isFalse => exact h.released j

/-- A step keeps the ledger if the extra holds it gives back are out. -/
theorem step (h : Ledger s extra) (st : Step σ P)
    (hout : ∀ i, s.returnsHold i st = true → 0 < extra i) :
    Ledger (s.step st).system fun i => extra i + (if s.takesHold i st then 1 else 0) -
      (if s.returnsHold i st then 1 else 0) := by
  have hsame : s.NoExtraHold st → (fun i => extra i + (if s.takesHold i st then 1 else 0) -
      (if s.returnsHold i st then 1 else 0)) = extra := by
    intro hextra
    funext i
    simp [(hextra i).1, (hextra i).2]
  have hend := s.settlement_step st
  generalize (s.step st).system = t at hend ⊢
  cases hend with
  | kept hextra hleases hholders hstore =>
    rw [hsame hextra]
    exact h.congr hleases hholders
  | opened version hopens hstore hleases hholders =>
    rw [hsame (s.noExtraHold_of_opens hopens)]
    exact h.opened hleases hholders
  | taken i hreturns hrefs hstore hleases hholds =>
    refine h.take hrefs hleases fun j => ?_
    have hj := hholds j
    rw [hreturns]
    simp only [Bool.false_eq_true, if_false]
    omega
  | returned i u htakes hstore hleases hholds ht =>
    rw [ht]
    refine h.giveBack (h.refs_ne_zero hout hholds) hleases fun j => ?_
    have hj := hholds j
    have hextra := hout j
    rw [htakes]
    simp only [Bool.false_eq_true, if_false]
    by_cases hreturns : s.returnsHold j st = true
    · have hpos := hextra hreturns
      rw [if_pos hreturns] at hj ⊢
      omega
    · rw [if_neg hreturns] at hj ⊢
      omega

/-- A lease that was given out and lost its last hold stays so. -/
theorem spent_step (h : Ledger s extra) (st : Step σ P)
    (hout : ∀ i, s.returnsHold i st = true → 0 < extra i) {i : Nat}
    (hlt : i < s.leases.length) (hspent : (s.lease i).refs = 0) :
    i < (s.step st).system.leases.length ∧ ((s.step st).system.lease i).refs = 0 := by
  -- Holds are taken and given back only on leases that are held.
  have hne : ∀ {j}, (s.lease j).refs ≠ 0 → i ≠ j := by
    intro j hj hij
    rw [hij] at hspent
    exact hj hspent
  have hend := s.settlement_step st
  generalize (s.step st).system = t at hend ⊢
  cases hend with
  | kept hextra hleases hholders hstore =>
    rw [lease_congr hleases, hleases]
    exact ⟨hlt, hspent⟩
  | opened version hopens hstore hleases hholders =>
    rw [lease_of_append hleases, if_neg (by omega), hleases, List.length_append]
    exact ⟨by omega, hspent⟩
  | taken j hreturns hrefs hstore hleases hholds =>
    rw [lease_of_take hrefs hleases, if_neg (hne hrefs), hleases, List.length_set]
    exact ⟨hlt, hspent⟩
  | returned j u htakes hstore hleases hholds ht =>
    have hrefs := h.refs_ne_zero hout hholds
    rw [ht, h.lease_giveBack hrefs hleases, if_neg (hne hrefs), length_giveBackLease, hleases]
    exact ⟨hlt, hspent⟩

end Ledger

end System

end SegmentedView
