import SegmentedView.Proofs.Leases.Ledger
import SegmentedView.Proofs.Store.Journal
import SegmentedView.Store.SegmentList

/-!
# When a generation goes back to the store

A run is looked at moment by moment, with a journal of the calls that the store received.
As long as no more extra holds on a lease are given back than were taken (`Matched`), the
store gets a generation back in the very step in which the last hold on its lease goes,
and in no other (`Calls`).
-/

set_option autoImplicit false

namespace SegmentedView

variable {σ P : Type}

namespace System

/-- A journal does not change whether a step opens the store. -/
theorem opens_journaled (st : Step σ P) : st.journaled.opens = st.opens := by
  cases st <;> rfl

/-- A journal does not change whether a step gives back an extra hold. -/
theorem returnsHold_journaled (s : System (Journaled σ) P) (i : Nat) (st : Step σ P) :
    s.returnsHold i st.journaled = s.forget.returnsHold i st := by
  cases st <;> rfl

variable [SegmentStore σ]

/-! ## One step -/

/-- What the store may be called for in a step, given the holds on every lease before and
after it. -/
inductive Calls (s : System σ P) (st : Step σ P) (before after : Nat → Nat) :
    List StoreCall → Prop
  /-- No lease lost its last hold. -/
  | kept (hkept : ∀ i, before i ≠ 0 → after i ≠ 0) : Calls s st before after []
  /-- No lease lost its last hold, and the store was read. -/
  | read (version : Option Nat) (hopens : st.opens = true)
    (hkept : ∀ i, before i ≠ 0 → after i ≠ 0) :
    Calls s st before after [.enumerate version]
  /-- No lease lost its last hold; the store was read by an opening that failed, which
  gave back what it had read. -/
  | givenBack (version : Nat) (hopens : st.opens = true)
    (hfailed : (s.step st).result.isOk = false)
    (hkept : ∀ i, before i ≠ 0 → after i ≠ 0) :
    Calls s st before after [.enumerate (some version), .release version]
  /-- One lease lost its last hold, and its generation went back to the store. -/
  | ended (i : Nat) (hbefore : before i ≠ 0) (hafter : after i = 0)
    (hkept : ∀ j, j ≠ i → before j ≠ 0 → after j ≠ 0) :
    Calls s st before after [.release (s.lease i).version]

namespace Ledger

variable {s : System (Journaled σ) P} {extra : Nat → Nat}

/-- A hold that is given back is the last one and its generation goes to the store, or
there is another and the store hears nothing. -/
theorem calls_giveBack (h : Ledger s extra) {u : System (Journaled σ) P} {i : Nat}
    (hrefs : (s.lease i).refs ≠ 0) (hleases : u.leases = s.leases) (hstore : u.store = s.store)
    (st : Step σ P) :
    ∃ calls, (u.giveBackLease i).system.store.calls = s.store.calls ++ calls ∧
      Calls s.forget st (fun j => (s.lease j).refs)
        (fun j => ((u.giveBackLease i).system.lease j).refs) calls := by
  have hu := lease_congr hleases i
  have hreleased : (u.lease i).released = false := by
    rw [hu]
    exact h.released_eq_false hrefs
  have hlease := h.lease_giveBack hrefs hleases
  have hother : ∀ j, j ≠ i → (s.lease j).refs ≠ 0 →
      ((u.giveBackLease i).system.lease j).refs ≠ 0 := by
    intro j hne hj
    rw [hlease, if_neg hne]
    exact hj
  have hself : ((u.giveBackLease i).system.lease i).refs = (s.lease i).refs - 1 := by
    rw [hlease, if_pos rfl]
  rw [store_giveBackLease hreleased, hu, hstore]
  by_cases hone : (s.lease i).refs = 1
  · rw [if_pos hone]
    refine ⟨[.release (s.lease i).version], rfl, .ended i hrefs ?_ hother⟩
    rw [hself, hone]
  · rw [if_neg hone]
    refine ⟨[], (List.append_nil _).symm, .kept fun j hj => ?_⟩
    by_cases hne : j = i
    · rw [hne, hself]
      omega
    · exact hother j hne hj

/-- What the store is called for in a step. -/
theorem calls_step (h : Ledger s extra) (st : Step σ P)
    (hout : ∀ i, s.returnsHold i st.journaled = true → 0 < extra i) :
    ∃ calls, (s.step st.journaled).system.store.calls = s.store.calls ++ calls ∧
      Calls s.forget st (fun i => (s.lease i).refs)
        (fun i => ((s.step st.journaled).system.lease i).refs) calls := by
  have hresult : (s.forget.step st).result = (s.step st.journaled).result :=
    (congrArg Outcome.result (s.forget_step st)).symm
  -- By cases of how the step settles: only a hold that is given back can be the last one.
  have hend := s.settlement_step st.journaled
  generalize (s.step st.journaled).system = t at hend ⊢
  have hkept : t.leases = s.leases → ∀ i, (s.lease i).refs ≠ 0 → (t.lease i).refs ≠ 0 := by
    intro hleases i hi
    rw [lease_congr hleases]
    exact hi
  cases hend with
  | kept hextra hleases hholders hstore =>
    generalize t.store = store at hstore ⊢
    cases hstore with
    | untouched => exact ⟨[], (List.append_nil _).symm, .kept (hkept hleases)⟩
    | changed change hst =>
      have hcalls : (change s.store).calls = s.store.calls := by
        cases st with
        | changeStore f =>
          cases hst
          rfl
        | _ => cases hst
      exact ⟨[], hcalls.trans (List.append_nil _).symm, .kept (hkept hleases)⟩
    | read hopens =>
      exact ⟨[.enumerate _], rfl,
        .read _ ((opens_journaled st).symm.trans hopens) (hkept hleases)⟩
    | givenBack g hopens hfails hshown =>
      have hinner : (SegmentStore.enumerate s.store.inner).1 = .ok g := hshown
      refine ⟨[.enumerate (some g.version), .release g.version], ?_,
        .givenBack g.version ((opens_journaled st).symm.trans hopens) ?_ (hkept hleases)⟩
      · change (s.store.calls ++ [.enumerate (Journaled.shownVersion
          (SegmentStore.enumerate s.store.inner).1)]) ++ [.release g.version] = _
        rw [hinner, List.append_assoc]
        rfl
      · rw [hresult]
        exact hfails
  | opened version hopens hstore hleases hholders =>
    rw [hstore]
    refine ⟨[.enumerate _], rfl,
      .read _ ((opens_journaled st).symm.trans hopens) fun i hi => ?_⟩
    have hlt := lt_length_of_refs hi
    rw [lease_of_append hleases, if_neg (by omega)]
    exact hi
  | taken i hreturns hrefs hstore hleases hholds =>
    rw [hstore]
    refine ⟨[], (List.append_nil _).symm, .kept fun j hj => ?_⟩
    rw [lease_of_take hrefs hleases]
    split
    · exact Nat.succ_ne_zero _
    · exact hj
  | returned i u htakes hstore hleases hholds ht =>
    rw [ht]
    exact h.calls_giveBack (h.refs_ne_zero hout hholds) hleases hstore st

end Ledger

/-! ## Runs -/

section Runs

variable (store : σ) (steps : List (Step σ P))

/-- The system at a moment of a run: after its first `n` steps. -/
def moment (n : Nat) : System σ P := ({ store := store } : System σ P).run (steps.take n)

/-- The system at a moment of a run over the store with a journal. -/
def journaledMoment (n : Nat) : System (Journaled σ) P :=
  ({ store := ⟨store, []⟩ } : System (Journaled σ) P).run ((steps.take n).map Step.journaled)

/-- The number of extra holds on a lease taken before a moment. -/
def taken (i n : Nat) : Nat :=
  (List.range n).countP fun m => steps[m]?.any ((moment store steps m).takesHold i)

/-- The number of extra holds on a lease given back before a moment. -/
def returned (i n : Nat) : Nat :=
  (List.range n).countP fun m => steps[m]?.any ((moment store steps m).returnsHold i)

/-- The holds on a lease at a moment: of the views that share it and are neither closed nor
dropped, and those taken by hand and not given back. -/
def holds (i n : Nat) : Nat :=
  (moment store steps n).holders i + (taken store steps i n - returned store steps i n)

/-- Whenever an extra hold on a lease is given back, fewer were given back before than were
taken. -/
def Matched : Prop :=
  ∀ n slot v, steps[n]? = some (.decRef slot) → (moment store steps n).view? slot = some v →
    returned store steps v.lease n < taken store steps v.lease n

variable {store : σ} {steps : List (Step σ P)} {n : Nat}

/-- The next moment is the step from this one. -/
theorem moment_succ {st : Step σ P} (h : steps[n]? = some st) :
    moment store steps (n + 1) = ((moment store steps n).step st).system := by
  unfold moment
  rw [List.take_add_one, h]
  exact run_snoc _ _ _

/-- After the last step all moments are the same. -/
theorem moment_succ_of_none (h : steps[n]? = none) :
    moment store steps (n + 1) = moment store steps n := by
  unfold moment
  rw [List.take_add_one, h]
  exact congrArg _ (List.append_nil _)

/-- With a journal, too, the next moment is the step from this one. -/
theorem journaledMoment_succ {st : Step σ P} (h : steps[n]? = some st) :
    journaledMoment store steps (n + 1) =
      ((journaledMoment store steps n).step st.journaled).system := by
  unfold journaledMoment
  rw [List.take_add_one, h, List.map_append]
  exact run_snoc _ _ _

/-- Without the journal the moments are the same. -/
theorem forget_journaledMoment :
    (journaledMoment store steps n).forget = moment store steps n :=
  forget_run _ _

/-- One moment later the extra hold that the step takes is counted. -/
theorem taken_succ (i : Nat) : taken store steps i (n + 1) = taken store steps i n +
    if steps[n]?.any ((moment store steps n).takesHold i) then 1 else 0 := by
  unfold taken
  rw [List.range_succ, List.countP_append, List.countP_singleton]

/-- One moment later the extra hold that the step gives back is counted. -/
theorem returned_succ (i : Nat) : returned store steps i (n + 1) = returned store steps i n +
    if steps[n]?.any ((moment store steps n).returnsHold i) then 1 else 0 := by
  unfold returned
  rw [List.range_succ, List.countP_append, List.countP_singleton]

/-- In a matched run an extra hold that a step gives back is out. -/
theorem Matched.returned_lt (h : Matched store steps) {st : Step σ P}
    (hst : steps[n]? = some st) {i : Nat}
    (hreturns : (moment store steps n).returnsHold i st = true) :
    returned store steps i n < taken store steps i n := by
  cases st with
  | decRef slot =>
    rw [returnsHold_decRef, Option.any_eq_true] at hreturns
    obtain ⟨v, hv, hlease⟩ := hreturns
    have hlt := h n slot v hst hv
    rw [eq_of_beq hlease] at hlt
    exact hlt
  | _ => cases hreturns

/-- A matched run keeps the ledger, with the extra holds that were taken and not given
back. -/
theorem Matched.ledger (h : Matched store steps) (n : Nat) :
    (∀ i, returned store steps i n ≤ taken store steps i n) ∧
      Ledger (moment store steps n)
        fun i => taken store steps i n - returned store steps i n := by
  -- The first part is needed to subtract: the ledger of a step adds and takes away one by
  -- one, and only while what was returned stays below what was taken is that the same.
  induction n with
  | zero => exact ⟨fun i => le_rfl, ledger_start store⟩
  | succ n ih =>
    obtain ⟨hle, hledger⟩ := ih
    cases hst : steps[n]? with
    | none =>
      simp only [taken_succ, returned_succ, moment_succ_of_none hst, hst, Option.any_none,
        Bool.false_eq_true, if_false, add_zero]
      exact ⟨hle, hledger⟩
    | some st =>
      have hout : ∀ i, (moment store steps n).returnsHold i st = true →
          0 < taken store steps i n - returned store steps i n := fun i hi =>
        Nat.sub_pos_of_lt (h.returned_lt hst hi)
      have hnext := hledger.step st hout
      simp only [taken_succ, returned_succ, moment_succ hst, hst, Option.any_some]
      refine ⟨fun i => ?_, ?_⟩
      · have hi := hle i
        by_cases hreturns : (moment store steps n).returnsHold i st = true
        · have hlt := h.returned_lt hst hreturns
          simp only [hreturns, if_true]
          omega
        · rw [if_neg hreturns]
          omega
      · convert hnext using 2 with i
        have hi := hle i
        omega

/-- In a matched run a lease that was given out and lost its last hold gets no other. -/
theorem Matched.holds_eq_zero (h : Matched store steps) {i : Nat}
    (hlt : i < (moment store steps n).leases.length) (hzero : holds store steps i n = 0)
    {m : Nat} (hle : n ≤ m) : holds store steps i m = 0 := by
  -- That the lease was given out is part of the induction: a number that was not can still
  -- be taken by the next opening.
  suffices hspent : i < (moment store steps m).leases.length ∧
      ((moment store steps m).lease i).refs = 0 by
    exact ((h.ledger m).2.refs i).symm.trans hspent.2
  induction m, hle using Nat.le_induction with
  | base => exact ⟨hlt, ((h.ledger n).2.refs i).trans hzero⟩
  | succ m hle ih =>
    cases hst : steps[m]? with
    | none =>
      rw [moment_succ_of_none hst]
      exact ih
    | some st =>
      obtain ⟨hle, hledger⟩ := h.ledger m
      rw [moment_succ hst]
      exact hledger.spent_step st (fun j hj => Nat.sub_pos_of_lt (h.returned_lt hst hj))
        ih.1 ih.2

/-- The ledger of the leases, at any moment of a matched run over one store and with no
bound on the number of holds: every lease counts the views that share it and are neither
closed nor dropped, and the extra holds that are out; so no view that was not closed is
ever closed by its lease. A lease is released exactly when that sum is zero and stays so,
and the generation goes to the store in the step in which the sum becomes zero, once, and
in no other step. -/
theorem released_with_the_last_hold (store : σ) (steps : List (Step σ P))
    (hmatched : Matched store steps) (n : Nat) :
    let s := moment store steps n
    (∀ i, returned store steps i n ≤ taken store steps i n ∧
        (s.lease i).refs = holds store steps i n) ∧
      (∀ slot v, s.view? slot = some v → v.closed = false → s.isClosed v = false) ∧
      (∀ i < s.leases.length, ((s.lease i).released = true ↔ holds store steps i n = 0) ∧
        (holds store steps i n = 0 → ∀ m, n ≤ m → holds store steps i m = 0)) ∧
      (journaledMoment store steps n).forget = s ∧
      ∀ st, steps[n]? = some st → ∃ calls,
        (journaledMoment store steps (n + 1)).store.calls =
          (journaledMoment store steps n).store.calls ++ calls ∧
        Calls s st (holds store steps · n) (holds store steps · (n + 1)) calls := by
  intro s
  obtain ⟨hle, hledger⟩ := hmatched.ledger n
  have hrefs : ∀ i, (s.lease i).refs = holds store steps i n := hledger.refs
  refine ⟨fun i => ⟨hle i, hrefs i⟩, fun slot v => hledger.isClosed_eq_false, fun i hi => ?_,
    forget_journaledMoment, fun st hst => ?_⟩
  · refine ⟨?_, fun hzero m hm => hmatched.holds_eq_zero hi hzero hm⟩
    rw [hledger.released, hrefs]
    exact decide_eq_true_iff
  · -- The calls are seen in the journal, which leaves the ledger as it is.
    have hforget : (journaledMoment store steps n).forget = moment store steps n :=
      forget_journaledMoment
    have hjournaled : Ledger (journaledMoment store steps n)
        fun i => taken store steps i n - returned store steps i n := by
      rw [← hforget] at hledger
      exact ⟨hledger.refs, hledger.released⟩
    obtain ⟨calls, hcalls, hwhen⟩ := hjournaled.calls_step st fun i hi => by
      rw [returnsHold_journaled, hforget] at hi
      exact Nat.sub_pos_of_lt (hmatched.returned_lt hst hi)
    rw [← journaledMoment_succ hst] at hcalls hwhen
    refine ⟨calls, hcalls, ?_⟩
    have hholds : ∀ m, (fun i => ((journaledMoment store steps m).lease i).refs) =
        (holds store steps · m) := by
      intro m
      funext i
      calc ((journaledMoment store steps m).lease i).refs
          = ((journaledMoment store steps m).forget.lease i).refs := rfl
        _ = ((moment store steps m).lease i).refs := by rw [forget_journaledMoment]
        _ = holds store steps i m := (hmatched.ledger m).2.refs i
    rw [hholds, hholds, hforget] at hwhen
    exact hwhen

end Runs

/-- A view and its copy with an extra hold on their lease: closing the view twice and
dropping it gives back one hold, the extra one another, and the generation goes to the
store when the copy is dropped. -/
theorem released_with_the_last_hold_of_copy :
    let store : SegmentList := .ofSizes [2]
    let steps : List (Step SegmentList Segment) := [.openView .segments {}, .incRef 0, .copy 0,
      .close 0, .close 0, .decRef 0, .drop 0, .drop 1]
    Matched store steps ∧ holds store steps 0 7 = 1 ∧
      (moment store steps 8).lease 0 = ⟨1, 0, true⟩ ∧
      (∀ m, 8 ≤ m → holds store steps 0 m = 0) ∧
      ∃ calls, (journaledMoment store steps 8).store.calls =
          (journaledMoment store steps 7).store.calls ++ calls ∧
        Calls (moment store steps 7) (.drop 1) (holds store steps · 7)
          (holds store steps · 8) calls := by
  intro store steps
  have hmatched : Matched store steps := by
    intro n slot v hst hv
    have hn : n = 5 := by
      rcases n with _ | _ | _ | _ | _ | _ | _ | _ | n
      case succ.succ.succ.succ.succ.zero => rfl
      all_goals cases hst
    subst hn
    cases hst
    have hlease : ((moment store steps 5).view? 0).map View.lease = some 0 := by
      decide +kernel
    rw [hv] at hlease
    rw [show v.lease = 0 from Option.some.inj hlease]
    decide +kernel
  have hlease : (moment store steps 8).lease 0 = ⟨1, 0, true⟩ := by decide +kernel
  obtain ⟨-, -, hspent, -, -⟩ := released_with_the_last_hold store steps hmatched 8
  obtain ⟨hrefs, -, -, -, hcalls⟩ := released_with_the_last_hold store steps hmatched 7
  have hheld : holds store steps 0 7 = 1 := by
    rw [← (hrefs 0).2]
    decide +kernel
  have hstays : ∀ m, 8 ≤ m → holds store steps 0 m = 0 := by
    obtain ⟨hreleased, hstays⟩ := hspent 0 (by decide +kernel)
    rw [hlease] at hreleased
    exact hstays (hreleased.1 rfl)
  have hlast := hcalls (.drop 1) rfl
  rw [show 7 + 1 = 8 from rfl] at hlast
  exact ⟨hmatched, hheld, hlease, hstays, hlast⟩

end System

end SegmentedView
