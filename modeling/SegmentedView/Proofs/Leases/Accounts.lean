import SegmentedView.Proofs.Leases.Releases
import SegmentedView.Proofs.Leases.Spent
import SegmentedView.Proofs.Refresh.FreshOpen
import SegmentedView.Proofs.Store.Returns

/-!
# How often a generation goes back

Every reading of a generation by an opening is answered by one return of it: at any moment
of any run the returns of a version, with the leases on it that somebody still holds, are as
many as its readings (`Balanced`). A version that is read once therefore goes back once, when
its last hold goes. One that is read again has a lease for every reading, and each of them
gives it back.
-/

set_option autoImplicit false

namespace SegmentedView

variable {σ P : Type}

/-- Whether somebody holds a lease on the generation of a version. -/
def Lease.isHeldOn (l : Lease) (version : Nat) : Bool := l.version == version && l.refs != 0

/-- A lease with holders is held on its own generation and no other. -/
theorem Lease.isHeldOn_of_held {l : Lease} (hrefs : l.refs ≠ 0) (version : Nat) :
    l.isHeldOn version = decide (l.version = version) := by
  simp [Lease.isHeldOn, hrefs, beq_eq_decide]

/-- A lease without holders is held on no generation. -/
theorem Lease.isHeldOn_of_spent {l : Lease} (hrefs : l.refs = 0) (version : Nat) :
    l.isHeldOn version = false := by
  simp [Lease.isHeldOn, hrefs]

/-- A new lease is held on the generation that it was made for. -/
theorem Lease.isHeldOn_new (v version : Nat) :
    (Lease.new v).isHeldOn version = decide (v = version) :=
  Lease.isHeldOn_of_held Nat.one_ne_zero version

namespace System

/-- The number of leases on a version that somebody holds. -/
def held (s : System σ P) (version : Nat) : Nat := s.leases.countP (·.isHeldOn version)

/-- How many leases are held is a matter of the leases alone. -/
theorem held_congr {τ : Type} {s : System σ P} {t : System τ P} (h : t.leases = s.leases)
    (version : Nat) : t.held version = s.held version := by
  unfold held
  rw [h]

/-- A lease more counts for the generation that it is held on. -/
theorem held_of_append {s t : System σ P} {l : Lease} (h : t.leases = s.leases ++ [l])
    (version : Nat) :
    t.held version = s.held version + if l.isHeldOn version then 1 else 0 := by
  unfold held
  rw [h, List.countP_append, List.countP_singleton]

/-- A lease in the place of another trades what they count for. -/
theorem held_of_set {s t : System σ P} {i : Nat} (hlt : i < s.leases.length) {l : Lease}
    (h : t.leases = s.leases.set i l) (version : Nat) :
    t.held version + (if (s.lease i).isHeldOn version then 1 else 0) =
      s.held version + if l.isHeldOn version then 1 else 0 := by
  have hlease : s.lease i = s.leases[i] := lease_eq_getElem hlt
  have hle : (if (s.lease i).isHeldOn version then 1 else 0) ≤ s.held version := by
    split
    case isTrue hheld =>
      exact List.countP_pos_iff.2 ⟨s.lease i, hlease ▸ List.getElem_mem hlt, hheld⟩
    case isFalse => exact Nat.zero_le _
  have hset : t.held version = s.held version -
      (if (s.lease i).isHeldOn version then 1 else 0) +
        if l.isHeldOn version then 1 else 0 := by
    unfold held
    rw [h, List.countP_set hlt, hlease]
  omega

/-! ## The balance -/

/-- Every reading of a generation that is not held any more was answered by one return. -/
def Balanced (s : System (Journaled σ) P) : Prop :=
  ∀ version, s.store.calls.count (.release version) + s.held version =
    s.store.calls.count (.enumerate (some version))

/-- Calls keep the balance if what was read is held more or was given back. -/
theorem Balanced.of_calls {s t : System (Journaled σ) P} (h : s.Balanced)
    {calls : List StoreCall} (hcalls : t.store.calls = s.store.calls ++ calls)
    (hheld : ∀ version, calls.count (.release version) + t.held version =
      s.held version + calls.count (.enumerate (some version))) : t.Balanced := by
  intro version
  have hbefore := h version
  have hstep := hheld version
  rw [hcalls, List.count_append, List.count_append]
  omega

/-- What was read was given back at once. -/
theorem Balanced.of_kept {s t : System (Journaled σ) P} (h : s.Balanced)
    (hleases : t.leases = s.leases) {calls : List StoreCall}
    (hcalls : t.store.calls = s.store.calls ++ calls)
    (hcount : ∀ version, calls.count (.release version) =
      calls.count (.enumerate (some version))) : t.Balanced := by
  refine h.of_calls hcalls fun version => ?_
  rw [held_congr hleases, hcount]
  exact Nat.add_comm _ _

/-- Where the store hears nothing, the balance is kept by holding as many leases on every
generation. -/
theorem Balanced.of_leases {s t : System (Journaled σ) P} (h : s.Balanced)
    (hcalls : t.store.calls = s.store.calls)
    (hheld : ∀ version, t.held version = s.held version) : t.Balanced := by
  intro version
  rw [hcalls, hheld]
  exact h version

/-- What was read has a lease of its own. -/
theorem Balanced.opened {s t : System (Journaled σ) P} (h : s.Balanced) {v : Nat}
    (hleases : t.leases = s.leases ++ [Lease.new v])
    (hcalls : t.store.calls = s.store.calls ++ [.enumerate (some v)]) : t.Balanced := by
  refine h.of_calls hcalls fun version => ?_
  rw [held_of_append hleases, Lease.isHeldOn_new]
  simp [List.count_singleton]

variable [SegmentStore σ]

/-- A hold less is no return unless it was the last one on its lease. -/
theorem Balanced.giveBack {u : System (Journaled σ) P} (h : u.Balanced) {i : Nat}
    (hconsistent : (u.lease i).Consistent) : (u.giveBackLease i).system.Balanced := by
  by_cases hrefs : (u.lease i).refs = 0
  · rw [system_giveBackLease_of_spent hrefs]
    exact h
  · have hreleased := hconsistent.refs_ne_zero_iff.1 hrefs
    have hleases : (u.giveBackLease i).system.leases = u.leases.set i
        { u.lease i with
          refs := (u.lease i).refs - 1, released := decide ((u.lease i).refs = 1) } :=
      congrArg (u.leases.set i) (Lease.giveBack_of_held hrefs hreleased u.store)
    have hheld := held_of_set (lt_length_of_refs hrefs) hleases
    have hstore := store_giveBackLease (s := u) hreleased
    by_cases hone : (u.lease i).refs = 1
    · -- The last hold: one held lease less, and one return more.
      rw [if_pos hone] at hstore
      have hcalls : (u.giveBackLease i).system.store.calls =
          u.store.calls ++ [.release (u.lease i).version] := by
        rw [hstore]
        rfl
      refine h.of_calls hcalls fun version => ?_
      have hspent : (u.lease i).refs - 1 = 0 := by omega
      have hversion := hheld version
      rw [Lease.isHeldOn_of_held hrefs, Lease.isHeldOn_of_spent hspent] at hversion
      simp only [decide_eq_true_eq, Bool.false_eq_true, if_false] at hversion
      simp only [List.count_singleton, beq_iff_eq, StoreCall.release.injEq, reduceCtorEq, if_false]
      omega
    · -- Others still hold the lease, and the store hears nothing.
      rw [if_neg hone] at hstore
      refine h.of_leases (congrArg Journaled.calls hstore) fun version => ?_
      have hrest : (u.lease i).refs - 1 ≠ 0 := by omega
      have hversion := hheld version
      rw [Lease.isHeldOn_of_held hrefs, Lease.isHeldOn_of_held hrest] at hversion
      exact Nat.add_right_cancel hversion

omit [SegmentStore σ] in
/-- One more hold on a lease that is held is no other lease. -/
theorem Balanced.take {s t : System (Journaled σ) P} (h : s.Balanced) {i : Nat}
    (hrefs : (s.lease i).refs ≠ 0) (hcalls : t.store.calls = s.store.calls)
    (hleases : t.leases = s.leases.set i { s.lease i with refs := (s.lease i).refs + 1 }) :
    t.Balanced := by
  refine h.of_leases hcalls fun version => ?_
  have hheld := held_of_set (lt_length_of_refs hrefs) hleases version
  rw [Lease.isHeldOn_of_held hrefs, Lease.isHeldOn_of_held (Nat.succ_ne_zero _)] at hheld
  exact Nat.add_right_cancel hheld

/-- One step of a reachable system keeps the balance. -/
theorem Balanced.step {s : System (Journaled σ) P} (h : s.Balanced) (hs : s.Reachable)
    (st : Step σ P) : (s.step st.journaled).system.Balanced := by
  have hmoves := s.transition_step st.journaled
  generalize hst : st.journaled = st' at hmoves
  generalize (s.step st').result = r at hmoves
  generalize (s.step st').system = t at hmoves ⊢
  cases hmoves with
  | storeChanged change =>
    -- A store that changes by itself is not called.
    cases st with
    | changeStore f =>
      cases hst
      exact h.of_leases rfl fun version => rfl
    | _ => cases hst
  | unread e ho hk he =>
    exact h.of_kept rfl (Journaled.calls_enumerate he) fun version => rfl
  | handedBack g e ho hk hg ha =>
    have hread := Journaled.calls_enumerate hg
    have hcalls : (SegmentStore.release (SegmentStore.enumerate s.store).2 g.version).calls =
        s.store.calls ++ [.enumerate (some g.version), .release g.version] := by
      change (SegmentStore.enumerate s.store).2.calls ++ [.release g.version] = _
      rw [hread, List.append_assoc]
      rfl
    refine h.of_kept rfl hcalls fun version => ?_
    simp [List.count_cons]
  | opened g a ho hk hg ha =>
    exact h.opened rfl (Journaled.calls_enumerate hg)
  | copied slot v hv hopen hrefs => exact h.take hrefs rfl rfl
  | held slot v hv hopen hrefs => exact h.take hrefs rfl rfl
  | returned slot v hv => exact h.giveBack (hs.consistent v.lease)
  | closed slot v hv hopen =>
    exact (h.of_leases rfl fun version => rfl).giveBack (hs.consistent v.lease)
  | droppedOpen slot v hv hopen =>
    exact (h.of_leases rfl fun version => rfl).giveBack (hs.consistent v.lease)
  | _ => exact h.of_leases rfl fun version => rfl

/-- At any moment of any run the readings of a generation are balanced. -/
theorem balanced_run (store : σ) (steps : List (Step σ P)) :
    (({ store := ⟨store, []⟩ } : System (Journaled σ) P).run
      (steps.map Step.journaled)).Balanced := by
  induction steps using List.reverseRecOn with
  | nil => exact fun version => rfl
  | append_singleton steps st ih =>
    rw [List.map_append, List.map_singleton, run_snoc]
    exact ih.step ((reachable_start _).run _) st

end System

/-! ## The record of a segment list -/

/-- The version of the generation that a call takes back. -/
def StoreCall.returned? : StoreCall → Option Nat
  | .enumerate _ => none
  | .release version => some version

/-- A store records a return for every call of it. -/
theorem count_returned? (calls : List StoreCall) (version : Nat) :
    (calls.filterMap StoreCall.returned?).count version = calls.count (.release version) := by
  rw [List.count_filterMap]
  apply List.countP_congr
  intro call _
  cases call <;> simp [StoreCall.returned?]

/-- A list has recorded what it was called to take back. -/
def Journaled.Recorded (store : Journaled SegmentList) : Prop :=
  store.inner.releases = store.calls.filterMap StoreCall.returned?

namespace System

/-- One step adds to the record what it tells the store of returns, and nothing else. -/
theorem recorded_step {s : System (Journaled SegmentList) P} (h : s.store.Recorded)
    {st : Step SegmentList P} (hst : st.Mutates) :
    (s.step st.journaled).system.store.Recorded := by
  have hread : ∀ store : Journaled SegmentList,
      (SegmentStore.enumerate store).2.Recorded = store.Recorded := by
    intro store
    unfold Journaled.Recorded
    rw [Journaled.calls_enumerate rfl, List.filterMap_append]
    exact congrArg (store.inner.releases = ·) (List.append_nil _)
  have hrelease : ∀ (store : Journaled SegmentList) version,
      (SegmentStore.release store version).Recorded = store.Recorded := by
    intro store version
    change (store.inner.releases ++ [version] =
      (store.calls ++ [StoreCall.release version]).filterMap StoreCall.returned?) = _
    rw [List.filterMap_append]
    exact propext (List.append_left_inj _)
  rcases store_step Journaled.Recorded hread hrelease s st.journaled with
    hkept | ⟨change, hchanged, hstore⟩
  · rw [hkept]
    exact h
  · rw [hstore]
    cases st with
    | changeStore f =>
      cases hchanged
      obtain ⟨c, hc⟩ := hst
      change (f s.store.inner).releases = _
      rw [hc, SegmentList.releases_change]
      exact h
    | _ => cases hchanged

/-- Over a run the record stays what the store was told. -/
theorem recorded_run {store : SegmentList} (hfresh : store.releases = [])
    {steps : List (Step SegmentList P)} (hmutates : ∀ st ∈ steps, st.Mutates) :
    (({ store := ⟨store, []⟩ } : System (Journaled SegmentList) P).run
      (steps.map Step.journaled)).store.Recorded := by
  induction steps using List.reverseRecOn with
  | nil => exact hfresh
  | append_singleton steps st ih =>
    rw [List.map_append, List.map_singleton, run_snoc]
    exact recorded_step (ih fun x hx => hmutates x (List.mem_append_left _ hx))
      (hmutates st (by simp))

section

variable {store : SegmentList} {steps : List (Step SegmentList P)} {n : Nat}

/-- At any moment a list took a generation back as often as it was read and is not held any
more. -/
theorem releaseCount_add_held (hfresh : store.releases = [])
    (hmutates : ∀ st ∈ steps, st.Mutates) (version : Nat) :
    (moment store steps n).store.releaseCount version + (moment store steps n).held version =
      (journaledMoment store steps n).store.calls.count (.enumerate (some version)) := by
  have hforget : (journaledMoment store steps n).forget = moment store steps n :=
    forget_journaledMoment
  have hrecorded : (journaledMoment store steps n).store.Recorded :=
    recorded_run hfresh fun st hst => hmutates st (List.mem_of_mem_take hst)
  have hreturned : (moment store steps n).store.releaseCount version =
      (journaledMoment store steps n).store.calls.count (.release version) := by
    rw [← hforget, ← count_returned?, ← hrecorded]
    rfl
  have hheld : (moment store steps n).held version =
      (journaledMoment store steps n).held version := by
    rw [← hforget]
    rfl
  rw [hreturned, hheld]
  exact balanced_run store (steps.take n) version

/-- In a matched run the lease of a view that is neither closed nor dropped is held. -/
theorem held_ne_zero (hmatched : Matched store steps) {k : Nat} {w : View P}
    (hw : (moment store steps n).view? k = some w) (hopen : w.closed = false) :
    (moment store steps n).held ((moment store steps n).version w) ≠ 0 := by
  have hs : (moment store steps n).Reachable := ⟨_, _, rfl⟩
  have hrefs := hs.refs_ne_zero ((hmatched.ledger n).2.isClosed_eq_false hw hopen)
  have hlt := lt_length_of_refs hrefs
  have hmem : (moment store steps n).lease w.lease ∈ (moment store steps n).leases :=
    lease_eq_getElem hlt ▸ List.getElem_mem hlt
  refine (List.countP_pos_iff.2 ⟨_, hmem, ?_⟩).ne'
  rw [Lease.isHeldOn_of_held hrefs]
  exact decide_eq_true rfl

end

/-- A generation goes back once for every time that it is read, and not while it is held. At
any moment of any run over a new segment list, the list took a version back as often as an
opening read it, failed or not, less the leases on it that are held; and in a matched run one
is held as long as some view of that version is neither closed nor dropped. So a version that
was read once at most goes back once at most, and not while there is such a view; one that
was read more often goes back while there is. -/
theorem goes_back_once_per_reading (store : SegmentList) (steps : List (Step SegmentList P))
    (hfresh : store.releases = []) (hmutates : ∀ st ∈ steps, st.Mutates) (n version : Nat) :
    let s := moment store steps n
    let readings :=
      (journaledMoment store steps n).store.calls.count (.enumerate (some version))
    s.store.releaseCount version + s.held version = readings ∧
      (readings ≤ 1 → s.store.releaseCount version ≤ 1) ∧
      (Matched store steps → ∀ k w, s.view? k = some w → w.closed = false →
        s.version w = version → s.store.releaseCount version < readings ∧
          (readings ≤ 1 → s.store.releaseCount version = 0)) := by
  intro s readings
  have hbalance : s.store.releaseCount version + s.held version = readings :=
    releaseCount_add_held hfresh hmutates version
  refine ⟨hbalance, fun honce => by omega, fun hmatched k w hw hopen hversion => ?_⟩
  have hheld : s.held (s.version w) ≠ 0 := held_ne_zero hmatched hw hopen
  rw [hversion] at hheld
  exact ⟨by omega, fun honce => by omega⟩

/-- Version 2 reports a wrong total, so its opening fails and gives it back. Version 3 is
read once, and while the copy of its view is there it does not go back. -/
theorem goes_back_once_per_reading_of_copy :
    let store : SegmentList := .ofSizes [1]
    let steps : List (Step SegmentList Segment) :=
      [.changeStore fun store => (store.change (.report (some 9))).1, .openView .segments {},
        .changeStore fun store => (store.change (.report none)).1, .openView .segments {},
        .copy 0, .drop 0]
    let s := moment store steps 6
    let readings (version : Nat) :=
      (journaledMoment store steps 6).store.calls.count (.enumerate (some version))
    store.releases = [] ∧ (∀ st ∈ steps, st.Mutates) ∧ Matched store steps ∧
      (s.view? 1).map (fun w => (w.closed, s.version w)) = some (false, 3) ∧
      readings 2 = 1 ∧ s.held 2 = 0 ∧ s.store.releaseCount 2 = 1 ∧
      readings 3 = 1 ∧ s.held 3 = 1 ∧ s.store.releaseCount 3 = 0 := by
  intro store steps s readings
  have hmutates : ∀ st ∈ steps, st.Mutates := by
    simp only [steps, List.forall_mem_cons, Step.Mutates, List.not_mem_nil, false_imp_iff,
      implies_true, and_true, true_and]
    exact ⟨⟨_, fun store => rfl⟩, ⟨_, fun store => rfl⟩⟩
  have hmatched : Matched store steps := by
    intro n slot v hst
    have hmem := List.mem_of_getElem? hst
    simp [steps] at hmem
  have hview : (s.view? 1).map (fun w => (w.closed, s.version w)) = some (false, 3) := by
    decide +kernel
  obtain ⟨w, hw, hw'⟩ := Option.map_eq_some_iff.1 hview
  obtain ⟨hopen, hversion⟩ := Prod.mk.inj hw'
  have htwo : readings 2 = 1 := by decide +kernel
  have hthree : readings 3 = 1 := by decide +kernel
  have hspent : s.held 2 = 0 := by decide +kernel
  obtain ⟨hbalance, -, -⟩ := goes_back_once_per_reading store steps rfl hmutates 6 2
  obtain ⟨hbalance', -, hlive⟩ := goes_back_once_per_reading store steps rfl hmutates 6 3
  have hnone : s.store.releaseCount 3 = 0 := (hlive hmatched 1 w hw hopen hversion).2 hthree.le
  have hback : s.store.releaseCount 2 + s.held 2 = readings 2 := hbalance
  have hkept : s.store.releaseCount 3 + s.held 3 = readings 3 := hbalance'
  exact ⟨rfl, hmutates, hmatched, hview, htwo, hspent, by omega, hthree, by omega, hnone⟩

/-- Two openings of one version take a lease each: the generation goes back when the first
view is dropped, while the second is there, and again when that one is dropped. -/
theorem goes_back_twice :
    let store : SegmentList := .ofSizes [1]
    let steps : List (Step SegmentList Segment) :=
      [.openView .segments {}, .openView .segments {}, .drop 0, .drop 1]
    let s := moment store steps 3
    store.releases = [] ∧ (∀ st ∈ steps, st.Mutates) ∧ Matched store steps ∧
      (s.view? 1).map (fun w => (w.closed, s.isClosed w, s.version w)) =
        some (false, false, 1) ∧
      s.store.releaseCount 1 = 1 ∧ (moment store steps 4).store.releaseCount 1 = 2 := by
  intro store steps s
  refine ⟨rfl, by simp [steps, Step.Mutates], fun n slot v hst => ?_, by decide +kernel,
    by decide +kernel, by decide +kernel⟩
  have hmem := List.mem_of_getElem? hst
  simp [steps] at hmem

end System

end SegmentedView
