import SegmentedView.Proofs.Leases.Spent
import SegmentedView.Store.SegmentList

/-!
# Calls on one lease

A lease keeps a count and a mark that its generation went back, and two calls move them: a hold
is taken or given back. However these calls follow each other, the count is what they say it is,
the store was told of the end once when the count got to nothing and not before, and from then on
every call is refused and moves nothing (`Course.goes_back_once_for_good`).
-/

set_option autoImplicit false

namespace SegmentedView

namespace Lease

/-- A call on a lease. -/
inductive Call
  | take
  | giveBack
  deriving DecidableEq, Repr

variable {σ : Type}

/-- What calls on a lease came to: the lease and the store as they are now, and every call with
its answer, the first one first. -/
structure Course (σ : Type) where
  lease : Lease
  store : σ
  answers : List (Call × Except Error Unit) := []

/-- How many calls of this kind succeeded. -/
def Course.succeeded (r : Course σ) (c : Call) : Nat :=
  r.answers.countP fun answer => answer.1 == c && answer.2.isOk

/-- A call that is refused counts for none that succeeded. -/
theorem Course.succeeded_of_refused {r t : Course σ} {c : Call} {e : Error}
    (h : t.answers = r.answers ++ [(c, .error e)]) (d : Call) : t.succeeded d = r.succeeded d := by
  have hrefused : (c == d && (Except.error e : Except Error Unit).isOk) = false :=
    Bool.and_false _
  unfold succeeded
  rw [h, List.countP_append, List.countP_singleton, hrefused]
  rfl

/-- A call that is accepted counts for its own kind. -/
theorem Course.succeeded_of_accepted {r t : Course σ} {c : Call}
    (h : t.answers = r.answers ++ [(c, .ok ())]) (d : Call) :
    t.succeeded d = r.succeeded d + if c = d then 1 else 0 := by
  have haccepted : (c == d && (Except.ok () : Except Error Unit).isOk) = (c == d) :=
    Bool.and_true _
  unfold succeeded
  rw [h, List.countP_append, List.countP_singleton, haccepted]
  simp only [beq_iff_eq]

variable [SegmentStore σ]

/-- Makes a call on a lease. -/
def call (l : Lease) (store : σ) : Call → Returned σ
  | .take =>
    match l.take with
    | .error e => ⟨.error e, l, store, []⟩
    | .ok taken => ⟨.ok (), taken, store, []⟩
  | .giveBack => l.giveBack store

namespace Course

/-- A new lease on a version of a store. -/
def start (version : Nat) (store : σ) : Course σ := { lease := .new version, store := store }

/-- Goes on with one call. -/
def next (r : Course σ) (c : Call) : Course σ where
  lease := (r.lease.call r.store c).lease
  store := (r.lease.call r.store c).store
  answers := r.answers ++ [(c, (r.lease.call r.store c).result)]

/-- Goes on with calls in order. -/
def run (r : Course σ) (calls : List Call) : Course σ := calls.foldl next r

/-! ## One call -/

variable {r : Course σ}

/-- Nobody joins or leaves a lease that is spent. -/
theorem next_of_spent (hrefs : r.lease.refs = 0) (c : Call) : r.next c =
    ⟨r.lease, r.store, r.answers ++ [(c, .error (.leaseSpent r.lease.version))]⟩ := by
  unfold next
  cases c with
  | take =>
    unfold call Lease.take
    rw [if_pos hrefs]
  | giveBack =>
    unfold call
    dsimp only
    rw [giveBack_of_spent hrefs]

/-- A hold on a lease that is held can be taken, and the store is not told. -/
theorem next_take_of_held (hrefs : r.lease.refs ≠ 0) : r.next .take =
    ⟨{ r.lease with refs := r.lease.refs + 1 }, r.store, r.answers ++ [(.take, .ok ())]⟩ := by
  unfold next call Lease.take
  rw [if_neg hrefs]

/-- A hold on a lease that is held can be given back, and the store is told of the last one. -/
theorem next_giveBack_of_held (hrefs : r.lease.refs ≠ 0) (hreleased : r.lease.released = false) :
    r.next .giveBack =
      ⟨{ r.lease with refs := r.lease.refs - 1, released := decide (r.lease.refs = 1) },
        if r.lease.refs = 1 then SegmentStore.release r.store r.lease.version else r.store,
        r.answers ++ [(.giveBack, .ok ())]⟩ := by
  unfold next call giveBack releaseOnce
  rw [if_neg hrefs]
  by_cases hone : r.lease.refs = 1
  · simp [hone, hreleased]
  · simp [hone, hreleased]

/-- A call on a lease that is held succeeds. -/
theorem answers_next_of_held (hrefs : r.lease.refs ≠ 0) (hreleased : r.lease.released = false)
    (c : Call) : (r.next c).answers = r.answers ++ [(c, .ok ())] := by
  cases c with
  | take => rw [next_take_of_held hrefs]
  | giveBack => rw [next_giveBack_of_held hrefs hreleased]

/-! ## Any calls -/

/-- What is true of a lease and its store after any calls: the count is what the answers say, the
store was told of the end if there was one, and nothing was refused before. -/
structure Kept (v : Nat) (s : Journaled σ) (r : Course (Journaled σ)) : Prop where
  version : r.lease.version = v
  consistent : r.lease.Consistent
  balance : r.lease.refs + r.succeeded .giveBack = 1 + r.succeeded .take
  calls : r.store.calls = s.calls ++ if r.lease.released then [.release v] else []
  answered : r.lease.refs ≠ 0 → ∀ answer ∈ r.answers, answer.2 = .ok ()

namespace Kept

variable {version : Nat} {store : Journaled σ} {r : Course (Journaled σ)}

omit [SegmentStore σ] in
/-- At the start there is one hold, and no call was made. -/
theorem start (version : Nat) (store : Journaled σ) :
    Kept version store (.start version store) where
  version := rfl
  consistent := rfl
  balance := rfl
  calls := (List.append_nil _).symm
  answered _ answer hanswer := by cases hanswer

/-- While there is a holder the next call is accepted, as all before it were. -/
theorem answered_next (h : Kept version store r) (hrefs : r.lease.refs ≠ 0) (c : Call) :
    (r.next c).answers = r.answers ++ [(c, .ok ())] ∧
      ∀ answer ∈ (r.next c).answers, answer.2 = .ok () := by
  have hanswers := answers_next_of_held hrefs (h.consistent.refs_ne_zero_iff.1 hrefs) c
  refine ⟨hanswers, fun answer hanswer => ?_⟩
  rw [hanswers] at hanswer
  rcases List.mem_append.1 hanswer with hold | hnew
  · exact h.answered hrefs answer hold
  · rw [List.mem_singleton.1 hnew]

/-- A call that is refused moves nothing that counts. -/
theorem next_of_spent (h : Kept version store r) (hrefs : r.lease.refs = 0) (c : Call) :
    Kept version store (r.next c) := by
  have hnext := Course.next_of_spent hrefs c
  have hsucceeded := succeeded_of_refused (congrArg Course.answers hnext)
  have hspent : (r.next c).lease.refs = 0 := by
    rw [hnext]
    exact hrefs
  refine ⟨?_, ?_, ?_, ?_, fun hne => absurd hspent hne⟩
  · rw [hnext]
    exact h.version
  · rw [hnext]
    exact h.consistent
  · rw [hsucceeded, hsucceeded, hnext]
    exact h.balance
  · rw [hnext]
    exact h.calls

/-- One hold more keeps the account. -/
theorem next_take (h : Kept version store r) (hrefs : r.lease.refs ≠ 0) :
    Kept version store (r.next .take) := by
  have hnext := next_take_of_held hrefs
  obtain ⟨hanswers, hanswered⟩ := h.answered_next hrefs .take
  have hsucceeded := succeeded_of_accepted hanswers
  have hbalance := h.balance
  refine ⟨?_, ?_, ?_, ?_, fun _ => hanswered⟩
  · rw [hnext]
    exact h.version
  · rw [hnext]
    exact h.consistent.take hrefs
  · rw [hsucceeded, hsucceeded, hnext]
    simp only [reduceCtorEq, if_true, if_false]
    omega
  · rw [hnext]
    exact h.calls

/-- One hold less keeps the account, and the store is told of the last. -/
theorem next_giveBack (h : Kept version store r) (hrefs : r.lease.refs ≠ 0) :
    Kept version store (r.next .giveBack) := by
  have hreleased := h.consistent.refs_ne_zero_iff.1 hrefs
  have hnext := next_giveBack_of_held hrefs hreleased
  obtain ⟨hanswers, hanswered⟩ := h.answered_next hrefs .giveBack
  have hsucceeded := succeeded_of_accepted hanswers
  have hbalance := h.balance
  refine ⟨?_, h.consistent.giveBack r.store, ?_, ?_, fun _ => hanswered⟩
  · rw [hnext]
    exact h.version
  · rw [hsucceeded, hsucceeded, hnext]
    simp only [reduceCtorEq, if_true, if_false]
    omega
  · have hcalls := h.calls
    rw [hreleased, if_neg Bool.false_ne_true, List.append_nil] at hcalls
    rw [hnext]
    -- The store hears of the lease with the last hold, and that is when the mark is set.
    by_cases hone : r.lease.refs = 1
    · simp only [hone, if_true, decide_true]
      change r.store.calls ++ [.release r.lease.version] = _
      rw [hcalls, h.version]
    · simp only [hone, if_false, decide_false, Bool.false_eq_true, List.append_nil]
      exact hcalls

/-- Any next call keeps the account. -/
theorem next (h : Kept version store r) (c : Call) : Kept version store (r.next c) := by
  by_cases hrefs : r.lease.refs = 0
  · exact h.next_of_spent hrefs c
  · cases c with
    | take => exact h.next_take hrefs
    | giveBack => exact h.next_giveBack hrefs

/-- Calls in order keep the account. -/
theorem run (h : Kept version store r) (calls : List Call) : Kept version store (r.run calls) := by
  induction calls generalizing r with
  | nil => exact h
  | cons c calls ih => exact ih (h.next c)

/-- Calls on a spent lease are all refused, and move neither the lease nor the store. -/
theorem run_of_spent (h : Kept version store r) (hrefs : r.lease.refs = 0) (calls : List Call) :
    r.run calls = ⟨r.lease, r.store,
      r.answers ++ calls.map fun c => (c, .error (.leaseSpent version))⟩ := by
  induction calls generalizing r with
  | nil =>
    rw [List.map_nil, List.append_nil]
    rfl
  | cons c calls ih =>
    have hnext := Course.next_of_spent hrefs c
    rw [h.version] at hnext
    have hspent : (r.next c).lease.refs = 0 := by
      rw [hnext]
      exact hrefs
    change (r.next c).run calls = _
    rw [ih (h.next c) hspent, hnext, List.map_cons, List.append_assoc]
    rfl

end Kept

/-- Every call has its answer, in order. -/
theorem fst_answers_run (r : Course σ) (calls : List Call) :
    (r.run calls).answers.map Prod.fst = r.answers.map Prod.fst ++ calls := by
  induction calls generalizing r with
  | nil => exact (List.append_nil _).symm
  | cons c calls ih =>
    change ((r.next c).run calls).answers.map Prod.fst = _
    rw [ih, next, List.map_append, List.append_assoc]
    rfl

/-- A lease goes back once and for good. After any calls on a new lease, and so at every moment of
any sequence of them, its count is one and the holds that were taken less those given back, it is
marked as released exactly when the count is zero, and the store was told of its version once if
it is and not at all otherwise. While the count is not zero every call has succeeded, and the next
one will. From the first moment that it is, every call is refused because the lease is closed, and
moves neither the lease nor the store. -/
theorem goes_back_once_for_good (version : Nat) (store : Journaled σ) (calls : List Call) :
    let now := (start version store).run calls
    now.answers.map Prod.fst = calls ∧
      now.lease.refs + now.succeeded .giveBack = 1 + now.succeeded .take ∧
      (now.lease.released = true ↔ now.lease.refs = 0) ∧
      now.store.calls =
        store.calls ++ (if now.lease.released then [.release version] else []) ∧
      (now.lease.refs ≠ 0 → (∀ answer ∈ now.answers, answer.2 = .ok ()) ∧
        ∀ c, (now.next c).answers = now.answers ++ [(c, .ok ())]) ∧
      (now.lease.refs = 0 → (Error.leaseSpent version).isClosed = true ∧
        ∀ more, now.run more = ⟨now.lease, now.store,
          now.answers ++ more.map fun c => (c, .error (.leaseSpent version))⟩) := by
  intro now
  have hkept : Kept version store now := (Kept.start version store).run calls
  have hreleased : now.lease.released = true ↔ now.lease.refs = 0 := by
    rw [hkept.consistent, decide_eq_true_iff]
  exact ⟨fst_answers_run _ calls, hkept.balance, hreleased, hkept.calls,
    fun hrefs => ⟨hkept.answered hrefs, fun c => (hkept.answered_next hrefs c).1⟩,
    fun hrefs => ⟨rfl, hkept.run_of_spent hrefs⟩⟩

/-- A hold that was taken and given back leaves the lease held; the next one to be given back is
the last, the store is told, and nobody joins or leaves any more. -/
theorem goes_back_once_for_good_of_return :
    let store : Journaled SegmentList := { inner := .ofSizes [1] }
    let held := (start 7 store).run [.take, .giveBack]
    let spent := (start 7 store).run [.take, .giveBack, .giveBack]
    held.lease.refs = 1 ∧ held.store.calls = [] ∧
      (held.next .take).answers = held.answers ++ [(.take, .ok ())] ∧
      spent.lease.refs = 0 ∧ spent.store.calls = [.release 7] ∧
      (spent.run [.take, .giveBack]).store.calls = [.release 7] ∧
      (spent.run [.take, .giveBack]).lease.refs = 0 := by
  intro store held spent
  obtain ⟨-, -, -, hcalls, hheld, -⟩ :=
    goes_back_once_for_good 7 store [.take, .giveBack]
  obtain ⟨-, -, -, hcalls', -, hspent⟩ :=
    goes_back_once_for_good 7 store [.take, .giveBack, .giveBack]
  have hone : held.lease.refs = 1 := rfl
  have hzero : spent.lease.refs = 0 := rfl
  have hnext := (hheld (by rw [show held.lease.refs = 1 from hone]; decide)).2 .take
  have hmore := (hspent hzero).2 [.take, .giveBack]
  refine ⟨hone, hcalls, hnext, hzero, hcalls', ?_, ?_⟩
  · rw [show spent.run [.take, .giveBack] = _ from hmore]
    exact hcalls'
  · rw [show spent.run [.take, .giveBack] = _ from hmore]
    exact hzero

end Course

end Lease

end SegmentedView
