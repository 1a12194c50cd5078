import SegmentedView.Proofs.Leases.Spent
import SegmentedView.Proofs.System.Isolation
import SegmentedView.Proofs.System.Verdicts

/-!
# Closed views

A view is closed by itself or by its lease, and either way for good (`ClosedAt.run`): the mark
of the view is never taken off, a generation that went back is not fetched again, and the
number of a view is not given out a second time. Whatever needs an open view finds out in one
place, so all of it fails with one error and does nothing (`step_of_closed`); and a view that
is open is of a lease that can be taken, so nothing fails for being closed that is not
(`closing_is_final`).
-/

set_option autoImplicit false

namespace SegmentedView

variable {σ P : Type}

/-- Whether a step needs the view of a number to be open. -/
def Step.needsOpen (k : Nat) : Step σ P → Bool
  | .reopen slot _ => slot == k
  | .copy slot => slot == k
  | .incRef slot => slot == k
  | .markIds slot _ => slot == k
  | .markAt slot _ => slot == k
  | .commit slot => slot == k
  | _ => false

/-- A closed view is not opened by a step. -/
theorem Evolves.stays_closed {st : Step σ P} {k : Nat} {v w : View P} (h : Evolves st k v w)
    (hclosed : v.closed = true) : w.closed = true := by
  cases h with
  | closed => rfl
  | _ => exact hclosed

namespace System

/-- A closed view is not found, and the error says why it is closed. -/
theorem findOpenView_of_isClosed {s : System σ P} {k : Nat} {v : View P}
    (hv : s.view? k = some v) (hclosed : s.isClosed v = true) :
    ∃ e : Error, e.isClosed = true ∧ s.findOpenView k = .error e := by
  cases hown : v.closed with
  | true =>
    refine ⟨.viewClosed, rfl, ?_⟩
    unfold findOpenView checkOpen
    rw [hv]
    simp [hown]
  | false =>
    have hreleased : (s.lease v.lease).released = true := by
      unfold isClosed at hclosed
      rw [hown] at hclosed
      exact hclosed
    exact ⟨.generationReleased (s.version v), rfl, findOpenView_of_closed hv hown hreleased⟩

variable [SegmentStore σ]

/-! ## Closed for good -/

/-- A step gives out a number or none, and takes none back. -/
theorem length_views_step (s : System σ P) (st : Step σ P) :
    s.views.length ≤ (s.step st).system.views.length := by
  have hmoves := s.transition_step st
  generalize (s.step st).result = r at hmoves
  generalize (s.step st).system = t at hmoves ⊢
  cases hmoves with
  | opened g a ho hk hg ha => exact List.length_append ▸ Nat.le_add_right _ _
  | copied slot v hv hopen hrefs => exact List.length_append ▸ Nat.le_add_right _ _
  | closed slot v hv hopen => exact List.length_set.ge
  | dropped slot v hv hclosed => exact List.length_set.ge
  | droppedOpen slot v hv hopen => exact List.length_set.ge
  | edited answer hv he hlease hclosed => exact List.length_set.ge
  | installed slot v position hv => exact List.length_set.ge
  | _ => exact le_rfl

/-- A number that was given out holds a closed view, if it still holds one. -/
def ClosedAt (s : System σ P) (k : Nat) : Prop :=
  k < s.views.length ∧ ∀ v, s.view? k = some v → s.isClosed v = true

/-- One step leaves a closed view closed, if it leaves it at all. -/
theorem ClosedAt.step {s : System σ P} (hs : s.Reachable) {k : Nat} (h : s.ClosedAt k)
    (st : Step σ P) : (s.step st).system.ClosedAt k := by
  obtain ⟨hlt, hclosed⟩ := h
  refine ⟨hlt.trans_le (s.length_views_step st), fun w hw => ?_⟩
  cases arises_step hw with
  | evolved v w hv he =>
    have hlater := (s.lease_step st (hs.lease_lt hv)).later
    rw [← he.sameOpening.lease] at hlater
    apply Bool.or_eq_true_iff.2
    rcases Bool.or_eq_true_iff.1 (hclosed v hv) with hown | hreleased
    · exact .inl (he.stays_closed hown)
    · rw [← he.sameOpening.lease] at hreleased
      exact .inr (hlater.released hreleased)
  -- A new view gets a number past all that were given out.
  | opened g a ho hk hg ha hslot => omega
  | copied slot v hst hv hopen hslot => omega

/-- And so does a run. -/
theorem ClosedAt.run {s : System σ P} (hs : s.Reachable) {k : Nat} (h : s.ClosedAt k)
    (steps : List (Step σ P)) : (s.run steps).ClosedAt k := by
  induction steps generalizing s with
  | nil => exact h
  | cons st steps ih => exact ih (hs.step st) (h.step hs st)

/-! ## What needs an open view -/

omit [SegmentStore σ] in
/-- A change of a view that is not found open fails and does nothing. -/
theorem changeOpenView_of_error {α : Type} {s : System σ P} {k : Nat} {e : Error}
    (h : s.findOpenView k = .error e) (change : View P → View P × α) :
    s.changeOpenView k change = s.fail e := by
  unfold changeOpenView
  rw [h]

/-- Where the view is not found as an open one, a step that needs it fails with the reason
and does nothing. -/
theorem step_of_closed {s : System σ P} {k : Nat} {e : Error}
    (h : s.findOpenView k = .error e) {st : Step σ P} (hst : st.needsOpen k = true) :
    s.step st = s.fail e := by
  cases st with
  | reopen slot nanos =>
    obtain rfl := eq_of_beq hst
    change (s.reopen slot nanos).map Reopened.toAnswer = _
    unfold reopen
    rw [h]
    rfl
  | copy slot =>
    obtain rfl := eq_of_beq hst
    change (s.copy slot).map Answer.made = _
    unfold copy
    rw [h]
    rfl
  | incRef slot =>
    obtain rfl := eq_of_beq hst
    change (s.incRef slot).map (fun _ => Answer.done) = _
    unfold incRef
    rw [h]
    rfl
  | markIds slot ids =>
    obtain rfl := eq_of_beq hst
    exact congrArg (Outcome.map Answer.count) (changeOpenView_of_error h (·.markIds ids))
  | markAt slot positions =>
    obtain rfl := eq_of_beq hst
    exact congrArg (Outcome.map Answer.count) (changeOpenView_of_error h (·.markAt positions))
  | commit slot =>
    obtain rfl := eq_of_beq hst
    exact congrArg (Outcome.map fun _ => Answer.done)
      (changeOpenView_of_error h fun v => (v.commit, ()))
  | _ => cases hst

/-- The lease of an open view can be taken. -/
theorem takeLease_of_open {s : System σ P} (hs : s.Reachable) {v : View P}
    (hopen : s.isClosed v = false) :
    s.takeLease v.lease = (s.setLease v.lease
      { s.lease v.lease with refs := (s.lease v.lease).refs + 1 }).done () := by
  unfold takeLease Lease.take
  rw [if_neg (hs.refs_ne_zero hopen)]

/-- An extra hold on an open view is taken. -/
theorem incRef_of_open {s : System σ P} (hs : s.Reachable) {k : Nat} {v : View P}
    (hv : s.view? k = some v) (hopen : s.isClosed v = false) :
    (s.step (.incRef k)).result = .ok .done := by
  change (s.incRef k).result.map (fun _ => Answer.done) = _
  unfold incRef
  rw [findOpenView_eq_ok_iff.2 ⟨hv, hopen⟩]
  dsimp only
  rw [takeLease_of_open hs hopen]
  rfl

/-- A copy of an open view is made. -/
theorem copy_of_open {s : System σ P} (hs : s.Reachable) {k : Nat} {v : View P}
    (hv : s.view? k = some v) (hopen : s.isClosed v = false) :
    s.copy k = ((s.setLease v.lease
      { s.lease v.lease with refs := (s.lease v.lease).refs + 1 }).addView v.copy).done
        s.views.length := by
  unfold copy
  rw [findOpenView_eq_ok_iff.2 ⟨hv, hopen⟩]
  dsimp only
  rw [takeLease_of_open hs hopen]
  rfl

/-- A copy of an open view answers the number that is given out next. -/
theorem result_copy_of_open {s : System σ P} (hs : s.Reachable) {k : Nat} {v : View P}
    (hv : s.view? k = some v) (hopen : s.isClosed v = false) :
    (s.step (.copy k)).result = .ok (.made s.views.length) := by
  change (s.copy k).result.map Answer.made = _
  rw [copy_of_open hs hv hopen]
  rfl

/-- The errors of the store, and of the decorator and the segments of a view, do not say
that something is closed. -/
structure NoneClosed (s : System σ P) (v : View P) : Prop where
  enumerate : ∀ e, (SegmentStore.enumerate s.store).1 = .error e → e.isClosed = false
  decorate : ∀ x e, v.decorator.decorate x = .error e → e.isClosed = false
  redecorate : ∀ p x e, v.decorator.redecorate p x = .error e → e.isClosed = false
  storedValue : ∀ x ∈ v.segments, ∀ id e, x.segment.storedValue id = .error e →
    e.isClosed = false

namespace NoneClosed

variable {s : System σ P} {v : View P} {e : Error}

/-- Reading a stored value does not say that something is closed. -/
theorem of_storedValue (h : s.NoneClosed v) {id : Nat} (he : v.storedValue id = .error e) :
    e.isClosed = false := by
  unfold View.storedValue at he
  split at he
  · cases he
  · split at he
    · cases he
    · exact h.storedValue _ (View.mem_of_documentAt? ‹_›) id e he

/-- A generation that cannot be made into a view does not say that something is closed. -/
theorem of_refuses (h : s.NoneClosed v) {g : Generation}
    (he : g.Refuses v.segments v.decorator v.config e) : e.isClosed = false := by
  cases he with
  | leaf before leaf after _ hsplit hbefore hleaf =>
    cases hleaf with
    | foreign kind => rfl
    | undecorated x _ hnew he => exact h.decorate x e he
    | stuck x previous _ hknown he => exact h.redecorate _ x e he
  | overflow => rfl
  | mismatch => rfl

/-- The reopen of an open view does not fail for being closed. -/
theorem of_reopen (h : s.NoneClosed v) {k : Nat} (hv : s.view? k = some v)
    (hopen : s.isClosed v = false) {nanos : Nat}
    (he : (s.step (.reopen k nanos)).result = .error e) : e.isClosed = false := by
  cases hchanged : SegmentStore.hasChangedSince s.store (s.version v) with
  | true =>
    have hverdict := verdict_step (.refreshed k nanos v hv hopen hchanged)
    rw [he] at hverdict
    generalize s.callsOf (.reopen k nanos) = calls at hverdict
    cases hverdict with
    | wrongKind hkind => rfl
    | unread _ hkind hread => exact h.enumerate e hread
    | refused g _ hkind hread hrefuses => exact h.of_refuses hrefuses
  | false =>
    change (s.reopen k nanos).result.map Reopened.toAnswer = _ at he
    cases hk : checkComposite s.store with
    | error e' =>
      rw [reopen_of_wrong_kind hv hopen hk] at he
      cases he
      rw [(checkComposite_eq_error_iff.1 hk).2]
      rfl
    | ok u =>
      rcases reopen_of_open hv hopen hk nanos with ⟨-, hresult, -⟩ | ⟨hchanged', -⟩
      · rw [hresult] at he
        cases he
      · rw [hchanged] at hchanged'
        cases hchanged'

/-- Nothing that needs an open view fails on one for being closed. -/
theorem of_step (h : s.NoneClosed v) (hs : s.Reachable) {k : Nat} (hv : s.view? k = some v)
    (hopen : s.isClosed v = false) {st : Step σ P} (hst : st.needsOpen k = true)
    (he : (s.step st).result = .error e) : e.isClosed = false := by
  cases st with
  | reopen slot nanos =>
    obtain rfl := eq_of_beq hst
    exact h.of_reopen hv hopen he
  | copy slot =>
    obtain rfl := eq_of_beq hst
    rw [result_copy_of_open hs hv hopen] at he
    cases he
  | incRef slot =>
    obtain rfl := eq_of_beq hst
    rw [incRef_of_open hs hv hopen] at he
    cases he
  | markIds slot ids =>
    obtain rfl := eq_of_beq hst
    change ((s.changeOpenView slot (·.markIds ids)).map Answer.count).result = _ at he
    rw [changeOpenView_of_open hv hopen] at he
    cases he
  | markAt slot positions =>
    obtain rfl := eq_of_beq hst
    change ((s.changeOpenView slot (·.markAt positions)).map Answer.count).result = _ at he
    rw [changeOpenView_of_open hv hopen] at he
    cases he
  | commit slot =>
    obtain rfl := eq_of_beq hst
    change ((s.changeOpenView slot fun v => (v.commit, ())).map fun _ => Answer.done).result =
      _ at he
    rw [changeOpenView_of_open hv hopen] at he
    cases he
  | _ => cases hst

end NoneClosed

/-- Closing is final and uniform, in every reachable system, whoever closed the view or gave
a hold of its generation back. A view that is closed stays so as long as it is there, its
look-ups all end with one error, which says that it is closed, and whatever else needs it
open ends with that error too and does nothing. On a view that is not closed look-ups of ids
and deletes, holds and copies succeed, and nothing fails for being closed unless the store,
the decorator or a segment says so. -/
theorem closing_is_final {s : System σ P} (hs : s.Reachable) {k : Nat} {v : View P}
    (hv : s.view? k = some v) :
    (s.isClosed v = true →
      (∀ steps w, (s.run steps).view? k = some w → (s.run steps).isClosed w = true) ∧
      ∃ e : Error, e.isClosed = true ∧
        (∀ p, s.stableIdAt k p = .error e ∧ s.isDeleted k p = .error e) ∧
        (∀ id, s.storedValue k id = .error e) ∧
        ∀ st : Step σ P, st.needsOpen k = true → s.step st = s.fail e) ∧
    (s.isClosed v = false →
      (∀ p, s.stableIdAt k p = .ok (v.stableIdAt p) ∧ s.isDeleted k p = .ok (v.isDeleted p)) ∧
      (s.step (.incRef k)).result = .ok .done ∧
      (s.step (.copy k)).result = .ok (.made s.views.length) ∧
      (s.NoneClosed v →
        (∀ id e, s.storedValue k id = .error e → e.isClosed = false) ∧
        ∀ (st : Step σ P) e, st.needsOpen k = true → (s.step st).result = .error e →
          e.isClosed = false)) := by
  constructor
  · intro hclosed
    -- The view itself may be dropped on the way, so the run lemma is about its number.
    have hat : s.ClosedAt k := by
      refine ⟨lt_length_of_view? hv, fun w hw => ?_⟩
      rw [hv] at hw
      cases hw
      exact hclosed
    obtain ⟨e, he, hfind⟩ := findOpenView_of_isClosed hv hclosed
    obtain ⟨hlookups, hstored⟩ := lookups_of_error hfind
    exact ⟨fun steps => (hat.run hs steps).2, e, he, hlookups, hstored,
      fun st hst => step_of_closed hfind hst⟩
  · intro hopen
    have hfind := findOpenView_eq_ok_iff.2 ⟨hv, hopen⟩
    refine ⟨fun p => ?_, incRef_of_open hs hv hopen, result_copy_of_open hs hv hopen, fun hown =>
      ⟨fun id e he => ?_, fun st e hst he => hown.of_step hs hv hopen hst he⟩⟩
    · unfold stableIdAt isDeleted
      rw [hfind]
      exact ⟨rfl, rfl⟩
    · unfold storedValue at he
      rw [hfind] at he
      exact hown.of_storedValue he

/-- A view and its copy, through each of which a hold is given back that was never taken:
the first leaves the view open, and the second closes it for good. -/
theorem closing_is_final_of_overreturn :
    let s := ({ store := .ofSizes [2] } : System SegmentList Segment).run
      [.openView .segments {}, .copy 0, .decRef 0]
    let t := (s.step (.decRef 1)).system
    s.Reachable ∧ t.Reachable ∧ ∃ v, v.closed = false ∧
      s.view? 0 = some v ∧ s.isClosed v = false ∧
      (s.step (.copy 0)).result = .ok (.made 2) ∧
      t.view? 0 = some v ∧ t.isClosed v = true ∧
      t.step (.copy 0) = t.fail (.generationReleased 1) ∧
      ∀ steps w, (t.run steps).view? 0 = some w → (t.run steps).isClosed w = true := by
  intro s t
  have hs : s.Reachable := ⟨_, _, rfl⟩
  have ht : t.Reachable := hs.step _
  obtain ⟨v, hv⟩ : ∃ v, s.view? 0 = some v := Option.isSome_iff_exists.1 (by decide +kernel)
  have htv : t.view? 0 = some v := view?_step_elsewhere hv rfl
  have hview : (s.view? 0).map (fun v => (v.closed, s.isClosed v, t.isClosed v)) =
      some (false, false, true) := by decide +kernel
  rw [hv] at hview
  obtain ⟨hown, hrest⟩ := Prod.mk.inj (Option.some.inj hview)
  obtain ⟨hopen, hclosed⟩ := Prod.mk.inj hrest
  obtain ⟨-, hcopied, -⟩ := ((closing_is_final hs hv).2 hopen).2
  obtain ⟨hfinal, e, -, -, -, hfails⟩ := (closing_is_final ht htv).1 hclosed
  have hcopy : t.step (.copy 0) = t.fail e := hfails _ rfl
  have hresult : (t.step (.copy 0)).result = .error (.generationReleased 1) := by
    decide +kernel
  have he : e = .generationReleased 1 := by
    rw [hcopy] at hresult
    exact Except.error.inj hresult
  exact ⟨hs, ht, v, hown, hv, hopen, hcopied, htv, hclosed, he ▸ hcopy, hfinal⟩

end System

end SegmentedView
