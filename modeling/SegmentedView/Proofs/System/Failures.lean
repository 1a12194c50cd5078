import SegmentedView.Proofs.Leases.Settlement
import SegmentedView.Proofs.Leases.Spent
import SegmentedView.Proofs.Refresh.FreshOpen
import SegmentedView.Proofs.Store.Returns
import SegmentedView.Proofs.System.DeleteRuns
import SegmentedView.Proofs.System.Isolation
import SegmentedView.Proofs.View.Refusals

/-!
# Failed steps

A step that fails leaves a system over a segment list as it was, but for two traces
(`Residue`): an opening that failed after it read the list gave the generation back, and a
view that was closed after its generation had gone is marked as closed. Neither shows in
what can be seen of the list and of the views (`observe`), and what an opening gave back does
not show in anything that happens later (`failures_leave_all`).
-/

set_option autoImplicit false

namespace SegmentedView

variable {σ P : Type}

/-! ## Runs over stores that answer alike -/

namespace System

/-- A run is alike over two stores of which no operation sees the difference, if the changes of
the stores keep it. -/
theorem alike_run [SegmentStore σ] {R : σ → σ → Prop} (hR : Unseen R)
    {steps : List (Step σ P)}
    (hsteps : ∀ st ∈ steps, ∀ f, st = .changeStore f → ∀ {a b}, R a b → R (f a) (f b))
    {s : System σ P} {store : σ} (h : R s.store store) :
    (s.over store).answers steps = s.answers steps ∧ ∃ next, R (s.run steps).store next ∧
      (s.over store).run steps = (s.run steps).over next := by
  -- Both systems move, so the stores that are related change along the run.
  induction steps generalizing s store with
  | nil => exact ⟨rfl, store, h, rfl⟩
  | cons st steps ih =>
    have halike : (s.step st).Alike R ((s.over store).step (st.over id)) :=
      alike_step hR h fun f hf => hsteps st List.mem_cons_self f hf h
    rw [st.over_id] at halike
    obtain ⟨next, hnext, hstep⟩ := halike
    have hlater := ih (fun x hx => hsteps x (List.mem_cons_of_mem st hx)) hnext
    rw [answers, answers, run, run, hstep]
    exact ⟨congrArg ((s.step st).result :: ·) hlater.1, hlater.2⟩

variable [SegmentStore σ]

/-- A step that opens the store is one that may. -/
theorem Opens.opens_eq {s : System σ P} {st : Step σ P} {prior : List (Snapshot P)}
    {d : Decorator P} {config : Config} (h : s.Opens st prior d config) : st.opens = true := by
  cases h <;> rfl

/-! ## One step -/

/-- What a failed step can leave behind. -/
inductive Residue (s : System SegmentList P) (st : Step SegmentList P) :
    System SegmentList P → Prop
  | nothing : Residue s st s
  /-- The list took back the generation that it had shown. -/
  | givenBack (hopens : st.opens = true) (hkind : s.store.kind = .composite) :
    Residue s st (s.over (s.store.withReleases (s.store.releases ++ [s.store.version])))
  /-- A view whose generation had gone is marked as closed. -/
  | marked (k : Nat) (v : View P) (hst : st = .close k) (hv : s.view? k = some v)
    (hopen : v.closed = false) (hreleased : (s.lease v.lease).released = true) :
    Residue s st (s.setView k { v with closed := true })

/-- A step that fails leaves no more than its residue. -/
theorem residue_step {s : System SegmentList P} (hs : s.Reachable)
    {st : Step SegmentList P} {e : Error} (h : (s.step st).result = .error e) :
    s.Residue st (s.step st).system := by
  have hmoves := s.transition_step st
  generalize hr : (s.step st).result = r at h hmoves
  generalize (s.step st).system = t at hmoves ⊢
  cases hmoves with
  | failed e => exact .nothing
  | unread e ho hk he => cases he
  | handedBack g e ho hk hg ha =>
    cases hg
    exact .givenBack ho.opens_eq (checkComposite_eq_ok_iff.1 hk)
  | returned slot v hv =>
    have hrefs := refs_of_giveBackLease_eq_error (map_eq_error_iff.1 h)
    rw [system_giveBackLease_of_spent hrefs]
    exact .nothing
  | closed slot v hv hopen =>
    have hrefs := refs_of_giveBackLease_eq_error (map_eq_error_iff.1 h)
    rw [system_giveBackLease_of_spent hrefs]
    refine .marked slot v rfl hv hopen ?_
    rw [hs.consistent]
    exact decide_eq_true hrefs
  | _ => cases h

/-- What can be seen of a view: its segments with their deletes, its boundaries, its mapper,
and of its generation the version, the number of holders and whether it is closed. -/
def observe (s : System σ P) (v : View P) :
    List (Snapshot P) × Boundaries × Option IdMapper × Nat × Nat × Bool :=
  (v.segments, v.boundaries, v.mapper, s.version v, s.refCount v, s.isClosed v)

namespace Residue

variable {s t : System SegmentList P} {st : Step SegmentList P}

/-- A residue is not seen in the generation that the store shows. -/
theorem generation (h : s.Residue st t) : t.store.generation = s.store.generation := by
  cases h <;> rfl

/-- A residue is not seen in any view. -/
theorem observe (h : s.Residue st t) (k : Nat) :
    (t.view? k).map t.observe = (s.view? k).map s.observe := by
  cases h with
  | nothing => rfl
  | givenBack hopens hkind => rfl
  | marked slot v hst hv hopen hreleased =>
    by_cases hk : k = slot
    · subst hk
      rw [view?_setView_self hv, hv]
      have hclosed : s.isClosed v = true := by
        unfold isClosed
        rw [hreleased, Bool.or_true]
      simp only [Option.map_some, System.observe, hclosed]
      rfl
    · rw [view?_setView_of_ne hk]
      rfl

/-- What is left of a step that was no close does not show later on. -/
theorem later (h : s.Residue st t) (hst : ∀ k, st ≠ .close k) :
    (∀ k, t.findOpenView k = s.findOpenView k) ∧ ∃ extra,
      (extra = [] ∨ extra = [s.store.version]) ∧
      t.store.releases = s.store.releases ++ extra ∧
      ∀ steps, (∀ x ∈ steps, x.Mutates) → t.answers steps = s.answers steps ∧ ∃ store,
        SegmentList.Released extra (s.run steps).store store ∧
          t.run steps = (s.run steps).over store := by
  have hruns : ∀ {extra steps}, (∀ x ∈ steps, x.Mutates) →
      let t := s.over (s.store.withReleases (s.store.releases ++ extra))
      t.answers steps = s.answers steps ∧ ∃ store,
        SegmentList.Released extra (s.run steps).store store ∧
          t.run steps = (s.run steps).over store := by
    intro extra steps hmutates
    refine alike_run (SegmentList.unseen_released extra) (fun x hx f hf a b hab => ?_)
      (SegmentList.released_end extra)
    subst hf
    obtain ⟨c, hc⟩ := hmutates _ hx
    rw [hc, hc]
    exact hab.change c
  cases h with
  | nothing =>
    refine ⟨fun k => rfl, [], .inl rfl, (List.append_nil _).symm, fun steps hmutates => ?_⟩
    have hsame := @hruns [] steps hmutates
    rw [List.append_nil] at hsame
    exact hsame
  | givenBack hopens hkind =>
    exact ⟨fun k => rfl, [s.store.version], .inr rfl, rfl, fun steps => hruns⟩
  | marked k v hk => exact absurd hk (hst k)

end Residue

/-- A view that was to be closed is marked, whatever came of it. -/
theorem closed_of_close {s : System σ P} {k : Nat} {v : View P} (hv : s.view? k = some v) :
    ∃ w, (s.step (.close k)).system.view? k = some w ∧ w.closed = true := by
  change ∃ w, (s.close k).system.view? k = some w ∧ w.closed = true
  unfold close
  rw [findView_eq_ok_iff.2 hv]
  dsimp only
  split
  case isTrue hclosed => exact ⟨v, hv, hclosed⟩
  case isFalse =>
    refine ⟨{ v with closed := true }, ?_, rfl⟩
    rw [view?_congr (views_giveBackLease _ _)]
    exact view?_setView_self hv

/-- Nothing is given back for a view that is marked as closed. -/
theorem step_of_marked {s : System σ P} {k : Nat} {v : View P} (hv : s.view? k = some v)
    (hclosed : v.closed = true) : s.step (.close k) = s.done .done ∧
      s.step (.drop k) = (s.removeView k).done .done := by
  change (s.close k).map (fun _ => Answer.done) = _ ∧
    (s.drop k).map (fun _ => Answer.done) = _
  unfold close drop
  rw [findView_eq_ok_iff.2 hv]
  dsimp only
  rw [if_pos hclosed, if_pos hclosed]
  exact ⟨rfl, rfl⟩

/-- Failed operations leave a system over a segment list as it was. A change of the list that
fails changes nothing. Whatever step fails, in any reachable system: the list shows the same
generation, every view looks the same, and what is left of the step is at most that the list
took back the generation it had shown to an opening, or that a view whose generation had gone
is marked as closed. After a close, failed or not, another close and the drop of the view
give nothing back. After any other failed step all look-ups answer as before, and whatever
happens later, changes of the list included, happens as if the step had not been: the
answers, the views, the leases and the list are the same, but for one release at most. -/
theorem failures_leave_all {s : System SegmentList P} (hs : s.Reachable) :
    (∀ c e, (s.store.change c).2 = .failed e → (s.store.change c).1 = s.store) ∧
    ∀ (st : Step SegmentList P) e, (s.step st).result = .error e →
      let t := (s.step st).system
      s.Residue st t ∧ t.store.generation = s.store.generation ∧
      (∀ k, (t.view? k).map t.observe = (s.view? k).map s.observe) ∧
      (∀ k v, st = .close k → s.view? k = some v → t.step (.close k) = t.done .done ∧
        t.step (.drop k) = (t.removeView k).done .done) ∧
      ((∀ k, st ≠ .close k) →
        (∀ k, (∀ p, t.stableIdAt k p = s.stableIdAt k p ∧ t.isDeleted k p = s.isDeleted k p) ∧
          ∀ id, t.storedValue k id = s.storedValue k id) ∧
        ∃ extra, (extra = [] ∨ extra = [s.store.version]) ∧
          t.store.releases = s.store.releases ++ extra ∧
          ∀ steps, (∀ x ∈ steps, x.Mutates) → t.answers steps = s.answers steps ∧ ∃ store,
            SegmentList.Released extra (s.run steps).store store ∧
              t.run steps = (s.run steps).over store) := by
  refine ⟨fun c e => s.store.change_of_failed, fun st e he => ?_⟩
  have hresidue := residue_step hs he
  refine ⟨hresidue, hresidue.generation, hresidue.observe, fun k v hst hv => ?_, fun hst => ?_⟩
  · subst hst
    obtain ⟨w, hw, hclosed⟩ := closed_of_close hv
    exact step_of_marked hw hclosed
  · obtain ⟨hfind, hlater⟩ := hresidue.later hst
    exact ⟨fun k => lookups_congr (hfind k), hlater⟩

/-- A reopen that fails because the list reports another total gives back version 2. When
the list has been corrected, a reopen of the same view answers as if there had been no other,
with the deletes that the view had staged. -/
theorem failures_leave_all_of_mismatch :
    let s := ({ store := .ofSizes [2, 1] } : System SegmentList Segment).run
      [.openView .segments {}, .markAt 0 [1],
        .changeStore fun store => (store.change (.report (some 9))).1]
    let t := (s.step (.reopen 0 0)).system
    let later : List (Step SegmentList Segment) :=
      [.changeStore fun store => (store.change (.report none)).1, .reopen 0 0, .commit 1]
    s.Reachable ∧ (s.step (.reopen 0 0)).result = .error (.docCountMismatch 3 2 9) ∧
      t.store.generation = s.store.generation ∧ t.store.releases = s.store.releases ++ [2] ∧
      t.isDeleted 0 1 = s.isDeleted 0 1 ∧ (∀ x ∈ later, x.Mutates) ∧
      t.answers later = s.answers later ∧
      s.answers later = [.ok .done, .ok (.made 1), .ok .done] ∧
      (s.run later).isDeleted 1 1 = .ok true := by
  intro s t later
  have hs : s.Reachable := ⟨_, _, rfl⟩
  have hmutates : ∀ x ∈ later, x.Mutates := by
    simp only [later, List.forall_mem_cons, Step.Mutates, List.not_mem_nil, false_imp_iff,
      implies_true, and_true]
    exact ⟨_, fun store => rfl⟩
  have hfails : (s.step (.reopen 0 0)).result = .error (.docCountMismatch 3 2 9) := by
    decide +kernel
  obtain ⟨-, hgeneration, -, -, hlater⟩ := (failures_leave_all hs).2 _ _ hfails
  obtain ⟨hlookups, extra, -, -, hruns⟩ := hlater fun k => by simp
  exact ⟨hs, hfails, hgeneration, by decide +kernel, ((hlookups 0).1 1).2, hmutates,
    (hruns later hmutates).1, by decide +kernel, by decide +kernel⟩

end System

end SegmentedView
