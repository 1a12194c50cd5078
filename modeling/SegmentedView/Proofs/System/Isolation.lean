import SegmentedView.Proofs.Leases.Generations
import SegmentedView.Store.SegmentList

/-!
# Views are isolated

A step that is not on a view itself leaves the view exactly as it is
(`view?_step_elsewhere`), and so does a run of such steps (`view?_run_elsewhere`). What the
view shares with others is its lease: its count of holders, and whether the generation went
back. So a look-up answers what it answered before, or that the generation is gone
(`findOpenView_later`).
-/

set_option autoImplicit false

namespace SegmentedView

variable {σ P : Type}

/-- Whether a step is on the view of a number itself: it changes the deletes or the mapper
of the view, or ends it. -/
def Step.isOn (k : Nat) : Step σ P → Bool
  | .markIds slot _ => slot == k
  | .markAt slot _ => slot == k
  | .commit slot => slot == k
  | .changeSegment slot _ _ => slot == k
  | .install slot _ => slot == k
  | .close slot => slot == k
  | .drop slot => slot == k
  | _ => false

/-- Only a step on a view changes it. -/
theorem Evolves.eq_of_isOn_eq_false {st : Step σ P} {k : Nat} {v w : View P}
    (h : Evolves st k v w) (hst : st.isOn k = false) : w = v := by
  cases h with
  | same => rfl
  | _ => simp [Step.isOn] at hst

namespace System

/-- A view that is there stays when one is added. -/
theorem view?_addView_of_some {s : System σ P} {k : Nat} {w : View P}
    (hw : s.view? k = some w) (v : View P) : (s.addView v).view? k = some w := by
  have hlt := lt_length_of_view? hw
  rw [view?_addView, if_neg (by omega)]
  exact hw

/-- A view stays when another one is put in its place. -/
theorem view?_setView_of_ne {s : System σ P} {slot k : Nat} (hne : k ≠ slot) (v : View P) :
    (s.setView slot v).view? k = s.view? k := by
  rw [view?_setView, if_neg]
  intro h
  exact hne h.1

/-- A view stays when another one is removed. -/
theorem view?_removeView_of_ne {s : System σ P} {slot k : Nat} (hne : k ≠ slot) :
    (s.removeView slot).view? k = s.view? k := by
  rw [view?_removeView, if_neg hne]

/-! ## Look-ups -/

/-- A view that was not closed is still refused when its generation went back. -/
theorem findOpenView_of_closed {s : System σ P} {k : Nat} {w : View P}
    (hw : s.view? k = some w) (hopen : w.closed = false)
    (hreleased : (s.lease w.lease).released = true) :
    s.findOpenView k = .error (.generationReleased (s.version w)) := by
  unfold findOpenView checkOpen
  rw [hw]
  simp [hopen, hreleased, version]

/-- Whether a view is found open is a matter of the view and of its lease. -/
theorem findOpenView_congr {s t : System σ P} {k : Nat} {w : View P}
    (hs : s.view? k = some w) (ht : t.view? k = some w)
    (hversion : t.version w = s.version w)
    (hreleased : (t.lease w.lease).released = (s.lease w.lease).released) :
    t.findOpenView k = s.findOpenView k := by
  unfold version at hversion
  unfold findOpenView checkOpen
  rw [hs, ht]
  simp only [hversion, hreleased]

/-- Later on a view is found as before, unless its generation went back in between. -/
theorem findOpenView_later {s t : System σ P} {k : Nat} {w : View P}
    (hs : s.view? k = some w) (ht : t.view? k = some w)
    (hlater : (s.lease w.lease).Later (t.lease w.lease)) :
    t.isClosed w = s.isClosed w ∧ t.findOpenView k = s.findOpenView k ∨
      s.isClosed w = false ∧ t.isClosed w = true ∧
        t.findOpenView k = .error (.generationReleased (s.version w)) := by
  have hversion : t.version w = s.version w := hlater.version
  by_cases hreleased : (t.lease w.lease).released = (s.lease w.lease).released
  · left
    refine ⟨?_, findOpenView_congr hs ht hversion hreleased⟩
    unfold isClosed
    rw [hreleased]
  · have hbefore : (s.lease w.lease).released = false := by
      apply Bool.eq_false_iff.2
      intro h
      exact hreleased ((hlater.released h).trans h.symm)
    have hafter : (t.lease w.lease).released = true := by
      rw [hbefore] at hreleased
      exact Bool.not_eq_false _ ▸ hreleased
    cases hclosed : w.closed with
    | true =>
      left
      constructor
      · simp [isClosed, hclosed]
      · unfold findOpenView checkOpen
        rw [hs, ht]
        simp [hclosed]
    | false =>
      right
      refine ⟨by simp [isClosed, hclosed, hbefore], by simp [isClosed, hafter], ?_⟩
      rw [findOpenView_of_closed ht hclosed hafter, hversion]

/-- What a view is found as decides all look-ups of its documents. -/
theorem lookups_congr {s t : System σ P} {k : Nat} (h : t.findOpenView k = s.findOpenView k) :
    (∀ p, t.stableIdAt k p = s.stableIdAt k p ∧ t.isDeleted k p = s.isDeleted k p) ∧
      ∀ id, t.storedValue k id = s.storedValue k id := by
  unfold stableIdAt isDeleted storedValue
  rw [h]
  exact ⟨fun _ => ⟨rfl, rfl⟩, fun _ => rfl⟩

/-- An open view looks up by its number what it looks up. -/
theorem lookups_of_open {s : System σ P} {k : Nat} {v : View P} (hv : s.view? k = some v)
    (hopen : s.isClosed v = false) :
    (∀ p, s.stableIdAt k p = .ok (v.stableIdAt p) ∧ s.isDeleted k p = .ok (v.isDeleted p)) ∧
      ∀ id, s.storedValue k id = v.storedValue id := by
  unfold stableIdAt isDeleted storedValue
  rw [findOpenView_eq_ok_iff.2 ⟨hv, hopen⟩]
  exact ⟨fun _ => ⟨rfl, rfl⟩, fun _ => rfl⟩

/-- A view that is not found open answers every look-up with that error. -/
theorem lookups_of_error {t : System σ P} {k : Nat} {e : Error}
    (h : t.findOpenView k = .error e) :
    (∀ p, t.stableIdAt k p = .error e ∧ t.isDeleted k p = .error e) ∧
      ∀ id, t.storedValue k id = .error e := by
  unfold stableIdAt isDeleted storedValue
  rw [h]
  exact ⟨fun _ => ⟨rfl, rfl⟩, fun _ => rfl⟩

variable [SegmentStore σ]

/-! ## Steps and runs elsewhere -/

/-- A step that is not on a view leaves it as it is. -/
theorem view?_step_elsewhere {s : System σ P} {st : Step σ P} {k : Nat} {w : View P}
    (hw : s.view? k = some w) (hst : st.isOn k = false) :
    (s.step st).system.view? k = some w := by
  have hmoves := s.transition_step st
  generalize (s.step st).result = r at hmoves
  generalize (s.step st).system = t at hmoves ⊢
  have hne : ∀ {slot : Nat}, (slot == k) = false → k ≠ slot := by
    intro slot h
    exact (ne_of_beq_false h).symm
  cases hmoves with
  | opened g a ho hk hg ha => exact view?_addView_of_some hw _
  | copied slot v hv hopen hrefs =>
    have hleases : (s.setLease v.lease { s.lease v.lease with
        refs := (s.lease v.lease).refs + 1 }).view? k = some w := hw
    exact view?_addView_of_some hleases _
  | returned slot v hv =>
    rw [view?_congr (views_giveBackLease _ _)]
    exact hw
  | closed slot v hv hopen =>
    rw [view?_congr (views_giveBackLease _ _), view?_setView_of_ne (hne hst)]
    exact hw
  | dropped slot v hv hclosed =>
    rw [view?_removeView_of_ne (hne hst)]
    exact hw
  | droppedOpen slot v hv hopen =>
    rw [view?_congr (views_giveBackLease _ _), view?_removeView_of_ne (hne hst)]
    exact hw
  | @edited _ slot v u answer hv he hlease hclosed =>
    by_cases hk : k = slot
    · subst hk
      rw [view?_setView_self hv, he.eq_of_isOn_eq_false hst, ← hv]
      exact hw
    · rw [view?_setView_of_ne hk]
      exact hw
  | installed slot v position hv =>
    rw [view?_setView_of_ne (hne hst)]
    exact hw
  | _ => exact hw

/-- Steps that are not on a view leave it as it is, and its lease too if none acts on it. -/
theorem view?_run_elsewhere {s : System σ P} {k : Nat} {w : View P}
    (hw : s.view? k = some w) (hlt : w.lease < s.leases.length) {steps : List (Step σ P)}
    (helsewhere : ∀ st ∈ steps, st.isOn k = false) :
    (s.run steps).view? k = some w ∧
      (s.lease w.lease).Later ((s.run steps).lease w.lease) ∧
      ((∀ before st after, steps = before ++ st :: after →
          (s.run before).actsOnLease w.lease st = false) →
        (s.run steps).lease w.lease = s.lease w.lease) := by
  induction steps generalizing s with
  | nil => exact ⟨hw, .refl _, fun _ => rfl⟩
  | cons st steps ih =>
    have hstep := view?_step_elsewhere hw (helsewhere st List.mem_cons_self)
    have hlease := s.lease_step st hlt
    obtain ⟨hview, hlater, hkept⟩ := ih hstep hlease.given
      fun x hx => helsewhere x (List.mem_cons_of_mem st hx)
    refine ⟨hview, hlease.later.trans hlater, fun hidle => ?_⟩
    have hfirst : s.actsOnLease w.lease st = false := hidle [] st steps rfl
    rw [← hlease.kept hfirst]
    apply hkept
    intro before x after hsplit
    apply hidle (st :: before) x after
    rw [hsplit]
    rfl

/-- A view is frozen with respect to everything done elsewhere. Steps that are neither marks
or commits on it, nor install a mapper in it, nor close or drop it, leave it the very same:
boundaries, segments and payloads, committed and staged deletes, mapper. Its version stays
too. Its count of holders and whether it is closed stay unless one of the steps acts on its
lease, and then every look-up answers as before, or the view was open, its generation went
back, and every look-up says so. -/
theorem frozen_elsewhere {s : System σ P} (hs : s.Reachable) {k : Nat} {w : View P}
    (hw : s.view? k = some w) {steps : List (Step σ P)}
    (helsewhere : ∀ st ∈ steps, st.isOn k = false) :
    let t := s.run steps
    t.view? k = some w ∧ t.version w = s.version w ∧
      ((∀ before st after, steps = before ++ st :: after →
          (s.run before).actsOnLease w.lease st = false) →
        t.refCount w = s.refCount w ∧ t.isClosed w = s.isClosed w) ∧
      (t.isClosed w = s.isClosed w ∧
          (∀ p, t.stableIdAt k p = s.stableIdAt k p ∧ t.isDeleted k p = s.isDeleted k p) ∧
          (∀ id, t.storedValue k id = s.storedValue k id) ∨
        s.isClosed w = false ∧ t.isClosed w = true ∧
          (∀ p, t.stableIdAt k p = .error (.generationReleased (s.version w)) ∧
            t.isDeleted k p = .error (.generationReleased (s.version w))) ∧
          ∀ id, t.storedValue k id = .error (.generationReleased (s.version w))) := by
  intro t
  obtain ⟨hview, hlater, hkept⟩ := view?_run_elsewhere hw (hs.lease_lt hw) helsewhere
  refine ⟨hview, hlater.version, fun hidle => ?_, ?_⟩
  · have hlease : t.lease w.lease = s.lease w.lease := hkept hidle
    unfold refCount isClosed
    rw [hlease]
    exact ⟨rfl, rfl⟩
  · rcases findOpenView_later hw hview hlater with ⟨hsame, hfind⟩ | ⟨hopen, hclosed, hfind⟩
    · exact .inl ⟨hsame, lookups_congr hfind⟩
    · exact .inr ⟨hopen, hclosed, lookups_of_error hfind⟩

/-- While its copy and its successor are marked and committed and the store changes, a view
keeps its committed and its staged deletes; when the copy gives back one hold too many, the
generation goes back, and look-ups of the view say so. -/
theorem frozen_elsewhere_until_released :
    let s := ({ store := .ofSizes [2, 2] } : System SegmentList Segment).run
      [.openView .segments {}, .markAt 0 [3], .commit 0, .markAt 0 [1]]
    let steps : List (Step SegmentList Segment) := [.copy 0,
      .changeStore fun store => (store.remove? "_0").getD store, .reopen 0 0,
      .markAt 1 [0], .commit 1, .markAt 2 [0], .commit 2, .decRef 1, .close 1]
    s.Reachable ∧ (∀ st ∈ steps, st.isOn 0 = false) ∧ ∃ w, s.view? 0 = some w ∧
      (s.run steps).view? 0 = some w ∧
      s.isDeleted 0 3 = .ok true ∧ w.isStaged 1 = true ∧ w.isStaged 0 = false ∧
      (s.run steps).isDeleted 0 3 = .error (.generationReleased 1) := by
  intro s steps
  have hs : s.Reachable := ⟨_, _, rfl⟩
  have helsewhere : ∀ st ∈ steps, st.isOn 0 = false := by decide
  obtain ⟨w, hw⟩ : ∃ w, s.view? 0 = some w := Option.isSome_iff_exists.1 (by decide +kernel)
  have hstaged : (s.view? 0).map (fun w => (w.isStaged 1, w.isStaged 0)) =
      some (true, false) := by decide +kernel
  have hversion : (s.view? 0).map s.version = some 1 := by decide +kernel
  rw [hw] at hstaged hversion
  obtain ⟨hone, hzero⟩ := Prod.mk.inj (Option.some.inj hstaged)
  obtain ⟨hview, -, -, hlookups⟩ := frozen_elsewhere hs hw helsewhere
  have hclosed : ((s.run steps).view? 0).map (fun w => (s.isClosed w, (s.run steps).isClosed w))
      = some (false, true) := by decide +kernel
  rw [hview] at hclosed
  obtain ⟨hbefore, hafter⟩ := Prod.mk.inj (Option.some.inj hclosed)
  refine ⟨hs, helsewhere, w, hw, hview, by decide +kernel, hone, hzero, ?_⟩
  rcases hlookups with ⟨hsame, -⟩ | ⟨-, -, hgone, -⟩
  · rw [hbefore, hafter] at hsame
    cases hsame
  · have hthree := (hgone 3).2
    rw [show s.version w = 1 from Option.some.inj hversion] at hthree
    exact hthree

end System

end SegmentedView
