import SegmentedView.Proofs.Store.Journal
import SegmentedView.Proofs.View.Refusals
import SegmentedView.Store.SegmentList

/-!
# What an opening comes to

An opening, whether it opens the store anew or refreshes a view whose generation is no longer
the store's, ends in one of four ways (`Verdict`): with the kind of the store, with the error
of its enumeration, with the reason for which the generation is refused, or with a new view.
`opening_ends_in_verdict` says that the earliest of these that applies decides the answer, and
with it what the store is called for: a generation that is refused goes back at once, and no
other does.
-/

set_option autoImplicit false

namespace SegmentedView

variable {σ P : Type}

namespace System

/-- The same system over its store with an empty journal. -/
def journaled (s : System σ P) : System (Journaled σ) P := s.over ⟨s.store, []⟩

variable [SegmentStore σ]

/-- What a step calls the store for. -/
def callsOf (s : System σ P) (st : Step σ P) : List StoreCall :=
  (s.journaled.step st.journaled).system.store.calls

/-- What an opening answers and what it calls the store for, by the first thing that stands
in its way. -/
inductive Verdict (s : System σ P) (prior : List (Snapshot P)) (d : Decorator P)
    (config : Config) : Except Error Answer → List StoreCall → Prop
  | wrongKind (hkind : SegmentStore.kind s.store ≠ .composite) :
    Verdict s prior d config (.error (.storeNotComposite (SegmentStore.kind s.store))) []
  | unread (e : Error) (hkind : SegmentStore.kind s.store = .composite)
    (he : (SegmentStore.enumerate s.store).1 = .error e) :
    Verdict s prior d config (.error e) [.enumerate none]
  | refused (g : Generation) (e : Error) (hkind : SegmentStore.kind s.store = .composite)
    (hg : (SegmentStore.enumerate s.store).1 = .ok g) (he : g.Refuses prior d config e) :
    Verdict s prior d config (.error e) [.enumerate (some g.version), .release g.version]
  | made (g : Generation) (hkind : SegmentStore.kind s.store = .composite)
    (hg : (SegmentStore.enumerate s.store).1 = .ok g)
    (hfits : ∀ e, ¬ g.Refuses prior d config e) :
    Verdict s prior d config (.ok (.made s.views.length)) [.enumerate (some g.version)]

variable {s : System σ P} {st : Step σ P} {prior : List (Snapshot P)} {d : Decorator P}
  {config : Config}

/-- A step that opens the store opens it with a journal, too. -/
theorem Opens.journaled (ho : s.Opens st prior d config) :
    s.journaled.Opens st.journaled prior d config := by
  cases ho with
  | anew d config => exact .anew d config
  | refreshed slot nanos v hv hopen hchanged =>
    exact .refreshed slot nanos v hv hopen hchanged

/-- One of the four verdicts applies. -/
theorem verdict_step (ho : s.Opens st prior d config) :
    s.Verdict prior d config (s.step st).result (s.callsOf st) := by
  have hresult : (s.step st).result = (s.journaled.step st.journaled).result :=
    congrArg Outcome.result (s.journaled.forget_step st).symm
  obtain ⟨hopened, hsystem⟩ := step_of_opens ho.journaled
  unfold callsOf
  rw [hresult, hopened, hsystem]
  have hend := s.journaled.opening_openGeneration prior d config
  generalize s.journaled.openGeneration prior d config = o at hend ⊢
  cases hend with
  | refused e hk =>
    obtain ⟨hkind, rfl⟩ := checkComposite_eq_error_iff.1 hk
    exact .wrongKind hkind
  | unread e hk he =>
    change s.Verdict prior d config (.error e) (SegmentStore.enumerate s.journaled.store).2.calls
    rw [Journaled.calls_enumerate he]
    exact .unread e (checkComposite_eq_ok_iff.1 hk) he
  | givenBack g e hk hg ha =>
    change s.Verdict prior d config (.error e)
      ((SegmentStore.enumerate s.journaled.store).2.calls ++ [.release g.version])
    rw [Journaled.calls_enumerate hg]
    exact .refused g e (checkComposite_eq_ok_iff.1 hk) hg
      (Generation.assemble_eq_error_iff.1 ha)
  | opened g a hk hg ha =>
    change s.Verdict prior d config (.ok (.made s.views.length))
      (SegmentStore.enumerate s.journaled.store).2.calls
    rw [Journaled.calls_enumerate hg]
    refine .made g (checkComposite_eq_ok_iff.1 hk) hg fun e he => ?_
    rw [Generation.assemble_eq_error_iff.2 he] at ha
    cases ha

/-- No two verdicts apply. -/
theorem Verdict.unique {r r' : Except Error Answer} {calls calls' : List StoreCall}
    (h : s.Verdict prior d config r calls) (h' : s.Verdict prior d config r' calls') :
    r = r' ∧ calls = calls' := by
  have hshown : ∀ {x y : Except Error Generation}, (SegmentStore.enumerate s.store).1 = x →
      (SegmentStore.enumerate s.store).1 = y → x = y := fun hx hy => hx.symm.trans hy
  cases h with
  | wrongKind hkind =>
    cases h' with
    | wrongKind => exact ⟨rfl, rfl⟩
    | unread _ hkind' => exact absurd hkind' hkind
    | refused _ _ hkind' => exact absurd hkind' hkind
    | made _ hkind' => exact absurd hkind' hkind
  | unread e hkind he =>
    cases h' with
    | wrongKind hkind' => exact absurd hkind hkind'
    | unread _ _ he' =>
      cases hshown he he'
      exact ⟨rfl, rfl⟩
    | refused _ _ _ hg => cases hshown he hg
    | made _ _ hg => cases hshown he hg
  | refused g e hkind hg he =>
    cases h' with
    | wrongKind hkind' => exact absurd hkind hkind'
    | unread _ _ he' => cases hshown hg he'
    | refused _ e' _ hg' he' =>
      cases hshown hg hg'
      cases he.unique he'
      exact ⟨rfl, rfl⟩
    | made _ _ hg' hfits =>
      cases hshown hg hg'
      exact absurd he (hfits e)
  | made g hkind hg hfits =>
    cases h' with
    | wrongKind hkind' => exact absurd hkind hkind'
    | unread _ _ he' => cases hshown hg he'
    | refused _ e' _ hg' he' =>
      cases hshown hg hg'
      exact absurd he' (hfits e')
    | made _ _ hg' =>
      cases hshown hg hg'
      exact ⟨rfl, rfl⟩

/-- Exactly when an opening fails, with which error and what it gives back, over any store
and with any decorator and configuration, be it an opening anew or the reopen of a view that
is not closed over a store that has changed. A store of another kind is refused unread, as an
invalid state. The error of an enumeration is passed on. A generation is refused for the first
of its leaves that is no segment (an invalid state) or that the decorator fails on, whose error
is passed on, whatever comes after it; or, if there is none, because its documents are more
than a word can count (an invalid argument); or because they are not as many as the store
reports while that is asked for (an invalid state). A generation that is refused goes back to
the store once, under its version, and nothing else does. -/
theorem opening_ends_in_verdict (ho : s.Opens st prior d config) (r : Except Error Answer)
    (calls : List StoreCall) :
    ((s.step st).result = r ∧ s.callsOf st = calls) ↔ s.Verdict prior d config r calls := by
  constructor
  · rintro ⟨rfl, rfl⟩
    exact verdict_step ho
  · intro h
    exact (verdict_step ho).unique h

/-- A refreshed view over segments that are all known, of which the decorator fails on the
second one: that a leaf after it is no segment, and that the store reports another total,
does not show. -/
theorem opening_ends_in_verdict_of_stuck :
    let s := ({ store := .ofSizes [1, 2] } : System SegmentList String).run
      [.openView (.labelHistories [] ["_1"]) {},
        .changeStore fun store => (store.addForeign "nested").report (some 9)]
    ∃ prior d config, s.Opens (.reopen 0 0) prior d config ∧
      s.Verdict prior d config (.error (.reported .other "cannot redecorate _1"))
        [.enumerate (some 3), .release 3] := by
  intro s
  obtain ⟨v, hv⟩ : ∃ v, s.view? 0 = some v := Option.isSome_iff_exists.1 (by decide +kernel)
  have hview : (s.view? 0).map (fun v =>
      (s.isClosed v, SegmentStore.hasChangedSince s.store (s.version v))) =
        some (false, true) := by decide +kernel
  rw [hv] at hview
  obtain ⟨hopen, hchanged⟩ := Prod.mk.inj (Option.some.inj hview)
  have hopens : s.Opens (.reopen 0 0) v.segments v.decorator v.config :=
    .refreshed 0 0 v hv hopen hchanged
  have hresult : (s.step (.reopen 0 0)).result =
      .error (.reported .other "cannot redecorate _1") := by decide +kernel
  have hcalls : s.callsOf (.reopen 0 0) = [.enumerate (some 3), .release 3] := by
    decide +kernel
  exact ⟨v.segments, v.decorator, v.config, hopens,
    (opening_ends_in_verdict hopens _ _).1 ⟨hresult, hcalls⟩⟩

end System

end SegmentedView
