import SegmentedView.Proofs.System.Operations

/-!
# Transitions of a system

Everything that one step can do, said once: what it answers and the system it leads to
(`Transition`, `transition_step`). What becomes of the views, the leases and the store is
read off the transition, one short case each: where a view after a step comes from
(`arises_step`), which views, leases and stores a step leaves alone (`view?_step_elsewhere`,
`lease_step`, `store_step`).
-/

set_option autoImplicit false

namespace SegmentedView

variable {σ P : Type}

/-- What a step does to the view of a number that keeps its view. -/
inductive Evolves : Step σ P → Nat → View P → View P → Prop
  | same (st : Step σ P) (k : Nat) (v : View P) : Evolves st k v v
  | closed (k : Nat) (v : View P) : Evolves (.close k) k v { v with closed := true }
  | markedIds (k : Nat) (ids : List Nat) (v : View P) :
    Evolves (.markIds k ids) k v (v.markIds ids).1
  | markedAt (k : Nat) (positions : List Nat) (v : View P) :
    Evolves (.markAt k positions) k v (v.markAt positions).1
  | committed (k : Nat) (v : View P) : Evolves (.commit k) k v v.commit
  | installed (k serial : Nat) (position : Nat → Option Nat) (v : View P) :
    Evolves (.install k position) k v { v with mapper := some ⟨serial, position⟩ }
  | segment (k i : Nat) (change : SegmentChange) (v : View P) :
    Evolves (.changeSegment k i change) k v (v.modifySegment i fun x => (x.change change).1)

namespace System

/-- Where the views are the same, so is every view. -/
theorem view?_congr {τ : Type} {s : System σ P} {t : System τ P} (h : t.views = s.views)
    (k : Nat) : t.view? k = s.view? k := by
  unfold view?
  rw [h]

/-- A view that is still there after a view was put in its place is that view, or was there
before. -/
theorem view?_of_setView {s : System σ P} {slot k : Nat} {v w : View P}
    (h : (s.setView slot v).view? k = some w) : k = slot ∧ w = v ∨ s.view? k = some w := by
  rw [view?_setView] at h
  split at h
  case isTrue hk =>
    cases h
    exact .inl ⟨hk.1, rfl⟩
  case isFalse => exact .inr h

/-- A view that is still there after one was removed is another one, and was there before. -/
theorem view?_of_removeView {s : System σ P} {slot k : Nat} {w : View P}
    (h : (s.removeView slot).view? k = some w) : k ≠ slot ∧ s.view? k = some w := by
  rw [view?_removeView] at h
  split at h
  case isTrue => cases h
  case isFalse hk => exact ⟨hk, h⟩

/-- A view that is there after one was added is that one, or was there before. -/
theorem view?_of_addView {s : System σ P} {k : Nat} {v w : View P}
    (h : (s.addView v).view? k = some w) :
    k = s.views.length ∧ w = v ∨ s.view? k = some w := by
  rw [view?_addView] at h
  split at h
  case isTrue hk =>
    cases h
    exact .inl ⟨hk, rfl⟩
  case isFalse => exact .inr h

section

variable [SegmentStore σ]

/-- What a step opens the store with: nothing to take over from, or the segments of an open
view whose generation is no longer the store's. -/
inductive Opens (s : System σ P) :
    Step σ P → List (Snapshot P) → Decorator P → Config → Prop
  | anew (d : Decorator P) (config : Config) : Opens s (.openView d config) [] d config
  | refreshed (slot nanos : Nat) (v : View P) (hv : s.view? slot = some v)
    (hopen : s.isClosed v = false)
    (hchanged : SegmentStore.hasChangedSince s.store (s.version v) = true) :
    Opens s (.reopen slot nanos) v.segments v.decorator v.config

/-- A step that opens the store does what the opening does. -/
theorem step_of_opens {s : System σ P} {st : Step σ P} {prior : List (Snapshot P)}
    {d : Decorator P} {config : Config} (ho : s.Opens st prior d config) :
    (s.step st).result =
        (s.openGeneration prior d config).result.map (fun x => Answer.made x.1) ∧
      (s.step st).system = (s.openGeneration prior d config).system := by
  cases ho with
  | anew d config =>
    refine ⟨?_, rfl⟩
    change ((s.openGeneration [] d config).result.map (·.1)).map Answer.made = _
    cases (s.openGeneration [] d config).result <;> rfl
  | refreshed slot nanos v hv hopen hchanged =>
    cases hk : checkComposite s.store with
    | error e =>
      have hrefused := reopen_of_wrong_kind hv hopen hk nanos
      have hopened : s.openGeneration v.segments v.decorator v.config = s.fail e := by
        unfold openGeneration
        rw [hk]
      change ((s.reopen slot nanos).result.map Reopened.toAnswer) = _ ∧
        (s.reopen slot nanos).system = _
      rw [hrefused, hopened]
      exact ⟨rfl, rfl⟩
    | ok u =>
      rcases reopen_of_open hv hopen hk nanos with ⟨hsame, -⟩ | ⟨-, hresult, hsystem⟩
      · rw [hchanged] at hsame
        cases hsame
      · refine ⟨?_, hsystem⟩
        change (s.reopen slot nanos).result.map Reopened.toAnswer = _
        rw [hresult]
        cases (s.openGeneration v.segments v.decorator v.config).result <;> rfl

/-- What a step answers, and the system that it leads to. -/
inductive Transition (s : System σ P) :
    Step σ P → Except Error Answer → System σ P → Prop
  | failed (st : Step σ P) (e : Error) : Transition s st (.error e) s
  | current (slot nanos : Nat) (v : View P) (hv : s.view? slot = some v)
    (hopen : s.isClosed v = false)
    (hsame : SegmentStore.hasChangedSince s.store (s.version v) = false) :
    Transition s (.reopen slot nanos) (.ok .same) s
  | closedBefore (slot : Nat) (v : View P) (hv : s.view? slot = some v)
    (hclosed : v.closed = true) : Transition s (.close slot) (.ok .done) s
  | storeChanged (change : σ → σ) :
    Transition s (.changeStore change) (.ok .done) { s with store := change s.store }
  /-- The store cannot be enumerated. -/
  | unread {st : Step σ P} {prior : List (Snapshot P)} {d : Decorator P} {config : Config}
    (e : Error) (ho : s.Opens st prior d config)
    (hk : checkComposite s.store = .ok ())
    (he : (SegmentStore.enumerate s.store).1 = .error e) :
    Transition s st (.error e) { s with store := (SegmentStore.enumerate s.store).2 }
  /-- The generation cannot be made into a view and goes back at once. -/
  | handedBack {st : Step σ P} {prior : List (Snapshot P)} {d : Decorator P}
    {config : Config} (g : Generation) (e : Error) (ho : s.Opens st prior d config)
    (hk : checkComposite s.store = .ok ())
    (hg : (SegmentStore.enumerate s.store).1 = .ok g)
    (ha : g.assemble prior d config s.leases.length = .error e) :
    Transition s st (.error e)
      { s with store := SegmentStore.release (SegmentStore.enumerate s.store).2 g.version }
  | opened {st : Step σ P} {prior : List (Snapshot P)} {d : Decorator P} {config : Config}
    (g : Generation) (a : Assembly P) (ho : s.Opens st prior d config)
    (hk : checkComposite s.store = .ok ())
    (hg : (SegmentStore.enumerate s.store).1 = .ok g)
    (ha : g.assemble prior d config s.leases.length = .ok a) :
    Transition s st (.ok (.made s.views.length))
      (({ s with store := (SegmentStore.enumerate s.store).2 }.addLease
        (Lease.new g.version)).addView (s.openedView d config a))
  | copied (slot : Nat) (v : View P) (hv : s.view? slot = some v)
    (hopen : s.isClosed v = false) (hrefs : (s.lease v.lease).refs ≠ 0) :
    Transition s (.copy slot) (.ok (.made s.views.length))
      ((s.setLease v.lease { s.lease v.lease with
        refs := (s.lease v.lease).refs + 1 }).addView v.copy)
  | held (slot : Nat) (v : View P) (hv : s.view? slot = some v)
    (hopen : s.isClosed v = false) (hrefs : (s.lease v.lease).refs ≠ 0) :
    Transition s (.incRef slot) (.ok .done)
      (s.setLease v.lease { s.lease v.lease with refs := (s.lease v.lease).refs + 1 })
  | returned (slot : Nat) (v : View P) (hv : s.view? slot = some v) :
    Transition s (.decRef slot) ((s.giveBackLease v.lease).result.map fun _ => .done)
      (s.giveBackLease v.lease).system
  | closed (slot : Nat) (v : View P) (hv : s.view? slot = some v) (hopen : v.closed = false) :
    Transition s (.close slot)
      (((s.setView slot { v with closed := true }).giveBackLease v.lease).result.map
        fun _ => .done)
      ((s.setView slot { v with closed := true }).giveBackLease v.lease).system
  | dropped (slot : Nat) (v : View P) (hv : s.view? slot = some v)
    (hclosed : v.closed = true) :
    Transition s (.drop slot) (.ok .done) (s.removeView slot)
  | droppedOpen (slot : Nat) (v : View P) (hv : s.view? slot = some v)
    (hopen : v.closed = false) :
    Transition s (.drop slot) (.ok .done) ((s.removeView slot).giveBackLease v.lease).system
  /-- The deletes of a view change. -/
  | edited {st : Step σ P} {slot : Nat} {v w : View P} (answer : Answer)
    (hv : s.view? slot = some v) (he : Evolves st slot v w) (hlease : w.lease = v.lease)
    (hclosed : w.closed = v.closed) : Transition s st (.ok answer) (s.setView slot w)
  | installed (slot : Nat) (v : View P) (position : Nat → Option Nat)
    (hv : s.view? slot = some v) :
    Transition s (.install slot position) (.ok .done)
      ({ s with mappers := s.mappers + 1 }.setView slot
        { v with mapper := some ⟨s.mappers, position⟩ })

/-- A step that opens the store is one of the transitions. -/
theorem transition_of_opens {s : System σ P} {st : Step σ P} {prior : List (Snapshot P)}
    {d : Decorator P} {config : Config} (ho : s.Opens st prior d config) :
    Transition s st (s.step st).result (s.step st).system := by
  obtain ⟨hresult, hsystem⟩ := step_of_opens ho
  rw [hresult, hsystem]
  have hend := s.opening_openGeneration prior d config
  generalize s.openGeneration prior d config = o at hend ⊢
  cases hend with
  | refused e hk => exact .failed st e
  | unread e hk he => exact .unread e ho hk he
  | givenBack g e hk hg ha => exact .handedBack g e ho hk hg ha
  | opened g a hk hg ha => exact .opened g a ho hk hg ha

/-- A reopen is one of the transitions. -/
theorem transition_reopen (s : System σ P) (slot nanos : Nat) :
    Transition s (.reopen slot nanos) ((s.reopen slot nanos).result.map Reopened.toAnswer)
      (s.reopen slot nanos).system := by
  rcases s.reopen_cases slot nanos with
    ⟨e, he⟩ | ⟨v, hv, hopen, -, ⟨hsame, hresult, hsystem⟩ | ⟨hchanged, -, -⟩⟩
  · rw [he]
    exact .failed _ e
  · rw [hresult, hsystem]
    exact .current slot nanos v hv hopen hsame
  · exact transition_of_opens (.refreshed slot nanos v hv hopen hchanged)

/-- A change of an open view is one of the transitions if it leaves lease and mark alone. -/
theorem transition_changeOpenView {α : Type} {s : System σ P} {st : Step σ P} {slot : Nat}
    (change : View P → View P × α) (toAnswer : α → Answer)
    (he : ∀ v, Evolves st slot v (change v).1)
    (hlease : ∀ v, (change v).1.lease = v.lease)
    (hclosed : ∀ v, (change v).1.closed = v.closed) :
    Transition s st ((s.changeOpenView slot change).result.map toAnswer)
      (s.changeOpenView slot change).system := by
  rcases s.changeOpenView_cases slot change with ⟨e, hfails⟩ | ⟨v, hv, -, hc⟩
  · rw [hfails]
    exact .failed st e
  · rw [hc]
    exact .edited _ hv (he v) (hlease v) (hclosed v)

/-- A close is one of the transitions. -/
theorem transition_close (s : System σ P) (slot : Nat) :
    Transition s (.close slot) ((s.close slot).result.map fun _ => .done)
      (s.close slot).system := by
  unfold close
  cases hf : s.findView slot with
  | error e => exact .failed _ e
  | ok v =>
    have hv := findView_eq_ok_iff.1 hf
    dsimp only
    split
    case isTrue hclosed => exact .closedBefore slot v hv hclosed
    case isFalse hopen => exact .closed slot v hv (Bool.eq_false_iff.2 hopen)

/-- A drop is one of the transitions. -/
theorem transition_drop (s : System σ P) (slot : Nat) :
    Transition s (.drop slot) ((s.drop slot).result.map fun _ => .done)
      (s.drop slot).system := by
  unfold drop
  cases hf : s.findView slot with
  | error e => exact .failed _ e
  | ok v =>
    have hv := findView_eq_ok_iff.1 hf
    dsimp only
    split
    case isTrue hclosed => exact .dropped slot v hv hclosed
    case isFalse hopen => exact .droppedOpen slot v hv (Bool.eq_false_iff.2 hopen)

/-- Every step makes one of these transitions. -/
theorem transition_step (s : System σ P) (st : Step σ P) :
    Transition s st (s.step st).result (s.step st).system := by
  cases st with
  | changeStore change => exact .storeChanged change
  | openView d config => exact transition_of_opens (.anew d config)
  | reopen slot nanos => exact s.transition_reopen slot nanos
  | copy slot =>
    change Transition s _ ((s.copy slot).result.map Answer.made) (s.copy slot).system
    rcases s.copy_cases slot with ⟨e, he⟩ | ⟨v, hv, hopen, hrefs, hc⟩
    · rw [he]
      exact .failed _ e
    · rw [hc]
      exact .copied slot v hv hopen hrefs
  | drop slot => exact s.transition_drop slot
  | close slot => exact s.transition_close slot
  | incRef slot =>
    change Transition s _ ((s.incRef slot).result.map fun _ => Answer.done)
      (s.incRef slot).system
    rcases s.incRef_cases slot with ⟨e, he⟩ | ⟨v, hv, hopen, hrefs, hc⟩
    · rw [he]
      exact .failed _ e
    · rw [hc]
      exact .held slot v hv hopen hrefs
  | decRef slot =>
    change Transition s _ ((s.decRef slot).result.map fun _ => Answer.done)
      (s.decRef slot).system
    rcases s.decRef_cases slot with ⟨e, -, he⟩ | ⟨v, hv, hc⟩
    · rw [he]
      exact .failed _ e
    · rw [hc]
      exact .returned slot v hv
  | markIds slot ids =>
    exact transition_changeOpenView (·.markIds ids) Answer.count (.markedIds slot ids)
      (fun _ => rfl) fun _ => rfl
  | markAt slot positions =>
    exact transition_changeOpenView (·.markAt positions) Answer.count
      (.markedAt slot positions) (fun _ => rfl) fun _ => rfl
  | commit slot =>
    exact transition_changeOpenView (fun v => (v.commit, ())) (fun _ => Answer.done)
      (.committed slot) (fun _ => rfl) fun _ => rfl
  | install slot position =>
    change Transition s _ ((s.install slot position).result.map fun _ => Answer.done)
      (s.install slot position).system
    rcases s.install_cases slot position with ⟨e, he⟩ | ⟨v, hv, hc⟩
    · rw [he]
      exact .failed _ e
    · rw [hc]
      exact .installed slot v position hv
  | changeSegment slot i change =>
    change Transition s _ ((s.changeSegment slot i change).result.map SegmentAnswer.toAnswer)
      (s.changeSegment slot i change).system
    rcases s.changeSegment_cases slot i change with ⟨e, he⟩ | ⟨v, answer, hv, hc⟩
    · rw [he]
      exact .failed _ e
    · rw [hc]
      exact .edited _ hv (.segment slot i change v) rfl rfl

/-! ## Views -/

/-- Where the view of a number comes from: it is the view of before, evolved, or a step
opened it, or copied it from another view. -/
inductive Arises (s : System σ P) (st : Step σ P) (k : Nat) : View P → Prop
  | evolved (v w : View P) (hv : s.view? k = some v) (he : Evolves st k v w) :
    Arises s st k w
  | opened {prior : List (Snapshot P)} {d : Decorator P} {config : Config} (g : Generation)
    (a : Assembly P) (ho : s.Opens st prior d config)
    (hk : checkComposite s.store = .ok ())
    (hg : (SegmentStore.enumerate s.store).1 = .ok g)
    (ha : g.assemble prior d config s.leases.length = .ok a) (hslot : k = s.views.length)
    (hanswer : (s.step st).result = .ok (.made k))
    (hlease : (s.step st).system.lease s.leases.length = Lease.new g.version) :
    Arises s st k (s.openedView d config a)
  | copied (slot : Nat) (v : View P) (hst : st = .copy slot) (hv : s.view? slot = some v)
    (hopen : s.isClosed v = false) (hslot : k = s.views.length)
    (hanswer : (s.step st).result = .ok (.made k)) : Arises s st k v.copy

/-- Every view after a step was there before, was opened or was copied. -/
theorem arises_step {s : System σ P} {st : Step σ P} {k : Nat} {w : View P}
    (hw : (s.step st).system.view? k = some w) : Arises s st k w := by
  have hsame : s.view? k = some w → Arises s st k w := fun h => .evolved w w h (.same st k w)
  have hmoves := s.transition_step st
  generalize hr : (s.step st).result = r at hmoves
  generalize ht : (s.step st).system = t at hw hmoves
  cases hmoves with
  | failed e => exact hsame hw
  | current slot nanos v hv hopen hcurrent => exact hsame hw
  | closedBefore slot v hv hclosed => exact hsame hw
  | storeChanged change => exact hsame hw
  | unread e ho hk he => exact hsame hw
  | handedBack g e ho hk hg ha => exact hsame hw
  | opened g a ho hk hg ha =>
    rcases view?_of_addView hw with ⟨hslot, rfl⟩ | hw
    · refine .opened g a ho hk hg ha hslot (by rw [hr, hslot]; rfl) ?_
      rw [ht]
      change (System.addLease _ _).lease _ = _
      rw [lease_addLease]
      exact if_pos rfl
    · exact hsame hw
  | copied slot v hv hopen hrefs =>
    rcases view?_of_addView hw with ⟨hslot, rfl⟩ | hw
    · exact .copied slot v rfl hv hopen hslot (by rw [hr, hslot]; rfl)
    · exact hsame hw
  | held slot v hv hopen hrefs => exact hsame hw
  | returned slot v hv =>
    rw [view?_congr (views_giveBackLease _ _)] at hw
    exact hsame hw
  | closed slot v hv hopen =>
    rw [view?_congr (views_giveBackLease _ _)] at hw
    rcases view?_of_setView hw with ⟨rfl, rfl⟩ | hw
    · exact .evolved v _ hv (.closed k v)
    · exact hsame hw
  | dropped slot v hv hclosed => exact hsame (view?_of_removeView hw).2
  | droppedOpen slot v hv hopen =>
    rw [view?_congr (views_giveBackLease _ _)] at hw
    exact hsame (view?_of_removeView hw).2
  | edited answer hv he hlease hclosed =>
    rcases view?_of_setView hw with ⟨rfl, rfl⟩ | hw
    · exact .evolved _ _ hv he
    · exact hsame hw
  | installed slot v position hv =>
    rcases view?_of_setView hw with ⟨rfl, rfl⟩ | hw
    · exact .evolved v _ hv (.installed k s.mappers position v)
    · exact hsame hw

end

end System

end SegmentedView
