import SegmentedView.Proofs.Leases.Generations
import SegmentedView.Proofs.View.Succession
import SegmentedView.Store.SegmentList

/-!
# Payloads and their segments

Beside every segment a view keeps a payload, and from one generation to the next the segment may
be replaced by another one of its name. A snapshot that is taken over by a reopen, or shared with a
copy, goes back to the one that was first opened (`GoesBackTo`). A decorator that lets the previous
payload stand serves what it made of that first segment; where segments are their own payloads,
every payload is the segment that it is served with, and that is the one that the store showed when
the view was opened (`OpenedOn`). `payloads_belong_to_segments` says both.
-/

set_option autoImplicit false

namespace SegmentedView

variable {σ P : Type}

/-! ## Snapshots of one generation -/

/-- Every snapshot of an assembly is carried over or new. -/
theorem Generation.arises_of_assemble {g : Generation} {prior : List (Snapshot P)}
    {d : Decorator P} {config : Config} {opening : Nat} {a : Assembly P}
    (h : g.assemble prior d config opening = .ok a) {i : Nat} {x : Snapshot P}
    (hx : a.snapshots[i]? = some x) :
    ∃ reused, x.Arises prior d config.reusePolicy opening i reused := by
  unfold Generation.assemble at h
  split at h
  case h_1 => cases h
  case h_2 snapshots stats hreuse =>
    obtain ⟨made, hmade, heq⟩ := exists_of_map_eq_ok hreuse
    obtain ⟨rfl, -⟩ := Prod.mk.inj heq
    split at h
    case h_1 => cases h
    case h_2 boundaries htable =>
      split at h
      case isTrue => cases h
      case isFalse =>
        cases h
        obtain ⟨m, hm, rfl⟩ := Option.map_eq_some_iff.1 (List.getElem?_map.symm.trans hx)
        have harises := arises_of_snapshotLeaves hmade hm
        rw [Nat.zero_add] at harises
        exact ⟨m.2, harises⟩

/-- A segment takes over from the snapshot at place `j` of a list. -/
structure Snapshot.PassesFrom (prior : List (Snapshot P)) (policy : ReusePolicy) (s : Segment)
    (j : Nat) (x : Snapshot P) : Prop extends PassesTo prior policy s x where
  place : prior[j]? = some x
  last : ∀ i y, j < i → prior[i]? = some y → y.name ≠ s.name

/-- A snapshot that is passed on is passed on from a place. -/
theorem Snapshot.PassesTo.exists_place {prior : List (Snapshot P)} {policy : ReusePolicy}
    {s : Segment} {x : Snapshot P} (h : PassesTo prior policy s x) :
    ∃ j, PassesFrom prior policy s j x := by
  obtain ⟨-, before, after, rfl, hafter⟩ := h.named
  refine ⟨before.length, h, by simp, fun i y hi hy => ?_⟩
  obtain ⟨n, rfl⟩ := Nat.exists_eq_add_of_lt hi
  rw [Nat.add_assoc, List.getElem?_append_right (Nat.le_add_right ..), Nat.add_sub_cancel_left,
    List.getElem?_cons_succ] at hy
  exact hafter y (List.mem_of_getElem? hy)

/-- A view keeps the segment and the payload at every place as long as it keeps its number. -/
theorem Evolves.served {st : Step σ P} {k : Nat} {v w : View P} (h : Evolves st k v w) {i : Nat}
    {y : Snapshot P} (hy : w.segments[i]? = some y) :
    ∃ x, v.segments[i]? = some x ∧ y.segment = x.segment ∧ y.payload = x.payload := by
  obtain ⟨x, hx, rfl | rfl | rfl⟩ := h.edited_getElem? hy
  · exact ⟨y, hx, rfl, rfl⟩
  · exact ⟨x, hx, rfl, rfl⟩
  · exact ⟨x, hx, rfl, rfl⟩

/-! ## Two ways to decorate again -/

/-- A decorator that makes of a segment what it makes of one seen for the first time. -/
def Decorator.Renews (d : Decorator P) : Prop :=
  ∀ previous s, d.redecorate previous s = (d.decorate s).map some

/-- A decorator that lets the previous payload stand. -/
def Decorator.Keeps (d : Decorator P) : Prop := ∀ previous s, d.redecorate previous s = .ok none

/-- The decorator that answers the segments makes everything anew. -/
theorem Decorator.renews_segments : Decorator.segments.Renews := fun _ _ => rfl

/-- The decorator that answers labels lets the previous payload stand. -/
theorem Decorator.keeps_labels (refused : List String) : (Decorator.labels refused).Keeps :=
  fun _ _ => rfl

/-- Made anew, a payload is made of the segment that it is served with. -/
theorem Snapshot.Arises.decorate_segment {prior : List (Snapshot P)} {d : Decorator P}
    {policy : ReusePolicy} {opening place : Nat} {x : Snapshot P} {reused : Bool}
    (h : x.Arises prior d policy opening place reused) (hd : d.Renews) :
    d.decorate x.segment = .ok x.payload.value := by
  cases h with
  | reused previous value? hpasses hvalue hpayload hdeletes =>
    rw [hd] at hvalue
    obtain ⟨value, hmade, rfl⟩ := exists_of_map_eq_ok hvalue
    rw [hmade, hpayload]
    rfl
  | opened value hnone hvalue hpayload hdeletes =>
    rw [hvalue, hpayload]

namespace System

variable [SegmentStore σ]

/-- Where payloads are made anew, every payload of every view is made of its own segment. -/
theorem Reachable.decorate_segment {s : System σ P} (h : s.Reachable) {k : Nat} {v : View P}
    (hv : s.view? k = some v) : v.decorator.Renews →
      ∀ x ∈ v.segments, v.decorator.decorate x.segment = .ok x.payload.value := by
  refine h.forall_view (fun v => v.decorator.Renews →
    ∀ x ∈ v.segments, v.decorator.decorate x.segment = .ok x.payload.value)
    (fun st k v w hold he hd y hy => ?_) (fun s w ih hnew hd y hy => ?_) hv
  · obtain ⟨i, hi⟩ := List.getElem?_of_mem hy
    obtain ⟨x, hx, hsegment, hpayload⟩ := he.served hi
    rw [he.sameOpening.decorator] at hd ⊢
    rw [hsegment, hpayload]
    exact hold hd x (List.mem_of_getElem? hx)
  · cases hnew with
    | copied slot v hv hopen =>
      obtain ⟨x, hx, rfl⟩ := List.mem_map.1 hy
      exact ih slot v hv hd x hx
    | opened prior d config g a hp hg ha =>
      obtain ⟨i, hi⟩ := List.getElem?_of_mem hy
      obtain ⟨reused, harises⟩ := Generation.arises_of_assemble ha hi
      exact harises.decorate_segment hd

/-- Where all openings of a run have one decorator, so have all its views. -/
theorem decorator_eq_of_openings {store : σ} {steps : List (Step σ P)} {d : Decorator P}
    (hopens : ∀ d' config, Step.openView d' config ∈ steps → d' = d) {k : Nat} {v : View P}
    (hv : (({ store := store } : System σ P).run steps).view? k = some v) : v.decorator = d := by
  induction steps using List.reverseRecOn generalizing k v with
  | nil => simp [run, view?] at hv
  | append_singleton steps st ih =>
    have hbefore : ∀ d' config, Step.openView d' config ∈ steps → d' = d :=
      fun d' config h => hopens d' config (List.mem_append_left _ h)
    rw [run_snoc] at hv
    cases arises_step hv with
    | evolved u v hu he => exact he.sameOpening.decorator.trans (ih hbefore hu)
    | @opened prior d' config g a ho hk hg ha hslot hanswer hlease =>
      change d' = d
      cases ho with
      | anew => exact hopens d' config (by simp)
      | refreshed slot nanos u hu hopen hchanged => exact ih hbefore hu
    | copied slot u hst hu hopen hslot hanswer =>
      have hdecorator : u.copy.decorator = u.decorator := rfl
      exact hdecorator.trans (ih hbefore hu)

/-! ## Where views and snapshots come from -/

/-- The view of a number was opened on this generation in a run: the store showed it in the step
that opened the view, or the one that the view was copied from. -/
inductive OpenedOn (s : System σ P) : List (Step σ P) → Nat → Generation → Prop
  | opened {steps : List (Step σ P)} {st : Step σ P} {k : Nat} {g : Generation}
    (hst : ∀ slot, st ≠ .copy slot)
    (hmade : ((s.run steps).step st).result = .ok (.made k))
    (hg : (SegmentStore.enumerate (s.run steps).store).1 = .ok g) :
    OpenedOn s (steps ++ [st]) k g
  | copied {steps : List (Step σ P)} {slot k : Nat} {g : Generation}
    (h : OpenedOn s steps slot g)
    (hmade : ((s.run steps).step (.copy slot)).result = .ok (.made k)) :
    OpenedOn s (steps ++ [.copy slot]) k g
  | stays {steps : List (Step σ P)} {k : Nat} {g : Generation} (h : OpenedOn s steps k g)
    (st : Step σ P) : OpenedOn s (steps ++ [st]) k g

/-- An opening is no copy. -/
theorem Opens.ne_copy {s : System σ P} {st : Step σ P} {prior : List (Snapshot P)}
    {d : Decorator P} {config : Config} (h : s.Opens st prior d config) (slot : Nat) :
    st ≠ .copy slot := by
  cases h <;> nofun

/-- Every view has the version and the segments of the generation that it was opened on. -/
theorem exists_openedOn {store : σ} {steps : List (Step σ P)} {k : Nat} {v : View P}
    (hv : (({ store := store } : System σ P).run steps).view? k = some v) :
    ∃ g, ({ store := store } : System σ P).OpenedOn steps k g ∧
      (({ store := store } : System σ P).run steps).version v = g.version ∧
      v.segments.map (fun x => Leaf.segment x.segment) = g.leaves := by
  induction steps using List.reverseRecOn generalizing k v with
  | nil => simp [run, view?] at hv
  | append_singleton steps st ih =>
    have hreachable := (reachable_start (P := P) store).run steps
    rw [run_snoc] at hv ⊢
    -- A view that keeps its lease keeps its version.
    have hversion : ∀ {i : Nat} {u w : View P},
        (({ store := store } : System σ P).run steps).view? i = some u → w.lease = u.lease →
          ((({ store := store } : System σ P).run steps).step st).system.version w =
            (({ store := store } : System σ P).run steps).version u := by
      intro i u w hu hlease
      unfold version
      rw [hlease]
      exact (lease_step _ st (hreachable.lease_lt hu)).later.version
    cases arises_step hv with
    | evolved u v hu he =>
      obtain ⟨g, hopened, hg, hleaves⟩ := ih hu
      exact ⟨g, hopened.stays st, (hversion hu he.sameOpening.lease).trans hg,
        he.sameDocuments.leaves.trans hleaves⟩
    | opened g a ho hk hg ha hslot hanswer hlease =>
      exact ⟨g, .opened ho.ne_copy hanswer hg, congrArg Lease.version hlease,
        (Generation.made_of_assemble ha).leaves.symm⟩
    | copied slot u hst hu hopen hslot hanswer =>
      subst hst
      obtain ⟨g, hopened, hg, hleaves⟩ := ih hu
      exact ⟨g, hopened.copied hanswer, (hversion hu rfl).trans hg,
        (View.sameDocuments_copy u).leaves.trans hleaves⟩

/-- A segment when it is seen for the first time: the number of the opening, and the place in
it. -/
structure FirstSight where
  segment : Segment
  opening : Nat
  place : Nat

/-- In a run the snapshot at place `i` of the view of number `k` goes back to a segment when it was
first seen: it was opened then, or it was taken over by reopens or shared by copies, without a
break, from the snapshot that was. -/
inductive GoesBackTo (s : System σ P) : List (Step σ P) → Nat → Nat → FirstSight → Prop
  | opened {steps : List (Step σ P)} {st : Step σ P} {prior : List (Snapshot P)}
    {d : Decorator P} {config : Config} {k i : Nat} {v : View P} {x : Snapshot P}
    (ho : (s.run steps).Opens st prior d config)
    (hmade : ((s.run steps).step st).result = .ok (.made k))
    (hv : ((s.run steps).step st).system.view? k = some v) (hx : v.segments[i]? = some x)
    (hnew : ¬ ∃ previous, Snapshot.PassesTo prior config.reusePolicy x.segment previous) :
    GoesBackTo s (steps ++ [st]) k i ⟨x.segment, (s.run steps).leases.length, i⟩
  | reused {steps : List (Step σ P)} {slot nanos k i j : Nat} {u v : View P} {x y : Snapshot P}
    {first : FirstSight} (h : GoesBackTo s steps slot j first)
    (hu : (s.run steps).view? slot = some u)
    (hmade : ((s.run steps).step (.reopen slot nanos)).result = .ok (.made k))
    (hv : ((s.run steps).step (.reopen slot nanos)).system.view? k = some v)
    (hx : v.segments[i]? = some x)
    (hpasses : Snapshot.PassesFrom u.segments u.config.reusePolicy x.segment j y) :
    GoesBackTo s (steps ++ [.reopen slot nanos]) k i first
  | copied {steps : List (Step σ P)} {slot k i : Nat} {first : FirstSight}
    (h : GoesBackTo s steps slot i first)
    (hmade : ((s.run steps).step (.copy slot)).result = .ok (.made k)) :
    GoesBackTo s (steps ++ [.copy slot]) k i first
  | stays {steps : List (Step σ P)} {k i : Nat} {first : FirstSight}
    (h : GoesBackTo s steps k i first) (st : Step σ P) : GoesBackTo s (steps ++ [st]) k i first

/-- Every snapshot of every view goes back to a segment when it was first seen, and where previous
payloads stand its payload is the one made then. -/
theorem exists_goesBackTo {store : σ} {steps : List (Step σ P)} {k : Nat} {v : View P}
    (hv : (({ store := store } : System σ P).run steps).view? k = some v) {i : Nat}
    {x : Snapshot P} (hx : v.segments[i]? = some x) :
    ∃ first, ({ store := store } : System σ P).GoesBackTo steps k i first ∧
      (v.decorator.Keeps → ∃ value, v.decorator.decorate first.segment = .ok value ∧
        x.payload = ⟨first.opening, first.place, value⟩) := by
  -- On the run from its end: the last step left the view, made it, or copied it.
  induction steps using List.reverseRecOn generalizing k v i x with
  | nil => simp [run, view?] at hv
  | append_singleton steps st ih =>
    have hafter := hv
    rw [run_snoc] at hafter
    cases arises_step hafter with
    | evolved u v hu he =>
      obtain ⟨y, hy, -, hpayload⟩ := he.served hx
      obtain ⟨first, hback, hkeeps⟩ := ih hu hy
      rw [he.sameOpening.decorator, hpayload]
      exact ⟨first, hback.stays st, hkeeps⟩
    | @opened prior d config g a ho hk hg ha hslot hanswer hlease =>
      obtain ⟨reused, harises⟩ := Generation.arises_of_assemble ha hx
      cases harises with
      | opened value hnone hvalue hpayload hdeletes =>
        exact ⟨_, .opened ho hanswer hafter hx hnone, fun _ => ⟨value, hvalue, hpayload⟩⟩
      | reused previous value? hpasses hvalue hpayload hdeletes =>
        obtain ⟨j, hfrom⟩ := hpasses.exists_place
        cases ho with
        | anew => cases hfrom.place
        | refreshed slot nanos u hu hopen hchanged =>
          obtain ⟨first, hback, hkeeps⟩ := ih hu hfrom.place
          refine ⟨first, hback.reused hu hanswer hafter hx hfrom, fun hd => ?_⟩
          change u.decorator.Keeps at hd
          rw [hd] at hvalue
          cases hvalue
          rw [hpayload]
          exact hkeeps hd
    | copied slot u hst hu hopen hslot hanswer =>
      subst hst
      obtain ⟨y, hy, rfl⟩ := Option.map_eq_some_iff.1 (List.getElem?_map.symm.trans hx)
      obtain ⟨first, hback, hkeeps⟩ := ih hu hy
      exact ⟨first, hback.copied hanswer, hkeeps⟩

/-- Where segments are their own payloads, a view's payloads are its segments. -/
theorem Reachable.payloads_eq_segments {s : System σ Segment} (h : s.Reachable) {k : Nat}
    {v : View Segment} (hv : s.view? k = some v) (hd : v.decorator = .segments) :
    v.payloads.map Payload.value = v.segments.map Snapshot.segment := by
  have hmade := h.decorate_segment hv (hd ▸ Decorator.renews_segments)
  unfold View.payloads
  rw [List.map_map, List.map_inj_left]
  intro x hx
  have hvalue := hmade x hx
  rw [hd] at hvalue
  exact (Except.ok.inj hvalue).symm

/-- A payload always belongs to the segment that it is served with. Where segments are their own
payloads, the payloads of a view are its segments, in order, and these are the segments that the
store showed in the generation that the view was opened on; so what a view says of a position is
what the payload there says of the offset. Where previous payloads stand, the payload at a place is
the very one that was made of the segment at its first sight, from which the snapshot there was
taken over without a break. -/
theorem payloads_belong_to_segments (store : σ) :
    (∀ (steps : List (Step σ Segment)) (k : Nat) (v : View Segment),
      (({ store := store } : System σ Segment).run steps).view? k = some v →
      v.decorator = .segments →
        v.payloads.map Payload.value = v.segments.map Snapshot.segment ∧
        (∃ g, ({ store := store } : System σ Segment).OpenedOn steps k g ∧
          (({ store := store } : System σ Segment).run steps).version v = g.version ∧
          v.payloads.map (fun y => Leaf.segment y.value) = g.leaves) ∧
        (∀ p i l, v.locate p = some (i, l) → ∃ y, v.payloads[i]? = some y ∧
          l < y.value.docCount ∧ v.stableIdAt p = y.value.stableId l) ∧
        ∀ p, v.locate p = none → v.stableIdAt p = none) ∧
    ∀ (P : Type) (steps : List (Step σ P)) (k : Nat) (v : View P),
      (({ store := store } : System σ P).run steps).view? k = some v → v.decorator.Keeps →
        ∀ i y, v.payloads[i]? = some y → ∃ first value,
          ({ store := store } : System σ P).GoesBackTo steps k i first ∧
          v.decorator.decorate first.segment = .ok value ∧
          y = ⟨first.opening, first.place, value⟩ := by
  refine ⟨fun steps k v hv hd => ?_, fun P steps k v hv hd i y hy => ?_⟩
  · have hreachable := (reachable_start store).run steps
    have hsame := hreachable.payloads_eq_segments hv hd
    have hsound := hreachable.sound hv
    refine ⟨hsame, ?_, fun p i l hp => ?_, fun p hp => ?_⟩
    · obtain ⟨g, hopened, hversion, hleaves⟩ := exists_openedOn hv
      refine ⟨g, hopened, hversion, ?_⟩
      have hmap := congrArg (List.map Leaf.segment) hsame
      rw [List.map_map, List.map_map] at hmap
      exact hmap.trans hleaves
    · obtain ⟨x, hx, hl, rfl⟩ := hsound.locate_eq_some_iff.1 hp
      have hplace := congrArg (·[i]?) hsame
      simp only [View.payloads, List.getElem?_map, hx, Option.map_some, Option.some.injEq]
        at hplace
      refine ⟨x.payload, ?_, hplace ▸ hl, ?_⟩
      · rw [View.payloads, List.getElem?_map, hx]
        rfl
      · rw [hsound.stableIdAt_startOf_add hx hl, hplace]
    · unfold View.stableIdAt View.documentAt?
      rw [hp]
      rfl
  · obtain ⟨x, hx, rfl⟩ := Option.map_eq_some_iff.1 (List.getElem?_map.symm.trans hy)
    obtain ⟨first, hback, hkeeps⟩ := exists_goesBackTo hv hx
    obtain ⟨value, hvalue, hpayload⟩ := hkeeps hd
    exact ⟨first, value, hback, hvalue, hpayload⟩

/-- Segment "a" is rewritten and the one before it removed: the payload of a copy of the reopened
view is the segment that "a" is now. Rewritten twice, and reopened, copied and reopened again, "a"
still has the label of the one document that it began with. -/
theorem payloads_belong_to_segments_of_rewrites :
    let store : SegmentList := .ofSegments [.sequential "b" 7 2, .sequential "a" 0 1]
    let own : List (Step SegmentList Segment) := [.openView .segments {},
      .changeStore fun store => (store.change (.replace (.sequential "a" 4 2))).1,
      .changeStore fun store => (store.change (.remove "b")).1, .reopen 0 0, .copy 1]
    let labelled : List (Step SegmentList String) := [.openView (.labels []) {},
      .changeStore fun store => (store.change (.replace (.sequential "a" 4 2))).1,
      .reopen 0 0, .copy 1,
      .changeStore fun store => (store.change (.replace (.sequential "a" 9 3))).1, .reopen 2 0]
    (∃ v y, (({ store := store } : System SegmentList Segment).run own).view? 2 = some v ∧
      v.decorator = .segments ∧ v.payloads[0]? = some y ∧ v.stableIdAt 1 = some 5 ∧
      y.value.stableId 1 = some 5) ∧
    ∃ v y first, (({ store := store } : System SegmentList String).run labelled).view? 3 = some v ∧
      v.decorator.Keeps ∧ v.payloads[1]? = some y ∧ y.value = "a/1/0/-" ∧
      ({ store := store } : System SegmentList String).GoesBackTo labelled 3 1 first ∧
      first.segment.label = "a/1/0/-" ∧ v.stableIdAt 4 = some 11 := by
  intro store own labelled
  obtain ⟨hown, hlabelled⟩ := payloads_belong_to_segments store
  constructor
  · obtain ⟨v, hv⟩ : ∃ v, (({ store := store } : System SegmentList Segment).run own).view? 2 =
        some v := Option.isSome_iff_exists.1 (by decide +kernel)
    have hd : v.decorator = .segments := decorator_eq_of_openings (by simp [own]) hv
    obtain ⟨-, -, hdocuments, -⟩ := hown own 2 v hv hd
    have hfound : ((({ store := store } : System SegmentList Segment).run own).view? 2).map
        (fun v => (v.locate 1, v.stableIdAt 1)) = some (some (0, 1), some 5) := by
      decide +kernel
    rw [hv, Option.map_some, Option.some.injEq, Prod.mk.injEq] at hfound
    obtain ⟨hlocate, hid⟩ := hfound
    obtain ⟨y, hy, -, hsame⟩ := hdocuments 1 0 1 hlocate
    exact ⟨v, y, hv, hd, hy, hid, hsame.symm.trans hid⟩
  · obtain ⟨v, hv⟩ : ∃ v, (({ store := store } : System SegmentList String).run
        labelled).view? 3 = some v := Option.isSome_iff_exists.1 (by decide +kernel)
    have hd : v.decorator = .labels [] := decorator_eq_of_openings (by simp [labelled]) hv
    have hkeeps : v.decorator.Keeps := hd ▸ Decorator.keeps_labels []
    have hfound : ((({ store := store } : System SegmentList String).run labelled).view? 3).map
        (fun v => (v.payloads[1]?.map Payload.value, v.stableIdAt 4)) =
          some (some "a/1/0/-", some 11) := by decide +kernel
    rw [hv, Option.map_some, Option.some.injEq, Prod.mk.injEq] at hfound
    obtain ⟨hlabel, hid⟩ := hfound
    obtain ⟨y, hy, hvalue⟩ := Option.map_eq_some_iff.1 hlabel
    obtain ⟨first, value, hback, hmade, rfl⟩ := hlabelled String labelled 3 v hv hkeeps 1 y hy
    rw [hd] at hmade
    change Except.ok first.segment.label = .ok value at hmade
    exact ⟨v, _, first, hv, hkeeps, hy, hvalue, hback, (Except.ok.inj hmade).trans hvalue, hid⟩

end System

end SegmentedView
