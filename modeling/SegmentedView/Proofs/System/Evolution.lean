import SegmentedView.Proofs.Deletes.Resizing
import SegmentedView.Proofs.System.Transitions

/-!
# How views evolve

One step of a system does one of seven things to a view that is there (`Evolves`) and adds
a view in one of two ways (`Born`); `view?_step` says that this is all. A property of views
that both keep therefore holds of every view of every reachable system
(`Reachable.forall_view`), soundness among them (`Reachable.sound`). In a snapshot a step
commits or marks and does nothing else (`Evolves.edited`), so that a property of deletes
needs to be kept by marks, commits and rebases only (`Reachable.forall_deletes`).
-/

set_option autoImplicit false

namespace SegmentedView

variable {σ P : Type}

/-- A view keeps its documents as long as it keeps its number. -/
theorem Evolves.sameDocuments {st : Step σ P} {k : Nat} {v w : View P}
    (h : Evolves st k v w) : View.SameDocuments v w := by
  cases h with
  | same => exact .refl v
  | closed => exact ⟨rfl, rfl⟩
  | markedIds => exact View.sameDocuments_markOffsets v
  | markedAt => exact View.sameDocuments_markOffsets v
  | committed => exact View.sameDocuments_commit v
  | installed => exact ⟨rfl, rfl⟩
  | segment => exact View.sameDocuments_modifySegment v _ _

/-- Two views with the same lease, configuration and decorator, which a view has from its
opening. -/
structure View.SameOpening (v w : View P) : Prop where
  lease : w.lease = v.lease
  config : w.config = v.config
  decorator : w.decorator = v.decorator

/-- And it keeps what it has from its opening. -/
theorem Evolves.sameOpening {st : Step σ P} {k : Nat} {v w : View P} (h : Evolves st k v w) :
    v.SameOpening w := by
  cases h <;> exact ⟨rfl, rfl, rfl⟩

/-- The offsets that a change marks in a segment. -/
def SegmentChange.offsets (x : Snapshot P) : SegmentChange → List Nat
  | .mark l => [l]
  | .markAll ls => ls
  | .markIds ids => x.offsetsOf ids
  | .commit => []

/-- The offsets that a step marks in the segment at place `i` of the view of number `k`. -/
def Step.offsets (v : View P) (k i : Nat) (x : Snapshot P) : Step σ P → List Nat
  | .markIds slot ids => if slot = k then x.offsetsOf ids else []
  | .markAt slot positions => if slot = k then v.offsetsIn positions i else []
  | .changeSegment slot j change => if slot = k ∧ j = i then change.offsets x else []
  | _ => []

/-- What a step makes of the snapshot at a place: it leaves it as it is, commits it or marks some
of its offsets. -/
theorem Evolves.edited_getElem? {st : Step σ P} {k : Nat} {v w : View P} (h : Evolves st k v w)
    {i : Nat} {y : Snapshot P} (hi : w.segments[i]? = some y) : ∃ x, v.segments[i]? = some x ∧
      (y = x ∨ y = x.commit.1 ∨ y = (x.markAll (st.offsets v k i x)).1) := by
  cases h with
  | same => exact ⟨y, hi, .inl rfl⟩
  | closed => exact ⟨y, hi, .inl rfl⟩
  | installed => exact ⟨y, hi, .inl rfl⟩
  | committed =>
    obtain ⟨x, hx, rfl⟩ := Option.map_eq_some_iff.1 ((v.getElem?_commit i).symm.trans hi)
    exact ⟨x, hx, .inr (.inl rfl)⟩
  | markedIds k ids =>
    have hget : (v.markIds ids).1.segments[i]? =
        v.segments[i]?.map fun x => (x.markIds ids).1 := View.getElem?_markOffsets v i
    obtain ⟨x, hx, rfl⟩ := Option.map_eq_some_iff.1 (hget.symm.trans hi)
    refine ⟨x, hx, .inr (.inr ?_)⟩
    simp only [Step.offsets, if_true]
    rfl
  | markedAt k positions =>
    have hget : (v.markAt positions).1.segments[i]? =
        v.segments[i]?.map fun x => (x.markAll (v.offsetsIn positions i)).1 :=
      View.getElem?_markOffsets v i
    obtain ⟨x, hx, rfl⟩ := Option.map_eq_some_iff.1 (hget.symm.trans hi)
    refine ⟨x, hx, .inr (.inr ?_)⟩
    simp only [Step.offsets, if_true]
  | segment k j change =>
    change (v.segments.modify j _)[i]? = some y at hi
    rw [List.getElem?_modify] at hi
    obtain ⟨x, hx, rfl⟩ := Option.map_eq_some_iff.1 hi
    refine ⟨x, hx, ?_⟩
    by_cases hij : j = i
    · simp only [Step.offsets, hij, and_self, if_true]
      cases change with
      | mark l => exact .inr (.inr rfl)
      | markAll ls => exact .inr (.inr rfl)
      | markIds ids => exact .inr (.inr rfl)
      | commit => exact .inr (.inl rfl)
    · simp only [if_neg hij, true_or]

/-- And so of every snapshot. -/
theorem Evolves.edited {st : Step σ P} {k : Nat} {v w : View P} (h : Evolves st k v w)
    {y : Snapshot P} (hy : y ∈ w.segments) : ∃ i x, v.segments[i]? = some x ∧
      (y = x ∨ y = x.commit.1 ∨ y = (x.markAll (st.offsets v k i x)).1) := by
  obtain ⟨i, hi⟩ := List.getElem?_of_mem hy
  exact ⟨i, h.edited_getElem? hi⟩

/-- What an opening may take over from: nothing, or an open view, whose decorator and
configuration it keeps. -/
def System.Offers (s : System σ P) (prior : List (Snapshot P)) (d : Decorator P)
    (config : Config) : Prop :=
  prior = [] ∨ ∃ slot v, s.view? slot = some v ∧ prior = v.segments ∧ d = v.decorator ∧
    config = v.config

/-- The views that a step can add: a copy of a view, or a view of the store's current
generation. -/
inductive Born [SegmentStore σ] (s : System σ P) : View P → Prop
  | copied (slot : Nat) (v : View P) (hv : s.view? slot = some v)
    (hopen : s.isClosed v = false) : Born s v.copy
  | opened (prior : List (Snapshot P)) (d : Decorator P) (config : Config) (g : Generation)
    (a : Assembly P) (hp : s.Offers prior d config)
    (hg : (SegmentStore.enumerate s.store).1 = .ok g)
    (ha : g.assemble prior d config s.leases.length = .ok a) :
    Born s (s.openedView d config a)

namespace System

variable [SegmentStore σ]

/-- What a step opens the store with is one of the things on offer. -/
theorem Opens.offers {s : System σ P} {st : Step σ P} {prior : List (Snapshot P)}
    {d : Decorator P} {config : Config} (h : s.Opens st prior d config) :
    s.Offers prior d config := by
  cases h with
  | anew => exact .inl rfl
  | refreshed slot nanos v hv hopen hchanged => exact .inr ⟨slot, v, hv, rfl, rfl, rfl⟩

/-- The views after a step: those of before, each evolved, and at most one that is new. -/
theorem view?_step {s : System σ P} {st : Step σ P} {k : Nat} {w : View P}
    (h : (s.step st).system.view? k = some w) :
    (∃ v, s.view? k = some v ∧ Evolves st k v w) ∨ k = s.views.length ∧ Born s w := by
  cases arises_step h with
  | evolved v w hv he => exact .inl ⟨v, hv, he⟩
  | opened g a ho hk hg ha hslot => exact .inr ⟨hslot, .opened _ _ _ g a ho.offers hg ha⟩
  | copied slot v hst hv hopen hslot => exact .inr ⟨hslot, .copied slot v hv hopen⟩

/-! ## Reachable systems -/

/-- The systems that runs lead to from a store over which nothing is open. -/
def Reachable (s : System σ P) : Prop :=
  ∃ (store : σ) (steps : List (Step σ P)), s = ({ store := store } : System σ P).run steps

/-- A run of two parts is one after the other. -/
theorem run_append (s : System σ P) (before after : List (Step σ P)) :
    s.run (before ++ after) = (s.run before).run after := by
  induction before generalizing s with
  | nil => rfl
  | cons st before ih => exact ih (s.step st).system

/-- A longer run ends with its last step. -/
theorem run_snoc (s : System σ P) (steps : List (Step σ P)) (st : Step σ P) :
    s.run (steps ++ [st]) = ((s.run steps).step st).system := by
  rw [run_append]
  rfl

/-- A system over which nothing is open is reachable. -/
theorem reachable_start (store : σ) : Reachable ({ store := store } : System σ P) :=
  ⟨store, [], rfl⟩

/-- A step leads from reachable systems to reachable ones. -/
theorem Reachable.step {s : System σ P} (h : s.Reachable) (st : Step σ P) :
    (s.step st).system.Reachable := by
  obtain ⟨store, steps, rfl⟩ := h
  exact ⟨store, steps ++ [st], (run_snoc _ _ _).symm⟩

/-- A run leads from reachable systems to reachable ones. -/
theorem Reachable.run {s : System σ P} (h : s.Reachable) (steps : List (Step σ P)) :
    (s.run steps).Reachable := by
  obtain ⟨store, before, rfl⟩ := h
  exact ⟨store, before ++ steps, (run_append _ _ _).symm⟩

/-- What holds at the start and is kept by every step holds of every reachable system. -/
theorem Reachable.invariant (Holds : System σ P → Prop)
    (hstart : ∀ store, Holds { store := store })
    (hstep : ∀ s st, Holds s → Holds (s.step st).system) {s : System σ P}
    (h : s.Reachable) : Holds s := by
  obtain ⟨store, steps, rfl⟩ := h
  induction steps using List.reverseRecOn with
  | nil => exact hstart store
  | append_singleton steps st ih =>
    rw [run_snoc]
    exact hstep _ st ih

/-- What evolving views keep, and new views have when all older ones do, holds of every
view of every reachable system. -/
theorem Reachable.forall_view (Holds : View P → Prop)
    (hevolves : ∀ (st : Step σ P) k v w, Holds v → Evolves st k v w → Holds w)
    (hborn : ∀ (s : System σ P) w, (∀ k v, s.view? k = some v → Holds v) → Born s w → Holds w)
    {s : System σ P} (h : s.Reachable) {k : Nat} {v : View P} (hv : s.view? k = some v) :
    Holds v := by
  refine h.invariant (fun s => ∀ k v, s.view? k = some v → Holds v) ?_ ?_ k v hv
  · intro store k v hv
    simp [view?] at hv
  · intro s st ih k w hw
    rcases view?_step hw with ⟨v, hv, hevolved⟩ | ⟨-, hnew⟩
    · exact hevolves st k v w (ih k v hv) hevolved
    · exact hborn s w ih hnew

/-- What new deletes have, and marks, commits and rebases keep, holds of the deletes of every
segment of every view of every reachable system. -/
theorem Reachable.forall_deletes (Holds : DeleteState → Prop) (hnew : ∀ n, Holds (.new n))
    (hmark : ∀ d ls, Holds d → Holds (d.markAll ls).1)
    (hcommit : ∀ d, Holds d → Holds d.commit.1)
    (hrebase : ∀ d n, Holds d → Holds (d.rebase n)) {s : System σ P} (h : s.Reachable)
    {k : Nat} {v : View P} (hv : s.view? k = some v) : ∀ x ∈ v.segments, Holds x.deletes := by
  refine h.forall_view (fun v => ∀ x ∈ v.segments, Holds x.deletes)
    (fun st k v w hold he y hy => ?_) (fun s w ih hnewView x hx => ?_) hv
  · obtain ⟨i, x, hx, rfl | rfl | rfl⟩ := he.edited hy
    · exact hold _ (List.mem_of_getElem? hx)
    · exact hcommit _ (hold x (List.mem_of_getElem? hx))
    · exact hmark _ _ (hold x (List.mem_of_getElem? hx))
  · cases hnewView with
    | copied slot v hv hopen =>
      obtain ⟨y, hy, rfl⟩ := List.mem_map.1 hx
      exact ih slot v hv y hy
    | opened prior d config g a hp hg ha =>
      rw [(Generation.made_of_assemble ha).deletes x hx]
      unfold inheritedDeletes
      split
      case h_1 previous hprevious =>
        have hmem := (Snapshot.mem_of_predecessor? hprevious).1
        apply hrebase
        rcases hp with rfl | ⟨slot, v, hv, rfl, -⟩
        · cases hmem
        · exact ih slot v hv previous hmem
      case h_2 => exact hnew _

/-- The deletes of a reachable system are counted right. -/
theorem Reachable.exact {s : System σ P} (h : s.Reachable) {k : Nat} {v : View P}
    (hv : s.view? k = some v) : ∀ x ∈ v.segments, x.deletes.Exact :=
  h.forall_deletes DeleteState.Exact DeleteState.exact_new (fun _ ls h => h.markAll ls)
    (fun _ h => h.commit) (fun _ n h => h.rebase n) hv

/-- Every view of a reachable system is sound. -/
theorem Reachable.sound {s : System σ P} (h : s.Reachable) {k : Nat} {v : View P}
    (hv : s.view? k = some v) : v.Sound := by
  refine h.forall_view View.Sound (fun st k v w hsound hevolved => ?_)
    (fun s w ih hnew => ?_) hv
  · cases hevolved with
    | same => exact hsound
    | closed => exact ⟨hsound.table, hsound.snapshot⟩
    | markedIds => exact hsound.markOffsets
    | markedAt => exact hsound.markOffsets
    | committed => exact hsound.commit
    | installed => exact ⟨hsound.table, hsound.snapshot⟩
    | segment => exact hsound.modifySegment _ _
  · cases hnew with
    | copied slot v hv hopen => exact (ih slot v hv).copy
    | opened prior d config g a hp hg ha =>
      have hmade := Generation.made_of_assemble ha
      have hprior : ∀ x ∈ prior, x.Sound := by
        rcases hp with rfl | ⟨slot, v, hv, rfl, -⟩
        · simp
        · exact (ih slot v hv).snapshot
      exact ⟨hmade.table, hmade.sound hprior⟩

end System

end SegmentedView
