import SegmentedView.Proofs.Store.Likeness
import SegmentedView.Proofs.System.Evolution

/-!
# Journaled stores

A store of any kind with a journal of the calls that it received: enumerations, and
generations that it took back. The journal changes nothing that a system does
(`forget_run`), so a statement about the calls of a run over a journaled store is one about
the calls of that run over the store itself.
-/

set_option autoImplicit false

namespace SegmentedView

/-- A call that a store received. -/
inductive StoreCall
  /-- An enumeration, with the version of the generation if one was shown. -/
  | enumerate (version : Option Nat)
  | release (version : Nat)
  deriving DecidableEq, Repr

/-- A store and the calls it received, the first one first. -/
structure Journaled (σ : Type) where
  inner : σ
  calls : List StoreCall := []

variable {σ P : Type}

namespace Journaled

/-- The version of the generation that an enumeration shows. -/
def shownVersion : Except Error Generation → Option Nat
  | .ok g => some g.version
  | .error _ => none

instance [SegmentStore σ] : SegmentStore (Journaled σ) where
  kind s := SegmentStore.kind s.inner
  version s := SegmentStore.version s.inner
  hasChangedSince s := SegmentStore.hasChangedSince s.inner
  enumerate s :=
    ((SegmentStore.enumerate s.inner).1,
      ⟨(SegmentStore.enumerate s.inner).2,
        s.calls ++ [.enumerate (shownVersion (SegmentStore.enumerate s.inner).1)]⟩)
  release s version := ⟨SegmentStore.release s.inner version, s.calls ++ [.release version]⟩

/-- The journal notes a reading with the version that was shown. -/
theorem calls_enumerate [SegmentStore σ] {s : Journaled σ} {shown : Except Error Generation}
    (h : (SegmentStore.enumerate s).1 = shown) : (SegmentStore.enumerate s).2.calls =
      s.calls ++ [.enumerate (shownVersion shown)] := by
  rw [← h]
  rfl

end Journaled

/-- The same step over a journaled store; a change of the store is no call. -/
def Step.journaled : Step σ P → Step (Journaled σ) P
  | .changeStore change => .changeStore fun s => { s with inner := change s.inner }
  | .openView d config => .openView d config
  | .reopen slot nanos => .reopen slot nanos
  | .copy slot => .copy slot
  | .drop slot => .drop slot
  | .close slot => .close slot
  | .incRef slot => .incRef slot
  | .decRef slot => .decRef slot
  | .markIds slot ids => .markIds slot ids
  | .markAt slot positions => .markAt slot positions
  | .commit slot => .commit slot
  | .install slot position => .install slot position
  | .changeSegment slot i change => .changeSegment slot i change

/-- The system without its journal. -/
def System.forget (s : System (Journaled σ) P) : System σ P where
  store := s.store.inner
  leases := s.leases
  views := s.views
  mappers := s.mappers

/-- The outcome without the journal. -/
def Outcome.forget {α : Type} (o : Outcome (Journaled σ) P α) : Outcome σ P α :=
  ⟨o.result, o.system.forget, o.events⟩

/-- An outcome over a journal of its store is that outcome, journal aside. -/
theorem Outcome.forget_over {α : Type} {o : Outcome σ P α} {store : Journaled σ}
    (h : store.inner = o.system.store) : (o.over store).forget = o := by
  unfold Outcome.over Outcome.forget System.over System.forget
  dsimp only
  rw [h]

/-- A change of the store is journaled as one of the store inside. -/
theorem Step.over_journal (st : Step σ P) :
    st.over (fun change (s : Journaled σ) => { s with inner := change s.inner }) =
      st.journaled := by
  cases st <;> rfl

variable [SegmentStore σ]

/-- No system sees the journal of its store. -/
theorem unseen_journal : Unseen fun (store : σ) (s : Journaled σ) => s.inner = store where
  kind := by
    rintro _ s rfl
    rfl
  changed := by
    rintro _ s rfl since
    rfl
  shown := by
    rintro _ s rfl
    rfl
  read := by
    rintro _ s rfl
    rfl
  release := by
    rintro _ s rfl version
    rfl

namespace System

/-- A step over the journaled store is the step over the store itself. -/
theorem forget_step (s : System (Journaled σ) P) (st : Step σ P) :
    (s.step st.journaled).forget = s.forget.step st := by
  have hs : s.forget.over s.store = s := rfl
  have hstore : s.store.inner = s.forget.store := rfl
  have halike : (s.forget.step st).Alike (fun (store : σ) (t : Journaled σ) => t.inner = store)
      ((s.forget.over s.store).step
        (st.over fun change (t : Journaled σ) => { t with inner := change t.inner })) :=
    alike_step unseen_journal hstore fun change _ => rfl
  obtain ⟨store, hstore, hstep⟩ := halike
  rw [hs, Step.over_journal] at hstep
  rw [hstep]
  exact Outcome.forget_over hstore

/-- A run over the journaled store is the run over the store itself. -/
theorem forget_run (s : System (Journaled σ) P) (steps : List (Step σ P)) :
    (s.run (steps.map Step.journaled)).forget = s.forget.run steps := by
  induction steps generalizing s with
  | nil => rfl
  | cons st steps ih =>
    have hsystem : (s.step st.journaled).system.forget = (s.forget.step st).system :=
      congrArg Outcome.system (s.forget_step st)
    rw [List.map_cons, run, run, ih, hsystem]

end System

end SegmentedView
