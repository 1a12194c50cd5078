import SegmentedView.Proofs.System.Operations
import SegmentedView.Proofs.View.Outline

/-!
# Openings with a decorator that refuses nothing

Over a store of segments that can be read, an opening succeeds exactly when the generation
has an outline, and then adds an open view that shows the generation under those boundaries
(`Presents`, `presents_openGeneration`), whatever it takes over from.
-/

set_option autoImplicit false

namespace SegmentedView

variable {σ P : Type}

namespace System

/-- The view `w` of a number is open and shows a generation under these boundaries. -/
structure Presents (t : System σ P) (k : Nat) (w : View P) (g : Generation)
    (b : Boundaries) : Prop where
  view : t.view? k = some w
  isOpen : t.isClosed w = false
  version : t.version w = g.version
  boundaries : w.boundaries = b
  leaves : w.segments.map (fun x => Leaf.segment x.segment) = g.leaves

/-- Two views of one generation have the same segments. -/
theorem Presents.segments_eq {t t' : System σ P} {k k' : Nat} {w w' : View P}
    {g : Generation} {b b' : Boundaries} (h : t.Presents k w g b) (h' : t'.Presents k' w' g b') :
    w.segments.map Snapshot.segment = w'.segments.map Snapshot.segment := by
  have hleaves := h.leaves.trans h'.leaves.symm
  have hinjective : Function.Injective Leaf.segment := fun _ _ => Leaf.segment.inj
  apply List.map_injective_iff.2 hinjective
  rw [List.map_map, List.map_map]
  exact hleaves

variable [SegmentStore σ] {s : System σ P} {g : Generation} {d : Decorator P} {config : Config}

/-- A store that cannot be read is not opened. -/
theorem openGeneration_of_unread (hk : checkComposite s.store = .ok ()) {e : Error}
    (he : (SegmentStore.enumerate s.store).1 = .error e) (prior : List (Snapshot P))
    (d : Decorator P) (config : Config) :
    (s.openGeneration prior d config).result = .error e := by
  unfold openGeneration
  rw [hk]
  dsimp only
  rw [he]
  rfl

/-- A generation that cannot be made into a view is not opened. -/
theorem openGeneration_of_unmade (hk : checkComposite s.store = .ok ())
    (hg : (SegmentStore.enumerate s.store).1 = .ok g) {prior : List (Snapshot P)} {e : Error}
    (ha : g.assemble prior d config s.leases.length = .error e) :
    (s.openGeneration prior d config).result = .error e := by
  unfold openGeneration
  rw [hk]
  dsimp only
  rw [hg]
  dsimp only
  rw [ha]

/-- A generation that cannot be laid out is not opened, whatever it takes over. -/
theorem openGeneration_of_error (hk : checkComposite s.store = .ok ())
    (hg : (SegmentStore.enumerate s.store).1 = .ok g) (hd : d.Total) {e : Error}
    (he : g.outline config = .error e) (prior : List (Snapshot P)) :
    (s.openGeneration prior d config).result = .error e :=
  openGeneration_of_unmade hk hg (hd.assemble_eq_error_iff.2 he)

section Assembled

variable {prior : List (Snapshot P)} {a : Assembly P}

/-- An opening whose generation can be assembled adds a lease and a view. -/
theorem openGeneration_of_assemble (hk : checkComposite s.store = .ok ())
    (hg : (SegmentStore.enumerate s.store).1 = .ok g)
    (ha : g.assemble prior d config s.leases.length = .ok a) :
    s.openGeneration prior d config =
      (({ s with store := (SegmentStore.enumerate s.store).2 }.addLease
        (Lease.new g.version)).addView (s.openedView d config a)).done
          (s.views.length, g.version, a.stats) := by
  unfold openGeneration
  rw [hk]
  dsimp only
  rw [hg]
  dsimp only
  rw [ha]
  rfl

/-- The view that an opening adds is the only holder of its lease. -/
theorem lease_of_assemble (hk : checkComposite s.store = .ok ())
    (hg : (SegmentStore.enumerate s.store).1 = .ok g)
    (ha : g.assemble prior d config s.leases.length = .ok a) :
    (s.openGeneration prior d config).system.lease s.leases.length = Lease.new g.version := by
  rw [openGeneration_of_assemble hk hg ha]
  change (System.addLease _ _).lease _ = _
  rw [lease_addLease]
  exact if_pos rfl

/-- It presents the generation. -/
theorem presents_of_assemble (hk : checkComposite s.store = .ok ())
    (hg : (SegmentStore.enumerate s.store).1 = .ok g)
    (ha : g.assemble prior d config s.leases.length = .ok a) :
    (s.openGeneration prior d config).result = .ok (s.views.length, g.version, a.stats) ∧
      (s.openGeneration prior d config).system.store = (SegmentStore.enumerate s.store).2 ∧
      (s.openGeneration prior d config).system.Presents s.views.length
        (s.openedView d config a) g a.boundaries := by
  have hopened := openGeneration_of_assemble hk hg ha
  have hlease := lease_of_assemble hk hg ha
  refine ⟨by rw [hopened]; rfl, by rw [hopened]; rfl, ?_, ?_, ?_, rfl, ?_⟩
  · rw [hopened, system_done, view?_addView]
    exact if_pos rfl
  · unfold isClosed
    change (false || (System.lease _ s.leases.length).released) = false
    rw [hlease]
    rfl
  · unfold version
    change (System.lease _ s.leases.length).version = g.version
    rw [hlease]
    rfl
  · exact (Generation.made_of_assemble ha).leaves.symm

end Assembled

/-- Where the generation has an outline an opening adds a view that presents it. -/
theorem presents_openGeneration (hk : checkComposite s.store = .ok ())
    (hg : (SegmentStore.enumerate s.store).1 = .ok g) (hd : d.Total) {b : Boundaries}
    (hb : g.outline config = .ok b) (prior : List (Snapshot P)) :
    ∃ a, g.assemble prior d config s.leases.length = .ok a ∧
      (s.openGeneration prior d config).result = .ok (s.views.length, g.version, a.stats) ∧
      (s.openGeneration prior d config).system.Presents s.views.length
        (s.openedView d config a) g b := by
  obtain ⟨a, ha, rfl⟩ := hd.exists_assemble hb prior s.leases.length
  obtain ⟨hresult, -, hpresents⟩ := presents_of_assemble hk hg ha
  exact ⟨a, ha, hresult, hpresents⟩

end System

end SegmentedView
