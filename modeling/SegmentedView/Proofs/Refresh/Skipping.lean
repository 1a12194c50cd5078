import SegmentedView.Proofs.Deletes.Resizing
import SegmentedView.Proofs.Refresh.FreshOpen

/-!
# Skipping a generation

Where the name alone decides about reuse, a segment takes over the deletes of the snapshot of
its name, cut or extended to its own size (`deletesNamed`). A view that was reopened at one
state of a store and again at a later one therefore has the deletes of a view that was
reopened at the later state only, as long as the state in between had every segment that the
view and the later state share, and did not cut off what both of them have
(`reopen_twice_eq_once`).
-/

set_option autoImplicit false

namespace SegmentedView

variable {σ P : Type}

/-! ## Deletes by name -/

/-- The deletes that a segment of this name and size takes over by name. -/
def deletesNamed (prior : List (Snapshot P)) (name : String) (n : Nat) : DeleteState :=
  match Snapshot.lastNamed? prior name with
  | some x => x.deletes.rebase n
  | none => .new n

/-- By name alone the deletes of the last segment of that name are inherited. -/
theorem inheritedDeletes_byName (prior : List (Snapshot P)) (s : Segment) :
    inheritedDeletes prior .byName s = deletesNamed prior s.name s.docCount := by
  have hfilter : Snapshot.predecessor? prior .byName s = Snapshot.lastNamed? prior s.name := by
    unfold Snapshot.predecessor?
    cases Snapshot.lastNamed? prior s.name with
    | none => rfl
    | some x => rfl
  cases hlast : Snapshot.lastNamed? prior s.name with
  | none => simp [inheritedDeletes, deletesNamed, hfilter, hlast]
  | some x => simp [inheritedDeletes, deletesNamed, hfilter, hlast]

/-! ## Names and sizes -/

/-- The names of the segments, each with its size. -/
def View.sizes (v : View P) : List (String × Nat) := v.segments.map fun x => (x.name, x.docCount)

/-- The names of the segments of a generation, each with its size. -/
def Generation.sizes (g : Generation) : List (String × Nat) :=
  g.leaves.filterMap fun leaf => leaf.segment?.map fun s => (s.name, s.docCount)

namespace View

variable {v w : View P} {g : Generation}

/-- A view over the leaves of a generation has its names and sizes. -/
theorem sizes_of_leaves (h : v.segments.map (fun x => Leaf.segment x.segment) = g.leaves) :
    v.sizes = g.sizes := by
  unfold sizes Generation.sizes
  rw [← h, List.filterMap_map]
  change _ = List.filterMap (some ∘ fun x : Snapshot P => (x.name, x.docCount)) v.segments
  rw [List.filterMap_eq_map]

/-- Every snapshot of a view has its name and size among those of the view. -/
theorem mem_sizes {x : Snapshot P} (hx : x ∈ v.segments) : (x.name, x.docCount) ∈ v.sizes :=
  List.mem_map.2 ⟨x, hx, rfl⟩

/-- The names among the sizes are those of the segments. -/
theorem map_fst_sizes (v : View P) : v.sizes.map Prod.fst = v.segments.map Snapshot.name := by
  unfold sizes
  rw [List.map_map]
  rfl

/-- The counts among the sizes are those of the segments. -/
theorem map_snd_sizes (v : View P) : v.sizes.map Prod.snd = v.counts := by
  unfold sizes counts
  rw [List.map_map]
  rfl

/-- Sound views with the same names and sizes have the same boundaries. -/
theorem starts_eq_of_sizes (hv : v.Sound) (hw : w.Sound) (h : w.sizes = v.sizes) :
    w.starts = v.starts := by
  have hcounts : w.counts = v.counts := by
    rw [← map_snd_sizes, h, map_snd_sizes]
  exact Boundaries.IsTableOf.unique (hcounts ▸ hw.table) hv.table

/-- Deletes that are taken over by name are decided by the names and sizes. -/
theorem map_deletes {prior : List (Snapshot P)}
    (h : ∀ x ∈ v.segments, x.deletes = deletesNamed prior x.name x.docCount) :
    v.segments.map Snapshot.deletes = v.sizes.map fun size => deletesNamed prior size.1 size.2 := by
  unfold sizes
  rw [List.map_map]
  exact List.map_congr_left h

end View

/-! ## Two refreshes -/

/-- Exact and sound deletes in every segment, and different names. -/
structure View.Regular (v : View P) : Prop where
  sound : v.Sound
  exact : ∀ x ∈ v.segments, x.deletes.Exact
  names : (v.segments.map Snapshot.name).Nodup

/-- A segment that takes over by name from its own view takes over what it has. -/
theorem View.Regular.deletesNamed_self {v : View P} (h : v.Regular) {x : Snapshot P}
    (hx : x ∈ v.segments) : x.deletes = deletesNamed v.segments x.name x.docCount := by
  have hsound := h.sound.snapshot x hx
  unfold deletesNamed
  rw [Snapshot.lastNamed?_of_mem h.names hx, ← hsound.size]
  exact ((h.exact x hx).rebase_size hsound.deletes).symm

/-- What is taken over from a view that took over from `v` is what is taken over from `v`, if
no segment that `v` and the new one share is missing in between or too small there. -/
theorem View.Regular.deletesNamed_trans {v w : View P} (h : v.Regular)
    (hw : ∀ z ∈ w.segments, z.deletes = deletesNamed v.segments z.name z.docCount)
    (hnames : (w.segments.map Snapshot.name).Nodup) {name : String} {n : Nat}
    (hshared : ∀ m, (name, m) ∈ v.sizes → ∃ l, (name, l) ∈ w.sizes ∧ min m n ≤ l) :
    deletesNamed w.segments name n = deletesNamed v.segments name n := by
  unfold deletesNamed
  cases hz : Snapshot.lastNamed? w.segments name with
  | none =>
    -- Then `v` has no segment of the name either, and both start without deletes.
    cases hx : Snapshot.lastNamed? v.segments name with
    | none => rfl
    | some x =>
      obtain ⟨hmem, rfl⟩ := Snapshot.mem_of_lastNamed? hx
      obtain ⟨l, hl, -⟩ := hshared x.docCount (View.mem_sizes hmem)
      obtain ⟨z, hzmem, heq⟩ := List.mem_map.1 hl
      obtain ⟨y, hy⟩ := Snapshot.exists_lastNamed? hzmem
      rw [show z.name = x.name from congrArg Prod.fst heq, hz] at hy
      cases hy
  | some z =>
    obtain ⟨hzmem, rfl⟩ := Snapshot.mem_of_lastNamed? hz
    dsimp only
    rw [hw z hzmem]
    unfold deletesNamed
    cases hx : Snapshot.lastNamed? v.segments z.name with
    | none => exact DeleteState.rebase_new z.docCount n
    | some x =>
      obtain ⟨hmem, hname⟩ := Snapshot.mem_of_lastNamed? hx
      have hsound := h.sound.snapshot x hmem
      have hsize : (z.name, x.docCount) ∈ v.sizes := hname ▸ View.mem_sizes hmem
      obtain ⟨l, hl, hle⟩ := hshared x.docCount hsize
      obtain ⟨y, hymem, heq⟩ := List.mem_map.1 hl
      obtain ⟨hyname, rfl⟩ := Prod.mk.inj heq
      obtain rfl := List.inj_on_of_nodup_map hnames hymem hzmem hyname
      rw [← hsound.size] at hle
      exact (h.exact x hmem).rebase_rebase hsound.deletes hle

/-! ## Two reopens -/

/-- The store has segments that a view can be made of: this generation, which has an
outline. -/
structure SegmentStore.ValidFor [SegmentStore σ] (store : σ) (g : Generation)
    (config : Config) : Prop where
  composite : System.checkComposite store = .ok ()
  enumerated : (SegmentStore.enumerate store).1 = .ok g
  outlined : ∃ b, g.outline config = .ok b

/-- If the store says that nothing changed since the version, its generation has segments of
these names and sizes: a change to the list of its segments is one that a store tells of. -/
def SegmentStore.KeepsSizes [SegmentStore σ] (store : σ) (g : Generation) (version : Nat)
    (sizes : List (String × Nat)) : Prop :=
  SegmentStore.hasChangedSince store version = false → g.sizes = sizes

namespace System

/-- The view `w` of a number is open, has the names and sizes of a generation, and took over
the deletes of `v` by name. -/
structure Refreshed (t : System σ P) (k : Nat) (w v : View P) (g : Generation) : Prop where
  view : t.view? k = some w
  isOpen : t.isClosed w = false
  decorator : w.decorator = v.decorator
  config : w.config = v.config
  sizes : w.sizes = g.sizes
  deletes : ∀ x ∈ w.segments, x.deletes = deletesNamed v.segments x.name x.docCount

namespace Refreshed

variable {t t' : System σ P} {k k' : Nat} {u v w : View P} {g g' : Generation}

/-- A refreshed view has the names of its generation, each of them once. -/
theorem names (h : t.Refreshed k w v g) (hnames : (g.sizes.map Prod.fst).Nodup) :
    (w.segments.map Snapshot.name).Nodup := by
  rw [← View.map_fst_sizes, h.sizes]
  exact hnames

/-- A refresh of a refreshed view is a refresh of the first view, if the generation in between
had every segment that the two share and did not cut off what both of them have. -/
theorem trans (h : t.Refreshed k w v g) (h' : t'.Refreshed k' u w g') (hv : v.Regular)
    (hnames : (g.sizes.map Prod.fst).Nodup)
    (hshared : ∀ name m n, (name, m) ∈ v.sizes → (name, n) ∈ g'.sizes →
      ∃ l, (name, l) ∈ g.sizes ∧ min m n ≤ l) : t'.Refreshed k' u v g' := by
  refine ⟨h'.view, h'.isOpen, h'.decorator.trans h.decorator, h'.config.trans h.config, h'.sizes,
    fun x hx => ?_⟩
  have hsize : (x.name, x.docCount) ∈ g'.sizes := h'.sizes ▸ View.mem_sizes hx
  rw [h'.deletes x hx]
  refine hv.deletesNamed_trans h.deletes (h.names hnames) fun m hm => ?_
  rw [h.sizes]
  exact hshared x.name m x.docCount hm hsize

/-- Views that are refreshed from one view by one generation agree. -/
theorem agree (h : t.Refreshed k w v g) (h' : t'.Refreshed k' u v g) (hw : w.Sound)
    (hu : u.Sound) : u.starts = w.starts ∧
      u.segments.map Snapshot.name = w.segments.map Snapshot.name ∧
      u.segments.map Snapshot.deletes = w.segments.map Snapshot.deletes := by
  have hsizes : u.sizes = w.sizes := h'.sizes.trans h.sizes.symm
  refine ⟨View.starts_eq_of_sizes hw hu hsizes, ?_, ?_⟩
  · rw [← View.map_fst_sizes, hsizes, View.map_fst_sizes]
  · rw [View.map_deletes h'.deletes, hsizes, View.map_deletes h.deletes]

end Refreshed

variable [SegmentStore σ]

/-- A view of a reachable system with different names is regular. -/
theorem Reachable.regular {s : System σ P} (hs : s.Reachable) {k : Nat} {v : View P}
    (hv : s.view? k = some v) (hnames : (v.segments.map Snapshot.name).Nodup) : v.Regular where
  sound := hs.sound hv
  exact := hs.exact hv
  names := hnames

/-- A reopen refreshes the view, also where it answers the view itself: the view then is of
the version that the store has. -/
theorem reopen_refreshed {s : System σ P} (hs : s.Reachable) {k : Nat} {v : View P}
    (hv : s.view? k = some v) (hopen : s.isClosed v = false) (hd : v.decorator.Total)
    (hpolicy : v.config.reusePolicy = .byName) (hnames : (v.segments.map Snapshot.name).Nodup)
    {g : Generation} (hvalid : SegmentStore.ValidFor s.store g v.config)
    (hkeeps : SegmentStore.KeepsSizes s.store g (s.version v) v.sizes) (nanos : Nat) :
    ∃ answer w, (s.reopen k nanos).result = .ok answer ∧
      (s.reopen k nanos).system.Refreshed (answer.slot k) w v g ∧
      ((s.reopen k nanos).system.version w = s.version v ∧ g.sizes = v.sizes ∨
        (s.reopen k nanos).system.version w = g.version) := by
  rcases reopen_of_open hv hopen hvalid.composite nanos with
    ⟨hunchanged, hresult, hsystem⟩ | ⟨-, hresult, hsystem⟩
  · have hsizes := hkeeps hunchanged
    rw [hsystem]
    exact ⟨.same, v, hresult, ⟨hv, hopen, rfl, rfl, hsizes.symm,
      fun x hx => (hs.regular hv hnames).deletesNamed_self hx⟩, .inl ⟨rfl, hsizes⟩⟩
  · obtain ⟨b, hb⟩ := hvalid.outlined
    obtain ⟨a, ha, hok, hpresents⟩ := presents_openGeneration hvalid.composite
      hvalid.enumerated hd hb v.segments
    rw [hsystem]
    refine ⟨.fresh s.views.length, _, by rw [hresult, hok]; rfl, ⟨hpresents.view,
      hpresents.isOpen, rfl, rfl, View.sizes_of_leaves hpresents.leaves, fun x hx => ?_⟩,
      .inr hpresents.version⟩
    have hdeletes := (Generation.made_of_assemble ha).deletes x hx
    rw [hpolicy, inheritedDeletes_byName] at hdeletes
    exact hdeletes

/-- Skipping a generation makes no difference. Let a view be reopened at one state of the
store and the result again at a later state, both valid for the configuration of the view and
with different names. If every name that the view and the later state share is there in
between, with a size not below the smaller of its two, then the result has the boundaries,
names and deletes, committed and staged, of the view reopened once at the later state. -/
theorem reopen_twice_eq_once {s : System σ P} (hs : s.Reachable) {k : Nat} {v : View P}
    (hv : s.view? k = some v) (hopen : s.isClosed v = false) (hd : v.decorator.Total)
    (hpolicy : v.config.reusePolicy = .byName) (hnames : (v.segments.map Snapshot.name).Nodup)
    {S₁ S₂ : σ} {g₁ g₂ : Generation} (hvalid₁ : SegmentStore.ValidFor S₁ g₁ v.config)
    (hvalid₂ : SegmentStore.ValidFor S₂ g₂ v.config)
    (hnames₁ : (g₁.sizes.map Prod.fst).Nodup)
    (hshared : ∀ name m n, (name, m) ∈ v.sizes → (name, n) ∈ g₂.sizes →
      ∃ l, (name, l) ∈ g₁.sizes ∧ min m n ≤ l)
    (hkeeps₁ : SegmentStore.KeepsSizes S₁ g₁ (s.version v) v.sizes)
    (hkeeps₂ : SegmentStore.KeepsSizes S₂ g₂ (s.version v) v.sizes)
    (hkeeps : SegmentStore.KeepsSizes S₂ g₂ g₁.version g₁.sizes) (nanos nanos₁ nanos₂ : Nat) :
    let once := { s with store := S₂ }.reopen k nanos
    let first := { s with store := S₁ }.reopen k nanos₁
    let second := fun j => { first.system with store := S₂ }.reopen j nanos₂
    ∃ answer answer₁ answer₂ w w₂, once.result = .ok answer ∧ first.result = .ok answer₁ ∧
      (second (answer₁.slot k)).result = .ok answer₂ ∧
      once.system.view? (answer.slot k) = some w ∧
      (second (answer₁.slot k)).system.view? (answer₂.slot (answer₁.slot k)) = some w₂ ∧
      w₂.starts = w.starts ∧
      w₂.segments.map Snapshot.name = w.segments.map Snapshot.name ∧
      w₂.segments.map Snapshot.deletes = w.segments.map Snapshot.deletes := by
  intro once first second
  have hs₁ : Reachable { s with store := S₁ } := hs.step (.changeStore fun _ => S₁)
  have hs₂ : Reachable { s with store := S₂ } := hs.step (.changeStore fun _ => S₂)
  have honce : once.system.Reachable := hs₂.step (.reopen k nanos)
  obtain ⟨answer, w, hanswer, hw, -⟩ :=
    reopen_refreshed hs₂ hv hopen hd hpolicy hnames hvalid₂ hkeeps₂ nanos
  obtain ⟨answer₁, w₁, hanswer₁, hw₁, hversion₁⟩ :=
    reopen_refreshed hs₁ hv hopen hd hpolicy hnames hvalid₁ hkeeps₁ nanos₁
  have hfirst : Reachable { first.system with store := S₂ } :=
    (hs₁.step (.reopen k nanos₁)).step (.changeStore fun _ => S₂)
  -- Whether the first reopen answered the view itself or not, the second one may answer its
  -- view only where the generation has the sizes of it.
  have hkeeps₁₂ : SegmentStore.KeepsSizes S₂ g₂ (first.system.version w₁) w₁.sizes := by
    intro hunchanged
    rw [hw₁.sizes]
    rcases hversion₁ with ⟨hversion, hsizes⟩ | hversion
    · rw [hversion] at hunchanged
      exact (hkeeps₂ hunchanged).trans hsizes.symm
    · rw [hversion] at hunchanged
      exact hkeeps hunchanged
  obtain ⟨answer₂, w₂, hanswer₂, hw₂, -⟩ :=
    reopen_refreshed hfirst hw₁.view hw₁.isOpen (hw₁.decorator ▸ hd) (hw₁.config ▸ hpolicy)
      (hw₁.names hnames₁) (hw₁.config ▸ hvalid₂) hkeeps₁₂ nanos₂
  have hsecond : (second (answer₁.slot k)).system.Reachable := hfirst.step (.reopen _ nanos₂)
  have hskipped := hw₁.trans hw₂ (hs.regular hv hnames) hnames₁ hshared
  have hagree := hw.agree hskipped (honce.sound hw.view) (hsecond.sound hw₂.view)
  exact ⟨answer, answer₁, answer₂, w, w₂, hanswer, hanswer₁, hanswer₂, hw.view, hw₂.view, hagree⟩

/-- Segment "a" shrinks from 4 documents to 3 and to 2 while "b" grows from 3 to 5 and "c"
joins: reopened twice or once, the view has the same deletes, of which one of "a" was cut
off. -/
theorem reopen_twice_eq_once_of_resizing :
    let s := ({ store := .ofSegments [.sequential "a" 0 4, .sequential "b" 10 3] } :
      System SegmentList Segment).run
        [.openView .segments {}, .markAt 0 [1, 5], .commit 0, .markAt 0 [3, 6]]
    let S₁ := ((s.store.change (.replace (.sequential "a" 0 3))).1.change
      (.add (.sequential "c" 20 1))).1
    let S₂ := ((S₁.change (.replace (.sequential "a" 0 2))).1.change
      (.replace (.sequential "b" 10 5))).1
    let once := { s with store := S₂ }.reopen 0 0
    let first := { s with store := S₁ }.reopen 0 0
    let second := { first.system with store := S₂ }.reopen 1 0
    ∃ w w₂, once.system.view? 1 = some w ∧ second.system.view? 2 = some w₂ ∧
      w₂.segments.map Snapshot.deletes = w.segments.map Snapshot.deletes ∧
      w.deleteSets = ⟨{1, 3}, {4}⟩ := by
  intro s S₁ S₂ once first second
  have hs : s.Reachable := ⟨_, _, rfl⟩
  obtain ⟨v, hv, hopen, hdecorator, hconfig, hversion, hsizes⟩ : ∃ v, s.view? 0 = some v ∧
      s.isClosed v = false ∧ v.decorator = .segments ∧ v.config = {} ∧ s.version v = 1 ∧
      v.sizes = [("a", 4), ("b", 3)] := ⟨_, rfl, rfl, rfl, rfl, rfl, rfl⟩
  have hsizes₁ : S₁.generation.sizes = [("a", 3), ("b", 3), ("c", 1)] := rfl
  have hsizes₂ : S₂.generation.sizes = [("a", 2), ("b", 5), ("c", 1)] := rfl
  have hnames : (v.segments.map Snapshot.name).Nodup := by
    rw [← View.map_fst_sizes, hsizes]
    decide
  have hvalid₁ : SegmentStore.ValidFor S₁ S₁.generation v.config := by
    rw [hconfig]
    exact ⟨rfl, rfl, _, rfl⟩
  have hvalid₂ : SegmentStore.ValidFor S₂ S₂.generation v.config := by
    rw [hconfig]
    exact ⟨rfl, rfl, _, rfl⟩
  have hshared : ∀ name m n, (name, m) ∈ v.sizes → (name, n) ∈ S₂.generation.sizes →
      ∃ l, (name, l) ∈ S₁.generation.sizes ∧ min m n ≤ l := by
    intro name m n hm hn
    rw [hsizes] at hm
    rw [hsizes₂] at hn
    rw [hsizes₁]
    simp only [List.mem_cons, Prod.mk.injEq, List.not_mem_nil, or_false] at hm hn
    rcases hm with ⟨rfl, rfl⟩ | ⟨rfl, rfl⟩
    · obtain rfl : n = 2 := by simpa using hn
      exact ⟨3, by simp, by decide⟩
    · obtain rfl : n = 5 := by simpa using hn
      exact ⟨3, by simp, by decide⟩
  -- The version moved on from each state to the next.
  have hmoved : ∀ {S : SegmentList} {g : Generation} {n : Nat} {sizes : List (String × Nat)},
      SegmentStore.hasChangedSince S n = true → SegmentStore.KeepsSizes S g n sizes := by
    intro S g n sizes hchanged hunchanged
    rw [hchanged] at hunchanged
    cases hunchanged
  obtain ⟨answer, answer₁, answer₂, w, w₂, honce, hfirst, hsecond, hw, hw₂, -, -, hdeletes⟩ :=
    reopen_twice_eq_once hs hv hopen (hdecorator ▸ Decorator.total_segments)
      (by rw [hconfig]) hnames hvalid₁ hvalid₂ (by rw [hsizes₁]; decide) hshared
      (hmoved (by rw [hversion]; decide)) (hmoved (by rw [hversion]; decide))
      (hmoved (by decide)) 0 0 0
  have hfresh : once.result = .ok (.fresh 1) := by decide +kernel
  have hfresh₁ : first.result = .ok (.fresh 1) := by decide +kernel
  have hfresh₂ : second.result = .ok (.fresh 2) := by decide +kernel
  obtain rfl := Except.ok.inj (honce.symm.trans hfresh)
  obtain rfl := Except.ok.inj (hfirst.symm.trans hfresh₁)
  obtain rfl := Except.ok.inj (hsecond.symm.trans hfresh₂)
  have hsets : (once.system.view? 1).map View.deleteSets = some ⟨{1, 3}, {4}⟩ := by
    decide +kernel
  rw [show once.system.view? 1 = some w from hw] at hsets
  exact ⟨w, w₂, hw, hw₂, hdeletes, Option.some.inj hsets⟩

end System

end SegmentedView
