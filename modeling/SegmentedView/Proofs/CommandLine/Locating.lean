import SegmentedView.CommandLine.Execution
import SegmentedView.Proofs.Refresh.MergedViews

/-!
# Locating positions from the command line

A command is stopped when a segment would have more documents than a list has ids
(`withView_eq_none_iff`). Otherwise the list made for segments of given sizes numbers its
documents through (`SegmentList.ids_ofSizes`), and the command asks a view that presents this
list, closes it, and leaves the list released once (`opened_presents`, `withView_of_answer`). The
places, the offsets and the ids of the located positions and the table of starts therefore agree
(`locates_positions`).
-/

set_option autoImplicit false

namespace SegmentedView

namespace SegmentList

/-! ## Lists for given sizes -/

/-- The entries of a list that starts with segments are these segments, in order. -/
theorem map_entries_ofSegments {α : Type} (f : Entry → α) (g : MemorySegment → α)
    (hfg : ∀ serial m, f (.segment serial m) = g m) (ms : List MemorySegment) :
    (ofSegments ms).entries.map f = ms.map g := by
  have hentry : (f ∘ fun x : MemorySegment × Nat => Entry.segment x.2 x.1) = g ∘ Prod.fst :=
    funext fun x => hfg x.2 x.1
  change ((ms.zipIdx.map fun x => Entry.segment x.2 x.1).map f) = _
  rw [List.map_map, hentry, ← List.map_map, List.zipIdx_map_fst]

/-- Segments of given sizes have these sizes. -/
theorem docCounts_sized (i first : Nat) (sizes : List Nat)
    (fit : ∀ size ∈ sizes, size ≤ maxIds) :
    (sized i first sizes fit).map MemorySegment.docCount = sizes := by
  induction sizes generalizing i first with
  | nil => rfl
  | cons size sizes ih =>
    rw [sized, List.map_cons, ih]
    exact congrArg (· :: sizes) List.length_range'

/-- The ids run on from one segment to the next. -/
theorem ids_sized (i first : Nat) (sizes : List Nat) (fit : ∀ size ∈ sizes, size ≤ maxIds) :
    ((sized i first sizes fit).map MemorySegment.ids).flatten =
      List.range' first sizes.sum := by
  induction sizes generalizing i first with
  | nil => rfl
  | cons size sizes ih =>
    rw [sized, List.map_cons, List.flatten_cons, ih, List.sum_cons]
    exact List.range'_append_1

variable {sizes : List Nat} (fit : ∀ size ∈ sizes, size ≤ maxIds)

/-- The list for given sizes has a segment of each size, in order. -/
theorem docCounts_ofSizes : (ofSizes sizes fit).entries.map Entry.docCount = sizes := by
  unfold ofSizes
  rw [map_entries_ofSegments _ MemorySegment.docCount fun _ _ => rfl, docCounts_sized]

/-- The document at a position of the list has the position for its id. -/
theorem ids_ofSizes : (ofSizes sizes fit).ids = List.range sizes.sum := by
  unfold ids ofSizes
  rw [map_entries_ofSegments _ MemorySegment.ids fun _ _ => rfl, ids_sized,
    List.range_eq_range']

/-- The list for given sizes has segments only. -/
theorem foreign_notMem_ofSizes (kind : String) :
    Entry.foreign kind ∉ (ofSizes sizes fit).entries := by
  intro hmem
  obtain ⟨x, -, hx⟩ := List.mem_map.1 hmem
  cases hx

/-- Segments whose documents can be counted can be laid out, checked or not. -/
theorem exists_outline_ofSizes (hsum : sizes.sum ≤ maxWord) (config : Config) :
    ∃ b, (ofSizes sizes fit).generation.outline config = .ok b := by
  have hlength : (ofSizes sizes fit).ids.length = sizes.sum := by
    rw [ids_ofSizes, List.length_range]
  refine (exists_outline (foreign_notMem_ofSizes fit) config).2 ⟨?_, fun _ => ?_⟩
  · rwa [hlength]
  · rw [docCount_eq]
    rfl

end SegmentList

namespace System

variable {σ P : Type} [SegmentStore σ]

/-- Closing the only holder of a generation gives the generation back, and dropping it then does
nothing more. -/
theorem close_drop_of_new {s : System σ P} {slot version : Nat} {v : View P}
    (hv : s.view? slot = some v) (hclosed : v.closed = false)
    (hlease : s.lease v.lease = Lease.new version) : (s.close slot).result = .ok () ∧
      ((s.close slot).system.drop slot).system.store = SegmentStore.release s.store version := by
  have hclose : s.close slot =
      (s.setView slot { v with closed := true }).giveBackLease v.lease := by
    unfold close
    rw [findView_eq_ok_iff.2 hv]
    simp [hclosed]
  have hreturned : (s.lease v.lease).giveBack s.store =
      ⟨.ok (), { Lease.new version with refs := 0, released := true },
        SegmentStore.release s.store version, [.releasing version]⟩ := by
    rw [hlease]
    rfl
  refine ⟨?_, ?_⟩
  · rw [hclose]
    exact congrArg Lease.Returned.result hreturned
  · have hview : (s.close slot).system.view? slot = some { v with closed := true } := by
      rw [hclose]
      exact view?_setView_self hv
    have hdrop : ((s.close slot).system.drop slot).system.store =
        (s.close slot).system.store := by
      unfold drop
      rw [findView_eq_ok_iff.2 hview]
      rfl
    rw [hdrop, hclose]
    exact congrArg Lease.Returned.store hreturned

end System

namespace CommandLine

variable {α : Type} {sizes : List Nat} {config : Config}

/-! ## Sizes that stop a command -/

/-- A command is stopped exactly when one of the sizes is larger than a list of ids. -/
theorem withView_eq_none_iff (ask : System SegmentList Segment → Nat → Except Error α) :
    withView sizes config ask = none ↔ ∃ size ∈ sizes, maxIds < size := by
  unfold withView SegmentList.ofSizes?
  split
  case isTrue fit =>
    simp only [Option.map_some, reduceCtorEq, false_iff]
    rintro ⟨size, hmem, hlarge⟩
    exact absurd (fit size hmem) (by omega)
  case isFalse large =>
    simp only [Option.map_none, true_iff]
    simpa using large

/-- A command that is not stopped asks a view over the list for its sizes. -/
theorem withView_of_fit (fit : ∀ size ∈ sizes, size ≤ maxIds)
    (ask : System SegmentList Segment → Nat → Except Error α) :
    withView sizes config ask = some (askView (.ofSizes sizes fit) config ask) := by
  unfold withView SegmentList.ofSizes?
  rw [dif_pos fit, Option.map_some]

/-! ## The view that is asked -/

/-- The opening that a command asks the view of. -/
def opened (store : SegmentList) (config : Config) : Outcome SegmentList Segment Nat :=
  ({ store := store } : System SegmentList Segment).openView .segments config

/-- Sizes whose sum is a word can be opened, with or without the check of the counts: the view
has the table of the sizes, answers a position below their sum with the position as id, and is
the only holder of the list. -/
theorem opened_presents (fit : ∀ size ∈ sizes, size ≤ maxIds) (hsum : sizes.sum ≤ maxWord)
    (config : Config) :
    (opened (.ofSizes sizes fit) config).result = .ok 0 ∧
      (opened (.ofSizes sizes fit) config).system.store = .ofSizes sizes fit ∧
      ∃ v, (opened (.ofSizes sizes fit) config).system.view? 0 = some v ∧
        (opened (.ofSizes sizes fit) config).system.isClosed v = false ∧
        v.boundaries.IsTableOf sizes ∧ v.segments.length = sizes.length ∧
        (∀ p, v.stableIdAt p = (List.range sizes.sum)[p]?) ∧
        (opened (.ofSizes sizes fit) config).system.lease v.lease =
          Lease.new (SegmentList.ofSizes sizes fit).version := by
  obtain ⟨b, hb⟩ := SegmentList.exists_outline_ofSizes fit hsum config
  obtain ⟨a, ha, -⟩ := Decorator.total_segments.exists_assemble hb [] 0
  let start : System SegmentList Segment := { store := .ofSizes sizes fit }
  have hk : System.checkComposite start.store = .ok () := rfl
  have hg : (SegmentStore.enumerate start.store).1 = .ok start.store.generation := rfl
  obtain ⟨hresult, hstore, hpresents⟩ := System.presents_of_assemble hk hg ha
  have hlease := System.lease_of_assemble hk hg ha
  have hreachable : (opened (.ofSizes sizes fit) config).system.Reachable :=
    (System.reachable_start start.store).step (.openView .segments config)
  have hsound := hreachable.sound hpresents.view
  have hcounts := View.counts_of_leaves hpresents.leaves
  rw [SegmentList.docCounts_ofSizes] at hcounts
  refine ⟨?_, hstore, _, hpresents.view, hpresents.isOpen, hcounts ▸ hsound.table, ?_,
    fun p => ?_, hlease⟩
  · change (start.openGeneration [] .segments config).result.map (·.1) = .ok 0
    rw [hresult]
    rfl
  · have hlength := congrArg List.length hcounts
    rwa [View.counts, List.length_map] at hlength
  · rw [hsound.stableIdAt_of_leaves hpresents.leaves, SegmentList.ids_ofSizes]

/-- What is asked of that view is answered, and the list has been released once by then. -/
theorem withView_of_answer (fit : ∀ size ∈ sizes, size ≤ maxIds)
    (hsum : sizes.sum ≤ maxWord) (ask : System SegmentList Segment → Nat → Except Error α)
    {answer : α} (hask : ask (opened (.ofSizes sizes fit) config).system 0 = .ok answer) :
    ∃ outcome, withView sizes config ask = some outcome ∧ outcome.result = .ok answer ∧
      outcome.system.store.releases = [(SegmentList.ofSizes sizes fit).version] := by
  obtain ⟨hresult, hstore, v, hv, hopen, -, -, -, hlease⟩ := opened_presents fit hsum config
  have hclosed : v.closed = false := (Bool.or_eq_false_iff.1 hopen).1
  obtain ⟨hclose, hreleased⟩ := System.close_drop_of_new hv hclosed hlease
  refine ⟨_, withView_of_fit fit ask, ?_⟩
  unfold opened at hresult hask hclose hreleased hstore
  unfold askView
  dsimp only
  rw [hresult]
  dsimp only
  rw [hask]
  dsimp only
  rw [hclose, hreleased, hstore]
  exact ⟨rfl, rfl⟩

/-! ## What the commands answer -/

/-- What a view makes of a position. -/
def resolution (v : View Segment) (p : Nat) : Resolution :=
  ⟨p, (v.locate p).map (·.1), (v.locate p).map (·.2), v.stableIdAt p⟩

/-- Positions are resolved one by one, whatever comes before them. -/
theorem resolve_of_open {s : System SegmentList Segment} {slot : Nat} {v : View Segment}
    (hv : s.view? slot = some v) (hopen : s.isClosed v = false) (positions : List Nat) :
    resolve s slot positions = .ok (positions.map (resolution v)) := by
  have hid : ∀ p, s.stableIdAt slot p = .ok (v.stableIdAt p) := by
    intro p
    unfold System.stableIdAt
    rw [System.findOpenView_eq_ok_iff.2 ⟨hv, hopen⟩]
    rfl
  induction positions with
  | nil => rfl
  | cons p positions ih =>
    unfold resolve
    rw [System.findView_eq_ok_iff.2 hv, hid, ih]
    rfl

/-- The position `p` is the document at offset `l` of segment `i`. -/
def HoldsAt (sizes : List Nat) (p i l : Nat) : Prop :=
  ∃ size, sizes[i]? = some size ∧ l < size ∧ (sizes.take i).sum + l = p

section Resolutions

variable {v : View Segment} {p : Nat}

/-- A view locates a position in the segment and at the offset that hold it. -/
theorem locate_eq_some_iff_holdsAt (htable : v.boundaries.IsTableOf sizes) {i l : Nat} :
    v.locate p = some (i, l) ↔ HoldsAt sizes p i l := by
  unfold View.locate
  rw [Boundaries.locate_eq_some_iff htable]
  unfold HoldsAt Boundaries.startOf
  simp only [eq_comm]

/-- A position below the sum is one document and no other, and resolved to it. -/
theorem resolution_of_lt (htable : v.boundaries.IsTableOf sizes)
    (hids : ∀ p, v.stableIdAt p = (List.range sizes.sum)[p]?) (hp : p < sizes.sum) :
    ∃ i l, (∀ j m, HoldsAt sizes p j m ↔ j = i ∧ m = l) ∧
      resolution v p = ⟨p, some i, some l, some p⟩ := by
  obtain ⟨i, l, hloc⟩ := Boundaries.exists_locate htable hp
  have hview : v.locate p = some (i, l) := hloc
  refine ⟨i, l, fun j m => ?_, ?_⟩
  · rw [← locate_eq_some_iff_holdsAt htable, hview]
    simp [eq_comm]
  · unfold resolution
    rw [hview, hids, List.getElem?_range hp]
    rfl

/-- A position from the sum on is resolved to nothing. -/
theorem resolution_of_le (htable : v.boundaries.IsTableOf sizes)
    (hids : ∀ p, v.stableIdAt p = (List.range sizes.sum)[p]?) (hp : sizes.sum ≤ p) :
    resolution v p = ⟨p, none, none, none⟩ := by
  have hview : v.locate p = none := (Boundaries.locate_eq_none_iff htable).2 hp
  have hid : (List.range sizes.sum)[p]? = none := List.getElem?_eq_none (by simpa using hp)
  unfold resolution
  rw [hview, hids, hid]
  rfl

/-- The start of the segment that holds a position and the offset add up to the position. -/
theorem start_of_holdsAt {b : Boundaries} (htable : b.IsTableOf sizes) {i l : Nat}
    (h : HoldsAt sizes p i l) : ∃ start, b.starts.toList[i]? = some start ∧ start + l = p := by
  obtain ⟨size, hsize, -, hp⟩ := h
  obtain ⟨hi, -⟩ := List.getElem?_eq_some_iff.1 hsize
  refine ⟨(sizes.take i).sum, ?_, hp⟩
  rw [Array.getElem?_toList]
  exact htable.start i hi.le

end Resolutions

/-- The command that locates positions is right for all sizes whose sum is a word, all positions
and all configurations. It is stopped exactly when one of the sizes is larger than a list of ids,
as is the command that answers the boundaries. Otherwise it answers one resolution for each
position, in order: below the sum the one segment and the one offset in it that the position
belongs to, and the position itself as id; from the sum on nothing. The boundaries of the same
sizes are answered too, and their start of that segment and the offset add up to the position.
Both commands release the list that they opened exactly once. -/
theorem locates_positions {sizes : List Nat} (hsum : sizes.sum ≤ maxWord)
    (positions : List Nat) (config : Config) :
    (locateReport sizes positions config = none ↔ ∃ size ∈ sizes, maxIds < size) ∧
    (startsReport sizes config = none ↔ ∃ size ∈ sizes, maxIds < size) ∧
    ∀ fit : ∀ size ∈ sizes, size ≤ maxIds, ∃ located started resolutions report,
      locateReport sizes positions config = some located ∧
      startsReport sizes config = some started ∧
      located.result = .ok resolutions ∧ started.result = .ok report ∧
      resolutions.map Resolution.position = positions ∧
      report.segments = sizes.length ∧ report.total = sizes.sum ∧
      (∀ r ∈ resolutions, r.position < sizes.sum → ∃ i l,
        (∀ j m, HoldsAt sizes r.position j m ↔ j = i ∧ m = l) ∧
        r.segment = some i ∧ r.offset = some l ∧ r.stableId = some r.position ∧
        ∃ start, report.starts[i]? = some start ∧ start + l = r.position) ∧
      (∀ r ∈ resolutions, sizes.sum ≤ r.position →
        r.segment = none ∧ r.offset = none ∧ r.stableId = none) ∧
      located.system.store.releases = [(SegmentList.ofSizes sizes fit).version] ∧
      started.system.store.releases = [(SegmentList.ofSizes sizes fit).version] := by
  refine ⟨withView_eq_none_iff _, withView_eq_none_iff _, fun fit => ?_⟩
  -- Both commands ask the same view, which presents the list.
  obtain ⟨-, -, v, hv, hopen, htable, hlength, hids, -⟩ := opened_presents fit hsum config
  obtain ⟨located, hlocate, hlocated, hreleased⟩ := withView_of_answer fit hsum
    (fun s slot => resolve s slot positions) (resolve_of_open hv hopen positions)
  let boundaries (s : System SegmentList Segment) (slot : Nat) : Except Error StartsReport :=
    (s.findView slot).map fun v => ⟨v.segments.length, v.total, v.starts.toList⟩
  have hreport : boundaries (opened (.ofSizes sizes fit) config).system 0 =
      .ok ⟨v.segments.length, v.total, v.starts.toList⟩ := by
    unfold boundaries
    rw [System.findView_eq_ok_iff.2 hv]
    rfl
  obtain ⟨started, hstart, hstarted, hreleased'⟩ := withView_of_answer fit hsum boundaries hreport
  refine ⟨located, started, _, _, hlocate, hstart, hlocated, hstarted, ?_, hlength,
    htable.total, ?_, ?_, hreleased, hreleased'⟩
  · rw [List.map_map]
    exact List.map_id' positions
  · intro r hr hlt
    obtain ⟨p, -, rfl⟩ := List.mem_map.1 hr
    change p < sizes.sum at hlt
    obtain ⟨i, l, hunique, hresolved⟩ := resolution_of_lt htable hids hlt
    have hstart := start_of_holdsAt htable ((hunique i l).2 ⟨rfl, rfl⟩)
    rw [hresolved]
    exact ⟨i, l, hunique, rfl, rfl, rfl, hstart⟩
  · intro r hr hle
    obtain ⟨p, -, rfl⟩ := List.mem_map.1 hr
    change sizes.sum ≤ p at hle
    rw [resolution_of_le htable hids hle]
    exact ⟨rfl, rfl, rfl⟩

/-- An empty segment in the middle is passed over, and the sum is no position. -/
theorem locates_positions_past_an_empty_segment : [5, 0, 3].sum ≤ maxWord ∧
    ∃ located start outside, locateReport [5, 0, 3] [5, 8] {} = some located ∧
      located.result = .ok [start, outside] ∧
      HoldsAt [5, 0, 3] 5 2 0 ∧ start.segment = some 2 ∧ start.offset = some 0 ∧
      start.stableId = some 5 ∧ outside.segment = none ∧ outside.stableId = none ∧
      located.system.store.releases = [1] := by
  have hsum : [5, 0, 3].sum ≤ maxWord := by decide
  have hholds : HoldsAt [5, 0, 3] 5 2 0 := ⟨3, rfl, by decide, rfl⟩
  obtain ⟨-, -, hanswers⟩ := locates_positions hsum [5, 8] {}
  obtain ⟨located, -, resolutions, report, hlocate, -, hresult, -, hpositions, -, -, hinside,
    houtside, hreleases, -⟩ := hanswers (by decide)
  obtain ⟨start, outside, rfl⟩ : ∃ start outside, resolutions = [start, outside] :=
    List.length_eq_two.1 (by simpa using congrArg List.length hpositions)
  obtain ⟨hfive, height⟩ : start.position = 5 ∧ outside.position = 8 := by
    simpa using hpositions
  obtain ⟨i, l, hunique, hsegment, hoffset, hid, -⟩ := hinside start (by simp) (by
    rw [hfive]
    decide)
  rw [hfive] at hunique hid
  obtain ⟨rfl, rfl⟩ := (hunique 2 0).1 hholds
  obtain ⟨hnone, -, hnoId⟩ := houtside outside (by simp) (by
    rw [height]
    decide)
  exact ⟨hsum, located, start, outside, hlocate, hresult, hholds, hsegment, hoffset, hid,
    hnone, hnoId, hreleases⟩

/-- One segment of `2 ^ 60` documents has a sum that is a word, and yet its first position is not
answered: the ids of the segment do not fit a list. -/
theorem locates_nothing_in_too_large_a_segment : [2 ^ 60].sum ≤ maxWord ∧
    ¬ ∃ located resolutions, locateReport [2 ^ 60] [0] {} = some located ∧
      located.result = .ok resolutions := by
  have hlarge : ∃ size ∈ [2 ^ 60], maxIds < size := ⟨2 ^ 60, List.mem_singleton_self _, by decide⟩
  have hstopped : locateReport [2 ^ 60] [0] {} = none := (withView_eq_none_iff _).2 hlarge
  refine ⟨by decide, ?_⟩
  rintro ⟨located, resolutions, hlocate, -⟩
  rw [hstopped] at hlocate
  cases hlocate

end CommandLine

end SegmentedView
