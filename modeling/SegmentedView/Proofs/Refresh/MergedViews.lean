import SegmentedView.Proofs.Refresh.FreshOpen
import SegmentedView.Proofs.Store.Merging
import SegmentedView.Proofs.System.Twins
import SegmentedView.Proofs.View.Refusals

/-!
# Views of a merged list

What an opening or a reopen answers over a segment list shows the documents of the list as it is
now (`System.Shows.ids`), and over a list of segments alone there is such a view where the
documents can be counted (`System.exists_openView`). A merge changes nothing of that but the
order, so it loses and doubles no document (`System.merging_keeps_documents`).
-/

set_option autoImplicit false

namespace SegmentedView

variable {P : Type}

/-- The ids at all positions of a view, in order. -/
def View.idsInOrder (v : View P) : List (Option Nat) := (List.range v.total).map v.stableIdAt

namespace SegmentList

/-- An entry has an id for every document. -/
theorem Entry.docCount_eq_length (e : Entry) : e.docCount = e.ids.length := by
  cases e <;> rfl

/-- The counts of the entries add up to the number of ids. -/
theorem sum_docCounts (s : SegmentList) : (s.entries.map Entry.docCount).sum = s.ids.length := by
  rw [ids_eq_flatMap, List.length_flatMap]
  exact congrArg List.sum (List.map_congr_left fun e _ => e.docCount_eq_length)

/-- An enumeration reports the number that the list was told to report, or that of its ids. -/
theorem docCount_eq (s : SegmentList) : s.docCount = s.reportedDocCount.getD s.ids.length :=
  congrArg s.reportedDocCount.getD s.sum_docCounts

/-- A list without leaves of other kinds is a list of segments. -/
theorem exists_segments {entries : List Entry} (h : ∀ kind, Entry.foreign kind ∉ entries) :
    ∃ segments : List Segment, entries.map Entry.toLeaf = segments.map Leaf.segment ∧
      segments.map Segment.docCount = entries.map Entry.docCount := by
  induction entries with
  | nil => exact ⟨[], rfl, rfl⟩
  | cons e entries ih =>
    obtain ⟨segments, hleaves, hcounts⟩ := ih fun kind hmem => h kind (List.mem_cons_of_mem e hmem)
    cases e with
    | foreign kind => exact absurd List.mem_cons_self (h kind)
    | segment serial m =>
      refine ⟨m.toSegment serial :: segments, ?_, ?_⟩
      · rw [List.map_cons, hleaves]
        rfl
      · rw [List.map_cons, hcounts]
        rfl

/-- Segments can be laid out exactly when their documents can be counted, and are as many as the
list reports where that is asked for. -/
theorem exists_outline {s : SegmentList} (h : ∀ kind, Entry.foreign kind ∉ s.entries)
    (config : Config) : (∃ b, s.generation.outline config = .ok b) ↔
      s.ids.length ≤ maxWord ∧
        (config.validateDocCounts = true → s.ids.length = s.docCount) := by
  obtain ⟨segments, hleaves, hcounts⟩ := exists_segments h
  have hsum : (segments.map Segment.docCount).sum = s.ids.length := by
    rw [hcounts, sum_docCounts]
  have houtline : s.generation.outline config =
      s.generation.layOut config (segments.map Segment.docCount) := by
    have hsegments : segmentsOf s.generation.leaves = .ok segments := by
      rw [← segmentsOf_map]
      exact congrArg segmentsOf hleaves
    unfold Generation.outline
    rw [hsegments]
  have hreports : s.generation.docCount = s.docCount := rfl
  have hsucceeds (x : Except Error Boundaries) : (∃ b, x = .ok b) ↔ ∀ e, ¬ x = .error e := by
    cases x <;> simp
  rw [houtline, hsucceeds]
  simp only [Generation.layOut_eq_error_iff, hsum, hreports]
  constructor
  · intro h
    have hfits : s.ids.length ≤ maxWord := by
      by_contra hover
      exact h _ (.inl ⟨Nat.lt_of_not_le hover, rfl⟩)
    refine ⟨hfits, fun hvalidate => ?_⟩
    by_contra hne
    exact h _ (.inr ⟨hfits, hvalidate, hne, rfl⟩)
  · rintro ⟨hfits, hequal⟩ e (⟨hover, -⟩ | ⟨-, hvalidate, hne, -⟩)
    · omega
    · exact hne (hequal hvalidate)

end SegmentList

/-! ## What openings and reopens show -/

/-- A view of the entries of a list has a segment of each entry's count. -/
theorem View.counts_of_leaves {v : View P} {store : SegmentList}
    (hleaves : v.segments.map (fun x => Leaf.segment x.segment) = store.generation.leaves) :
    v.counts = store.entries.map SegmentList.Entry.docCount := by
  have hmap := congrArg (List.map fun leaf => (leaf.segment?.map Segment.docCount).getD 0) hleaves
  change _ = (store.entries.map SegmentList.Entry.toLeaf).map _ at hmap
  rw [List.map_map, List.map_map] at hmap
  refine hmap.trans (List.map_congr_left fun e _ => ?_)
  cases e <;> rfl

/-- A view of the entries of a list has the ids of the list, in order. -/
theorem View.Sound.idsInOrder_of_leaves {v : View P} (h : v.Sound) {store : SegmentList}
    (hleaves : v.segments.map (fun x => Leaf.segment x.segment) = store.generation.leaves) :
    v.total = store.ids.length ∧ v.idsInOrder = store.ids.map some := by
  have htotal : v.total = store.ids.length := by
    rw [h.total, View.counts_of_leaves hleaves, store.sum_docCounts]
  refine ⟨htotal, ?_⟩
  unfold View.idsInOrder
  rw [htotal]
  apply List.ext_getElem?
  intro p
  rw [List.getElem?_map, List.getElem?_map]
  by_cases hp : p < store.ids.length
  · rw [List.getElem?_range hp, Option.map_some, h.stableIdAt_of_leaves hleaves,
      List.getElem?_eq_getElem hp, Option.map_some]
  · rw [List.getElem?_eq_none (by simpa using hp), List.getElem?_eq_none (by omega)]
    rfl

namespace System

/-- The views of the store as it is now: those there are of its version, and what an opening or
a reopen answers. -/
inductive Shows {σ : Type} [SegmentStore σ] (s : System σ P) : View P → Prop
  | current (k : Nat) (w : View P) (hw : s.view? k = some w)
    (hversion : s.version w = SegmentStore.version s.store) : Shows s w
  | opened (d : Decorator P) (config : Config) (j : Nat) (w : View P)
    (h : (s.openView d config).result = .ok j)
    (hw : (s.openView d config).system.view? j = some w) : Shows s w
  | reopened (k nanos : Nat) (answer : Reopened) (w : View P)
    (h : (s.reopen k nanos).result = .ok answer)
    (hw : (s.reopen k nanos).system.view? (answer.slot k) = some w) : Shows s w

/-- The view that an opening adds is of the leaves that the list shows. -/
theorem leaves_of_openGeneration {s : System SegmentList P} {prior : List (Snapshot P)}
    {d : Decorator P} {config : Config} {opened : Nat × Nat × ReuseStats} {w : View P}
    (h : (s.openGeneration prior d config).result = .ok opened)
    (hw : (s.openGeneration prior d config).system.view? opened.1 = some w) :
    w.segments.map (fun x => Leaf.segment x.segment) = s.store.generation.leaves := by
  have hend := s.opening_openGeneration prior d config
  generalize s.openGeneration prior d config = o at h hw hend
  cases hend with
  | refused e hk => cases h
  | unread e hk he => cases h
  | givenBack g e hk hg ha => cases h
  | opened g a hk hg ha =>
    cases h
    cases hg
    rw [system_done, view?_addView] at hw
    obtain rfl := Option.some.inj ((if_pos rfl).symm.trans hw)
    exact (Generation.made_of_assemble ha).leaves.symm

section Shows

variable {store : SegmentList} {steps : List (Step SegmentList P)} {v w : View P}

/-- These are sound views of the leaves that the list shows. -/
theorem Shows.sound (hmutates : ∀ st ∈ steps, st.Mutates)
    (h : (({ store := store } : System SegmentList P).run steps).Shows w) : w.Sound ∧
      w.segments.map (fun x => Leaf.segment x.segment) =
        (({ store := store } : System SegmentList P).run steps).store.generation.leaves := by
  have hs : (({ store := store } : System SegmentList P).run steps).Reachable := ⟨_, _, rfl⟩
  have hasOf := fun {k : Nat} {v : View P} => @asOf_run P store steps hmutates k v
  generalize ({ store := store } : System SegmentList P).run steps = s at h hs hasOf ⊢
  cases h with
  | current k w hw hversion => exact ⟨hs.sound hw, (hasOf hw).leaves hversion⟩
  | opened d config j w h hw =>
    refine ⟨(hs.step (.openView d config)).sound hw, ?_⟩
    obtain ⟨opened, hopened, rfl⟩ := exists_of_map_eq_ok h
    exact leaves_of_openGeneration hopened hw
  | reopened k nanos answer w h hw =>
    refine ⟨(hs.step (.reopen k nanos)).sound hw, ?_⟩
    rcases s.reopen_cases k nanos with
      ⟨e, he⟩ | ⟨v, hv, hopen, hk, ⟨hunchanged, hresult, hsystem⟩ | ⟨-, hresult, hsystem⟩⟩
    · rw [he] at h
      cases h
    · -- The view itself is answered, and it knows its list.
      obtain rfl := Except.ok.inj (hresult.symm.trans h)
      rw [hsystem] at hw
      obtain rfl := Option.some.inj (hv.symm.trans hw)
      exact (hasOf hv).leaves (bne_eq_false_iff_eq.1 hunchanged).symm
    · rw [hresult] at h
      obtain ⟨opened, hopened, rfl⟩ := exists_of_map_eq_ok h
      rw [hsystem] at hw
      exact leaves_of_openGeneration hopened hw

/-- So its documents are those of the list as it is now. -/
theorem Shows.ids (hmutates : ∀ st ∈ steps, st.Mutates)
    (h : (({ store := store } : System SegmentList P).run steps).Shows w) :
    w.total = (({ store := store } : System SegmentList P).run steps).store.ids.length ∧
      w.idsInOrder =
        (({ store := store } : System SegmentList P).run steps).store.ids.map some := by
  obtain ⟨hsound, hleaves⟩ := h.sound hmutates
  exact hsound.idsInOrder_of_leaves hleaves

end Shows

/-! ## When there is a view -/

section Openings

variable {s : System SegmentList P} {d : Decorator P} {config : Config}

/-- A list of segments alone is opened where its documents can be counted. -/
theorem exists_openView (hclear : ∀ kind, SegmentList.Entry.foreign kind ∉ s.store.entries)
    (hd : d.Total) : (∃ j, (s.openView d config).result = .ok j) ↔
      s.store.kind = .composite ∧ s.store.ids.length ≤ maxWord ∧
        (config.validateDocCounts = true → s.store.ids.length = s.store.docCount) := by
  have hread : (SegmentStore.enumerate s.store).1 = .ok s.store.generation := rfl
  have hfresh : (s.openView d config).result =
      (s.openGeneration [] d config).result.map (·.1) := rfl
  rw [← SegmentList.exists_outline hclear]
  cases hk : checkComposite s.store with
  | error e =>
    have hkind : s.store.kind ≠ .composite := (checkComposite_eq_error_iff.1 hk).1
    have hresult : (s.openView d config).result = .error e := by
      unfold openView openGeneration
      rw [hk]
      rfl
    simp [hresult, hkind]
  | ok composite =>
    have hkind : s.store.kind = .composite := checkComposite_eq_ok_iff.1 hk
    cases hb : s.store.generation.outline config with
    | error e =>
      rw [hfresh, openGeneration_of_error hk hread hd hb]
      simp [Except.map]
    | ok b =>
      obtain ⟨a, -, hopened, -⟩ := presents_openGeneration hk hread hd hb []
      rw [hfresh, hopened]
      simp [Except.map, hkind]

end Openings

/-! ## After a merge -/

/-- What answers are read from in a store stays as long as the store does not change by itself. -/
theorem store_run {σ α : Type} [SegmentStore σ] {kept : σ → α}
    (hkept : SegmentStore.AnswersFrom kept) (s : System σ P) {later : List (Step σ P)}
    (hlater : ∀ st ∈ later, st.changesStore = false) :
    kept (s.run later).store = kept s.store := by
  induction later generalizing s with
  | nil => rfl
  | cons st later ih =>
    rw [List.forall_mem_cons] at hlater
    exact (ih (s.step st).system hlater.2).trans (hkept.step s hlater.1)

/-- A step that does not change the store does so by no change of a list. -/
theorem mutates_of_not_changesStore {st : Step SegmentList P} (h : st.changesStore = false) :
    st.Mutates := by
  cases st with
  | changeStore change => cases h
  | _ => trivial

/-- The reopen of an open view succeeds where an opening with its configuration does. -/
theorem exists_reopen {store : SegmentList} {steps : List (Step SegmentList P)}
    (hmutates : ∀ st ∈ steps, st.Mutates) {k : Nat} {v : View P}
    (hv : (({ store := store } : System SegmentList P).run steps).view? k = some v)
    (hopen : (({ store := store } : System SegmentList P).run steps).isClosed v = false)
    (hd : v.decorator.Total) (nanos : Nat) :
    let s := ({ store := store } : System SegmentList P).run steps
    (∃ answer, (s.reopen k nanos).result = .ok answer) ↔
      ∃ j, (s.openView v.decorator v.config).result = .ok j := by
  intro s
  rcases reopen_presents hv hopen (asOf_run hmutates hv) hd nanos with
    ⟨e, hreopened, hopened⟩ | ⟨answer, j, -, -, -, hreopened, hopened, -, -⟩
  · refine iff_of_false ?_ ?_
    · rintro ⟨answer, hanswer⟩
      cases hreopened.symm.trans hanswer
    · rintro ⟨j, hj⟩
      cases hopened.symm.trans hj
  · exact iff_of_true ⟨answer, hreopened⟩ ⟨j, hopened⟩

/-- The same list is opened before and after a merge. -/
theorem exists_openView_of_joined {s t : System SegmentList P} {names : List String}
    {m : MemorySegment} (h : s.store.Joined t.store names m)
    (hclear : ∀ kind, SegmentList.Entry.foreign kind ∉ s.store.entries) {d : Decorator P}
    (hd : d.Total) (config : Config) : (∃ j, (t.openView d config).result = .ok j) ↔
      ∃ j, (s.openView d config).result = .ok j := by
  have hclear' : ∀ kind, SegmentList.Entry.foreign kind ∉ t.store.entries := by
    intro kind hmem
    rcases h.mem_entries hmem with hnew | hold
    · cases hnew
    · exact hclear kind hold
  have hreports : t.store.docCount = s.store.docCount := by
    rw [SegmentList.docCount_eq, SegmentList.docCount_eq, h.reported, h.length_ids]
  rw [exists_openView hclear hd, exists_openView hclear' hd, h.follows.kind, h.length_ids,
    hreports]

/-- A view of a merged list has the documents of a view of the list before, in the same order
where the sources were adjacent. -/
theorem Shows.of_joined {before after : SegmentList}
    {steps later : List (Step SegmentList P)} (hsteps : ∀ st ∈ steps, st.Mutates)
    (hlater : ∀ st ∈ later, st.Mutates) {names : List String} {m : MemorySegment} {v w : View P}
    (hv : (({ store := before } : System SegmentList P).run steps).Shows v)
    (hw : (({ store := after } : System SegmentList P).run later).Shows w)
    (h : (({ store := before } : System SegmentList P).run steps).store.Joined
      (({ store := after } : System SegmentList P).run later).store names m) :
    w.total = v.total ∧ w.idsInOrder.Perm v.idsInOrder ∧
      ((({ store := before } : System SegmentList P).run steps).store.Adjacent names →
        w.idsInOrder = v.idsInOrder) := by
  obtain ⟨htotal, hids⟩ := hv.ids hsteps
  obtain ⟨htotal', hids'⟩ := hw.ids hlater
  rw [htotal, htotal', hids, hids']
  exact ⟨h.length_ids, h.perm_ids.map some, fun hadjacent => by rw [h.ids_eq hadjacent]⟩

/-- A merge loses and doubles no document and reorders none but the merged ones. It is refused,
and leaves the list as it is, if it has no names or if one of them is missing. Otherwise it makes
the next version of the list, in which the first segments of these names, each once, are joined
into one in the place of the first of them, and all other leaves stay in order. Where there are no
leaves of other kinds, the list is opened and reopened afterwards as before, as long as it does
not change again: a view has the same number of documents then, with the same ids, and in the
same order where the merged segments were adjacent. -/
theorem merging_keeps_documents {store : SegmentList} {steps : List (Step SegmentList P)}
    (hmutates : ∀ st ∈ steps, st.Mutates) (names : List String) (into : String) :
    let s := ({ store := store } : System SegmentList P).run steps
    let merging : Step SegmentList P :=
      .changeStore fun list => (list.change (.merge names into)).1
    (names = [] ∨ (∃ name ∈ names, ¬ s.store.Holds name) →
      ∃ e, s.store.change (.merge names into) = (s.store, .failed e)) ∧
    (names ≠ [] → (∀ name ∈ names, s.store.Holds name) →
      ∃ merged m, s.store.change (.merge names into) =
          (merged, .version (s.store.version + 1)) ∧
        m.name = into ∧ s.store.Joined merged names m ∧
        (∀ i, i ∈ s.store.sources names ↔ ∃ name ∈ names, s.store.FirstNamed name i) ∧
        (s.store.sources names).Pairwise (· < ·) ∧
        ((∀ kind, .foreign kind ∉ s.store.entries) →
          ∀ later : List (Step SegmentList P), (∀ st ∈ later, st.changesStore = false) →
            let t := s.run (merging :: later)
            (∀ d config, d.Total → ((∃ j, (t.openView d config).result = .ok j) ↔
              ∃ j, (s.openView d config).result = .ok j)) ∧
            (∀ k v nanos, t.view? k = some v → t.isClosed v = false → v.decorator.Total →
              ((∃ answer, (t.reopen k nanos).result = .ok answer) ↔
                ∃ j, (s.openView v.decorator v.config).result = .ok j)) ∧
            ∀ v w, s.Shows v → t.Shows w → w.total = v.total ∧
              w.idsInOrder.Perm v.idsInOrder ∧
              (s.store.Adjacent names → w.idsInOrder = v.idsInOrder))) := by
  intro s merging
  refine ⟨fun hrefused => ?_, fun hnames hall => ?_⟩
  · cases hmerge : s.store.merge names into with
    | error e => exact ⟨e, by rw [SegmentList.change, hmerge]⟩
    | ok t =>
      obtain ⟨hnames, hall⟩ := SegmentList.holds_of_merge hmerge
      rcases hrefused with hnone | ⟨name, hname, hmissing⟩
      · exact absurd hnone hnames
      · exact absurd (hall name hname) hmissing
  · obtain ⟨merged, hmerge, hjoined⟩ := SegmentList.exists_merge hnames hall into
    have hchange : s.store.change (.merge names into) =
        (merged, .version (s.store.version + 1)) := by
      rw [SegmentList.change, hmerge, ← hjoined.follows.version]
    refine ⟨merged, s.store.union names into, hchange, rfl, hjoined,
      fun i => SegmentList.mem_sources, s.store.pairwise_sources names, ?_⟩
    intro hclear later hlater t
    have hmutates' : ∀ st ∈ steps ++ merging :: later, st.Mutates := by
      intro st hst
      rcases List.mem_append.1 hst with hbefore | hafter
      · exact hmutates st hbefore
      · rcases List.mem_cons.1 hafter with rfl | hafter
        · exact ⟨.merge names into, fun _ => rfl⟩
        · exact mutates_of_not_changesStore (hlater st hafter)
    have hrun : t = ({ store := store } : System SegmentList P).run (steps ++ merging :: later) :=
      (run_append _ steps (merging :: later)).symm
    -- What happens after the merge gives generations back, but leaves the list alone.
    have hkept : t.store.withReleases [] = merged.withReleases [] := by
      refine (store_run SegmentList.answersFrom_withReleases (s.step merging).system
        hlater).trans ?_
      exact congrArg (·.1.withReleases []) hchange
    have hjoined' := hjoined.congr hkept
    refine ⟨fun d config hd => exists_openView_of_joined hjoined' hclear hd config,
      fun k v nanos hv hopen hd => ?_, fun v w hv hw => ?_⟩
    · rw [← exists_openView_of_joined hjoined' hclear hd]
      rw [hrun] at hv hopen ⊢
      exact exists_reopen hmutates' hv hopen hd nanos
    · rw [hrun] at hw hjoined'
      exact hv.of_joined hmutates hmutates' hw hjoined'

/-- The segments around another one are merged, given twice and out of order, and a reopened view
has the same ids in another order; adjacent ones are merged, and an opened view has them in the same
order. A missing name is refused. -/
theorem merging_keeps_documents_of_straddling :
    let s := ({ store := .ofSizes [2, 1, 2] } : System SegmentList Segment).run
      [.openView .segments {}]
    let merged (names : List String) : System SegmentList Segment := s.run
      [.changeStore fun list => (list.change (.merge names "m")).1, .markIds 0 [2]]
    (∃ e, s.store.change (.merge ["_0", "m"] "m") = (s.store, .failed e)) ∧
    (merged ["_2", "_0", "_2"]).store.ids = [0, 1, 3, 4, 2] ∧
    ∃ v, s.view? 0 = some v ∧
      (∃ answer w, ((merged ["_2", "_0", "_2"]).reopen 0 0).result = .ok answer ∧
        ((merged ["_2", "_0", "_2"]).reopen 0 0).system.view? (answer.slot 0) = some w ∧
        w.total = v.total ∧ w.idsInOrder.Perm v.idsInOrder) ∧
      ∃ j w, ((merged ["_1", "_0"]).openView .segments {}).result = .ok j ∧
        ((merged ["_1", "_0"]).openView .segments {}).system.view? j = some w ∧
        w.idsInOrder = v.idsInOrder := by
  intro s merged
  have hmutates : ∀ st ∈ ([.openView .segments {}] : List (Step SegmentList Segment)),
      st.Mutates := by simp [Step.Mutates]
  have hlater : ∀ st ∈ ([.markIds 0 [2]] : List (Step SegmentList Segment)),
      st.changesStore = false := by simp [Step.changesStore]
  have hclear : ∀ kind, SegmentList.Entry.foreign kind ∉ s.store.entries := by
    have hentries : s.store.entries = (SegmentList.ofSizes [2, 1, 2]).entries := by decide +kernel
    rw [hentries]
    simp [SegmentList.ofSizes, SegmentList.ofSegments, SegmentList.sized]
  have hopens : ∃ j, (s.openView .segments {}).result = .ok j := ⟨1, by decide +kernel⟩
  obtain ⟨v, hv, hversion⟩ : ∃ v, s.view? 0 = some v ∧ s.version v = s.store.version :=
    ⟨_, rfl, rfl⟩
  have hshown : s.Shows v := .current 0 v hv hversion
  have hmerging := @merging_keeps_documents Segment (.ofSizes [2, 1, 2]) _ hmutates
  obtain ⟨hrefused, -⟩ := hmerging ["_0", "m"] "m"
  obtain ⟨-, hstraddling⟩ := hmerging ["_2", "_0", "_2"] "m"
  obtain ⟨-, -, -, -, -, -, -, hviews⟩ := hstraddling (by simp) (by decide +kernel)
  obtain ⟨-, hreopens, hids⟩ := hviews hclear _ hlater
  obtain ⟨-, hadjacent⟩ := hmerging ["_1", "_0"] "m"
  obtain ⟨-, -, -, -, -, -, -, hviews'⟩ := hadjacent (by simp) (by decide +kernel)
  obtain ⟨hopens', -, hids'⟩ := hviews' hclear _ hlater
  refine ⟨hrefused (.inr ⟨"m", by simp, by decide +kernel⟩), by decide +kernel, v, hv, ?_, ?_⟩
  · obtain ⟨u, hu, hopen, hdecorator, hconfig⟩ : ∃ u,
        (merged ["_2", "_0", "_2"]).view? 0 = some u ∧
        (merged ["_2", "_0", "_2"]).isClosed u = false ∧ u.decorator = .segments ∧
        u.config = {} := ⟨_, rfl, rfl, rfl, rfl⟩
    obtain ⟨answer, hanswer⟩ := (hreopens 0 u 0 hu hopen
      (hdecorator ▸ Decorator.total_segments)).2 (by rw [hdecorator, hconfig]; exact hopens)
    have hfresh : ((merged ["_2", "_0", "_2"]).reopen 0 0).result = .ok (.fresh 1) := by
      decide +kernel
    obtain rfl := Except.ok.inj (hfresh.symm.trans hanswer)
    obtain ⟨w, hw⟩ : ∃ w, ((merged ["_2", "_0", "_2"]).reopen 0 0).system.view? 1 = some w :=
      ⟨_, rfl⟩
    obtain ⟨htotal, hperm, -⟩ := hids v w hshown (.reopened 0 0 _ w hfresh hw)
    exact ⟨_, w, hfresh, hw, htotal, hperm⟩
  · obtain ⟨j, hj⟩ := (hopens' .segments {} Decorator.total_segments).2 hopens
    have hfirst : ((merged ["_1", "_0"]).openView .segments {}).result = .ok 1 := by
      decide +kernel
    obtain rfl := Except.ok.inj (hfirst.symm.trans hj)
    obtain ⟨w, hw⟩ : ∃ w, ((merged ["_1", "_0"]).openView .segments {}).system.view? 1 = some w :=
      ⟨_, rfl⟩
    obtain ⟨-, -, hsame⟩ := hids' v w hshown (.opened .segments {} 1 w hfirst hw)
    exact ⟨1, w, hfirst, hw, hsame (by decide +kernel)⟩

end System

end SegmentedView
