import SegmentedView.Proofs.Refresh.History

/-!
# Chains of refreshed views

A chain starts with a view that was opened and goes on with a reopen or a copy of its last
view, while the store, the other views and the deletes of the last view change in any way
(`RefreshChain`). The deletes of a document that every view of the chain has are those of
the history of marks and commits made on the chain, no more and no less: each way to go on
keeps `History.Explains`.
-/

set_option autoImplicit false

namespace SegmentedView

variable {σ P : Type}

/-! ## What a history says of a view -/

/-- The view has a segment of this name and size, its segment names are different, and
where the token decides about reuse the segment has this one. -/
structure View.Keeps (v : View P) (name : String) (n token : Nat) : Prop where
  names : (v.segments.map Snapshot.name).Nodup
  present : ∃ s ∈ v.segments, s.name = name ∧ s.docCount = n ∧
    (v.config.reusePolicy = .byNameAndVersion → s.version = some token)

/-- A document of the view is deleted exactly when the history deletes it, and staged
exactly when it is not deleted and waits in the history. -/
def History.Explains (h : History P) (v : View P) (name : String) (l : Nat) : Prop :=
  ∀ p, v.Shows p name l → (v.isDeleted p = true ↔ h.Deletes name l) ∧
    (v.isStaged p = true ↔ ¬ h.Deletes name l ∧ h.Awaits name l)

namespace View.Keeps

variable {v w : View P} {name : String} {n token : Nat}

/-- What is kept of a name is a matter of the documents and the configuration. -/
theorem congr (h : v.Keeps name n token) (hsame : SameDocuments v w)
    (hconfig : w.config = v.config) : w.Keeps name n token := by
  have hnames : w.segments.map Snapshot.name = v.segments.map Snapshot.name := by
    have hmap := congrArg (List.map Segment.name) hsame.segments
    rw [List.map_map, List.map_map] at hmap
    exact hmap
  refine ⟨hnames ▸ h.names, ?_⟩
  obtain ⟨s, hs, rfl, rfl, htoken⟩ := h.present
  obtain ⟨i, hi⟩ := List.getElem?_of_mem hs
  obtain ⟨t, ht, hseg⟩ := hsame.getElem? hi
  refine ⟨t, List.mem_of_getElem? ht, congrArg Segment.name hseg,
    congrArg Segment.docCount hseg, fun hpolicy => ?_⟩
  rw [hconfig] at hpolicy
  exact (congrArg Segment.version hseg).trans (htoken hpolicy)

/-- A view keeps a segment that the list of its names and sizes shows, where the name
alone decides about reuse. -/
theorem of_labels {s : System σ P} {slot : Nat} (hv : s.view? slot = some v)
    (labels : List (String × Nat))
    (hlabels : (s.view? slot).map (fun v =>
      (v.segments.map fun x => (x.name, x.docCount), v.config.reusePolicy)) =
        some (labels, .byName))
    (hnames : (labels.map Prod.fst).Nodup) (hmem : (name, n) ∈ labels) :
    v.Keeps name n token := by
  rw [hv] at hlabels
  obtain ⟨rfl, hpolicy⟩ := Prod.mk.inj (Option.some.inj hlabels)
  rw [List.map_map] at hnames
  obtain ⟨x, hx, heq⟩ := List.mem_map.1 hmem
  obtain ⟨rfl, rfl⟩ := Prod.mk.inj heq
  refine ⟨hnames, x, hx, rfl, rfl, fun hversion => ?_⟩
  rw [hpolicy] at hversion
  cases hversion

/-- There is no other segment of the name. -/
theorem eq_of_name (h : v.Keeps name n token) {s : Snapshot P} (hs : s ∈ v.segments)
    (hname : s.name = name) : s.docCount = n ∧
      (v.config.reusePolicy = .byNameAndVersion → s.version = some token) := by
  obtain ⟨t, ht, htname, hcount, htoken⟩ := h.present
  obtain rfl := List.inj_on_of_nodup_map h.names hs ht (hname.trans htname.symm)
  exact ⟨hcount, htoken⟩

/-- Every document of the segment has one position. -/
theorem exists_shows (h : v.Keeps name n token) (hsound : v.Sound) {l : Nat} (hl : l < n) :
    ∃ p, ∀ q, v.Shows q name l ↔ q = p := by
  obtain ⟨s, hs, rfl, rfl, -⟩ := h.present
  exact hsound.exists_shows h.names hs hl

/-- A segment of the name that comes in with the next generation takes over the deletes of
the one that is there. -/
theorem predecessor? (h : v.Keeps name n token) {s : Segment} (hname : s.name = name)
    (htoken : v.config.reusePolicy = .byNameAndVersion → s.version = some token) :
    ∃ previous ∈ v.segments, previous.name = name ∧
      Snapshot.predecessor? v.segments v.config.reusePolicy s = some previous := by
  obtain ⟨x, hx, hxname, -, -⟩ := h.present
  obtain ⟨previous, hlast⟩ := Snapshot.exists_lastNamed? hx
  obtain ⟨hmem, hsame⟩ := Snapshot.mem_of_lastNamed? hlast
  rw [hxname] at hlast hsame
  refine ⟨previous, hmem, hsame, ?_⟩
  unfold Snapshot.predecessor?
  rw [hname, hlast, Option.filter_eq_some_iff]
  refine ⟨rfl, ?_⟩
  cases hpolicy : v.config.reusePolicy with
  | byName => rfl
  | byNameAndVersion =>
    have hprevious := (h.eq_of_name hmem hsame).2 hpolicy
    unfold ReusePolicy.accepts
    simp [hprevious, htoken hpolicy]

end View.Keeps

namespace History.Explains

variable {h : History P} {v w : View P} {name : String} {l : Nat}

/-- Where the document has the deletes that it has in another view, the history says of
the one what it says of the other. -/
theorem transport (hv : h.Explains v name l)
    (hback : ∀ q, w.Shows q name l → ∃ p, v.Shows p name l ∧
      w.isDeleted q = v.isDeleted p ∧ w.isStaged q = v.isStaged p) : h.Explains w name l := by
  intro q hq
  obtain ⟨p, hp, hdeleted, hstaged⟩ := hback q hq
  rw [hdeleted, hstaged]
  exact hv p hp

/-- A copy has the deletes of the view. -/
theorem copy (hv : h.Explains v name l) : h.Explains v.copy name l := by
  refine hv.transport fun q hq => ?_
  obtain ⟨s, hs, hname⟩ := hq
  refine ⟨q, (View.sameDocuments_copy v).shows.1 ⟨s, hs, hname⟩, ?_⟩
  have hsegments : v.copy.documentAt? q =
      (v.documentAt? q).map fun x => (x.1.copy, x.2) := by
    unfold View.documentAt?
    change (v.boundaries.locate q).bind _ = Option.map _ ((v.boundaries.locate q).bind _)
    cases v.boundaries.locate q with
    | none => rfl
    | some x =>
      simp only [Option.bind_some, View.copy, List.getElem?_map, Option.map_map]
      rfl
  rw [hsegments] at hs
  obtain ⟨⟨x, m⟩, hx, heq⟩ := Option.map_eq_some_iff.1 hs
  obtain ⟨rfl, rfl⟩ := Prod.mk.inj heq
  have hcopy := View.isDeleted_of_documentAt? (v := v.copy) (hsegments.trans (by rw [hx]; rfl))
  have hold := View.isDeleted_of_documentAt? hx
  exact ⟨hcopy.1.trans hold.1.symm, hcopy.2.trans hold.2.symm⟩

/-- In a view without deletes the history has nothing to explain. -/
theorem nil (hnone : ∀ s ∈ v.segments, s.isDeleted l = false ∧ s.isStaged l = false) :
    Explains ([] : History P) v name l := by
  intro p hp
  obtain ⟨s, hs, -⟩ := hp
  obtain ⟨hdeleted, hstaged⟩ := View.isDeleted_of_documentAt? hs
  obtain ⟨hd, hst⟩ := hnone s (View.mem_of_documentAt? hs)
  rw [hdeleted, hstaged, hd, hst]
  simp [not_deletes_nil, not_awaits_nil]

/-- One more mark or commit on the view changes its deletes as the history says. -/
theorem applyOp (hv : h.Explains v name l) (hsound : v.Sound) {p : Nat}
    (honly : ∀ q, v.Shows q name l ↔ q = p) (op : DeleteOp) :
    Explains (h ++ [(v, op)]) (v.applyOp op).1 name l := by
  intro q hq
  rw [(v.sameDocuments_applyOp op).shows, honly] at hq
  subst hq
  have hshows := (honly q).2 rfl
  have hlt : q < v.total := View.lt_total_of_documentAt? hshows.choose_spec.1
  obtain ⟨hdeleted, hstaged⟩ := hv q hshows
  have hsets := (hsound.deleteSets_applyOp op).1
  rw [← View.mem_deleted] at hdeleted
  rw [← View.mem_staged] at hstaged
  rw [← View.mem_deleted, ← View.mem_staged, hsets]
  have hmark : ∀ targets : Finset Nat, (q ∈ targets ↔ op.Covers v name l) → op ≠ .commit →
      (q ∈ (v.deleteSets.mark targets).deleted ↔ Deletes (h ++ [(v, op)]) name l) ∧
      (q ∈ (v.deleteSets.mark targets).staged ↔
        ¬ Deletes (h ++ [(v, op)]) name l ∧ Awaits (h ++ [(v, op)]) name l) := by
    intro targets hcovers hop
    rw [deletes_snoc_mark hop, awaits_snoc_mark hop, ← hcovers]
    refine ⟨hdeleted, ?_⟩
    unfold DeleteSets.mark
    rw [Finset.mem_union, Finset.mem_sdiff, hstaged, hdeleted]
    tauto
  cases op with
  | markIds ids =>
    refine hmark (v.positionsOf ids) ?_ (by simp)
    unfold View.positionsOf DeleteOp.Covers
    simp only [Finset.mem_filter, Finset.mem_range, hlt, true_and, honly, exists_eq_left]
  | markAt positions =>
    refine hmark (positions.toFinset.filter (· < v.total)) ?_ (by simp)
    unfold DeleteOp.Covers
    simp only [Finset.mem_filter, List.mem_toFinset, hlt, and_true, honly, exists_eq_right]
  | commit =>
    change (q ∈ v.deleteSets.deleted ∪ v.deleteSets.staged ↔ _) ∧ (q ∈ (∅ : Finset Nat) ↔ _)
    rw [deletes_snoc_commit, Finset.mem_union, hdeleted, hstaged]
    refine ⟨by tauto, ?_⟩
    simp [not_awaits_snoc_commit]

/-- A view of a new generation that takes over from the view has the deletes of every
document that both have. -/
theorem inherited (hv : h.Explains v name l) (hsound : v.Sound) {n token : Nat}
    (hkeeps : v.Keeps name n token) (hw : w.Keeps name n token) (hl : l < n)
    (hconfig : w.config = v.config)
    (hdeletes : ∀ s ∈ w.segments,
      s.deletes = inheritedDeletes v.segments v.config.reusePolicy s.segment) :
    h.Explains w name l := by
  refine hv.transport fun q hq => ?_
  obtain ⟨s, hs, hname⟩ := hq
  have hmem := View.mem_of_documentAt? hs
  obtain ⟨hcount, htoken⟩ := hw.eq_of_name hmem hname
  rw [hconfig] at htoken
  obtain ⟨x, hx, hxname, hpredecessor⟩ := hkeeps.predecessor? (s := s.segment) hname htoken
  have hrebased : s.deletes = x.deletes.rebase n := by
    rw [hdeletes s hmem]
    unfold inheritedDeletes
    rw [hpredecessor, ← hcount]
    rfl
  obtain ⟨i, hi⟩ := List.getElem?_of_mem hx
  have hxl : l < x.docCount := (hkeeps.eq_of_name hx hxname).1 ▸ hl
  have hdoc := hsound.documentAt?_eq_some_iff.2 ⟨i, hi, hxl, rfl⟩
  refine ⟨_, ⟨x, hdoc, hxname⟩, ?_⟩
  obtain ⟨hdeletedw, hstagedw⟩ := View.isDeleted_of_documentAt? hs
  obtain ⟨hdeletedv, hstagedv⟩ := View.isDeleted_of_documentAt? hdoc
  constructor
  · rw [hdeletedw, hdeletedv]
    unfold Snapshot.isDeleted
    rw [hrebased, DeleteState.isDeleted_rebase, decide_eq_true hl, Bool.true_and]
  · rw [hstagedw, hstagedv]
    unfold Snapshot.isStaged
    rw [hrebased, DeleteState.isStaged_rebase, decide_eq_true hl, Bool.true_and]

end History.Explains

/-! ## Chains -/

/-- Whether a step is a change to the deletes of the view of a number. -/
def Step.changesDeletes (slot : Nat) : Step σ P → Bool
  | .markIds k _ => k == slot
  | .markAt k _ => k == slot
  | .commit k => k == slot
  | .changeSegment k _ _ => k == slot
  | _ => false

/-- A step that is no change to the deletes of a view leaves them and its documents
alone. -/
theorem Evolves.of_not_changesDeletes {st : Step σ P} {k : Nat} {v w : View P}
    (h : Evolves st k v w) (hst : st.changesDeletes k = false) :
    View.SameDocuments v w ∧ w.config = v.config ∧
      ∀ p, w.isDeleted p = v.isDeleted p ∧ w.isStaged p = v.isStaged p := by
  cases h with
  | same => exact ⟨.refl v, rfl, fun _ => ⟨rfl, rfl⟩⟩
  | closed => exact ⟨⟨rfl, rfl⟩, rfl, fun _ => ⟨rfl, rfl⟩⟩
  | installed => exact ⟨⟨rfl, rfl⟩, rfl, fun _ => ⟨rfl, rfl⟩⟩
  | markedIds => exact absurd (beq_self_eq_true k) (ne_true_of_eq_false hst)
  | markedAt => exact absurd (beq_self_eq_true k) (ne_true_of_eq_false hst)
  | committed => exact absurd (beq_self_eq_true k) (ne_true_of_eq_false hst)
  | segment => exact absurd (beq_self_eq_true k) (ne_true_of_eq_false hst)

variable [SegmentStore σ]

/-- A chain of views in a run: the system, the number of the last view, the views as they
were when they joined the chain, and the marks and commits made on each while it was the
last. -/
inductive RefreshChain : System σ P → Nat → List (View P) → History P → Prop
  /-- The first view is opened. -/
  | opened {s : System σ P} {slot : Nat} {v : View P} (hs : s.Reachable) (d : Decorator P)
    (config : Config) (hopened : (s.openView d config).result = .ok slot)
    (hv : (s.openView d config).system.view? slot = some v) :
    RefreshChain (s.openView d config).system slot [v] []
  /-- Any step but a successful change to the deletes of the last view, which is still
  there. -/
  | aside {s : System σ P} {slot : Nat} {v : View P} {views : List (View P)} {h : History P}
    (hchain : RefreshChain s slot views h) (hv : s.view? slot = some v) (st : Step σ P)
    (haside : st.changesDeletes slot = false ∨ (s.step st).result.isOk = false) :
    RefreshChain (s.step st).system slot views h
  /-- A successful mark or commit on the last view. -/
  | changed {s : System σ P} {slot : Nat} {v : View P} {views : List (View P)}
    {h : History P} (hchain : RefreshChain s slot views h) (hv : s.view? slot = some v)
    (op : DeleteOp) (hok : (s.step (op.toStep slot)).result.isOk = true) :
    RefreshChain (s.step (op.toStep slot)).system slot views (h ++ [(v, op)])
  /-- The last view is reopened as a new one, which joins the chain. -/
  | reopened {s : System σ P} {slot fresh : Nat} {v : View P} {views : List (View P)}
    {h : History P} (hchain : RefreshChain s slot views h) (nanos : Nat)
    (hresult : (s.reopen slot nanos).result = .ok (.fresh fresh))
    (hv : (s.reopen slot nanos).system.view? fresh = some v) :
    RefreshChain (s.reopen slot nanos).system fresh (views ++ [v]) h
  /-- The last view is copied, and the copy joins the chain. -/
  | copied {s : System σ P} {slot fresh : Nat} {v : View P} {views : List (View P)}
    {h : History P} (hchain : RefreshChain s slot views h)
    (hresult : (s.copy slot).result = .ok fresh)
    (hv : (s.copy slot).system.view? fresh = some v) :
    RefreshChain (s.copy slot).system fresh (views ++ [v]) h

namespace RefreshChain

variable {s : System σ P} {slot : Nat} {v : View P} {views : List (View P)} {h : History P}

/-- A system at the end of a chain is reachable. -/
theorem reachable (hchain : RefreshChain s slot views h) : s.Reachable := by
  induction hchain with
  | opened hs d config hopened hv => exact hs.step (.openView d config)
  | aside hchain hv st haside ih => exact ih.step st
  | changed hchain hv op hok ih => exact ih.step (op.toStep _)
  | reopened hchain nanos hresult hv ih => exact ih.step (.reopen _ nanos)
  | copied hchain hresult hv ih => exact ih.step (.copy _)

/-- A failed change to the deletes of a view does nothing. -/
theorem system_of_failed {st : Step σ P} (hst : st.changesDeletes slot = true)
    (hfailed : (s.step st).result.isOk = false) : (s.step st).system = s := by
  have hop : ∀ op : DeleteOp, (s.step (op.toStep slot)).result.isOk = false →
      (s.step (op.toStep slot)).system = s := by
    intro op hop
    rcases s.toStep_cases slot op with ⟨e, he⟩ | ⟨v, -, -, hc⟩
    · rw [he]
      rfl
    · rw [hc] at hop
      cases hop
  cases st with
  | markIds k ids =>
    obtain rfl := eq_of_beq hst
    exact hop (.markIds ids) hfailed
  | markAt k positions =>
    obtain rfl := eq_of_beq hst
    exact hop (.markAt positions) hfailed
  | commit k =>
    obtain rfl := eq_of_beq hst
    exact hop .commit hfailed
  | changeSegment k i change =>
    change ((s.changeSegment k i change).result.map _).isOk = false at hfailed
    change (s.changeSegment k i change).system = s
    rcases s.changeSegment_cases k i change with ⟨e, he⟩ | ⟨v, answer, -, hc⟩
    · rw [he]
      rfl
    · rw [hc] at hfailed
      cases hfailed
  | _ => cases hst

/-- The view after a step that leaves its deletes alone has the documents and the deletes
of before. -/
theorem of_aside {w : View P} (hv : s.view? slot = some v) {st : Step σ P}
    (haside : st.changesDeletes slot = false ∨ (s.step st).result.isOk = false)
    (hw : (s.step st).system.view? slot = some w) :
    View.SameDocuments v w ∧ w.config = v.config ∧
      ∀ p, w.isDeleted p = v.isDeleted p ∧ w.isStaged p = v.isStaged p := by
  cases hst : st.changesDeletes slot with
  | true =>
    have hfailed := haside.resolve_left (by rw [hst]; exact Bool.noConfusion)
    rw [system_of_failed hst hfailed, hv] at hw
    obtain rfl := Option.some.inj hw
    exact ⟨.refl v, rfl, fun _ => ⟨rfl, rfl⟩⟩
  | false =>
    rcases System.view?_step hw with ⟨u, hu, hevolves⟩ | ⟨hslot, -⟩
    · obtain rfl := Option.some.inj (hu.symm.trans hv)
      exact hevolves.of_not_changesDeletes hst
    · have hlt := System.lt_length_of_view? hv
      omega

/-- The history of a chain explains the deletes of its last view, in every segment that
all views of the chain keep. -/
theorem explains (hchain : RefreshChain s slot views h) {name : String} {n token l : Nat}
    (hkeeps : ∀ w ∈ views, w.Keeps name n token) (hl : l < n)
    (hv : s.view? slot = some v) : v.Keeps name n token ∧ h.Explains v name l := by
  -- By induction on how the chain came about. That the last view keeps the segment goes
  -- along, for the views of the chain are as they joined it and the last one has changed.
  induction hchain generalizing v with
  | @opened s slot u hs d config hopened hu =>
    obtain rfl := Option.some.inj (hu.symm.trans hv)
    obtain ⟨opened, hresult, rfl⟩ := exists_of_map_eq_ok hopened
    obtain ⟨g, a, ha, hview⟩ := System.openGeneration_eq_ok hresult
    obtain rfl := Option.some.inj (hview.symm.trans hv)
    refine ⟨hkeeps _ (List.mem_singleton_self _), .nil fun x hx => ?_⟩
    have hnew : x.deletes = .new x.segment.docCount :=
      (Generation.made_of_assemble ha).deletes x hx
    unfold Snapshot.isDeleted Snapshot.isStaged
    rw [hnew]
    exact ⟨DeleteState.isDeleted_new _ _, DeleteState.isStaged_new _ _⟩
  | @aside s slot u views h hchain hu st haside ih =>
    obtain ⟨hkeep, hexplains⟩ := ih hkeeps hu
    obtain ⟨hsame, hconfig, hdeletes⟩ := of_aside hu haside hv
    exact ⟨hkeep.congr hsame hconfig,
      hexplains.transport fun q hq => ⟨q, hsame.shows.1 hq, hdeletes q⟩⟩
  | @changed s slot u views h hchain hu op hok ih =>
    obtain ⟨hkeep, hexplains⟩ := ih hkeeps hu
    have hsound := hchain.reachable.sound hu
    rcases s.toStep_cases slot op with ⟨e, he⟩ | ⟨x, hx, -, hc⟩
    · rw [he] at hok
      cases hok
    · -- The history is about the position that the document has on this view.
      obtain rfl := Option.some.inj (hx.symm.trans hu)
      rw [hc, System.system_done, System.view?_setView_self hu] at hv
      obtain rfl := Option.some.inj hv
      obtain ⟨p, hp⟩ := hkeep.exists_shows hsound hl
      have hconfig : (x.applyOp op).1.config = x.config := by cases op <;> rfl
      exact ⟨hkeep.congr (x.sameDocuments_applyOp op) hconfig, hexplains.applyOp hsound hp op⟩
  | @reopened s slot fresh w views h hchain nanos hresult hw ih =>
    obtain rfl := Option.some.inj (hw.symm.trans hv)
    have hkeep' := hkeeps w (List.mem_append_right views (List.mem_singleton_self w))
    rcases s.reopen_cases slot nanos with
      ⟨e, he⟩ | ⟨u, hu, -, -, ⟨-, hsame, -⟩ | ⟨-, hopened, hsystem⟩⟩
    · rw [he] at hresult
      cases hresult
    · rw [hsame] at hresult
      cases hresult
    · rw [hopened] at hresult
      obtain ⟨opened, hok, heq⟩ := exists_of_map_eq_ok hresult
      cases heq
      obtain ⟨g, a, ha, hview⟩ := System.openGeneration_eq_ok hok
      rw [hsystem] at hv
      obtain rfl := Option.some.inj (hview.symm.trans hv)
      obtain ⟨hkeep, hexplains⟩ := ih (fun w hw => hkeeps w (List.mem_append_left _ hw)) hu
      exact ⟨hkeep', hexplains.inherited (hchain.reachable.sound hu) hkeep hkeep' hl rfl
        (Generation.made_of_assemble ha).deletes⟩
  | @copied s slot fresh w views h hchain hresult hw ih =>
    obtain rfl := Option.some.inj (hw.symm.trans hv)
    rcases s.copy_cases slot with ⟨e, he⟩ | ⟨u, hu, -, -, hc⟩
    · rw [he] at hresult
      cases hresult
    · rw [hc] at hresult hv
      cases hresult
      rw [System.system_done, System.view?_addView] at hv
      obtain rfl := Option.some.inj ((if_pos rfl).symm.trans hv)
      obtain ⟨hkeep, hexplains⟩ := ih (fun w hw => hkeeps w (List.mem_append_left _ hw)) hu
      exact ⟨hkeep.congr (View.sameDocuments_copy u) rfl, hexplains.copy⟩

/-- No delete is lost or invented over a chain of reopens and copies, whatever happens to
the store and to other views in between. A document of a segment that every view of the
chain has, with one size and, where reuse asks for it, one token, has one position in the
last view. There it is deleted exactly when it was marked on some view of the chain and a
commit on that view or a later one followed; it is staged exactly when it is not deleted
and was marked with no commit since. -/
theorem deletes_follow_history (hchain : RefreshChain s slot views h)
    (hv : s.view? slot = some v) {name : String} {n token : Nat}
    (hkeeps : ∀ w ∈ views, w.Keeps name n token) {l : Nat} (hl : l < n) :
    ∃ p, (∀ q, v.Shows q name l ↔ q = p) ∧
      (v.isDeleted p = true ↔ ∃ i j, i < j ∧ h.MarksAt name l i ∧ h.CommitsAt j) ∧
      (v.isStaged p = true ↔ v.isDeleted p = false ∧
        ∃ i, h.MarksAt name l i ∧ ∀ j, i < j → ¬ h.CommitsAt j) := by
  obtain ⟨hkeep, hexplains⟩ := hchain.explains hkeeps hl hv
  obtain ⟨p, hp⟩ := hkeep.exists_shows (hchain.reachable.sound hv) hl
  obtain ⟨hdeleted, hstaged⟩ := hexplains p ((hp p).2 rfl)
  refine ⟨p, hp, hdeleted, ?_⟩
  rw [hstaged, ← hdeleted, Bool.not_eq_true]
  rfl

/-- A document that was marked at position 3 and committed is deleted at position 1 of a
copy of the reopened view, after the segment before it left the store. -/
theorem deletes_follow_history_of_removal :
    ∃ (s : System SegmentList Segment) (views : List (View Segment)) (h : History Segment)
      (v : View Segment), RefreshChain s 2 views h ∧ s.view? 2 = some v ∧
        (∀ w ∈ views, w.Keeps "_1" 2 0) ∧ h.MarksAt "_1" 1 0 ∧ h.CommitsAt 1 ∧
        v.Shows 1 "_1" 1 ∧ v.isDeleted 1 = true := by
  let remove : SegmentList → SegmentList := fun store => (store.remove? "_0").getD store
  let s₀ : System SegmentList Segment := { store := .ofSizes [2, 2] }
  let s₁ := (s₀.openView .segments {}).system
  let s₂ := (s₁.step (.markAt 0 [3])).system
  let s₃ := (s₂.step (.commit 0)).system
  let s₄ := (s₃.step (.changeStore remove)).system
  let s₅ := (s₄.reopen 0 0).system
  let s₆ := (s₅.copy 1).system
  obtain ⟨v₁, hv₁⟩ : ∃ v, s₁.view? 0 = some v := Option.isSome_iff_exists.1 (by decide +kernel)
  obtain ⟨v₂, hv₂⟩ : ∃ v, s₂.view? 0 = some v := Option.isSome_iff_exists.1 (by decide +kernel)
  obtain ⟨v₃, hv₃⟩ : ∃ v, s₃.view? 0 = some v := Option.isSome_iff_exists.1 (by decide +kernel)
  obtain ⟨v₅, hv₅⟩ : ∃ v, s₅.view? 1 = some v := Option.isSome_iff_exists.1 (by decide +kernel)
  obtain ⟨v₆, hv₆⟩ : ∃ v, s₆.view? 2 = some v := Option.isSome_iff_exists.1 (by decide +kernel)
  have h₁ : RefreshChain s₁ 0 [v₁] [] :=
    .opened (System.reachable_start _) .segments {} (by decide +kernel) hv₁
  have h₂ : RefreshChain s₂ 0 [v₁] [(v₁, .markAt [3])] :=
    .changed h₁ hv₁ (.markAt [3]) (by decide +kernel)
  have h₃ : RefreshChain s₃ 0 [v₁] [(v₁, .markAt [3]), (v₂, .commit)] :=
    .changed h₂ hv₂ .commit (by decide +kernel)
  have h₄ : RefreshChain s₄ 0 [v₁] [(v₁, .markAt [3]), (v₂, .commit)] :=
    .aside h₃ hv₃ (.changeStore remove) (.inl rfl)
  have h₅ : RefreshChain s₅ 1 [v₁, v₅] [(v₁, .markAt [3]), (v₂, .commit)] :=
    .reopened h₄ 0 (by decide +kernel) hv₅
  have h₆ : RefreshChain s₆ 2 [v₁, v₅, v₆] [(v₁, .markAt [3]), (v₂, .commit)] :=
    .copied h₅ (by decide +kernel) hv₆
  have hkeeps : ∀ w ∈ [v₁, v₅, v₆], w.Keeps "_1" 2 0 := by
    simp only [List.forall_mem_cons, List.not_mem_nil, false_imp_iff, implies_true, and_true]
    refine ⟨?_, ?_, ?_⟩
    · exact .of_labels hv₁ [("_0", 2), ("_1", 2)] (by decide +kernel) (by decide) (by decide)
    · exact .of_labels hv₅ [("_1", 2)] (by decide +kernel) (by decide) (by decide)
    · exact .of_labels hv₆ [("_1", 2)] (by decide +kernel) (by decide) (by decide)
  have hmarks : History.MarksAt [(v₁, .markAt [3]), (v₂, .commit)] "_1" 1 0 :=
    ⟨v₁, .markAt [3], rfl, 3, by simp, View.shows_of_found hv₁ (by decide +kernel)⟩
  have hcommits : History.CommitsAt [(v₁, .markAt [3]), (v₂, .commit)] 1 := ⟨v₂, rfl⟩
  have hposition : v₆.Shows 1 "_1" 1 := View.shows_of_found hv₆ (by decide +kernel)
  obtain ⟨p, hp, hdeleted, -⟩ := h₆.deletes_follow_history hv₆ hkeeps (l := 1) (by decide)
  obtain rfl := (hp 1).1 hposition
  exact ⟨s₆, _, _, v₆, h₆, hv₆, hkeeps, hmarks, hcommits, hposition,
    hdeleted.2 ⟨0, 1, by decide, hmarks, hcommits⟩⟩

end RefreshChain

end SegmentedView
