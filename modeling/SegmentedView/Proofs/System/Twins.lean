import SegmentedView.Proofs.Store.Returns
import SegmentedView.Proofs.System.Closure
import SegmentedView.Proofs.System.DeleteRuns
import SegmentedView.Proofs.System.Openings
import SegmentedView.Proofs.View.Content

/-!
# Twins

Twins are open views of two systems that have one content and one version (`System.Twins`).
They answer look-ups alike, and each operation that both systems make on them leads to twins
again: marks and commits (`Twins.edit`), copies (`Twins.copy`), and reopens, if the stores
answer alike (`Twins.reopen`). What is done to other views leaves twins as they are, unless
it gives back the last hold on one of them (`Twins.keeps`).
-/

set_option autoImplicit false

namespace SegmentedView

variable {σ P α : Type}

/-- The answers of a store are decided by a part of it that is left alone when the store is
read and when it takes a generation back. -/
structure SegmentStore.AnswersFrom [SegmentStore σ] (kept : σ → α) : Prop where
  kind : ∀ {a b}, kept a = kept b → SegmentStore.kind a = SegmentStore.kind b
  changed : ∀ {a b}, kept a = kept b → ∀ since,
    SegmentStore.hasChangedSince a since = SegmentStore.hasChangedSince b since
  shown : ∀ {a b}, kept a = kept b →
    (SegmentStore.enumerate a).1 = (SegmentStore.enumerate b).1
  read : ∀ a, kept (SegmentStore.enumerate a).2 = kept a
  release : ∀ a version, kept (SegmentStore.release a version) = kept a

namespace SegmentList

/-- A segment list answers from all but its record of what it took back. -/
theorem answersFrom_withReleases :
    SegmentStore.AnswersFrom fun s : SegmentList => s.withReleases [] where
  kind {a b} h := by
    have hkind : (a.withReleases []).kind = (b.withReleases []).kind := by rw [h]
    exact hkind
  changed {a b} h since := by
    have hversion : (a.withReleases []).version = (b.withReleases []).version := by rw [h]
    exact congrArg (· != since) hversion
  shown {a b} h := by
    have hshown : (a.withReleases []).generation = (b.withReleases []).generation := by rw [h]
    exact congrArg Except.ok hshown
  read _ := rfl
  release _ _ := rfl

/-- Lists that differ in their returns alone do so after the same change. -/
theorem change_congr {a b : SegmentList} (h : a.withReleases [] = b.withReleases [])
    (c : Change) : (a.change c).1.withReleases [] = (b.change c).1.withReleases [] := by
  have hchange := congrArg (fun s => (SegmentList.change s c).1) h
  simpa only [change_withReleases] using hchange

end SegmentList

namespace Step

/-- Whether a step gives back a hold on a generation. -/
def givesBack : Step σ P → Bool
  | .drop _ => true
  | .close _ => true
  | .decRef _ => true
  | _ => false

/-- Whether a step is a change of the store itself. -/
def changesStore : Step σ P → Bool
  | .changeStore _ => true
  | _ => false

end Step

namespace DeleteOp

/-- An operation on deletes gives nothing back. -/
theorem givesBack_toStep (op : DeleteOp) (slot : Nat) :
    (op.toStep slot : Step σ P).givesBack = false := by
  cases op <;> rfl

/-- An operation on deletes leaves the store alone. -/
theorem changesStore_toStep (op : DeleteOp) (slot : Nat) :
    (op.toStep slot : Step σ P).changesStore = false := by
  cases op <;> rfl

/-- An operation on the deletes of one view is on no other. -/
theorem isOn_toStep {slot k : Nat} (hne : slot ≠ k) (op : DeleteOp) :
    (op.toStep slot : Step σ P).isOn k = false := by
  cases op <;> exact beq_false_of_ne hne

end DeleteOp

/-- What an operation does to deletes is a matter of the content. -/
theorem View.applyOp_content (v : View P) (op : DeleteOp) :
    (v.content.applyOp op).1 = (v.applyOp op).1.content ∧
      (v.content.applyOp op).2 = (v.applyOp op).2 := by
  cases op with
  | markIds ids =>
    obtain ⟨hview, hcount⟩ := v.markIds_content ids
    exact ⟨hview, congrArg Answer.count hcount⟩
  | markAt positions =>
    obtain ⟨hview, hcount⟩ := v.markAt_content positions
    exact ⟨hview, congrArg Answer.count hcount⟩
  | commit => exact ⟨v.commit_content, rfl⟩

/-- Steps other than changes of the store leave alone what its answers come from. -/
theorem SegmentStore.AnswersFrom.step [SegmentStore σ] {kept : σ → α}
    (hkept : SegmentStore.AnswersFrom kept) (s : System σ P) {st : Step σ P}
    (hst : st.changesStore = false) : kept (s.step st).system.store = kept s.store := by
  rcases s.store_step kept hkept.read hkept.release st with hsame | ⟨change, rfl, -⟩
  · exact hsame
  · cases hst

namespace System

/-! ## Views that are left alone -/

/-- From one system to another an open view stays as it is. -/
structure Keeps (s s' : System σ P) (k : Nat) (v : View P) : Prop where
  view : s'.view? k = some v
  isOpen : s'.isClosed v = false
  version : s'.version v = s.version v

section

variable [SegmentStore σ]

/-- A step elsewhere keeps a view whose generation is still held after it. -/
theorem keeps_step {s : System σ P} (hs : s.Reachable) {k : Nat} {v : View P}
    (hv : s.view? k = some v) (hopen : s.isClosed v = false) {st : Step σ P}
    (hst : st.isOn k = false) (hheld : ((s.step st).system.lease v.lease).released = false) :
    Keeps s (s.step st).system k v := by
  obtain ⟨hclosed, -⟩ := Bool.or_eq_false_iff.1 hopen
  refine ⟨view?_step_elsewhere hv hst, ?_, (s.lease_step st (hs.lease_lt hv)).later.version⟩
  exact Bool.or_eq_false_iff.2 ⟨hclosed, hheld⟩

/-- A step that gives nothing back releases nothing. -/
theorem released_step {s : System σ P} {st : Step σ P} (hst : st.givesBack = false) {i : Nat}
    (hi : i < s.leases.length) :
    ((s.step st).system.lease i).released = (s.lease i).released := by
  have hset : ∀ (t : System σ P) j n,
      t.leases = s.leases.set j { s.lease j with refs := n } →
        (t.lease i).released = (s.lease i).released := by
    intro t j n ht
    rw [lease_congr (s := s.setLease j { s.lease j with refs := n }) ht i, lease_setLease]
    split
    case isTrue hij => rw [hij.1]
    case isFalse => rfl
  have hmoves := s.transition_step st
  generalize (s.step st).result = r at hmoves
  generalize (s.step st).system = t at hmoves ⊢
  cases hmoves with
  | opened g a ho hk hg ha =>
    rw [lease_of_append (s := s) rfl, if_neg (by omega)]
  | copied slot v hv hopen hrefs => exact hset _ v.lease _ rfl
  | held slot v hv hopen hrefs => exact hset _ v.lease _ rfl
  | returned slot v hv => cases hst
  | closed slot v hv hopen => cases hst
  | droppedOpen slot v hv hopen => cases hst
  | _ => rfl

/-- A step aside that gives nothing back keeps an open view as it is. -/
theorem keeps_of_not_givesBack {s : System σ P} (hs : s.Reachable) {k : Nat} {v : View P}
    (hv : s.view? k = some v) (hopen : s.isClosed v = false) {st : Step σ P}
    (hst : st.isOn k = false) (hgives : st.givesBack = false) :
    Keeps s (s.step st).system k v := by
  apply keeps_step hs hv hopen hst
  rw [released_step hgives (hs.lease_lt hv)]
  exact (Bool.or_eq_false_iff.1 hopen).2

end

/-! ## Twins -/

/-- Two open views, of two systems, of one version and with one content. -/
structure Twins (s t : System σ P) (k j : Nat) (v w : View P) : Prop where
  left : s.view? k = some v
  right : t.view? j = some w
  leftOpen : s.isClosed v = false
  rightOpen : t.isClosed w = false
  version : s.version v = t.version w
  content : v.content = w.content

namespace Twins

variable {s s' t t' : System σ P} {k j : Nat} {v w : View P}

/-- Twins that are kept are twins. -/
theorem keeps (h : Twins s t k j v w) (hs : Keeps s s' k v) (ht : Keeps t t' j w) :
    Twins s' t' k j v w where
  left := hs.view
  right := ht.view
  leftOpen := hs.isOpen
  rightOpen := ht.isOpen
  version := hs.version.trans (h.version.trans ht.version.symm)
  content := h.content

/-- Twins are twins mutually. -/
theorem symm (h : Twins s t k j v w) : Twins t s j k w v where
  left := h.right
  right := h.left
  leftOpen := h.rightOpen
  rightOpen := h.leftOpen
  version := h.version.symm
  content := h.content.symm

end Twins

section

variable [SegmentStore σ]

/-- Two steps of two systems answer the same and make no view, or each makes one, and these
are twins. -/
inductive Answered (s t : System σ P) (st st' : Step σ P) : Prop
  | quiet (hresult : (s.step st).result = (t.step st').result)
    (hmade : ∀ n, (s.step st).result ≠ .ok (.made n))
  | made (v w : View P) (hresult : (s.step st).result = .ok (.made s.views.length))
    (hresult' : (t.step st').result = .ok (.made t.views.length))
    (htwins : Twins (s.step st).system (t.step st').system s.views.length t.views.length v w)

/-- A copy of an open view is open, of the same version, and numbered last. -/
theorem step_copy {s : System σ P} (hs : s.Reachable) {k : Nat} {v : View P}
    (hv : s.view? k = some v) (hopen : s.isClosed v = false) :
    (s.step (.copy k)).result = .ok (.made s.views.length) ∧
      Keeps s (s.step (.copy k)).system s.views.length v.copy := by
  have hcopy := copy_of_open hs hv hopen
  have hlease : (s.copy k).system.lease v.lease =
      { s.lease v.lease with refs := (s.lease v.lease).refs + 1 } := by
    rw [lease_of_take (s := s) (hs.refs_ne_zero hopen) (by rw [hcopy]; rfl), if_pos rfl]
  refine ⟨result_copy_of_open hs hv hopen, ?_, ?_, ?_⟩
  · change (s.copy k).system.view? _ = _
    rw [hcopy, system_done, view?_addView]
    exact if_pos rfl
  · change (false || ((s.copy k).system.lease v.lease).released) = false
    rw [hlease]
    exact (Bool.or_eq_false_iff.1 hopen).2
  · change ((s.copy k).system.lease v.lease).version = _
    rw [hlease]
    rfl

namespace Twins

variable {s t : System σ P} {k j : Nat} {v w : View P}

/-- An operation on the deletes of each twin is answered alike and leaves twins. -/
theorem edit (h : Twins s t k j v w) (op : DeleteOp) :
    Answered s t (op.toStep k) (op.toStep j) ∧
      Twins (s.step (op.toStep k)).system (t.step (op.toStep j)).system k j (v.applyOp op).1
        (w.applyOp op).1 := by
  obtain ⟨hview, hanswer⟩ := v.applyOp_content op
  obtain ⟨hview', hanswer'⟩ := w.applyOp_content op
  rw [h.content] at hview hanswer
  have hstep := step_toStep h.left h.leftOpen op
  have hstep' := step_toStep h.right h.rightOpen op
  refine ⟨.quiet ?_ fun n hmade => ?_, ?_⟩
  · rw [hstep, hstep']
    exact congrArg Except.ok (hanswer.symm.trans hanswer')
  · rw [hstep] at hmade
    cases op <;> cases hmade
  rw [hstep, hstep']
  have hversion : ∀ (u : System σ P) (x : View P) i,
      (u.setView i (x.applyOp op).1).version (x.applyOp op).1 = u.version x := by
    intro u x i
    have hlease : (x.applyOp op).1.lease = x.lease := by cases op <;> rfl
    unfold System.version
    rw [hlease, lease_setView]
  refine ⟨view?_setView_self h.left, view?_setView_self h.right,
    isClosed_applyOp h.leftOpen op, isClosed_applyOp h.rightOpen op, ?_,
    hview.symm.trans hview'⟩
  rw [system_done, system_done, hversion, hversion]
  exact h.version

/-- A copy of each twin is answered alike. -/
theorem copy (h : Twins s t k j v w) (hs : s.Reachable) (ht : t.Reachable) :
    Answered s t (.copy k) (.copy j) := by
  obtain ⟨hresult, hkeeps⟩ := step_copy hs h.left h.leftOpen
  obtain ⟨hresult', hkeeps'⟩ := step_copy ht h.right h.rightOpen
  refine .made v.copy w.copy hresult hresult' ⟨hkeeps.view, hkeeps'.view, hkeeps.isOpen,
    hkeeps'.isOpen, hkeeps.version.trans (h.version.trans hkeeps'.version.symm), ?_⟩
  rw [View.content_copy, View.content_copy]
  exact h.content

variable {kept : σ → α}

/-- Openings that take over from one content fail with one error or lead to twins. -/
theorem openGeneration (hkept : SegmentStore.AnswersFrom kept)
    (hstore : kept s.store = kept t.store) (hk : checkComposite s.store = .ok ())
    {prior prior' : List (Snapshot P)}
    (hprior : prior.map Snapshot.content = prior'.map Snapshot.content) (d : Decorator P)
    (config : Config) :
    (∃ e, (s.openGeneration prior d config).result = .error e ∧
        (t.openGeneration prior' d config).result = .error e) ∨
      ∃ version stats v w,
        (s.openGeneration prior d config).result = .ok (s.views.length, version, stats) ∧
        (t.openGeneration prior' d config).result = .ok (t.views.length, version, stats) ∧
        Twins (s.openGeneration prior d config).system (t.openGeneration prior' d config).system
          s.views.length t.views.length v w := by
  have hk' : checkComposite t.store = .ok () := by
    rw [checkComposite_congr (hkept.kind hstore).symm]
    exact hk
  have hshown := hkept.shown hstore
  cases hg : (SegmentStore.enumerate s.store).1 with
  | error e =>
    exact .inl ⟨e, openGeneration_of_unread hk hg prior d config,
      openGeneration_of_unread hk' (hshown.symm.trans hg) prior' d config⟩
  | ok g =>
    have hg' := hshown.symm.trans hg
    have hassemble := Generation.assemble_congr d hprior g config s.leases.length t.leases.length
    rcases cases_of_map_eq_map hassemble with ⟨e, ha, ha'⟩ | ⟨a, a', ha, ha', hsame⟩
    · exact .inl ⟨e, openGeneration_of_unmade hk hg ha, openGeneration_of_unmade hk' hg' ha'⟩
    · obtain ⟨hresult, -, hpresents⟩ := presents_of_assemble hk hg ha
      obtain ⟨hresult', -, hpresents'⟩ := presents_of_assemble hk' hg' ha'
      obtain ⟨hsnapshots, hboundaries, hstats⟩ := Assembly.mk.inj hsame
      rw [← hstats] at hresult'
      refine .inr ⟨g.version, a.stats, _, _, hresult, hresult', hpresents.view, hpresents'.view,
        hpresents.isOpen, hpresents'.isOpen, hpresents.version.trans hpresents'.version.symm, ?_⟩
      unfold View.content openedView
      simp only [hsnapshots, hboundaries]

/-- A reopen of each twin is answered alike over stores that answer alike. -/
theorem reopen (h : Twins s t k j v w) (hkept : SegmentStore.AnswersFrom kept)
    (hstore : kept s.store = kept t.store) (nanos : Nat) :
    Answered s t (.reopen k nanos) (.reopen j nanos) := by
  have hkind : checkComposite s.store = checkComposite t.store :=
    (checkComposite_congr (hkept.kind hstore).symm).symm
  have hchanged : SegmentStore.hasChangedSince s.store (s.version v) =
      SegmentStore.hasChangedSince t.store (t.version w) := by
    rw [hkept.changed hstore, h.version]
  obtain ⟨-, hdecorator, hconfig, hsegments, -⟩ := View.mk.inj h.content
  have hstep : ∀ (u : System σ P) i, (u.step (.reopen i nanos)).result =
      (u.reopen i nanos).result.map Reopened.toAnswer := fun _ _ => rfl
  cases hk : checkComposite s.store with
  | error e =>
    have hresult : (s.step (.reopen k nanos)).result = .error e := by
      rw [hstep, reopen_of_wrong_kind h.left h.leftOpen hk]
      rfl
    have hresult' : (t.step (.reopen j nanos)).result = .error e := by
      rw [hstep, reopen_of_wrong_kind h.right h.rightOpen (hkind.symm.trans hk)]
      rfl
    exact .quiet (hresult.trans hresult'.symm) fun n hmade => by simp [hresult] at hmade
  | ok u =>
    have hk' := hkind.symm.trans hk
    -- Both stores say alike whether there is anything to refresh (`hchanged`).
    rcases reopen_of_open h.left h.leftOpen hk nanos with
      ⟨hsame, hresult, -⟩ | ⟨hmoved, hresult, hsystem⟩
    · rcases reopen_of_open h.right h.rightOpen hk' nanos with
        ⟨-, hresult', -⟩ | ⟨hmoved', -, -⟩
      · refine .quiet ?_ fun n hmade => ?_
        · rw [hstep, hstep, hresult, hresult']
        · rw [hstep, hresult] at hmade
          cases hmade
      · rw [← hchanged, hsame] at hmoved'
        cases hmoved'
    · rcases reopen_of_open h.right h.rightOpen hk' nanos with
        ⟨hsame', -, -⟩ | ⟨-, hresult', hsystem'⟩
      · rw [← hchanged, hmoved] at hsame'
        cases hsame'
      · rw [← hdecorator, ← hconfig] at hresult' hsystem'
        rcases openGeneration hkept hstore hk hsegments v.decorator v.config with
          ⟨e, he, he'⟩ | ⟨version, stats, x, y, hmade, hmade', htwins⟩
        · refine .quiet ?_ fun n hmade => ?_
          · rw [hstep, hstep, hresult, hresult', he, he']
          · rw [hstep, hresult, he] at hmade
            cases hmade
        · rw [← hsystem, ← hsystem'] at htwins
          refine .made x y ?_ ?_ htwins
          · rw [hstep, hresult, hmade]
            rfl
          · rw [hstep, hresult', hmade']
            rfl

end Twins

end

end System

end SegmentedView
