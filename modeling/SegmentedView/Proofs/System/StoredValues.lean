import SegmentedView.Proofs.System.Tables
import SegmentedView.Proofs.System.Twins
import SegmentedView.Proofs.View.StoredValues

/-!
# Stored values in a system

A view that a table was installed in has that mapper until another is installed in it
(`System.mapped_run`), and the table stays right until deletes of the view are committed. So
stored values come from the first live document of an id (`System.storedValue_reads_first_live`),
for the view itself and for copies that are made of it.
-/

set_option autoImplicit false

namespace SegmentedView

variable {σ P : Type}

/-- Whether a step installs a mapper in the view of a number. -/
def Step.installsOn (k : Nat) : Step σ P → Bool
  | .install slot _ => slot == k
  | _ => false

/-- A step that installs no mapper in a view leaves it its own. -/
theorem Evolves.mapper {st : Step σ P} {k : Nat} {v w : View P} (h : Evolves st k v w)
    (hst : st.installsOn k = false) : w.mapper = v.mapper := by
  cases h with
  | installed => simp [Step.installsOn] at hst
  | _ => rfl

/-- A list of segments holds its segments in memory. -/
theorem SegmentList.ofMemory_of_leaves {v : View P} {store : SegmentList}
    (hleaves : v.segments.map (fun x => Leaf.segment x.segment) = store.generation.leaves) :
    v.OfMemory := by
  intro x hx
  have hmem : Leaf.segment x.segment ∈ store.entries.map SegmentList.Entry.toLeaf := by
    change _ = store.entries.map SegmentList.Entry.toLeaf at hleaves
    rw [← hleaves]
    exact List.mem_map_of_mem hx
  obtain ⟨e, -, he⟩ := List.mem_map.1 hmem
  cases e with
  | segment serial m => exact ⟨m, serial, (Leaf.segment.inj he).symm⟩
  | foreign kind => cases he

namespace System

variable [SegmentStore σ]

/-- Views over a list of segments are held in memory, and stay so when they are refreshed. -/
theorem Reachable.ofMemory {s : System SegmentList P} (h : s.Reachable) {k : Nat} {v : View P}
    (hv : s.view? k = some v) : v.OfMemory := by
  refine h.forall_view View.OfMemory (fun st k v w hmemory hevolves => ?_)
    (fun s w ih hborn => ?_) hv
  · exact hevolves.sameDocuments.ofMemory hmemory
  · cases hborn with
    | copied slot v hv hopen => exact (View.sameDocuments_copy v).ofMemory (ih slot v hv)
    | opened prior d config g a hp hg ha =>
      cases hg
      exact SegmentList.ofMemory_of_leaves (Generation.made_of_assemble ha).leaves.symm

/-! ## Installed mappers -/

/-- Installing a mapper in a view that is there succeeds, whether or not it is open. -/
theorem system_install {s : System σ P} {k : Nat} {v : View P} (hv : s.view? k = some v)
    (position : Nat → Option Nat) : (s.step (.install k position)).system =
      { s with mappers := s.mappers + 1 }.setView k
        { v with mapper := some ⟨s.mappers, position⟩ } := by
  change (s.install k position).system = _
  unfold install
  rw [findView_eq_ok_iff.2 hv]
  rfl

/-- A view that is there has the mapper that was installed. -/
theorem view?_install {s : System σ P} {k : Nat} {v : View P} (hv : s.view? k = some v)
    (position : Nat → Option Nat) : (s.step (.install k position)).system.view? k =
      some { v with mapper := some ⟨s.mappers, position⟩ } := by
  have hv' : ({ s with mappers := s.mappers + 1 } : System σ P).view? k = some v := hv
  rw [system_install hv, view?_setView_self hv']

/-- A view with a mapper installed is as open as before. -/
theorem isClosed_install {s : System σ P} {k : Nat} {v : View P} (hv : s.view? k = some v)
    (hopen : s.isClosed v = false) (position : Nat → Option Nat) :
    (s.step (.install k position)).system.isClosed
      { v with mapper := some ⟨s.mappers, position⟩ } = false := by
  rw [system_install hv]
  exact hopen

/-- What is installed in a view is its mapper until something else is, and its documents and
committed deletes are those of before while nothing commits. -/
theorem mapped_run {s : System σ P} {k : Nat} {v w : View P} (hv : s.view? k = some v)
    {before after : List (Step σ P)} {position : Nat → Option Nat}
    (hbefore : ∀ st ∈ before, st.commitsOn k = false)
    (hafter : ∀ st ∈ after, st.commitsOn k = false ∧ st.installsOn k = false)
    (hw : (s.run (before ++ .install k position :: after)).view? k = some w) :
    View.SameCommitted v w ∧ ∃ serial, w.mapper = some ⟨serial, position⟩ := by
  rw [run_append] at hw
  -- A number that is empty when the mapper is installed stays empty, so there was a view to
  -- install it in.
  have hlt : k < (s.run before).views.length :=
    (lt_length_of_view? hv).trans_le (s.length_views_run before)
  obtain ⟨y, hy⟩ := exists_view_of_run hlt hw
  have hsame : View.SameCommitted v y := sameCommitted_run hbefore hv hy
  refine holds_run (fun x => View.SameCommitted v x ∧ ∃ serial, x.mapper = some ⟨serial, position⟩)
    (fun st hst x z hx hevolves => ?_) (view?_install hy position)
    ⟨hsame.trans ⟨rfl, rfl⟩, (s.run before).mappers, rfl⟩ hw
  obtain ⟨hcommits, hinstalls⟩ := hafter st hst
  obtain ⟨hsame, serial, hmapper⟩ := hx
  exact ⟨hsame.trans (hevolves.sameCommitted hcommits), serial,
    (hevolves.mapper hinstalls).trans hmapper⟩

/-- Where no mapper is installed, what a view stores under an id stays. -/
theorem storedValue_run {s : System σ P} {k : Nat} {v w : View P} {steps : List (Step σ P)}
    (hsteps : ∀ st ∈ steps, st.installsOn k = false) (hv : s.view? k = some v)
    (hw : (s.run steps).view? k = some w) (id : Nat) : w.storedValue id = v.storedValue id :=
  holds_run (fun x => x.storedValue id = v.storedValue id)
    (fun st hst _ _ hx hevolves => (hevolves.sameDocuments.storedValue
      (hevolves.mapper (hsteps st hst)) id).trans hx) hv rfl hw

/-- Stored values are read from the segment of the first live document. A table is built from a
view, installed in it after steps that commit nothing, and after more steps that commit and
install nothing the view is open. Then an id that no live document has is answered with nothing,
and any other with what the segment of its lowest live position stores under it: where the
documents of that segment were written with their content and have ids of their own, the content
of that very document. A copy answers the same, and goes on to as long as nothing is installed in
it, whatever is deleted. Under any other mapper there is an answer too, and a look-up of a
position never leaves the table and the segments. -/
theorem storedValue_reads_first_live {s : System σ P} (hs : s.Reachable) {k : Nat} {v : View P}
    (hv : s.view? k = some v) (hmemory : v.OfMemory) {before after : List (Step σ P)}
    (hbefore : ∀ st ∈ before, st.commitsOn k = false)
    (hafter : ∀ st ∈ after, st.commitsOn k = false ∧ st.installsOn k = false) {w : View P} :
    let t := s.run (before ++ .install k (PositionTable.ofView v).position :: after)
    let copied := (t.step (.copy k)).system
    t.view? k = some w → t.isClosed w = false →
      (∀ id, (¬ ∃ p, w.LiveAt id p) → t.storedValue k id = .ok none) ∧
      (∀ id p, IsLeast {q | w.LiveAt id q} p → (∃ m l, w.HeldAt p m l) ∧
        ∀ m l, w.HeldAt p m l → m.ids[l]? = some id ∧
          t.storedValue k id = .ok (m.storedValue? id) ∧
          (m.Paired → m.ids.Nodup → ∃ bytes, m.values[l]? = some (id, bytes) ∧
            t.storedValue k id = .ok (some bytes))) ∧
      ((t.step (.copy k)).result = .ok (.made t.views.length) ∧
        (∀ id, copied.storedValue t.views.length id = t.storedValue k id) ∧
        ∀ later : List (Step σ P), (∀ st ∈ later, st.installsOn t.views.length = false) →
          ∀ y, (copied.run later).view? t.views.length = some y →
            (copied.run later).isClosed y = false →
            ∀ id, (copied.run later).storedValue t.views.length id = t.storedValue k id) ∧
      (∀ position id, ∃ answer,
        (t.step (.install k position)).system.storedValue k id = .ok answer) ∧
      ∀ p < w.total, ∃ i start x, segmentIndex? w.starts p = some i ∧ w.starts[i]? = some start ∧
        start ≤ p ∧ w.segments[i]? = some x ∧ p - start < x.docCount := by
  intro t copied hw hopen
  have ht : t.Reachable := hs.run _
  have hsound := ht.sound hw
  -- Nothing is committed on the way, so the table made of `v` is still that of `w`.
  obtain ⟨hsame, serial, hmapper⟩ := mapped_run hv hbefore hafter hw
  have hheld := hsame.sameDocuments.ofMemory hmemory
  have htable : (PositionTable.ofView v).position = (PositionTable.ofView w).position := by
    rw [hsame.ofView_eq]
  obtain ⟨hmade, hcopy⟩ := step_copy ht hw hopen
  have hcopied : ∀ id, w.copy.storedValue id = w.storedValue id :=
    fun id => (View.sameDocuments_copy w).storedValue rfl id
  have hread := (lookups_of_open hw hopen).2
  refine ⟨fun id hnone => ?_, fun id p hleast => ⟨hsound.exists_heldAt hheld hleast.1.lt_total,
    fun m l hat => ?_⟩, ⟨hmade, fun id => ?_, fun later hlater y hy hyopen id => ?_⟩,
    fun position id => ?_, fun p hp => hsound.reads_inside hp⟩
  · rw [hread]
    refine View.storedValue_of_no_position hmapper ?_
    change (PositionTable.ofView v).position id = none
    rw [htable]
    exact hsound.position_ofView_eq_none_iff.2 hnone
  · rw [hread]
    obtain ⟨hid, hvalue⟩ := hsound.storedValue_of_isLeast hmapper htable hleast hat
    refine ⟨hid, hvalue, fun hpaired hids => ?_⟩
    obtain ⟨bytes, hbytes, hstored⟩ := hpaired.storedValue? hids hid
    exact ⟨bytes, hbytes, hvalue.trans (congrArg Except.ok hstored)⟩
  · rw [(lookups_of_open hcopy.view hcopy.isOpen).2, hread, hcopied]
  · rw [(lookups_of_open hy hyopen).2, hread, ← hcopied]
    exact storedValue_run hlater hcopy.view hy id
  · obtain ⟨answer, hanswer⟩ := View.OfMemory.exists_storedValue
      (v := { w with mapper := some ⟨t.mappers, position⟩ }) hheld id
    have hinstalled := lookups_of_open (view?_install hw position)
      (isClosed_install hw hopen position)
    exact ⟨answer, (hinstalled.2 id).trans hanswer⟩

/-- Two segments store something under the id 1, and the first of these documents is deleted when
the table is built, the second marked before the table is installed: the bytes of the second are
read, by the view and by a copy of it. -/
theorem storedValue_reads_first_live_of_shadowed :
    let s := ({ store := .ofSegments [.ofDocs "a" [(1, [97]), (2, [98])], .ofIds "b" [],
        .ofDocs "c" [(1, [99])]] } : System SegmentList Segment).run
      [.openView .segments {}, .markAt 0 [0], .commit 0]
    ∃ v, s.view? 0 = some v ∧
      let t := s.run ([.markAt 0 [2]] ++ .install 0 (PositionTable.ofView v).position ::
        [.markIds 0 [2]])
      ∃ w, t.view? 0 = some w ∧ w.HeldAt 2 (.ofDocs "c" [(1, [99])]) 0 ∧
        t.storedValue 0 1 = .ok (some [99]) ∧
        (t.step (.copy 0)).system.storedValue 1 1 = .ok (some [99]) ∧
        t.storedValue 0 5 = .ok none := by
  intro s
  have hs : s.Reachable := ⟨_, _, rfl⟩
  obtain ⟨v, hv⟩ : ∃ v, s.view? 0 = some v := ⟨_, rfl⟩
  have htable : (s.view? 0).map PositionTable.ofView = some ⟨[(1, 2), (2, 1)]⟩ := by decide +kernel
  rw [hv, Option.map_some, Option.some.injEq] at htable
  refine ⟨v, hv, ?_⟩
  intro t
  obtain ⟨w, hw, hopen, x, hx, hsegment, hcounts⟩ : ∃ w, t.view? 0 = some w ∧
      t.isClosed w = false ∧ ∃ x, w.segments[2]? = some x ∧
        x.segment = (MemorySegment.ofDocs "c" [(1, [99])]).toSegment 2 ∧ w.counts = [2, 0, 1] :=
    ⟨_, rfl, rfl, _, rfl, rfl, rfl⟩
  have hbefore : ∀ st ∈ ([.markAt 0 [2]] : List (Step SegmentList Segment)),
      st.commitsOn 0 = false := by simp [Step.commitsOn]
  have hafter : ∀ st ∈ ([.markIds 0 [2]] : List (Step SegmentList Segment)),
      st.commitsOn 0 = false ∧ st.installsOn 0 = false := by
    simp [Step.commitsOn, Step.installsOn]
  obtain ⟨hnone, hleast, ⟨-, hcopy, -⟩, -⟩ :=
    storedValue_reads_first_live hs hv (hs.ofMemory hv) hbefore hafter hw hopen
  rw [← (mapped_run hv hbefore hafter hw).1.ofView_eq] at htable
  have hsound := ((hs.run _).sound hw : w.Sound)
  have hat : w.HeldAt 2 (.ofDocs "c" [(1, [99])]) 0 := by
    refine ⟨x, 2, hsound.documentAt?_eq_some_iff.2 ⟨2, hx, ?_, ?_⟩, hsegment⟩
    · rw [Snapshot.docCount, hsegment]
      exact Nat.one_pos
    · rw [hcounts]
      rfl
  have hfirst : IsLeast {q | w.LiveAt 1 q} 2 := by
    rw [← hsound.position_ofView_eq_some_iff, htable]
    rfl
  have hfifth : ¬ ∃ p, w.LiveAt 5 p := by
    rw [← hsound.position_ofView_eq_none_iff, htable]
    rfl
  obtain ⟨bytes, hbytes, hstored⟩ := ((hleast 1 2 hfirst).2 _ 0 hat).2.2
    (MemorySegment.paired_ofDocs "c" [(1, [99])]) (List.nodup_singleton 1)
  obtain ⟨-, rfl⟩ := Prod.mk.inj (Option.some.inj hbytes)
  exact ⟨w, hw, hat, hstored, (hcopy 1).trans hstored, hnone 5 hfifth⟩

end System

end SegmentedView
