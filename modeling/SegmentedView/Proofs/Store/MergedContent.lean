import SegmentedView.Proofs.Store.Merging
import SegmentedView.Proofs.View.StoredValues

/-!
# What a merged segment stores

A merge writes each document of its sources anew, together with the content that its source has for
it. So the merged segment stores something for every document, and it is what the last source with
the document stores (`SegmentList.storedValue?_union`). Where the source stores nothing, the merged
segment stores empty content (`SegmentList.merge_stores_all`).
-/

set_option autoImplicit false

namespace SegmentedView

/-! ## Documents with their content -/

/-- Documents that are written together with the content of a segment store it, and empty content
in place of none. -/
theorem MemorySegment.lookup_reverse_docs {m : MemorySegment} {id : Nat} (h : id ∈ m.ids) :
    m.docs.reverse.lookup id = some ((m.storedValue? id).getD []) := by
  unfold docs
  rw [← List.map_reverse]
  exact List.lookup_graph (fun id => (m.storedValue? id).getD []) (List.mem_reverse.2 h)

/-- An id that no document has is found in no order of the documents. -/
theorem lookup_reverse_eq_none {docs : List (Nat × Bytes)} {id : Nat}
    (h : id ∉ docs.map Prod.fst) : docs.reverse.lookup id = none := by
  rw [List.lookup_eq_none_iff]
  intro doc hdoc
  rw [bne_iff_ne]
  rintro rfl
  exact h (List.mem_map_of_mem (List.mem_reverse.1 hdoc))

namespace SegmentList

variable {s t : SegmentList} {names : List String} {into : String}

/-- Every source is a segment of one of the names. -/
theorem exists_segment_of_mem_sources {i : Nat} (h : i ∈ s.sources names) :
    ∃ serial source, s.entries[i]? = some (.segment serial source) ∧ source.name ∈ names := by
  obtain ⟨name, hname, ⟨e, he, hnamed⟩, -⟩ := mem_sources.1 h
  cases e with
  | foreign kind => cases hnamed
  | segment serial source =>
    obtain rfl : source.name = name := eq_of_beq hnamed
    exact ⟨serial, source, he, hname⟩

/-- Documents of no source are not stored. -/
theorem storedValue?_union_eq_none {id : Nat} (h : id ∉ (s.sources names).flatMap s.idsAt) :
    (s.union names into).storedValue? id = none := by
  rw [← map_fst_flatMap_docsAt] at h
  exact lookup_reverse_eq_none h

/-- For a document of several sources the last of them counts. -/
theorem storedValue?_union {i serial id : Nat} {source : MemorySegment}
    (hi : i ∈ s.sources names) (hsource : s.entries[i]? = some (.segment serial source))
    (hid : id ∈ source.ids) (hlast : ∀ k ∈ s.sources names, i < k → id ∉ s.idsAt k) :
    (s.union names into).storedValue? id = some ((source.storedValue? id).getD []) := by
  obtain ⟨before, after, hsplit⟩ := List.append_of_mem hi
  have hsorted := s.pairwise_sources names
  rw [hsplit, List.pairwise_append, List.pairwise_cons] at hsorted
  have hafter : id ∉ (after.flatMap s.docsAt).map Prod.fst := by
    rw [map_fst_flatMap_docsAt, List.mem_flatMap]
    rintro ⟨k, hk, hidk⟩
    refine hlast k ?_ (hsorted.2.1.1 k hk) hidk
    rw [hsplit]
    exact List.mem_append_right _ (List.mem_cons_of_mem i hk)
  have hdocs : s.docsAt i = source.docs := by
    unfold docsAt
    rw [hsource]
    rfl
  change ((s.sources names).flatMap s.docsAt).reverse.lookup id = _
  rw [hsplit, List.flatMap_append, List.flatMap_cons, List.reverse_append, List.reverse_append,
    List.lookup_append, List.lookup_append, lookup_reverse_eq_none hafter, hdocs,
    MemorySegment.lookup_reverse_docs hid]
  rfl

/-- A document of the segment at a place is one of the documents there. -/
theorem mem_idsAt {i serial id : Nat} {source : MemorySegment}
    (hsource : s.entries[i]? = some (.segment serial source)) (hid : id ∈ source.ids) :
    id ∈ s.idsAt i := by
  unfold idsAt
  rw [hsource]
  exact hid

/-- Where no id occurs twice, every source is the last one with its documents. -/
theorem not_mem_later_of_nodup (h : ((s.sources names).flatMap s.idsAt).Nodup) {i id : Nat}
    (hi : i ∈ s.sources names) (hid : id ∈ s.idsAt i) :
    ∀ k ∈ s.sources names, i < k → id ∉ s.idsAt k := by
  intro k hk hlt hidk
  have hsymm : Std.Symm (Function.onFun List.Disjoint s.idsAt) := ⟨fun _ _ hab => hab.symm⟩
  exact (List.nodup_flatMap.1 h).2.forall hi hk hlt.ne hid hidk

/-- A merge stores something for every document of its sources and nothing else: what the last
source with the document stores, and empty content if that source stores nothing. So where no id
occurs twice, what is stored for a document stays the same exactly if there was something. -/
theorem merge_stores_all (h : s.merge names into = .ok t) :
    ∃ m, s.Joined t names m ∧
      (∀ id, id ∉ (s.sources names).flatMap s.idsAt → m.storedValue? id = none) ∧
      ∀ i ∈ s.sources names, ∃ serial source, s.entries[i]? = some (.segment serial source) ∧
        source.name ∈ names ∧ ∀ id ∈ source.ids,
          ((∀ k ∈ s.sources names, i < k → id ∉ s.idsAt k) →
            m.storedValue? id = some ((source.storedValue? id).getD [])) ∧
          (((s.sources names).flatMap s.idsAt).Nodup →
            (m.storedValue? id = source.storedValue? id ↔ source.storedValue? id ≠ none)) := by
  refine ⟨s.union names into, joined_of_merge h, fun id hid => storedValue?_union_eq_none hid,
    fun i hi => ?_⟩
  obtain ⟨serial, source, hsource, hname⟩ := exists_segment_of_mem_sources hi
  refine ⟨serial, source, hsource, hname, fun id hid =>
    ⟨fun hlast => storedValue?_union hi hsource hid hlast, fun hdistinct => ?_⟩⟩
  have hlast := not_mem_later_of_nodup hdistinct hi (mem_idsAt hsource hid)
  rw [storedValue?_union hi hsource hid hlast]
  cases source.storedValue? id <;> simp

/-- A segment with content, one without and one with empty content are merged: all three documents
are stored afterwards, and the last two alike. -/
theorem merge_stores_all_of_mixed :
    let s := SegmentList.ofSegments [.ofDocs "a" [(1, [97])], .ofIds "b" [2], .ofDocs "c" [(3, [])]]
    ∃ t m, s.merge ["c", "b", "a"] "m" = .ok t ∧ s.Joined t ["c", "b", "a"] m ∧
      m.storedValue? 1 = some [97] ∧ m.storedValue? 2 = some [] ∧ m.storedValue? 3 = some [] ∧
      m.storedValue? 4 = none := by
  intro s
  have hheld : ∀ name ∈ ["c", "b", "a"], s.Holds name := by decide
  obtain ⟨t, ht, -⟩ := exists_merge (List.cons_ne_nil _ _) hheld "m"
  obtain ⟨m, hjoined, hnone, hstored⟩ := merge_stores_all ht
  have hdistinct : ((s.sources ["c", "b", "a"]).flatMap s.idsAt).Nodup := by decide
  have hsources : ∀ i ∈ [0, 1, 2], i ∈ s.sources ["c", "b", "a"] := by decide
  have hvalue : ∀ i serial source id, i ∈ [0, 1, 2] →
      s.entries[i]? = some (.segment serial source) → id ∈ source.ids →
        m.storedValue? id = some ((source.storedValue? id).getD []) := by
    intro i serial source id hi hsource hid
    obtain ⟨serial', source', hsource', -, hall⟩ := hstored i (hsources i hi)
    obtain ⟨-, rfl⟩ := Entry.segment.inj (Option.some.inj (hsource'.symm.trans hsource))
    exact (hall id hid).1 (not_mem_later_of_nodup hdistinct (hsources i hi)
      (mem_idsAt hsource hid))
  exact ⟨t, m, ht, hjoined, hvalue 0 0 _ 1 (by simp) rfl (by decide),
    hvalue 1 1 _ 2 (by simp) rfl (by decide), hvalue 2 2 _ 3 (by simp) rfl (by decide),
    hnone 4 (by decide)⟩

/-- Nothing is stored for a document, and after a merge of its segment alone there is: a look-up
that found nothing finds empty content. -/
theorem stored_only_by_merge :
    let s := SegmentList.ofSegments [.ofIds "_0" [0]]
    let m := MemorySegment.ofDocs "_1" [(0, [])]
    ∃ t, s.merge ["_0"] "_1" = .ok t ∧ s.entries = [.segment 0 (.ofIds "_0" [0])] ∧
      t.entries = [.segment 1 m] ∧ ((s.sources ["_0"]).flatMap s.idsAt).Nodup ∧
      (MemorySegment.ofIds "_0" [0]).storedValue? 0 = none ∧ m.storedValue? 0 = some [] :=
  ⟨_, rfl, rfl, by decide, by decide, rfl, rfl⟩

end SegmentList

end SegmentedView
