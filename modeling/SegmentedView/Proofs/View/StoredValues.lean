import SegmentedView.Proofs.View.FirstLive
import SegmentedView.Segment.Memory

/-!
# Stored values of a view

A stored value is found in three steps: the mapper gives a position for an id, the boundaries give
the segment of the position, and that segment gives what it stores under the id. Where the mapper
is the table of the view all three speak of one document, the first live one of the id
(`View.Sound.storedValue_of_isLeast`). Any other mapper is answered as well, if the segments are
held in memory (`View.OfMemory.exists_storedValue`), and no position leads out of the table or
past a segment (`View.Sound.reads_inside`).
-/

set_option autoImplicit false

namespace SegmentedView

variable {P : Type}

/-! ## Segments in memory -/

/-- Among entries of distinct keys every entry is found by its key. -/
theorem lookup_of_mem_of_nodup {α β : Type} [BEq α] [LawfulBEq α] {es : List (α × β)}
    (h : (es.map (·.1)).Nodup) {a : α} {b : β} (hmem : (a, b) ∈ es) : es.lookup a = some b := by
  obtain ⟨before, after, rfl⟩ := List.append_of_mem hmem
  rw [List.lookup_eq_some_iff]
  refine ⟨before, after, rfl, fun e he => ?_⟩
  rw [List.map_append, List.map_cons, List.nodup_append] at h
  exact bne_iff_ne.2 (h.2.2 e.1 (List.mem_map_of_mem he) a List.mem_cons_self).symm

namespace MemorySegment

/-- Every document was written together with its content, whatever the content token is. -/
def Paired (m : MemorySegment) : Prop := m.ids = m.values.map (·.1)

/-- A segment made of documents has an id and a value for each of them. -/
theorem paired_ofDocs (name : String) (docs : List (Nat × Bytes)) : (ofDocs name docs).Paired :=
  rfl

/-- Where no id occurs twice, what is stored under an id is what was written with it. -/
theorem Paired.storedValue? {m : MemorySegment} (h : m.Paired) (hids : m.ids.Nodup) {l id : Nat}
    (hl : m.ids[l]? = some id) :
    ∃ bytes, m.values[l]? = some (id, bytes) ∧ m.storedValue? id = some bytes := by
  rw [Paired] at h
  rw [h] at hids hl
  obtain ⟨⟨i, bytes⟩, hvalue, rfl⟩ := Option.map_eq_some_iff.1 (List.getElem?_map.symm.trans hl)
  refine ⟨bytes, hvalue, lookup_of_mem_of_nodup ?_ ?_⟩
  · rw [List.map_reverse]
    exact List.nodup_reverse.2 hids
  · exact List.mem_reverse.2 (List.mem_of_getElem? hvalue)

end MemorySegment

namespace View

/-- Every segment of a view is held in memory. -/
def OfMemory (v : View P) : Prop :=
  ∀ x ∈ v.segments, ∃ (m : MemorySegment) (serial : Nat), x.segment = m.toSegment serial

/-- The document at a position is the one at an offset of a segment held in memory. -/
def HeldAt (v : View P) (p : Nat) (m : MemorySegment) (l : Nat) : Prop :=
  ∃ x serial, v.documentAt? p = some (x, l) ∧ x.segment = m.toSegment serial

/-- A view of the same documents as one held in memory is held in memory. -/
theorem SameDocuments.ofMemory {v w : View P} (h : SameDocuments v w) (hv : v.OfMemory) :
    w.OfMemory := by
  intro y hy
  obtain ⟨i, hi⟩ := List.getElem?_of_mem hy
  obtain ⟨x, hx, hsegment⟩ := h.symm.getElem? hi
  rw [← hsegment]
  exact hv x (List.mem_of_getElem? hx)

/-! ## Looking up -/

/-- What a view stores under an id is decided by its mapper, its boundaries and its segments. -/
theorem storedValue_eq (v : View P) (id : Nat) : v.storedValue id =
    ((v.mapper.bind fun mapper => mapper.position id).bind fun p =>
      (v.boundaries.locate p).bind fun x => (v.segments.map Snapshot.segment)[x.1]?).elim
        (.ok none) fun segment => segment.storedValue id := by
  unfold storedValue documentAt? locate
  cases v.mapper.bind fun mapper => mapper.position id with
  | none => rfl
  | some p =>
    dsimp only [Option.bind_some]
    cases v.boundaries.locate p with
    | none => rfl
    | some x =>
      dsimp only [Option.bind_some]
      rw [List.getElem?_map]
      cases v.segments[x.1]? <;> rfl

/-- The same documents have the same stored values for ids that are mapped alike. -/
theorem SameDocuments.storedValue {v w : View P} (h : SameDocuments v w)
    (hmapper : w.mapper = v.mapper) (id : Nat) : w.storedValue id = v.storedValue id := by
  rw [storedValue_eq, storedValue_eq, hmapper, h.boundaries, h.segments]

/-- An id that the mapper does not know has no stored value. -/
theorem storedValue_of_no_position {v : View P} {mapper : IdMapper}
    (hmapper : v.mapper = some mapper) {id : Nat} (hid : mapper.position id = none) :
    v.storedValue id = .ok none := by
  unfold storedValue
  rw [hmapper, Option.bind_some, hid]

/-- An id that the mapper knows has the stored value of its segment at the position. -/
theorem storedValue_of_documentAt? {v : View P} {mapper : IdMapper}
    (hmapper : v.mapper = some mapper) {id p : Nat} (hid : mapper.position id = some p)
    {x : Snapshot P} {l : Nat} (hx : v.documentAt? p = some (x, l)) :
    v.storedValue id = x.segment.storedValue id := by
  unfold storedValue
  rw [hmapper, Option.bind_some, hid]
  dsimp only
  rw [hx]
  rfl

/-- Segments in memory are read without error, wherever the mapper points. -/
theorem OfMemory.exists_storedValue {v : View P} (h : v.OfMemory) (id : Nat) :
    ∃ answer, v.storedValue id = .ok answer := by
  unfold storedValue
  split
  case h_1 => exact ⟨none, rfl⟩
  case h_2 p hp =>
    split
    case h_1 => exact ⟨none, rfl⟩
    case h_2 x l hx =>
      obtain ⟨m, serial, hsegment⟩ := h x (mem_of_documentAt? hx)
      refine ⟨m.storedValue? id, ?_⟩
      rw [Snapshot.storedValue, hsegment]
      rfl

namespace Sound

variable {v : View P}

/-- A position below the total is searched for and read inside the table, and it leads to a
segment that is there and to one of its documents. -/
theorem reads_inside (h : v.Sound) {p : Nat} (hp : p < v.total) :
    ∃ i start x, segmentIndex? v.starts p = some i ∧ v.starts[i]? = some start ∧ start ≤ p ∧
      v.segments[i]? = some x ∧ p - start < x.docCount := by
  rw [h.total] at hp
  obtain ⟨i, l, hloc⟩ := Boundaries.exists_locate h.table hp
  obtain ⟨hindex, start, hstart, hle, rfl⟩ := Boundaries.segmentIndex?_of_locate h.table hloc
  obtain ⟨x, hx, hlt, -⟩ := h.locate_eq_some_iff.1 hloc
  exact ⟨i, start, x, hindex, hstart, hle, hx, hlt⟩

/-- In a view over segments in memory a position below the total is one of a document of them. -/
theorem exists_heldAt (h : v.Sound) (hmemory : v.OfMemory) {p : Nat} (hp : p < v.total) :
    ∃ m l, v.HeldAt p m l := by
  obtain ⟨x, l, hx⟩ := h.exists_documentAt? hp
  obtain ⟨m, serial, hsegment⟩ := hmemory x (mem_of_documentAt? hx)
  exact ⟨m, l, x, serial, hx, hsegment⟩

/-- Through the table of the view an id leads to its first live document, and on to what the
segment of that document stores under it. -/
theorem storedValue_of_isLeast (h : v.Sound) {mapper : IdMapper} (hmapper : v.mapper = some mapper)
    (htable : mapper.position = (PositionTable.ofView v).position) {id p l : Nat}
    (hleast : IsLeast {q | v.LiveAt id q} p) {m : MemorySegment} (hat : v.HeldAt p m l) :
    m.ids[l]? = some id ∧ v.storedValue id = .ok (m.storedValue? id) := by
  have hposition : mapper.position id = some p := by
    rw [htable]
    exact h.position_ofView_eq_some_iff.2 hleast
  obtain ⟨x, serial, hx, hsegment⟩ := hat
  constructor
  · have hid := hleast.1.stableIdAt
    obtain ⟨i, hi, hlt, rfl⟩ := h.documentAt?_eq_some_iff.1 hx
    rw [h.stableIdAt_startOf_add hi hlt, hsegment] at hid
    exact hid
  · rw [storedValue_of_documentAt? hmapper hposition hx, hsegment]
    rfl

end Sound

end View

end SegmentedView
