import SegmentedView.Address

/-!
# Deleted documents

The set of deleted offsets of one segment, as one mark for each of its
documents and the number of marks that are set. `contains` is the view of the
set; `offsets` lists it.
-/

set_option autoImplicit false

namespace SegmentedView

/-- A set of deleted offsets of a segment of `marks.length` documents. -/
structure DeletedDocs where
  marks : List Bool
  count : Nat
  deriving DecidableEq, Repr

namespace DeletedDocs

/-- No deletes, for a segment of `n` documents. -/
def empty (n : Nat) : DeletedDocs := ⟨List.replicate n false, 0⟩

/-- The number of documents that the set speaks of, deleted or not. -/
def size (d : DeletedDocs) : Nat := d.marks.length

/-- Whether the set speaks of no document at all. -/
def isEmpty (d : DeletedDocs) : Bool := d.marks.isEmpty

/-- Whether a document is deleted. One past the end never is. -/
def contains (d : DeletedDocs) (l : Nat) : Bool := d.marks.getD l false

/-- The deleted offsets in ascending order. -/
def offsets (d : DeletedDocs) : List Nat :=
  d.marks.zipIdx.filterMap fun (marked, l) => if marked then some l else none

/-- Whether `l` can be added: a document of the segment, and not deleted. -/
def admits (d : DeletedDocs) (l : Nat) : Bool := l < d.size && !d.contains l

/-- Marks one more document, which the set must admit. -/
def insert (d : DeletedDocs) (l : Nat) : DeletedDocs :=
  ⟨d.marks.set l true, d.count + 1⟩

/-- Adds every offset that the set admits when its turn comes, and counts the
ones added. -/
def insertAll (d : DeletedDocs) : List Nat → DeletedDocs × Nat
  | [] => (d, 0)
  | l :: ls =>
    if d.admits l then
      let rest := (d.insert l).insertAll ls
      (rest.1, rest.2 + 1)
    else d.insertAll ls

/-- The same set for a segment of `n` documents: new documents are not deleted,
deletes past the end are dropped. -/
def resized (d : DeletedDocs) (n : Nat) : DeletedDocs :=
  let marks := d.marks.take n ++ List.replicate (n - d.marks.length) false
  ⟨marks, marks.count true⟩

/-! ## What each operation does to the set -/

/-- An empty set has the size that it was made with. -/
@[simp] theorem size_empty (n : Nat) : (empty n).size = n := by simp [empty, size]

/-- An empty set contains no document. -/
@[simp] theorem contains_empty (n l : Nat) : (empty n).contains l = false := by
  simp [empty, contains, List.getD_eq_getElem?_getD, List.getElem?_replicate]
  split <;> rfl

/-- Every document of a set is below its size. -/
theorem lt_size_of_contains {d : DeletedDocs} {l : Nat} (h : d.contains l = true) :
    l < d.size := by
  apply Nat.lt_of_not_le
  intro hle
  simp [contains, List.getD_eq_getElem?_getD, List.getElem?_eq_none hle] at h

/-- A document can join a set if it is below its size and not there yet. -/
theorem admits_iff {d : DeletedDocs} {l : Nat} :
    d.admits l = true ↔ l < d.size ∧ d.contains l = false := by simp [admits]

/-- A document that joins leaves the size alone. -/
@[simp] theorem size_insert (d : DeletedDocs) (l : Nat) : (d.insert l).size = d.size := by
  simp [insert, size]

/-- A set with one document more contains it and what it contained. -/
theorem contains_insert {d : DeletedDocs} {l : Nat} (h : l < d.size) (k : Nat) :
    (d.insert l).contains k = (decide (k = l) || d.contains k) := by
  by_cases hk : k = l
  · subst hk
    simp [insert, contains, List.getD_eq_getElem?_getD, show k < d.marks.length from h]
  · simp [insert, contains, List.getD_eq_getElem?_getD, List.getElem?_set_ne (Ne.symm hk), hk]

/-- Documents that join leave the size alone. -/
@[simp] theorem size_insertAll (d : DeletedDocs) (ls : List Nat) :
    (d.insertAll ls).1.size = d.size := by
  induction ls generalizing d with
  | nil => rfl
  | cons l ls ih =>
    rw [insertAll]
    split
    · simp [ih]
    · exact ih d

/-- Of many documents those below the size join a set. -/
theorem contains_insertAll (d : DeletedDocs) (ls : List Nat) (k : Nat) :
    (d.insertAll ls).1.contains k = true ↔
      d.contains k = true ∨ (k ∈ ls ∧ k < d.size) := by
  induction ls generalizing d with
  | nil => simp [insertAll]
  | cons l ls ih =>
    rw [insertAll]
    split
    case isTrue h =>
      obtain ⟨hl, hc⟩ := admits_iff.1 h
      simp only [ih, contains_insert hl, size_insert, Bool.or_eq_true, decide_eq_true_eq,
        List.mem_cons]
      constructor
      · rintro ((rfl | hk) | ⟨hk, hs⟩)
        · exact .inr ⟨.inl rfl, hl⟩
        · exact .inl hk
        · exact .inr ⟨.inr hk, hs⟩
      · rintro (hk | ⟨rfl | hk, hs⟩)
        · exact .inl (.inr hk)
        · exact .inl (.inl rfl)
        · exact .inr ⟨hk, hs⟩
    case isFalse h =>
      simp only [ih, List.mem_cons]
      constructor
      · rintro (hk | ⟨hk, hs⟩)
        · exact .inl hk
        · exact .inr ⟨.inr hk, hs⟩
      · rintro (hk | ⟨rfl | hk, hs⟩)
        · exact .inl hk
        · cases hc : d.contains k
          · exact absurd (admits_iff.2 ⟨hs, hc⟩) h
          · exact .inl rfl
        · exact .inr ⟨hk, hs⟩

/-- A resized set has the new size. -/
@[simp] theorem size_resized (d : DeletedDocs) (n : Nat) : (d.resized n).size = n := by
  simp [resized, size]
  omega

/-- A resized set contains the documents below the new size that it contained. -/
theorem contains_resized (d : DeletedDocs) (n l : Nat) :
    (d.resized n).contains l = (decide (l < n) && d.contains l) := by
  by_cases hn : l < n
  · by_cases hl : l < d.marks.length
    · simp [resized, contains, List.getD_eq_getElem?_getD, hn, hl,
        List.getElem?_append_left (show l < (d.marks.take n).length by simp; omega)]
    · have hl' : d.marks.length ≤ l := Nat.le_of_not_lt hl
      simp [resized, contains, List.getD_eq_getElem?_getD, hn, List.getElem?_eq_none hl',
        List.getElem?_append_right (show (d.marks.take n).length ≤ l by simp; omega),
        List.getElem?_replicate]
      split <;> rfl
  · have h : (d.resized n).contains l = false := by
      apply Bool.eq_false_iff.2
      intro h
      have := lt_size_of_contains h
      simp at this
      omega
    simp [h, hn]

/-- The offsets of a set are the documents that it contains. -/
theorem mem_offsets {d : DeletedDocs} {l : Nat} : l ∈ d.offsets ↔ d.contains l = true := by
  simp only [offsets, List.mem_filterMap, contains, List.getD_eq_getElem?_getD]
  constructor
  · rintro ⟨⟨marked, i⟩, hm, hb⟩
    have := List.mem_zipIdx_iff_getElem?.1 hm
    cases marked <;> simp_all
  · intro h
    refine ⟨(true, l), ?_, by simp⟩
    rw [List.mem_zipIdx_iff_getElem?]
    cases hx : d.marks[l]? with
    | none => simp [hx] at h
    | some marked => simp_all

end DeletedDocs

end SegmentedView
