import SegmentedView.View

/-!
# Position tables

The id mapper that is made by walking a view: for every id, the first position
of a document that is not deleted. A table can also be filled by hand.
-/

set_option autoImplicit false

namespace SegmentedView

/-- A look-up from ids to positions; every id occurs once. -/
structure PositionTable where
  entries : List (Nat × Nat) := []
  deriving DecidableEq, Repr

namespace PositionTable

variable {P : Type}

/-- The position of an id. -/
def position (t : PositionTable) (id : Nat) : Option Nat := t.entries.lookup id

/-- Sets the position of an id, whether or not it has one. -/
def insert (t : PositionTable) (id : Nat) (p : Nat) : PositionTable :=
  ⟨(id, p) :: t.entries.filter (·.1 != id)⟩

/-- Sets the position of an id that has none. -/
def insertNew (t : PositionTable) (id : Nat) (p : Nat) : PositionTable :=
  if (t.position id).isSome then t else ⟨(id, p) :: t.entries⟩

/-- A table filled in order. -/
def ofEntries (entries : List (Nat × Nat)) : PositionTable :=
  entries.foldl (fun t entry => t.insert entry.1 entry.2) {}

/-- The documents of one segment that are not deleted, each with its id and its
position, if the segment starts at `start`. -/
def liveDocs (start : Nat) (s : Snapshot P) : List (Nat × Nat) :=
  (List.range s.docCount).filterMap fun l =>
    if s.isDeleted l then none else (s.stableIdAt l).map fun id => (id, start + l)

/-- The table of a view: of documents with one id, the first counts. -/
def ofView (v : View P) : PositionTable :=
  ((v.segments.zip v.starts.toList).flatMap fun (s, start) => liveDocs start s).foldl
    (fun t entry => t.insertNew entry.1 entry.2) {}

/-- The number of ids. -/
def size (t : PositionTable) : Nat := t.entries.length

/-- Whether the table holds no id. -/
def isEmpty (t : PositionTable) : Bool := t.entries.isEmpty

/-! ## What each operation does to the look-up -/

/-- An empty table has no position for any id. -/
@[simp] theorem position_empty (id : Nat) : ({} : PositionTable).position id = none := rfl

/-- Entries of another id do not matter to a look-up. -/
theorem lookup_filter_ne {id k : Nat} (h : k ≠ id) (es : List (Nat × Nat)) :
    (es.filter (·.1 != id)).lookup k = es.lookup k := by
  induction es with
  | nil => rfl
  | cons e es ih =>
    obtain ⟨a, b⟩ := e
    by_cases ha : a = id
    · subst ha
      have hka : (k == a) = false := by simp [h]
      simp [List.lookup_cons, hka, ih]
    · simp [ha, List.lookup_cons, ih]

/-- An id that is set has its new position, and all others have theirs. -/
theorem position_insert (t : PositionTable) (id p k : Nat) :
    (t.insert id p).position k = if k = id then some p else t.position k := by
  by_cases h : k = id
  · simp [insert, position, h]
  · have hk : (k == id) = false := by simp [h]
    simp [insert, position, List.lookup_cons, hk, h, lookup_filter_ne h]

/-- An id that has a position keeps it; a new one gets it, and all others have theirs. -/
theorem position_insertNew (t : PositionTable) (id p k : Nat) :
    (t.insertNew id p).position k =
      if k = id ∧ t.position id = none then some p else t.position k := by
  cases hn : t.position id with
  | some q => simp [insertNew, hn]
  | none =>
    have hins : t.insertNew id p = ⟨(id, p) :: t.entries⟩ := by simp [insertNew, hn]
    rw [hins]
    show List.lookup k ((id, p) :: t.entries) = _
    by_cases hk : k = id
    · simp [hk]
    · have hb : (k == id) = false := by simp [hk]
      simp [List.lookup_cons, hb, hk, position]

end PositionTable

end SegmentedView
