import SegmentedView.Deletes.DeletedDocs

/-!
# Delete state

The deletes of one segment of one view. Marks are staged in a pending set, which
starts as the committed set and grows; a commit publishes it as a whole, so a
reader sees either all of it or none. A state is a value: states made from one
another have nothing in common that either can change.
-/

set_option autoImplicit false

namespace SegmentedView

/-- The committed deletes of a segment, and what a commit would publish. -/
structure DeleteState where
  committed : DeletedDocs
  pending : Option DeletedDocs := none
  deriving DecidableEq, Repr

namespace DeleteState

/-- No deletes, for a segment of `n` documents. -/
def new (n : Nat) : DeleteState := ⟨.empty n, none⟩

/-- Whether a delete of this document has been committed. -/
def isDeleted (s : DeleteState) (l : Nat) : Bool := s.committed.contains l

/-- Whether a delete of this document waits for a commit. -/
def isStaged (s : DeleteState) (l : Nat) : Bool :=
  (s.pending.getD s.committed).contains l && !s.committed.contains l

/-- The number of documents that the state speaks of. -/
def size (s : DeleteState) : Nat := s.committed.size

/-- Whether there is a pending set. -/
def hasPending (s : DeleteState) : Bool := s.pending.isSome

/-- Stages deletes and counts the ones neither staged nor committed before. A
pending set appears only when one was new. -/
def markAll (s : DeleteState) (ls : List Nat) : DeleteState × Nat :=
  let staged := (s.pending.getD s.committed).insertAll ls
  if staged.2 = 0 then (s, 0) else ({ s with pending := some staged.1 }, staged.2)

/-- Stages one delete; true if it was new. -/
def mark (s : DeleteState) (l : Nat) : DeleteState × Bool :=
  let marked := s.markAll [l]
  (marked.1, marked.2 == 1)

/-- Publishes what is staged; false if nothing was. -/
def commit (s : DeleteState) : DeleteState × Bool :=
  match s.pending with
  | some staged => (⟨staged, none⟩, true)
  | none => (s, false)

/-- A state of its own that starts from the same sets. -/
def fork (s : DeleteState) : DeleteState := ⟨s.committed, s.pending⟩

/-- A state of its own for a segment of `n` documents that starts from the same
sets, cut or extended to that size. -/
def rebase (s : DeleteState) (n : Nat) : DeleteState :=
  ⟨if s.committed.size = n then s.committed else s.committed.resized n,
   s.pending.map (·.resized n)⟩

/-! ## What each operation does to the committed deletes -/

/-- Fresh deletes speak of the documents that they were made for. -/
@[simp] theorem size_new (n : Nat) : (new n).size = n := by simp [new, size]

/-- In fresh deletes no document is deleted. -/
@[simp] theorem isDeleted_new (n l : Nat) : (new n).isDeleted l = false := by
  simp [new, isDeleted]

/-- Marks leave what is committed alone. -/
@[simp] theorem committed_markAll (s : DeleteState) (ls : List Nat) :
    (s.markAll ls).1.committed = s.committed := by
  rw [markAll]
  split <;> rfl

/-- Marks delete nothing before they are committed. -/
theorem isDeleted_markAll (s : DeleteState) (ls : List Nat) (l : Nat) :
    (s.markAll ls).1.isDeleted l = s.isDeleted l := by simp [isDeleted]

/-- A commit puts the pending set in the place of the committed one, if there is one. -/
theorem committed_commit (s : DeleteState) :
    s.commit.1.committed = s.pending.getD s.committed := by
  cases h : s.pending <;> simp [commit, h]

/-- Nothing is pending after a commit. -/
@[simp] theorem pending_commit (s : DeleteState) : s.commit.1.pending = none := by
  cases h : s.pending <;> simp [commit, h]

/-- A commit reports a change exactly when there was something pending. -/
theorem commit_eq_true_iff (s : DeleteState) : s.commit.2 = true ↔ s.hasPending = true := by
  cases h : s.pending <;> simp [commit, hasPending, h]

/-- Rebased deletes speak of the documents of the new segment. -/
@[simp] theorem size_rebase (s : DeleteState) (n : Nat) : (s.rebase n).size = n := by
  simp only [rebase, size]
  split
  · assumption
  · simp

/-- A rebase keeps the deletes of the documents that are left, and no others. -/
theorem isDeleted_rebase (s : DeleteState) (n l : Nat) :
    (s.rebase n).isDeleted l = (decide (l < n) && s.isDeleted l) := by
  simp only [rebase, isDeleted]
  split
  case isTrue h =>
    by_cases hl : l < n
    · simp [hl]
    · have : s.committed.contains l = false := by
        apply Bool.eq_false_iff.2
        intro hc
        have := DeletedDocs.lt_size_of_contains hc
        omega
      simp [this]
  case isFalse => exact DeletedDocs.contains_resized ..

end DeleteState

end SegmentedView
