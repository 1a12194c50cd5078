import SegmentedView.Deletes.DeleteState
import Mathlib.Tactic

/-!
# Staged and committed deletes

A pending set is meant to be what a commit would publish: it speaks of the same
documents as the committed set and holds all of it (`DeleteState.Sound`). Every operation
keeps that, and under it the two sets that a state stands for, the deleted offsets and the
offsets that are staged but not deleted, move as sets do: marks add to the second, a
commit pours it into the first, a rebase cuts both.
-/

set_option autoImplicit false

namespace SegmentedView

/-- What is read of a list of which one entry changes, where what is read of the entry changes
along with it. -/
theorem map_modify {α β : Type} {f : α → α} {g : α → β} {k : β → β}
    (h : ∀ x, g (f x) = k (g x)) (xs : List α) (i : Nat) :
    (xs.modify i f).map g = (xs.map g).modify i k := by
  apply List.ext_getElem?
  intro j
  simp only [List.getElem?_map, List.getElem?_modify]
  cases xs[j]? with
  | none => rfl
  | some x =>
    split
    · exact congrArg some (h x)
    · rfl

/-- A change that a function does not see is not seen in the list either. -/
theorem map_modify_eq {α β : Type} {f : α → α} {g : α → β} (h : ∀ x, g (f x) = g x)
    (xs : List α) (i : Nat) : (xs.modify i f).map g = xs.map g :=
  (map_modify (k := id) h xs i).trans (List.modify_id i _)

/-- How many offsets `insertAll` adds: those of the list that lie in the segment and were
not in the set, each once. -/
theorem DeletedDocs.snd_insertAll (d : DeletedDocs) (ls : List Nat) :
    (d.insertAll ls).2 =
      ((Finset.range d.size).filter fun l => l ∈ ls ∧ d.contains l = false).card := by
  induction ls generalizing d with
  | nil => simp [insertAll]
  | cons l ls ih =>
    rw [insertAll]
    split
    case isTrue h =>
      obtain ⟨hl, hc⟩ := admits_iff.1 h
      have hsplit : ((Finset.range d.size).filter fun k => k ∈ l :: ls ∧ d.contains k = false) =
          Insert.insert l ((Finset.range (d.insert l).size).filter
            fun k => k ∈ ls ∧ (d.insert l).contains k = false) := by
        ext k
        simp only [Finset.mem_filter, Finset.mem_range, Finset.mem_insert, size_insert,
          contains_insert hl, List.mem_cons, Bool.or_eq_false_iff, decide_eq_false_iff_not]
        by_cases hk : k = l
        · subst hk
          simp [hl, hc]
        · simp [hk]
      rw [hsplit, Finset.card_insert_of_notMem (by simp [contains_insert hl]), ← ih]
    case isFalse h =>
      rw [ih]
      congr 1
      ext k
      simp only [Finset.mem_filter, Finset.mem_range, List.mem_cons]
      constructor
      · rintro ⟨hk, hmem, hc⟩
        exact ⟨hk, .inr hmem, hc⟩
      · rintro ⟨hk, rfl | hmem, hc⟩
        · exact absurd (admits_iff.2 ⟨hk, hc⟩) h
        · exact ⟨hk, hmem, hc⟩

namespace DeleteState

/-- A pending set speaks of the documents that the committed set speaks of, and holds
every document that is deleted already. -/
structure Sound (s : DeleteState) : Prop where
  size_pending : ∀ d, s.pending = some d → d.size = s.size
  contains_pending : ∀ d, s.pending = some d → ∀ l, s.isDeleted l = true → d.contains l = true

/-- What a commit would publish. -/
def latest (s : DeleteState) : DeletedDocs := s.pending.getD s.committed

/-- A document is staged when a commit would publish it and it is not deleted yet. -/
theorem isStaged_iff {s : DeleteState} {l : Nat} :
    s.isStaged l = true ↔ s.latest.contains l = true ∧ s.isDeleted l = false := by
  simp [isStaged, latest, isDeleted]

/-- What a commit would publish speaks of the same documents. -/
theorem Sound.size_latest {s : DeleteState} (h : s.Sound) : s.latest.size = s.size := by
  unfold latest
  cases hp : s.pending with
  | none => rfl
  | some d => exact h.size_pending d hp

/-- A document is in the latest set exactly when it is deleted or staged. -/
theorem Sound.contains_latest {s : DeleteState} (h : s.Sound) (l : Nat) :
    s.latest.contains l = true ↔ s.isDeleted l = true ∨ s.isStaged l = true := by
  rw [isStaged_iff]
  constructor
  · intro hl
    cases hd : s.isDeleted l with
    | true => exact .inl rfl
    | false => exact .inr ⟨hl, rfl⟩
  · rintro (hd | ⟨hl, -⟩)
    · unfold latest
      cases hp : s.pending with
      | none => exact hd
      | some d => exact h.contains_pending d hp l hd
    · exact hl

/-- Only documents of the segment are staged. -/
theorem Sound.lt_size_of_isStaged {s : DeleteState} (h : s.Sound) {l : Nat}
    (hl : s.isStaged l = true) : l < s.size :=
  h.size_latest ▸ DeletedDocs.lt_size_of_contains (isStaged_iff.1 hl).1

/-- Only documents of the segment are deleted. -/
theorem lt_size_of_isDeleted {s : DeleteState} {l : Nat} (hl : s.isDeleted l = true) :
    l < s.size :=
  DeletedDocs.lt_size_of_contains hl

/-! ## New states -/

/-- Fresh deletes are sound. -/
theorem sound_new (n : Nat) : (new n).Sound :=
  ⟨fun _ h => (nomatch h), fun _ h => (nomatch h)⟩

/-- In fresh deletes nothing is staged. -/
theorem isStaged_new (n l : Nat) : (new n).isStaged l = false := by
  simp [isStaged, new]

/-! ## Marks -/

/-- Marks none of which can join leave the state alone; others make a pending set, or enlarge it. -/
theorem markAll_eq (s : DeleteState) (ls : List Nat) :
    s.markAll ls = if (s.latest.insertAll ls).2 = 0 then (s, 0)
      else (⟨s.committed, some (s.latest.insertAll ls).1⟩, (s.latest.insertAll ls).2) := rfl

/-- Marks insert into the latest set; where that adds nothing, leaving the state as it was
makes no difference. -/
theorem contains_latest_markAll (s : DeleteState) (ls : List Nat) (l : Nat) :
    (s.markAll ls).1.latest.contains l = (s.latest.insertAll ls).1.contains l := by
  rw [markAll_eq]
  split
  case isFalse => rfl
  case isTrue h =>
    rw [DeletedDocs.snd_insertAll, Finset.card_eq_zero] at h
    apply Bool.eq_iff_iff.2
    rw [DeletedDocs.contains_insertAll]
    constructor
    · exact .inl
    · rintro (hl | ⟨hmem, hlt⟩)
      · exact hl
      · cases hc : s.latest.contains l with
        | true => rfl
        | false =>
          have : l ∈ (∅ : Finset Nat) := by
            rw [← h]
            simp [hmem, hlt, hc]
          simp at this

/-- Marks leave the number of documents alone. -/
@[simp] theorem size_markAll (s : DeleteState) (ls : List Nat) :
    (s.markAll ls).1.size = s.size := by
  simp [size]

/-- Marks stage the documents of the segment among them that are not deleted. -/
theorem Sound.isStaged_markAll {s : DeleteState} (h : s.Sound) (ls : List Nat) (l : Nat) :
    (s.markAll ls).1.isStaged l = true ↔
      s.isStaged l = true ∨ l ∈ ls ∧ l < s.size ∧ s.isDeleted l = false := by
  rw [isStaged_iff, isDeleted_markAll, contains_latest_markAll, DeletedDocs.contains_insertAll,
    h.size_latest, isStaged_iff]
  constructor
  · rintro ⟨hl | ⟨hmem, hlt⟩, hd⟩
    · exact .inl ⟨hl, hd⟩
    · exact .inr ⟨hmem, hlt, hd⟩
  · rintro (⟨hl, hd⟩ | ⟨hmem, hlt, hd⟩)
    · exact ⟨.inl hl, hd⟩
    · exact ⟨.inr ⟨hmem, hlt⟩, hd⟩

/-- Marks answer how many documents of the segment among them were neither deleted nor
staged, each counted once. -/
theorem Sound.snd_markAll {s : DeleteState} (h : s.Sound) (ls : List Nat) :
    (s.markAll ls).2 = ((Finset.range s.size).filter
      fun l => l ∈ ls ∧ s.isDeleted l = false ∧ s.isStaged l = false).card := by
  have hcount : (s.markAll ls).2 = (s.latest.insertAll ls).2 := by
    rw [markAll_eq]
    split
    case isTrue hzero => exact hzero.symm
    case isFalse => rfl
  rw [hcount, DeletedDocs.snd_insertAll, h.size_latest]
  congr 1
  ext l
  simp only [Finset.mem_filter, Finset.mem_range, ← Bool.not_eq_true, h.contains_latest, not_or]

/-- Marks keep deletes sound. -/
theorem Sound.markAll {s : DeleteState} (h : s.Sound) (ls : List Nat) :
    (s.markAll ls).1.Sound := by
  rw [markAll_eq]
  split
  case isTrue => exact h
  case isFalse =>
    refine ⟨fun d hd => ?_, fun d hd l hl => ?_⟩
    · obtain rfl := Option.some.inj hd
      exact (DeletedDocs.size_insertAll _ ls).trans h.size_latest
    · obtain rfl := Option.some.inj hd
      exact (DeletedDocs.contains_insertAll _ ls l).2 (.inl ((h.contains_latest l).2 (.inl hl)))

/-! ## Commits -/

/-- A commit deletes what was staged. -/
theorem Sound.isDeleted_commit {s : DeleteState} (h : s.Sound) (l : Nat) :
    s.commit.1.isDeleted l = true ↔ s.isDeleted l = true ∨ s.isStaged l = true := by
  rw [← h.contains_latest]
  unfold isDeleted
  rw [committed_commit]
  rfl

/-- After a commit nothing is staged. -/
theorem isStaged_commit (s : DeleteState) (l : Nat) : s.commit.1.isStaged l = false := by
  simp [isStaged]

/-- Deletes that are committed are sound, for nothing is pending. -/
theorem sound_commit (s : DeleteState) : s.commit.1.Sound :=
  ⟨fun d hd => by simp at hd, fun d hd => by simp at hd⟩

/-- A commit leaves the number of documents alone. -/
theorem Sound.size_commit {s : DeleteState} (h : s.Sound) : s.commit.1.size = s.size := by
  unfold size
  rw [committed_commit]
  exact h.size_latest

/-! ## Rebases -/

/-- A rebase resizes a pending set and makes none. -/
theorem pending_rebase (s : DeleteState) (n : Nat) :
    (s.rebase n).pending = s.pending.map (·.resized n) := rfl

/-- A rebase keeps the latest set, cut to the new size. -/
theorem contains_latest_rebase (s : DeleteState) (n l : Nat) :
    (s.rebase n).latest.contains l = (decide (l < n) && s.latest.contains l) := by
  unfold latest
  rw [pending_rebase]
  cases hp : s.pending with
  | none => exact isDeleted_rebase s n l
  | some d => exact DeletedDocs.contains_resized d n l

/-- A rebase keeps what is staged, cut to the new size. -/
theorem isStaged_rebase (s : DeleteState) (n l : Nat) :
    (s.rebase n).isStaged l = (decide (l < n) && s.isStaged l) := by
  apply Bool.eq_iff_iff.2
  rw [isStaged_iff, contains_latest_rebase, isDeleted_rebase, Bool.and_eq_true,
    Bool.and_eq_true, isStaged_iff]
  by_cases hl : l < n <;> simp [hl]

/-- A rebase keeps deletes sound. -/
theorem Sound.rebase {s : DeleteState} (h : s.Sound) (n : Nat) : (s.rebase n).Sound := by
  refine ⟨fun d hd => ?_, fun d hd l hl => ?_⟩
  · rw [pending_rebase] at hd
    obtain ⟨e, -, rfl⟩ := Option.map_eq_some_iff.1 hd
    rw [DeletedDocs.size_resized, size_rebase]
  · rw [pending_rebase] at hd
    obtain ⟨e, he, rfl⟩ := Option.map_eq_some_iff.1 hd
    rw [isDeleted_rebase, Bool.and_eq_true] at hl
    rw [DeletedDocs.contains_resized, Bool.and_eq_true]
    exact ⟨hl.1, h.contains_pending e he l hl.2⟩

end DeleteState

end SegmentedView
