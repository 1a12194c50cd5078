import SegmentedView.Proofs.Deletes.Staging

/-!
# Deletes cut or extended twice

The count that a set of deleted offsets carries along is the number of its marks
(`DeletedDocs.Exact`), so that such sets are equal when they have one size and the same
offsets. Then a rebase to one size and on to another is one rebase, unless the first cut off
something that the second would have kept (`DeleteState.rebase_rebase`), and a rebase that
keeps the size does nothing (`DeleteState.rebase_size`).
-/

set_option autoImplicit false

namespace SegmentedView

namespace DeletedDocs

/-- The count is the number of marks. -/
def Exact (d : DeletedDocs) : Prop := d.count = d.marks.count true

/-- An empty set counts nothing. -/
theorem exact_empty (n : Nat) : (empty n).Exact := by
  simp [Exact, empty, List.count_replicate]

/-- A document that can join is counted once. -/
theorem exact_insert {d : DeletedDocs} (h : d.Exact) {l : Nat} (hl : d.admits l = true) :
    (d.insert l).Exact := by
  obtain ⟨hsize, hnone⟩ := admits_iff.1 hl
  have hlt : l < d.marks.length := hsize
  have hmark : d.marks[l] = false := by
    unfold contains at hnone
    rwa [List.getD_eq_getElem?_getD, List.getElem?_eq_getElem hlt] at hnone
  unfold Exact insert at *
  simp only [List.count_set hlt, hmark, h]
  simp

/-- Of many documents each that joins is counted once. -/
theorem exact_insertAll {d : DeletedDocs} (h : d.Exact) (ls : List Nat) :
    (d.insertAll ls).1.Exact := by
  induction ls generalizing d with
  | nil => exact h
  | cons l ls ih =>
    rw [insertAll]
    split
    case isTrue hl => exact ih (exact_insert h hl)
    case isFalse => exact ih h

/-- A resized set counts the marks that are left. -/
theorem exact_resized (d : DeletedDocs) (n : Nat) : (d.resized n).Exact := rfl

/-- Sets of one size with the same offsets are equal, their counts included. -/
theorem Exact.ext {d e : DeletedDocs} (hd : d.Exact) (he : e.Exact) (hsize : d.size = e.size)
    (hcontains : ∀ l, d.contains l = e.contains l) : d = e := by
  have hmarks : d.marks = e.marks := by
    apply List.ext_getElem hsize
    intro l hl hl'
    have hequal := hcontains l
    unfold contains at hequal
    rwa [List.getD_eq_getElem?_getD, List.getD_eq_getElem?_getD, List.getElem?_eq_getElem hl,
      List.getElem?_eq_getElem hl'] at hequal
  unfold Exact at hd he
  cases d
  cases e
  simp_all

/-- A set resized to its own size is the same set. -/
theorem resized_size {d : DeletedDocs} (h : d.Exact) : d.resized d.size = d := by
  apply (exact_resized d d.size).ext h (size_resized d d.size)
  intro l
  rw [contains_resized]
  cases hl : d.contains l with
  | false => simp
  | true => simp [lt_size_of_contains hl]

/-- An empty set resized is an empty set. -/
theorem resized_empty (n m : Nat) : (empty n).resized m = empty m := by
  apply (exact_resized _ m).ext (exact_empty m)
  · rw [size_resized, size_empty]
  · intro l
    rw [contains_resized, contains_empty, contains_empty, Bool.and_false]

/-- A first cut that keeps what the second one keeps makes no difference. -/
theorem resized_resized (d : DeletedDocs) {n m : Nat} (h : min d.size m ≤ n) :
    (d.resized n).resized m = d.resized m := by
  apply (exact_resized _ m).ext (exact_resized d m)
  · rw [size_resized, size_resized]
  · intro l
    rw [contains_resized, contains_resized, contains_resized]
    cases hl : d.contains l with
    | false => simp
    | true =>
      have hlt := lt_size_of_contains hl
      by_cases hm : l < m
      · have hn : l < n := by omega
        simp [hm, hn]
      · simp [hm]

end DeletedDocs

namespace DeleteState

/-- The counts of both sets are the numbers of their marks. -/
structure Exact (s : DeleteState) : Prop where
  committed : s.committed.Exact
  pending : ∀ d, s.pending = some d → d.Exact

/-- The counts of fresh deletes are exact. -/
theorem exact_new (n : Nat) : (new n).Exact :=
  ⟨DeletedDocs.exact_empty n, fun _ h => nomatch h⟩

/-- What a commit would publish has an exact count. -/
theorem Exact.latest {s : DeleteState} (h : s.Exact) : s.latest.Exact := by
  unfold DeleteState.latest
  cases hp : s.pending with
  | none => exact h.committed
  | some d => exact h.pending d hp

/-- Marks keep the counts exact. -/
theorem Exact.markAll {s : DeleteState} (h : s.Exact) (ls : List Nat) :
    (s.markAll ls).1.Exact := by
  rw [markAll_eq]
  split
  case isTrue => exact h
  case isFalse =>
    refine ⟨h.committed, fun d hd => ?_⟩
    obtain rfl := Option.some.inj hd
    exact DeletedDocs.exact_insertAll h.latest ls

/-- A commit keeps the counts exact. -/
theorem Exact.commit {s : DeleteState} (h : s.Exact) : s.commit.1.Exact := by
  refine ⟨?_, fun d hd => ?_⟩
  · rw [committed_commit]
    exact h.latest
  · rw [pending_commit] at hd
    cases hd

/-- A rebase resizes both sets, also where it lets the committed one be. -/
theorem Exact.rebase_eq {s : DeleteState} (h : s.Exact) (n : Nat) :
    s.rebase n = ⟨s.committed.resized n, s.pending.map (·.resized n)⟩ := by
  unfold DeleteState.rebase
  split
  case isTrue hn => rw [← hn, DeletedDocs.resized_size h.committed]
  case isFalse => rfl

/-- A rebase keeps the counts exact. -/
theorem Exact.rebase {s : DeleteState} (h : s.Exact) (n : Nat) : (s.rebase n).Exact := by
  rw [h.rebase_eq]
  refine ⟨DeletedDocs.exact_resized _ n, fun d hd => ?_⟩
  obtain ⟨e, -, rfl⟩ := Option.map_eq_some_iff.1 hd
  exact DeletedDocs.exact_resized e n

/-- Fresh deletes rebased are fresh deletes. -/
theorem rebase_new (n m : Nat) : (new n).rebase m = new m := by
  rw [(exact_new n).rebase_eq]
  unfold new
  rw [DeletedDocs.resized_empty]
  rfl

/-- A rebase to the size that a state has does nothing. -/
theorem Exact.rebase_size {s : DeleteState} (h : s.Exact) (hsound : s.Sound) :
    s.rebase s.size = s := by
  have hcommitted : s.committed.resized s.size = s.committed :=
    DeletedDocs.resized_size h.committed
  have hpending : s.pending.map (·.resized s.size) = s.pending := by
    cases hp : s.pending with
    | none => rfl
    | some d =>
      rw [← hsound.size_pending d hp, Option.map_some, DeletedDocs.resized_size (h.pending d hp)]
  rw [h.rebase_eq, hcommitted, hpending]

/-- Two rebases are one, unless the first cut off what the second would have kept. -/
theorem Exact.rebase_rebase {s : DeleteState} (h : s.Exact) (hsound : s.Sound) {n m : Nat}
    (hn : min s.size m ≤ n) : (s.rebase n).rebase m = s.rebase m := by
  rw [(h.rebase n).rebase_eq, h.rebase_eq, h.rebase_eq]
  have hcommitted : (s.committed.resized n).resized m = s.committed.resized m :=
    s.committed.resized_resized hn
  dsimp only
  rw [hcommitted, Option.map_map]
  cases hp : s.pending with
  | none => rfl
  | some d =>
    have hsize : min d.size m ≤ n := by
      rw [hsound.size_pending d hp]
      exact hn
    have hpending : (d.resized n).resized m = d.resized m := d.resized_resized hsize
    simp only [Option.map_some, Function.comp_apply, hpending]

end DeleteState

end SegmentedView
