import SegmentedView.Boundaries
import Mathlib.Tactic

/-!
# The table of starts

`Boundaries.ofCounts` lays segments end to end: entry `i` of its table is the sum of
the first `i` counts, and the last entry is the sum of all. It builds a table exactly
when that sum is a word (`ofCounts_isTableOf`, `isTableOf_of_ofCounts`). Everything else
reads the table through `IsTableOf` and never unfolds the construction.
-/

set_option autoImplicit false

namespace SegmentedView.Boundaries

/-- The first position of segment `i` when segments of these counts are laid end to end. -/
def startOf (counts : List Nat) (i : Nat) : Nat := (counts.take i).sum

/-- The first segment starts at the first position. -/
@[simp] theorem startOf_zero (counts : List Nat) : startOf counts 0 = 0 := by
  simp [startOf]

/-- Past the last segment stands the sum of all counts. -/
@[simp] theorem startOf_length (counts : List Nat) :
    startOf counts counts.length = counts.sum := by
  simp [startOf]

/-- The start of the next segment is the start of this one and its count. -/
theorem startOf_succ {counts : List Nat} {i count : Nat} (h : counts[i]? = some count) :
    startOf counts (i + 1) = startOf counts i + count := by
  unfold startOf
  rw [List.take_add_one, h, List.sum_append]
  simp

/-- No segment starts before the one that it follows. -/
theorem startOf_le_succ (counts : List Nat) (i : Nat) :
    startOf counts i ≤ startOf counts (i + 1) := by
  cases h : counts[i]? with
  | none => simp [startOf, List.take_add_one, h]
  | some count =>
    rw [startOf_succ h]
    exact Nat.le_add_right _ _

/-- Later segments start later, or at the same place. -/
theorem startOf_mono (counts : List Nat) : Monotone (startOf counts) :=
  monotone_nat_of_le_succ (startOf_le_succ counts)

/-- A segment ends where the whole ends, or before. -/
theorem startOf_add_le_sum {counts : List Nat} {i count : Nat}
    (h : counts[i]? = some count) : startOf counts i + count ≤ counts.sum := by
  obtain ⟨hi, -⟩ := List.getElem?_eq_some_iff.1 h
  rw [← startOf_succ h, ← startOf_length]
  exact startOf_mono counts hi

/-- A segment put in front moves the starts of all others by its count. -/
theorem startOf_cons_succ (count : Nat) (counts : List Nat) (i : Nat) :
    startOf (count :: counts) (i + 1) = count + startOf counts i := by
  simp [startOf]

/-- The start of a list is its place in all lists one after the other. -/
theorem getElem?_flatten {α : Type} {lists : List (List α)} {i l : Nat} {xs : List α}
    (hi : lists[i]? = some xs) (hl : l < xs.length) :
    lists.flatten[startOf (lists.map List.length) i + l]? = xs[l]? := by
  induction lists generalizing i with
  | nil => cases hi
  | cons first lists ih =>
    rw [List.map_cons, List.flatten_cons]
    cases i with
    | zero =>
      obtain rfl := Option.some.inj hi
      rw [startOf_zero, Nat.zero_add, List.getElem?_append_left hl]
    | succ i =>
      rw [startOf_cons_succ, Nat.add_assoc, List.getElem?_append_right (by omega),
        Nat.add_sub_cancel_left]
      exact ih hi

/-- `b` is the table of segments of these counts: every start, and the total last. -/
structure IsTableOf (b : Boundaries) (counts : List Nat) : Prop where
  size : b.starts.size = counts.length + 1
  start : ∀ i ≤ counts.length, b.starts[i]? = some (startOf counts i)

namespace IsTableOf

variable {b : Boundaries} {counts : List Nat}

/-- A table has the start of every segment at its place, and the sum after the last. -/
theorem getD (h : b.IsTableOf counts) {i : Nat} (hi : i ≤ counts.length) :
    b.starts.getD i 0 = startOf counts i := by
  rw [Array.getD_eq_getD_getElem?, h.start i hi, Option.getD_some]

/-- The total of a table is the sum of its counts. -/
theorem total (h : b.IsTableOf counts) : b.total = counts.sum := by
  have hlast := h.start counts.length le_rfl
  unfold Boundaries.total
  rw [Array.back?_eq_getElem?, h.size, Nat.add_sub_cancel, hlast, startOf_length,
    Option.getD_some]

/-- A table has a segment for every count. -/
theorem segmentCount (h : b.IsTableOf counts) : b.segmentCount = counts.length := by
  unfold Boundaries.segmentCount
  rw [h.size, Nat.add_sub_cancel]

/-- The counts decide the table. -/
theorem unique {b' : Boundaries} (h : b.IsTableOf counts) (h' : b'.IsTableOf counts) :
    b.starts = b'.starts := by
  apply Array.ext_getElem?
  intro i
  by_cases hi : i ≤ counts.length
  · rw [h.start i hi, h'.start i hi]
  · rw [Array.getElem?_eq_none (by rw [h.size]; omega),
      Array.getElem?_eq_none (by rw [h'.size]; omega)]

end IsTableOf

/-- The table that comes out of `extend`: what was there, then the running totals. -/
theorem toList_of_extend {starts table : Array Nat} {total : Nat} {counts : List Nat}
    (h : extend starts total counts = .ok table) :
    table.toList = starts.toList ++
      (List.range counts.length).map fun i => total + startOf counts (i + 1) := by
  induction counts generalizing starts total with
  | nil =>
    cases h
    simp
  | cons count counts ih =>
    unfold extend at h
    split at h
    · rw [ih h, List.length_cons, List.range_succ_eq_map]
      simp [startOf_cons_succ, Function.comp_def, Nat.add_assoc]
    · cases h

/-- `extend` succeeds when the last running total is a word, for it is the largest. -/
theorem extend_isOk (starts : Array Nat) {total : Nat} {counts : List Nat}
    (h : total + counts.sum ≤ maxWord) : ∃ table, extend starts total counts = .ok table := by
  induction counts generalizing starts total with
  | nil => exact ⟨starts, rfl⟩
  | cons count counts ih =>
    rw [List.sum_cons] at h
    unfold extend
    rw [if_pos (by omega)]
    exact ih _ (by omega)

/-- A table that was built is the table of its counts. -/
theorem isTableOf_of_ofCounts {b : Boundaries} {counts : List Nat}
    (h : ofCounts counts = .ok b) : b.IsTableOf counts := by
  unfold ofCounts at h
  cases ht : extend #[0] 0 counts with
  | error e =>
    rw [ht] at h
    cases h
  | ok table =>
    rw [ht] at h
    cases h
    have hlist := toList_of_extend ht
    have hsize : table.size = counts.length + 1 := by
      rw [← Array.length_toList, hlist]
      simp
    refine ⟨hsize, fun i hi => ?_⟩
    rw [← Array.getElem?_toList, hlist]
    cases i with
    | zero => simp
    | succ i =>
      have hr : (List.range counts.length)[i]? = some i := List.getElem?_range (by omega)
      simp [hr]

/-- Counts whose sum is a word have a table. -/
theorem ofCounts_isTableOf {counts : List Nat} (h : counts.sum ≤ maxWord) :
    ∃ b, ofCounts counts = .ok b ∧ b.IsTableOf counts := by
  have hsum : 0 + counts.sum ≤ maxWord := by omega
  obtain ⟨table, ht⟩ := extend_isOk #[0] hsum
  have hb : ofCounts counts = .ok ⟨table⟩ := by
    unfold ofCounts
    rw [ht]
    rfl
  exact ⟨⟨table⟩, hb, isTableOf_of_ofCounts hb⟩

end SegmentedView.Boundaries
