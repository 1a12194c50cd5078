import SegmentedView.Proofs.Boundaries.Location
import Mathlib.Data.Nat.Find

/-!
# Totals that leave a word

`Boundaries.ofCounts` fails exactly when the sum of all counts is no word, and its error
names the segments whose total still is one (`ofCounts_eq_error_iff`). What comes after the
first count that does not fit makes no difference. So the table is exact up to the largest
word, and says where it would leave it (`ofCounts_exact`).
-/

set_option autoImplicit false

namespace SegmentedView.Boundaries

/-- How many of the first segments have a total that is a word. -/
def fitting (counts : List Nat) : Nat :=
  Nat.findGreatest (fun i => startOf counts i ≤ maxWord) counts.length

/-- The count that does not fit ends the list of those that do. -/
theorem fitting_eq {counts : List Nat} {n : Nat} (hn : n < counts.length)
    (hfits : startOf counts n ≤ maxWord) (hover : maxWord < startOf counts (n + 1)) :
    fitting counts = n := by
  unfold fitting
  rw [Nat.findGreatest_eq_iff]
  refine ⟨hn.le, fun _ => hfits, fun i hi _ => ?_⟩
  have hle : startOf counts (n + 1) ≤ startOf counts i := startOf_mono counts hi
  omega

/-- A table that was extended still has a word for its total. -/
theorem sum_le_of_extend {starts table : Array Nat} {total : Nat} {counts : List Nat}
    (htotal : total ≤ maxWord) (h : extend starts total counts = .ok table) :
    total + counts.sum ≤ maxWord := by
  induction counts generalizing starts total with
  | nil => exact htotal
  | cons count counts ih =>
    unfold extend at h
    split at h
    case isTrue hfits =>
      have hsum := ih hfits h
      rw [List.sum_cons]
      omega
    case isFalse => cases h

/-- Counts that a table is made of have a sum that is a word. -/
theorem sum_le_of_ofCounts {counts : List Nat} {b : Boundaries} (h : ofCounts counts = .ok b) :
    counts.sum ≤ maxWord := by
  unfold ofCounts at h
  cases htable : extend #[0] 0 counts with
  | error e =>
    rw [htable] at h
    cases h
  | ok table =>
    have hsum := sum_le_of_extend (Nat.zero_le maxWord) htable
    omega

/-- An extension that fails stops at the first total that is no word, and says how many
segments came before. -/
theorem extend_eq_error {starts : Array Nat} {total : Nat} {counts : List Nat} {e : Error}
    (hsize : 0 < starts.size) (htotal : total ≤ maxWord)
    (h : extend starts total counts = .error e) :
    ∃ n < counts.length, total + startOf counts n ≤ maxWord ∧
      maxWord < total + startOf counts (n + 1) ∧ e = .countOverflow (starts.size - 1 + n) := by
  induction counts generalizing starts total with
  | nil => cases h
  | cons count counts ih =>
    unfold extend at h
    split at h
    case isTrue hfits =>
      -- The table grew by one entry, so the number in the error counts this segment too.
      have hpush : (starts.push (total + count)).size = starts.size + 1 := Array.size_push _
      obtain ⟨n, hn, hbefore, hafter, rfl⟩ := ih (by omega) hfits h
      refine ⟨n + 1, Nat.succ_lt_succ hn, ?_, ?_, ?_⟩
      · rw [startOf_cons_succ]
        omega
      · rw [startOf_cons_succ]
        omega
      · rw [hpush]
        congr 1
        omega
    case isFalse hover =>
      cases h
      refine ⟨0, Nat.succ_pos _, ?_, ?_, rfl⟩
      · rw [startOf_zero]
        omega
      · rw [startOf_cons_succ, startOf_zero]
        omega

/-- Counts have no table exactly when their sum is no word, and then the error names the
segments whose total still is one. -/
theorem ofCounts_eq_error_iff {counts : List Nat} {e : Error} :
    ofCounts counts = .error e ↔
      maxWord < counts.sum ∧ e = .countOverflow (fitting counts) := by
  have hsmall : 0 ≤ maxWord := Nat.zero_le _
  have hextend : ofCounts counts = (extend #[0] 0 counts).map Boundaries.mk := rfl
  cases h : extend #[0] 0 counts with
  | ok table =>
    have hsum := sum_le_of_extend hsmall h
    rw [hextend, h]
    simp only [Except.map, reduceCtorEq, false_iff, not_and]
    omega
  | error e' =>
    have hone : 0 < (#[0] : Array Nat).size := Nat.one_pos
    obtain ⟨n, hn, hfits, hover, rfl⟩ := extend_eq_error hone hsmall h
    rw [Nat.zero_add] at hfits hover
    have hle : startOf counts (n + 1) ≤ counts.sum :=
      startOf_length counts ▸ startOf_mono counts hn
    have hsize : (#[0] : Array Nat).size - 1 + n = n := Nat.zero_add n
    rw [hextend, h, fitting_eq hn hfits hover, hsize]
    simp only [Except.map, Except.error.injEq]
    constructor
    · rintro rfl
      exact ⟨by omega, rfl⟩
    · rintro ⟨-, rfl⟩
      rfl

/-- The counts of the longest fitting prefix add up to a word. -/
theorem startOf_fitting_le (counts : List Nat) : startOf counts (fitting counts) ≤ maxWord := by
  have hstart : startOf counts 0 ≤ maxWord := by
    rw [startOf_zero]
    exact Nat.zero_le _
  exact Nat.findGreatest_spec (P := fun i => startOf counts i ≤ maxWord) (Nat.zero_le _) hstart

/-- The segments that fit are those of the longest prefix whose sum is a word. -/
theorem isGreatest_fitting (counts : List Nat) :
    IsGreatest (List.length '' {p | p <+: counts ∧ p.sum ≤ maxWord}) (fitting counts) := by
  constructor
  · have hlength : (counts.take (fitting counts)).length = fitting counts :=
      List.length_take_of_le (Nat.findGreatest_le _)
    exact ⟨counts.take (fitting counts),
      ⟨List.take_prefix _ _, startOf_fitting_le counts⟩, hlength⟩
  · rintro _ ⟨p, ⟨hinitial, hsum⟩, rfl⟩
    apply Nat.le_findGreatest hinitial.length_le
    unfold startOf
    rw [← List.prefix_iff_eq_take.1 hinitial]
    exact hsum

/-- The count after those that fit takes the total past the largest word. -/
theorem lt_startOf_fitting_succ {counts : List Nat} (h : maxWord < counts.sum) :
    fitting counts < counts.length ∧ maxWord < startOf counts (fitting counts + 1) := by
  have hle : fitting counts ≤ counts.length := Nat.findGreatest_le _
  have hne : fitting counts ≠ counts.length := by
    intro heq
    have hfits := startOf_fitting_le counts
    rw [heq, startOf_length] at hfits
    omega
  have hlt : fitting counts < counts.length := by omega
  have hnot := Nat.findGreatest_is_greatest (Nat.lt_succ_self (fitting counts)) hlt
  exact ⟨hlt, Nat.lt_of_not_le hnot⟩

/-- Where a segment starts is a matter of the counts before it, whatever follows. -/
theorem startOf_take_append {counts : List Nat} {i k : Nat} (hik : i ≤ k)
    (hk : k ≤ counts.length) (later : List Nat) :
    startOf (counts.take k ++ later) i = startOf counts i := by
  have hlength : (counts.take k).length = k := List.length_take_of_le hk
  unfold startOf
  rw [List.take_append_of_le_length (by omega), List.take_take, Nat.min_eq_left hik]

/-- The error is decided by the counts up to the one that does not fit. -/
theorem ofCounts_eq_error_of_take {counts : List Nat} {e : Error}
    (h : ofCounts counts = .error e) (later : List Nat) :
    ofCounts (counts.take (fitting counts + 1) ++ later) = .error e := by
  obtain ⟨hsum, rfl⟩ := ofCounts_eq_error_iff.1 h
  obtain ⟨hlt, hover⟩ := lt_startOf_fitting_succ hsum
  have hstart {i : Nat} (hi : i ≤ fitting counts + 1) :
      startOf (counts.take (fitting counts + 1) ++ later) i = startOf counts i :=
    startOf_take_append hi hlt later
  have hlength : fitting counts < (counts.take (fitting counts + 1) ++ later).length := by
    rw [List.length_append, List.length_take_of_le hlt]
    omega
  have hfitting : fitting (counts.take (fitting counts + 1) ++ later) = fitting counts := by
    apply fitting_eq hlength
    · rw [hstart (Nat.le_succ _)]
      exact startOf_fitting_le counts
    · rw [hstart le_rfl]
      exact hover
  rw [ofCounts_eq_error_iff, hfitting, ← startOf_length]
  have hmono := startOf_mono (counts.take (fitting counts + 1) ++ later) hlength
  rw [Nat.succ_eq_add_one, hstart le_rfl] at hmono
  exact ⟨by omega, rfl⟩

/-- No start is below one that stands before it. -/
theorem IsTableOf.pairwise {b : Boundaries} {counts : List Nat} (h : b.IsTableOf counts) :
    b.starts.toList.Pairwise (· ≤ ·) := by
  rw [List.pairwise_iff_getElem]
  intro i j hi hj hij
  rw [Array.length_toList] at hi hj
  have hle := h.nondecreasing i j hij.le hj
  rwa [Array.getD_eq_getD_getElem?, Array.getD_eq_getD_getElem?, Array.getElem?_eq_getElem hi,
    Array.getElem?_eq_getElem hj] at hle

/-- The table of starts is exact up to the largest word. It is built exactly when the counts add
up to a word; then it has one entry more than there are counts, every entry is the sum of the
counts before it, entries never go down, and the last one is the total. Where it is not built the
error is one of the argument, and names the length of the longest prefix of the counts whose sum
is a word; nothing after the count that follows this prefix makes a difference. -/
theorem ofCounts_exact (counts : List Nat) :
    ((∃ b, ofCounts counts = .ok b) ↔ counts.sum ≤ 2 ^ 64 - 1) ∧
      (∀ b, ofCounts counts = .ok b → b.starts.size = counts.length + 1 ∧
        (∀ i ≤ counts.length, b.starts[i]? = some (counts.take i).sum) ∧
        b.starts.toList.Pairwise (· ≤ ·) ∧ b.starts[0]? = some 0 ∧
        b.starts.back? = some b.total ∧ b.total = counts.sum) ∧
      ∀ e, ofCounts counts = .error e → ∃ n, e = .countOverflow n ∧ e.kind = .invalidArgument ∧
        e.message = "Invalid argument: document count overflows after " ++ toString n ++
          " segments" ∧
        IsGreatest (List.length '' {p | p <+: counts ∧ p.sum ≤ 2 ^ 64 - 1}) n ∧
        ∀ later, ofCounts (counts.take (n + 1) ++ later) = .error e := by
  refine ⟨⟨fun ⟨b, hb⟩ => sum_le_of_ofCounts hb, fun hsum => ?_⟩, fun b hb => ?_, fun e he => ?_⟩
  · obtain ⟨b, hb, -⟩ := ofCounts_isTableOf hsum
    exact ⟨b, hb⟩
  · have htable := isTableOf_of_ofCounts hb
    have hlast : b.starts.back? = some b.total := by
      rw [Array.back?_eq_getElem?, htable.size, Nat.add_sub_cancel, htable.start _ le_rfl,
        startOf_length, htable.total]
    have hfirst : b.starts[0]? = some 0 := by
      rw [htable.start 0 (Nat.zero_le _), startOf_zero]
    exact ⟨htable.size, htable.start, htable.pairwise, hfirst, hlast, htable.total⟩
  · obtain ⟨-, rfl⟩ := ofCounts_eq_error_iff.1 he
    exact ⟨fitting counts, rfl, rfl, rfl, isGreatest_fitting counts,
      ofCounts_eq_error_of_take he⟩

/-- Empty segments fit behind a total that is the largest word, and one more document does not:
the error names the three segments before it, whatever comes after. -/
theorem ofCounts_exact_at_the_limit :
    (∃ b, ofCounts [2 ^ 64 - 1, 0, 0] = .ok b ∧ b.starts[3]? = some (2 ^ 64 - 1) ∧
        b.total = 2 ^ 64 - 1) ∧
      ofCounts [2 ^ 64 - 2, 1, 0, 1, 7] = .error (.countOverflow 3) ∧
        ∀ later, ofCounts ([2 ^ 64 - 2, 1, 0, 1] ++ later) = .error (.countOverflow 3) := by
  obtain ⟨hok, htable, -⟩ := ofCounts_exact [2 ^ 64 - 1, 0, 0]
  obtain ⟨b, hb⟩ := hok.2 (by decide)
  obtain ⟨-, hstarts, -, -, -, htotal⟩ := htable b hb
  have herror : ofCounts [2 ^ 64 - 2, 1, 0, 1, 7] = .error (.countOverflow 3) := by decide
  obtain ⟨-, -, hnamed⟩ := ofCounts_exact [2 ^ 64 - 2, 1, 0, 1, 7]
  obtain ⟨n, hn, -, -, -, hlater⟩ := hnamed _ herror
  obtain rfl := Error.countOverflow.inj hn
  exact ⟨⟨b, hb, hstarts 3 (by decide), htotal⟩, herror, hlater⟩

end SegmentedView.Boundaries
