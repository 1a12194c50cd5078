import SegmentedView.Boundaries
import Mathlib.Tactic

/-!
# The search for a segment

The binary search of `segmentIndex?` on a sorted table. It narrows a window whose left
end starts at or before the position and whose right end starts after it (`Window`), so
the answer is the last segment that starts at or before the position
(`segmentIndex?_spec`). Three exits meet in that one description: a hit strictly inside
a segment, an exact hit followed by the walk over segments that share the start, and a
window that closed, which happens only for a position past either end of the table.
-/

set_option autoImplicit false

namespace SegmentedView

/-- No entry of the table is below an earlier one. -/
def Nondecreasing (starts : Array Nat) : Prop :=
  ∀ i j, i ≤ j → j < starts.size → starts.getD i 0 ≤ starts.getD j 0

/-- Segment `i` is the last of `n` segments that starts at or before the position. -/
structure IsLastStart (starts : Array Nat) (n position i : Nat) : Prop where
  lt : i < n
  start_le : starts.getD i 0 ≤ position
  lt_later : ∀ k, i < k → k < n → position < starts.getD k 0

/-- What is known of a window of the search among `n` segments: a window that moved away
from the first segment starts at or before the position, and one that moved away from
the end ends after it. -/
structure Window (starts : Array Nat) (n position lo hi : Nat) : Prop where
  le : lo ≤ hi
  hi_le : hi ≤ n
  left : lo = 0 ∨ starts.getD lo 0 ≤ position
  right : hi = n ∨ position < starts.getD hi 0

/-- Within the array a checked read and a read with a default agree. -/
theorem getElem?_eq_getD {starts : Array Nat} {i : Nat} (h : i < starts.size) :
    starts[i]? = some (starts.getD i 0) := by
  rw [Array.getD_eq_getD_getElem?, Array.getElem?_eq_getElem h, Option.getD_some]

/-- The walk over segments that share a start ends at the last of them. -/
theorem lastSharing?_spec {starts : Array Nat} {n i : Nat} (hn : starts.size = n + 1)
    (hi : i < n) : ∃ j, lastSharing? starts (starts.getD i 0) i = some j ∧ i ≤ j ∧ j < n ∧
      starts.getD j 0 = starts.getD i 0 ∧
      (j + 1 < n → starts.getD (j + 1) 0 ≠ starts.getD i 0) := by
  -- the induction is on the number of segments that are left to walk over
  induction hk : n - i generalizing i with
  | zero => omega
  | succ k ih =>
    rw [lastSharing?]
    by_cases hnext : i + 1 < starts.size - 1
    · rw [if_pos hnext, getElem?_eq_getD (by omega)]
      by_cases hshare : starts.getD (i + 1) 0 = starts.getD i 0
      · obtain ⟨j, hj, hij, hjn, hstart, hlast⟩ := ih (i := i + 1) (by omega) (by omega)
        rw [hshare] at hj hstart hlast
        simp only [hshare, if_true]
        exact ⟨j, hj, by omega, hjn, hstart, hlast⟩
      · simp only [if_neg hshare]
        exact ⟨i, rfl, le_rfl, hi, rfl, fun _ => hshare⟩
    · rw [if_neg hnext]
      exact ⟨i, rfl, le_rfl, hi, rfl, fun h => by omega⟩

/-- An exact hit: the walk from a segment that starts at the position ends at the last
segment that does. -/
theorem isLastStart_of_lastSharing? {starts : Array Nat} {n position i : Nat}
    (hs : Nondecreasing starts) (hn : starts.size = n + 1) (hi : i < n)
    (hit : starts.getD i 0 = position) :
    ∃ j, lastSharing? starts (starts.getD i 0) i = some j ∧
      IsLastStart starts n position j := by
  obtain ⟨j, hj, -, hjn, hstart, hlast⟩ := lastSharing?_spec hn hi
  refine ⟨j, hj, hjn, by omega, fun k hjk hkn => ?_⟩
  have hnext := hlast (by omega)
  have h1 := hs j (j + 1) (by omega) (by omega)
  have h2 := hs (j + 1) k (by omega) (by omega)
  omega

/-- A window that closed holds no segment: the position lies past one of the ends. -/
theorem Window.closed {starts : Array Nat} {n position lo : Nat} (hn : 0 < n)
    (hs : Nondecreasing starts) (hsize : starts.size = n + 1)
    (w : Window starts n position lo lo) :
    IsLastStart starts n position (min (lo - 1) (n - 1)) ∨
      min (lo - 1) (n - 1) = 0 ∧ position < starts.getD 0 0 := by
  obtain ⟨-, hle, hleft, hright⟩ := w
  rcases hleft with rfl | hleft
  · right
    refine ⟨by omega, ?_⟩
    rcases hright with h | h
    · omega
    · exact h
  · rcases hright with rfl | hright
    · left
      have hlast := hs (lo - 1) lo (by omega) (by omega)
      have hmin : min (lo - 1) (lo - 1) = lo - 1 := min_self _
      rw [hmin]
      exact ⟨by omega, by omega, fun k h1 h2 => by omega⟩
    · omega

/-- The search from any window answers with the last segment that starts at or before
the position, or with the first segment when none does. -/
theorem narrow?_spec {starts : Array Nat} {n position lo hi : Nat} (hn : 0 < n)
    (hs : Nondecreasing starts) (hsize : starts.size = n + 1)
    (w : Window starts n position lo hi) :
    ∃ i, narrow? starts position lo hi = some i ∧
      (IsLastStart starts n position i ∨ i = 0 ∧ position < starts.getD 0 0) := by
  -- the induction is on the width of the window
  induction hk : hi - lo using Nat.strong_induction_on generalizing lo hi with
  | _ k ih =>
    rw [narrow?]
    have hlehi := w.le
    have hhin := w.hi_le
    by_cases hlt : lo < hi
    · rw [if_pos hlt]
      have hmid : lo + (hi - lo) / 2 < hi := by omega
      have hlomid : lo ≤ lo + (hi - lo) / 2 := Nat.le_add_right _ _
      generalize lo + (hi - lo) / 2 = mid at hmid hlomid
      simp only [getElem?_eq_getD (show mid < starts.size by omega)]
      by_cases hbelow : position < starts.getD mid 0
      · rw [if_pos hbelow]
        exact ih (mid - lo) (by omega) ⟨hlomid, by omega, w.left, .inr hbelow⟩ rfl
      · rw [if_neg hbelow]
        by_cases habove : starts.getD mid 0 < position
        · simp only [if_pos habove, getElem?_eq_getD (show mid + 1 < starts.size by omega)]
          by_cases hinside : position < starts.getD (mid + 1) 0
          · rw [if_pos hinside]
            refine ⟨mid, rfl, .inl ⟨by omega, by omega, fun j h1 h2 => ?_⟩⟩
            have := hs (mid + 1) j (by omega) (by omega)
            omega
          · rw [if_neg hinside]
            exact ih (hi - (mid + 1)) (by omega)
              ⟨by omega, hhin, .inr (by omega), w.right⟩ rfl
        · rw [if_neg habove]
          obtain ⟨j, hj, hlast⟩ :=
            isLastStart_of_lastSharing? hs hsize (show mid < n by omega)
              (show starts.getD mid 0 = position by omega)
          exact ⟨j, hj, .inl hlast⟩
    · rw [if_neg hlt]
      obtain rfl : lo = hi := by omega
      rw [hsize]
      exact ⟨_, rfl, w.closed hn hs hsize⟩

/-- The segment of a position in a sorted table of at least one segment. -/
theorem segmentIndex?_spec {starts : Array Nat} {n : Nat} (hn : 0 < n)
    (hs : Nondecreasing starts) (hsize : starts.size = n + 1) (position : Nat) :
    ∃ i, segmentIndex? starts position = some i ∧
      (IsLastStart starts n position i ∨ i = 0 ∧ position < starts.getD 0 0) := by
  unfold segmentIndex?
  rw [hsize, Nat.add_sub_cancel]
  exact narrow?_spec hn hs hsize ⟨by omega, le_rfl, .inl rfl, .inl rfl⟩

end SegmentedView
