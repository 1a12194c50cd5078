import SegmentedView.Proofs.Boundaries.Search
import Mathlib.Data.Nat.Size
import Mathlib.Order.Bounds.Basic

/-!
# The search turn by turn

`segmentIndex?` takes any table: a sorted one, one out of order, one with a single entry or
none. Here its two loops are taken apart into turns (`Search.turn?`) that compute their
indices in words of a given size, so that a read outside the table, a difference below zero
and a sum that is no word all stop the search. Every turn from inside the table keeps to it,
answers what the whole search answers, and leaves fewer turns (`exists_turn?`); so the search
runs to its end on every table, and its answer is one of the segments
(`segmentIndex_safe_and_exact`). Order in the table is needed only for which segment it is.
-/

set_option autoImplicit false

namespace SegmentedView

/-- Where a search stands: before a turn with the window that is left, before a turn of the
walk over segments that share `start`, or at its answer. -/
inductive Search where
  | window (lo hi : Nat)
  | walk (start i : Nat)
  | answer (i : Nat)
  deriving DecidableEq, Repr

namespace Search

/-- A sum in words up to `limit`. -/
def plus? (limit a b : Nat) : Option Nat := if a + b ≤ limit then some (a + b) else none

/-- A difference that does not go below zero. -/
def minus? (a b : Nat) : Option Nat := if b ≤ a then some (a - b) else none

/-- Within the limit the checked sum is the sum. -/
theorem plus?_of_le {limit a b : Nat} (h : a + b ≤ limit) : plus? limit a b = some (a + b) :=
  if_pos h

/-- A checked difference that does not fall below zero is the difference. -/
theorem minus?_of_le {a b : Nat} (h : b ≤ a) : minus? a b = some (a - b) :=
  if_pos h

/-- One turn of the search: one pass of the loop that it stands before. A search that has its
answer stays there. -/
def turn? (limit : Nat) (starts : Array Nat) (position : Nat) : Search → Option Search
  | .window lo hi =>
    if lo < hi then do
      let width ← minus? hi lo
      let mid ← plus? limit lo (width / 2)
      let start ← starts[mid]?
      if position < start then some (.window lo mid)
      else if start < position then do
        let after ← plus? limit mid 1
        let next ← starts[after]?
        if position < next then some (.answer mid) else some (.window after hi)
      else some (.walk start mid)
    else some (.answer (min (lo - 1) (starts.size - 1 - 1)))
  | .walk start i => do
    let after ← plus? limit i 1
    if after < starts.size - 1 then do
      let next ← starts[after]?
      if next = start then some (.walk start after) else some (.answer i)
    else some (.answer i)
  | .answer i => some (.answer i)

/-- So many turns, one after the other. -/
def run? (limit : Nat) (starts : Array Nat) (position : Nat) : Nat → Search → Option Search
  | 0, s => some s
  | turns + 1, s => (turn? limit starts position s).bind (run? limit starts position turns)

/-- What the search answers when it goes on from here. -/
def result? (starts : Array Nat) (position : Nat) : Search → Option Nat
  | .window lo hi => narrow? starts position lo hi
  | .walk start i => lastSharing? starts start i
  | .answer i => some i

/-- The search stands inside a table of `n` segments. Without segments it can only answer
with the place where the first one would be. -/
def Inside (n : Nat) : Search → Prop
  | .window lo hi => lo ≤ hi ∧ hi ≤ n
  | .walk _ i => i < n
  | .answer i => i ≤ n - 1

/-- A bound on the turns that are left among `n` segments: each turn halves the window, and a
walk goes to the last segment at most. -/
def turnsLeft (n : Nat) : Search → Nat
  | .window lo hi => (hi - lo).size + n + 1
  | .walk _ i => n - i
  | .answer _ => 0

/-- A search that came from `s` to `t` in so many turns: it has not left the table, it will
answer the same, and it is that much nearer to its answer. -/
structure Continues (starts : Array Nat) (position turns : Nat) (s t : Search) : Prop where
  inside : t.Inside (starts.size - 1)
  result?_eq : t.result? starts position = s.result? starts position
  turnsLeft_le : t.turnsLeft (starts.size - 1) ≤ s.turnsLeft (starts.size - 1) - turns

section

variable {limit : Nat} {starts : Array Nat} {position : Nat}

/-- A search that takes no turn goes on from where it is. -/
theorem Continues.refl {s : Search} (h : s.Inside (starts.size - 1)) :
    Continues starts position 0 s s :=
  ⟨h, rfl, le_rfl⟩

/-- Turns after turns add up. -/
theorem Continues.trans {j k : Nat} {s t u : Search} (hst : Continues starts position j s t)
    (htu : Continues starts position k t u) : Continues starts position (j + k) s u := by
  have h1 := hst.turnsLeft_le
  have h2 := htu.turnsLeft_le
  exact ⟨htu.inside, htu.result?_eq.trans hst.result?_eq, by omega⟩

/-- At most half of a window has fewer binary digits than the window. -/
theorem size_lt_size_of_half {width half : Nat} (hwidth : 0 < width) (h : half ≤ width / 2) :
    half.size < width.size := by
  obtain ⟨k, hk⟩ := Nat.exists_eq_add_of_lt (Nat.size_pos.2 hwidth)
  have hlt : width < 2 ^ (k + 1) := by
    apply Nat.size_le.1
    omega
  have hhalf : half < 2 ^ k := by
    rw [pow_succ] at hlt
    omega
  have hle : half.size ≤ k := Nat.size_le.2 hhalf
  omega

/-- The midpoint of a window lies in it, and the window on either side of the midpoint has
fewer binary digits. -/
theorem midpoint_spec {lo hi mid : Nat} (hlt : lo < hi) (hmid : lo + (hi - lo) / 2 = mid) :
    lo ≤ mid ∧ mid < hi ∧ (mid - lo).size < (hi - lo).size ∧
      (hi - (mid + 1)).size < (hi - lo).size := by
  have hwidth : 0 < hi - lo := by omega
  have hbelow : mid - lo ≤ (hi - lo) / 2 := by omega
  have habove : hi - (mid + 1) ≤ (hi - lo) / 2 := by omega
  exact ⟨by omega, by omega, size_lt_size_of_half hwidth hbelow,
    size_lt_size_of_half hwidth habove⟩

/-- A turn of the walk: it goes on to the next segment while that one shares the start. -/
theorem exists_turn?_walk (hlimit : starts.size ≤ limit) (start : Nat) {i : Nat}
    (hi : i < starts.size - 1) : ∃ t, turn? limit starts position (.walk start i) = some t ∧
      Continues starts position 1 (.walk start i) t := by
  have hafter : plus? limit i 1 = some (i + 1) := plus?_of_le (by omega)
  have hresult := lastSharing?.eq_def starts start i
  by_cases hnext : i + 1 < starts.size - 1
  · obtain ⟨next, hread⟩ : ∃ next, starts[i + 1]? = some next :=
      ⟨_, getElem?_eq_getD (by omega)⟩
    by_cases hshare : next = start
    · refine ⟨.walk start (i + 1), ?_, hnext, ?_, ?_⟩
      · simp [turn?, hafter, hnext, hread, hshare]
      · simp [result?, hresult, hnext, hread, hshare]
      · simp only [turnsLeft]
        omega
    · refine ⟨.answer i, ?_, Nat.le_sub_one_of_lt hi, ?_, Nat.zero_le _⟩
      · simp [turn?, hafter, hnext, hread, hshare]
      · simp [result?, hresult, hnext, hread, hshare]
  · refine ⟨.answer i, ?_, Nat.le_sub_one_of_lt hi, ?_, Nat.zero_le _⟩
    · simp [turn?, hafter, hnext]
    · simp [result?, hresult, hnext]

/-- A turn with a window: the midpoint is a place in the table, and so is the place after it.
The order of the table plays no part. -/
theorem exists_turn?_window (hlimit : starts.size ≤ limit) {lo hi : Nat} (hle : lo ≤ hi)
    (hhi : hi ≤ starts.size - 1) :
    ∃ t, turn? limit starts position (.window lo hi) = some t ∧
      Continues starts position 1 (.window lo hi) t := by
  have hresult := narrow?.eq_def starts position lo hi
  by_cases hlt : lo < hi
  · have hwidth : minus? hi lo = some (hi - lo) := minus?_of_le hle
    obtain ⟨hlo, hmid, hbelow, habove⟩ := midpoint_spec hlt rfl
    have hsum : plus? limit lo ((hi - lo) / 2) = some (lo + (hi - lo) / 2) :=
      plus?_of_le (by omega)
    generalize lo + (hi - lo) / 2 = mid at *
    have hafter : plus? limit mid 1 = some (mid + 1) := plus?_of_le (by omega)
    obtain ⟨start, hread⟩ : ∃ start, starts[mid]? = some start :=
      ⟨_, getElem?_eq_getD (by omega)⟩
    obtain ⟨next, hnext⟩ : ∃ next, starts[mid + 1]? = some next :=
      ⟨_, getElem?_eq_getD (by omega)⟩
    -- the three ways on: to the left of the midpoint, along the segments that share its
    -- start, and to its right, where the position may lie in the segment just read
    rcases Nat.lt_trichotomy position start with hp | rfl | hp
    · refine ⟨.window lo mid, ?_, ⟨hlo, by omega⟩, ?_, ?_⟩
      · simp [turn?, hlt, hwidth, hsum, hread, hp]
      · simp [result?, hresult, hlt, hread, hp]
      · simp only [turnsLeft]
        omega
    · refine ⟨.walk position mid, ?_, by simp only [Inside]; omega, ?_, ?_⟩
      · simp [turn?, hlt, hwidth, hsum, hread]
      · simp [result?, hresult, hlt, hread]
      · simp only [turnsLeft]
        omega
    · have hnot : ¬ position < start := by omega
      by_cases hinside : position < next
      · refine ⟨.answer mid, ?_, by simp only [Inside]; omega, ?_, Nat.zero_le _⟩
        · simp [turn?, hlt, hwidth, hsum, hread, hp, hnot, hafter, hnext, hinside]
        · simp [result?, hresult, hlt, hread, hp, hnot, hnext, hinside]
      · refine ⟨.window (mid + 1) hi, ?_, ⟨by omega, hhi⟩, ?_, ?_⟩
        · simp [turn?, hlt, hwidth, hsum, hread, hp, hnot, hafter, hnext, hinside]
        · simp [result?, hresult, hlt, hread, hp, hnot, hnext, hinside]
        · simp only [turnsLeft]
          omega
  · refine ⟨.answer (min (lo - 1) (starts.size - 1 - 1)), ?_, min_le_right _ _, ?_,
      Nat.zero_le _⟩
    · simp [turn?, hlt]
    · simp [result?, hresult, hlt]

/-- No turn of a search inside the table goes wrong. -/
theorem exists_turn? (position : Nat) (hlimit : starts.size ≤ limit) {s : Search}
    (h : s.Inside (starts.size - 1)) :
    ∃ t, turn? limit starts position s = some t ∧ Continues starts position 1 s t := by
  cases s with
  | window lo hi => exact exists_turn?_window hlimit h.1 h.2
  | walk start i => exact exists_turn?_walk hlimit start h
  | answer i => exact ⟨.answer i, rfl, h, rfl, Nat.zero_le _⟩

/-- However many turns it makes, a search from inside the table keeps to it. -/
theorem exists_run? (position : Nat) (hlimit : starts.size ≤ limit) (turns : Nat) {s : Search}
    (h : s.Inside (starts.size - 1)) :
    ∃ t, run? limit starts position turns s = some t ∧
      Continues starts position turns s t := by
  -- what every turn keeps is `Continues`, so the induction is on their number
  induction turns generalizing s with
  | zero => exact ⟨s, rfl, Continues.refl h⟩
  | succ turns ih =>
    obtain ⟨t, hturn, hst⟩ := exists_turn? position hlimit h
    obtain ⟨u, hrun, htu⟩ := ih hst.inside
    refine ⟨u, ?_, Nat.add_comm turns 1 ▸ hst.trans htu⟩
    rw [run?, hturn, Option.bind_some, hrun]

/-- A search inside the table that has no turn left stands at its answer. -/
theorem eq_answer_of_turnsLeft {n : Nat} {s : Search} (h : s.Inside n) (hs : s.turnsLeft n = 0) :
    ∃ i ≤ n - 1, s = .answer i := by
  cases s with
  | window lo hi =>
    simp only [turnsLeft] at hs
    omega
  | walk start i =>
    simp only [Inside, turnsLeft] at h hs
    omega
  | answer i => exact ⟨i, h, rfl⟩

/-- A search from inside the table gets to an answer, and that is the one of the recursion. -/
theorem run?_eq_answer (position : Nat) (hlimit : starts.size ≤ limit) {turns : Nat} {s : Search}
    (h : s.Inside (starts.size - 1)) (hturns : s.turnsLeft (starts.size - 1) ≤ turns) :
    ∃ i ≤ starts.size - 1 - 1, run? limit starts position turns s = some (.answer i) ∧
      result? starts position s = some i := by
  obtain ⟨t, hrun, hst⟩ := exists_run? position hlimit turns h
  have hleft := hst.turnsLeft_le
  obtain ⟨i, hi, rfl⟩ := eq_answer_of_turnsLeft hst.inside (by omega)
  exact ⟨i, hi, hrun, hst.result?_eq.symm⟩

/-- The search of a whole table starts inside it. -/
theorem inside_whole (n : Nat) : (Search.window 0 n).Inside n := ⟨Nat.zero_le n, le_rfl⟩

end

end Search

section

variable {starts : Array Nat} {position : Nat}

/-- The search reads inside every table, and what it answers is a segment if there is one. -/
theorem segmentIndex?_eq_some (starts : Array Nat) (position : Nat) :
    segmentIndex? starts position = some (segmentIndex starts position) ∧
      segmentIndex starts position ≤ starts.size - 1 - 1 := by
  obtain ⟨i, hi, -, hresult⟩ :=
    Search.run?_eq_answer position le_rfl (Search.inside_whole _) le_rfl
  have hindex : segmentIndex? starts position = some i := hresult
  have heq : segmentIndex starts position = i := by
    unfold segmentIndex
    rw [hindex, Option.getD_some]
  rw [heq]
  exact ⟨hindex, hi⟩

/-- The segments that start at the position or before it. -/
def startedBy (starts : Array Nat) (position : Nat) : Set Nat :=
  {i | i < starts.size - 1 ∧ starts.getD i 0 ≤ position}

/-- The last start at or below a position is the greatest place of such a start. -/
theorem IsLastStart.isGreatest {i : Nat} (h : IsLastStart starts (starts.size - 1) position i) :
    IsGreatest (startedBy starts position) i := by
  refine ⟨⟨h.lt, h.start_le⟩, ?_⟩
  rintro j ⟨hj, hle⟩
  by_contra hlt
  have hlater := h.lt_later j (by omega) hj
  omega

/-- Nothing has started before the first start of a sorted table. -/
theorem startedBy_eq_empty (hs : Nondecreasing starts) (h : position < starts.getD 0 0) :
    startedBy starts position = ∅ := by
  apply Set.eq_empty_of_forall_notMem
  rintro i ⟨hi, hle⟩
  have hfirst := hs 0 i (Nat.zero_le i) (by omega)
  omega

/-- In a sorted table the search finds the last segment that has started. -/
theorem isGreatest_segmentIndex (hs : Nondecreasing starts) (position : Nat) :
    IsGreatest (startedBy starts position) (segmentIndex starts position) ∨
      startedBy starts position = ∅ ∧ segmentIndex starts position = 0 := by
  obtain ⟨hindex, hle⟩ := segmentIndex?_eq_some starts position
  by_cases hn : 0 < starts.size - 1
  · obtain ⟨i, hi, hspec⟩ := segmentIndex?_spec hn hs (by omega) position
    obtain rfl : segmentIndex starts position = i := Option.some.inj (hindex.symm.trans hi)
    rcases hspec with hlast | ⟨hzero, hbefore⟩
    · exact .inl hlast.isGreatest
    · exact .inr ⟨startedBy_eq_empty hs hbefore, hzero⟩
  · right
    refine ⟨?_, by omega⟩
    apply Set.eq_empty_of_forall_notMem
    rintro i ⟨hi, -⟩
    omega

/-- A position from the total on is past every segment: the search answers with the last. -/
theorem segmentIndex_of_total_le (hs : Nondecreasing starts) {total : Nat}
    (htotal : starts.back? = some total) (hle : total ≤ position) :
    segmentIndex starts position = starts.size - 1 - 1 := by
  have hupper := (segmentIndex?_eq_some starts position).2
  by_cases hn : 0 < starts.size - 1
  · have hback : starts.getD (starts.size - 1) 0 = total := by
      rw [Array.getD_eq_getD_getElem?, ← Array.back?_eq_getElem?, htotal, Option.getD_some]
    have hlast := hs (starts.size - 1 - 1) (starts.size - 1) (by omega) (by omega)
    have hmem : starts.size - 1 - 1 ∈ startedBy starts position := ⟨by omega, by omega⟩
    rcases isGreatest_segmentIndex hs position with hgreatest | ⟨hempty, -⟩
    · exact le_antisymm hupper (hgreatest.2 hmem)
    · rw [hempty] at hmem
      cases hmem
  · omega

/-- A position before the first start is before every segment: the search answers with the
first. -/
theorem segmentIndex_of_lt_first (hs : Nondecreasing starts) {first : Nat}
    (hfirst : starts[0]? = some first) (hlt : position < first) :
    segmentIndex starts position = 0 := by
  have hbefore : position < starts.getD 0 0 := by
    rw [Array.getD_eq_getD_getElem?, hfirst, Option.getD_some]
    exact hlt
  rcases isGreatest_segmentIndex hs position with hgreatest | ⟨-, hzero⟩
  · have hmem := hgreatest.1
    rw [startedBy_eq_empty hs hbefore] at hmem
    cases hmem
  · exact hzero

end

/-- The search takes any table. In words that hold the length of the table, no read leaves it
and no index that is computed leaves the words: after however many turns the search stands
inside the table and has the same answer ahead, and it is there after as many turns as the
number of segments has binary digits, and one for each segment, and one more. The answer is a
segment if there is one, and 0 if there is none. If the table is sorted, it is the last segment
that starts at or before the position, or the first if none does: so the last from the total
on, and the first before the first start. -/
theorem segmentIndex_safe_and_exact (starts : Array Nat) (position : Nat) :
    (∀ limit, starts.size ≤ limit →
        (∀ turns, ∃ s, Search.run? limit starts position turns (.window 0 (starts.size - 1)) =
            some s ∧ s.Inside (starts.size - 1) ∧
            s.result? starts position = some (segmentIndex starts position)) ∧
          ∀ turns, (starts.size - 1).size + (starts.size - 1) + 1 ≤ turns →
            Search.run? limit starts position turns (.window 0 (starts.size - 1)) =
              some (.answer (segmentIndex starts position))) ∧
      segmentIndex? starts position = some (segmentIndex starts position) ∧
      (starts.size - 1 = 0 → segmentIndex starts position = 0) ∧
      (0 < starts.size - 1 → segmentIndex starts position < starts.size - 1) ∧
      (Nondecreasing starts →
        (IsGreatest (startedBy starts position) (segmentIndex starts position) ∨
            startedBy starts position = ∅ ∧ segmentIndex starts position = 0) ∧
          (∀ total, starts.back? = some total → total ≤ position →
            segmentIndex starts position = starts.size - 1 - 1) ∧
          ∀ first, starts[0]? = some first → position < first →
            segmentIndex starts position = 0) := by
  obtain ⟨hindex, hle⟩ := segmentIndex?_eq_some starts position
  refine ⟨fun limit hlimit => ⟨fun turns => ?_, fun turns hturns => ?_⟩, hindex,
    fun hn => by omega, fun hn => by omega, fun hs => ⟨isGreatest_segmentIndex hs position,
      fun total => segmentIndex_of_total_le hs, fun first => segmentIndex_of_lt_first hs⟩⟩
  · obtain ⟨s, hrun, hfrom⟩ :=
      Search.exists_run? position hlimit turns (Search.inside_whole _)
    exact ⟨s, hrun, hfrom.inside, hfrom.result?_eq.trans hindex⟩
  · obtain ⟨i, -, hrun, hresult⟩ :=
      Search.run?_eq_answer position hlimit (Search.inside_whole _) hturns
    obtain rfl : segmentIndex starts position = i :=
      Option.some.inj (hindex.symm.trans hresult)
    exact hrun

/-- A table that falls all the way keeps the search inside, in words that just hold its length.
In a sorted table whose segments share starts at both ends, a hit on a shared start, positions
at the total and past it, and one before the first start are answered as they should be. -/
theorem segmentIndex_safe_and_exact_of_shared :
    (Search.run? 5 #[9, 4, 3, 3, 1] 3 8 (.window 0 4) = some (.answer 3) ∧
        segmentIndex #[9, 4, 3, 3, 1] 3 = 3) ∧
      Nondecreasing #[3, 3, 8, 8, 8] ∧ segmentIndex #[3, 3, 8, 8, 8] 3 = 1 ∧
        segmentIndex #[3, 3, 8, 8, 8] 8 = 3 ∧ segmentIndex #[3, 3, 8, 8, 8] 9 = 3 ∧
        segmentIndex #[3, 3, 8, 8, 8] 2 = 0 := by
  have hrun : Search.run? 5 #[9, 4, 3, 3, 1] 3 8 (.window 0 4) = some (.answer 3) := by decide
  have hsorted : Nondecreasing #[3, 3, 8, 8, 8] := by
    intro i j hij hj
    have hj5 : j < 5 := hj
    interval_cases j <;> interval_cases i <;> decide
  obtain ⟨hturns, -⟩ := segmentIndex_safe_and_exact #[9, 4, 3, 3, 1] 3
  obtain ⟨-, hends⟩ := hturns 5 (by decide)
  have hfalling := hends 8 (by decide)
  obtain ⟨-, -, -, -, hhit⟩ := segmentIndex_safe_and_exact #[3, 3, 8, 8, 8] 3
  obtain ⟨-, -, -, -, hat⟩ := segmentIndex_safe_and_exact #[3, 3, 8, 8, 8] 8
  obtain ⟨-, -, -, -, hpast⟩ := segmentIndex_safe_and_exact #[3, 3, 8, 8, 8] 9
  obtain ⟨-, -, -, -, hbefore⟩ := segmentIndex_safe_and_exact #[3, 3, 8, 8, 8] 2
  have hstarted : IsGreatest (startedBy #[3, 3, 8, 8, 8] 3) 1 := by
    refine ⟨⟨by decide, by decide⟩, ?_⟩
    rintro j ⟨hj, hle⟩
    have hj4 : j < 4 := hj
    interval_cases j <;> revert hle <;> decide
  refine ⟨⟨hrun, ?_⟩, hsorted, ?_, (hat hsorted).2.1 8 rfl le_rfl,
    (hpast hsorted).2.1 8 rfl (by decide), (hbefore hsorted).2.2 3 rfl (by decide)⟩
  · have hsame := hrun.symm.trans hfalling
    simpa using hsame.symm
  · rcases (hhit hsorted).1 with hgreatest | ⟨hempty, -⟩
    · exact hgreatest.unique hstarted
    · rw [hempty] at hstarted
      cases hstarted.1

end SegmentedView
