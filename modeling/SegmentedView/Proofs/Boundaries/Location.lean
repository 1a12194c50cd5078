import SegmentedView.Proofs.Boundaries.Search
import SegmentedView.Proofs.Boundaries.Table

/-!
# Positions and the segments they fall into

`Boundaries.locate` sends a position to a segment and an offset in it. On the table of
a list of counts it is the inverse of laying the segments end to end
(`locate_eq_some_iff`): every position below the total has one document, every document
one position, and documents are in the order of their positions. `card_filter_positions`
counts positions segment by segment.
-/

set_option autoImplicit false

namespace SegmentedView.Boundaries

variable {b : Boundaries} {counts : List Nat}

namespace IsTableOf

/-- The starts of a table never fall. -/
theorem nondecreasing (h : b.IsTableOf counts) : Nondecreasing b.starts := by
  intro i j hij hj
  rw [h.size] at hj
  rw [h.getD (by omega), h.getD (by omega)]
  exact startOf_mono counts hij

/-- The search finds the segment of every position below the total. -/
theorem segmentIndex?_eq (h : b.IsTableOf counts) {p : Nat} (hp : p < counts.sum) :
    ∃ i count, segmentIndex? b.starts p = some i ∧ counts[i]? = some count ∧
      startOf counts i ≤ p ∧ p < startOf counts i + count := by
  have hn : 0 < counts.length := by
    cases counts with
    | nil => simp at hp
    | cons => simp
  obtain ⟨i, hi, hlast | ⟨-, hbefore⟩⟩ := segmentIndex?_spec hn h.nondecreasing h.size p
  · obtain ⟨hin, hle, hlater⟩ := hlast
    have hcount : counts[i]? = some counts[i] := List.getElem?_eq_getElem hin
    rw [h.getD (by omega)] at hle
    refine ⟨i, counts[i], hi, hcount, hle, ?_⟩
    rw [← startOf_succ hcount]
    by_cases hnext : i + 1 < counts.length
    · have := hlater (i + 1) (by omega) hnext
      rwa [h.getD (by omega)] at this
    · rw [show i + 1 = counts.length by omega, startOf_length]
      exact hp
  · rw [h.getD (by omega), startOf_zero] at hbefore
    omega

end IsTableOf

/-- Two stretches of positions that meet belong to one segment. -/
theorem startOf_unique {i j c d p : Nat} (hi : counts[i]? = some c) (hj : counts[j]? = some d)
    (hpi : startOf counts i ≤ p ∧ p < startOf counts i + c)
    (hpj : startOf counts j ≤ p ∧ p < startOf counts j + d) : i = j := by
  rw [← startOf_succ hi] at hpi
  rw [← startOf_succ hj] at hpj
  rcases Nat.lt_trichotomy i j with hlt | heq | hgt
  · have := startOf_mono counts (show i + 1 ≤ j from hlt)
    omega
  · exact heq
  · have := startOf_mono counts (show j + 1 ≤ i from hgt)
    omega

/-- A position is located in a segment at an offset exactly when the offset is one of
the segment's documents and the position is that far behind the segment's start. -/
theorem locate_eq_some_iff (h : b.IsTableOf counts) {p i l : Nat} :
    b.locate p = some (i, l) ↔
      ∃ count, counts[i]? = some count ∧ l < count ∧ p = startOf counts i + l := by
  unfold locate contains
  rw [h.total]
  constructor
  · intro hloc
    split at hloc
    case isFalse => cases hloc
    case isTrue hp =>
      obtain ⟨j, count, hj, hcount, hle, hlt⟩ := h.segmentIndex?_eq (of_decide_eq_true hp)
      obtain ⟨hjlen, -⟩ := List.getElem?_eq_some_iff.1 hcount
      simp only [segmentIndex, hj, Option.getD_some, h.getD (Nat.le_of_lt hjlen),
        Option.some.injEq, Prod.mk.injEq] at hloc
      obtain ⟨rfl, rfl⟩ := hloc
      exact ⟨count, hcount, by omega, by omega⟩
  · rintro ⟨count, hcount, hl, rfl⟩
    have hp : startOf counts i + l < counts.sum := by
      have := startOf_add_le_sum hcount
      omega
    obtain ⟨j, c, hj, hc, hle, hlt⟩ := h.segmentIndex?_eq hp
    obtain rfl : j = i := startOf_unique hc hcount ⟨hle, hlt⟩ ⟨by omega, by omega⟩
    obtain ⟨hjlen, -⟩ := List.getElem?_eq_some_iff.1 hcount
    rw [if_pos (decide_eq_true hp)]
    simp only [segmentIndex, hj, Option.getD_some, h.getD (Nat.le_of_lt hjlen),
      Nat.add_sub_cancel_left]

/-- The positions that are located nowhere are those from the total on. -/
theorem locate_eq_none_iff (h : b.IsTableOf counts) {p : Nat} :
    b.locate p = none ↔ counts.sum ≤ p := by
  unfold locate contains
  rw [h.total]
  split
  case isTrue hp =>
    have := of_decide_eq_true hp
    simp only [reduceCtorEq, false_iff]
    omega
  case isFalse hp =>
    simp only [decide_eq_true_eq] at hp
    simp only [true_iff]
    omega

/-- Every position below the total is located. -/
theorem exists_locate (h : b.IsTableOf counts) {p : Nat} (hp : p < counts.sum) :
    ∃ i l, b.locate p = some (i, l) := by
  cases hloc : b.locate p with
  | none =>
    have := (locate_eq_none_iff h).1 hloc
    omega
  | some found => exact ⟨found.1, found.2, rfl⟩

/-- The search that locates a position reads inside the table, and the start that it
finds is not past the position. -/
theorem segmentIndex?_of_locate (h : b.IsTableOf counts) {p i l : Nat}
    (hloc : b.locate p = some (i, l)) : segmentIndex? b.starts p = some i ∧
      ∃ start, b.starts[i]? = some start ∧ start ≤ p ∧ l = p - start := by
  obtain ⟨count, hcount, hl, rfl⟩ := (locate_eq_some_iff h).1 hloc
  have hp : startOf counts i + l < counts.sum := by
    have := startOf_add_le_sum hcount
    omega
  obtain ⟨j, c, hj, hc, hle, hlt⟩ := h.segmentIndex?_eq hp
  obtain rfl : j = i := startOf_unique hc hcount ⟨hle, hlt⟩ ⟨by omega, by omega⟩
  obtain ⟨hjlen, -⟩ := List.getElem?_eq_some_iff.1 hcount
  exact ⟨hj, startOf counts j, h.start j (Nat.le_of_lt hjlen), by omega, by omega⟩

/-- Documents are in the order of their positions. -/
theorem lt_iff_lex_of_locate (h : b.IsTableOf counts) {p q : Nat} {x y : Nat × Nat}
    (hx : b.locate p = some x) (hy : b.locate q = some y) :
    p < q ↔ Prod.Lex (· < ·) (· < ·) x y := by
  obtain ⟨i, l⟩ := x
  obtain ⟨j, m⟩ := y
  obtain ⟨c, hc, hl, rfl⟩ := (locate_eq_some_iff h).1 hx
  obtain ⟨d, hd, hm, rfl⟩ := (locate_eq_some_iff h).1 hy
  rw [Prod.lex_iff]
  dsimp only
  have hci := startOf_succ hc
  have hdj := startOf_succ hd
  rcases Nat.lt_trichotomy i j with hlt | rfl | hgt
  · have := startOf_mono counts (show i + 1 ≤ j from hlt)
    omega
  · omega
  · have := startOf_mono counts (show j + 1 ≤ i from hgt)
    omega

/-- The documents of segments of these counts, as a segment and an offset in it. -/
def documents (counts : List Nat) : Set (Nat × Nat) :=
  {x | ∃ count, counts[x.1]? = some count ∧ x.2 < count}

/-- Counts whose sum is a word lay their segments end to end: `locate` maps the positions
below the total one to one onto the documents, keeps their order, and finds nothing from
the total on. The search reads inside the table, and the start it finds is never past the
position, so the offset is no truncated difference. -/
theorem locate_concatenates (counts : List Nat) (hsum : counts.sum ≤ maxWord) :
    ∃ b, ofCounts counts = .ok b ∧ b.total = counts.sum ∧
      (∀ p i l, b.locate p = some (i, l) ↔
        ∃ count, counts[i]? = some count ∧ l < count ∧ p = (counts.take i).sum + l) ∧
      (∀ p, b.locate p = none ↔ b.total ≤ p) ∧
      Set.BijOn b.locate {p | p < b.total} (some '' documents counts) ∧
      (∀ p q x y, b.locate p = some x → b.locate q = some y →
        (p < q ↔ Prod.Lex (· < ·) (· < ·) x y)) ∧
      (∀ p i l, b.locate p = some (i, l) → segmentIndex? b.starts p = some i ∧
        ∃ start, b.starts[i]? = some start ∧ start ≤ p ∧ l = p - start) := by
  obtain ⟨b, hb, h⟩ := ofCounts_isTableOf hsum
  refine ⟨b, hb, h.total, fun p i l => locate_eq_some_iff h, fun p => ?_, ⟨?_, ?_, ?_⟩,
    fun p q x y => lt_iff_lex_of_locate h, fun p i l => segmentIndex?_of_locate h⟩
  · rw [h.total]
    exact locate_eq_none_iff h
  · -- Positions go to documents, one to one, and every document is reached.
    intro p hp
    have hlt : p < counts.sum := h.total ▸ hp
    obtain ⟨i, l, hloc⟩ := exists_locate h hlt
    obtain ⟨count, hcount, hl, -⟩ := (locate_eq_some_iff h).1 hloc
    exact ⟨(i, l), ⟨count, hcount, hl⟩, hloc.symm⟩
  · intro p hp q _ heq
    have hlt : p < counts.sum := h.total ▸ hp
    obtain ⟨i, l, hloc⟩ := exists_locate h hlt
    obtain ⟨-, -, -, hpeq⟩ := (locate_eq_some_iff h).1 hloc
    obtain ⟨-, -, -, hqeq⟩ := (locate_eq_some_iff h).1 (heq ▸ hloc)
    rw [hpeq, hqeq]
  · rintro - ⟨⟨i, l⟩, ⟨count, hcount, hl⟩, rfl⟩
    dsimp only at hcount hl
    have hlt : startOf counts i + l < b.total := by
      have := startOf_add_le_sum hcount
      rw [h.total]
      omega
    exact ⟨startOf counts i + l, hlt, (locate_eq_some_iff h).2 ⟨count, hcount, hl, rfl⟩⟩

/-- Empty segments at both ends and between, and a total that is the largest word. -/
theorem locate_concatenates_full_word : [0, 3, 0, 0, 2 ^ 64 - 4, 0].sum ≤ maxWord ∧
    ∃ b, ofCounts [0, 3, 0, 0, 2 ^ 64 - 4, 0] = .ok b ∧ b.locate 2 = some (1, 2) ∧
      b.locate 3 = some (4, 0) ∧ b.locate maxWord = none := by
  have hsum : [0, 3, 0, 0, 2 ^ 64 - 4, 0].sum ≤ maxWord := by decide
  obtain ⟨b, hb, htotal, hlocate, hnone, -⟩ := locate_concatenates _ hsum
  refine ⟨hsum, b, hb, (hlocate _ _ _).2 ⟨3, rfl, by decide, rfl⟩,
    (hlocate _ _ _).2 ⟨2 ^ 64 - 4, rfl, by decide, rfl⟩, (hnone _).2 ?_⟩
  rw [htotal]
  decide

/-- The positions with a property, counted segment by segment. -/
theorem card_filter_positions (P : Nat → Prop) [DecidablePred P] (counts : List Nat) :
    ((Finset.range counts.sum).filter P).card =
      (counts.mapIdx fun i count =>
        ((Finset.range count).filter fun l => P (startOf counts i + l)).card).sum := by
  induction counts generalizing P with
  | nil => simp
  | cons count counts ih =>
    have hrest := ih fun p => P (count + p)
    simp only [Finset.card_filter] at hrest ⊢
    rw [List.sum_cons, Finset.sum_range_add, hrest, List.mapIdx_cons, List.sum_cons]
    simp only [startOf_zero, startOf_cons_succ, Nat.zero_add, Nat.add_assoc]

end SegmentedView.Boundaries
