import SegmentedView.Proofs.System.DeleteRuns

/-!
# Histories of marks and commits

A document is named by its segment and its offset there, because positions move when a
view is refreshed. A history lists marks and commits with the view that each was made on;
a document is deleted by a history if a mark covers it and a commit follows
(`History.Deletes`), and waits in it if a mark covers it and no commit follows
(`History.Awaits`). What one more mark or commit does to the two is what it does to the
deleted and the staged positions of a view.
-/

set_option autoImplicit false

namespace SegmentedView

variable {P : Type}

/-! ## Documents by name -/

namespace View

/-- The document at a position is the one at this offset of the segment of this name. -/
def Shows (v : View P) (p : Nat) (name : String) (l : Nat) : Prop :=
  ∃ s, v.documentAt? p = some (s, l) ∧ s.name = name

/-- A view shows at a position what is found there. -/
theorem shows_of_found {σ : Type} {s : System σ P} {slot : Nat} {v : View P}
    (hv : s.view? slot = some v) {p l : Nat} {name : String}
    (hfound : ((s.view? slot).bind (·.documentAt? p)).map (fun x => (x.1.name, x.2)) =
      some (name, l)) : v.Shows p name l := by
  rw [hv] at hfound
  obtain ⟨⟨x, m⟩, hx, heq⟩ := Option.map_eq_some_iff.1 hfound
  obtain ⟨hname, rfl⟩ := Prod.mk.inj heq
  exact ⟨x, hx, hname⟩

/-- Views of the same documents show the same document at a position. -/
theorem SameDocuments.shows {v w : View P} (h : SameDocuments v w) {p l : Nat}
    {name : String} : w.Shows p name l ↔ v.Shows p name l := by
  constructor
  · rintro ⟨s, hs, rfl⟩
    obtain ⟨t, ht, hseg⟩ := h.symm.documentAt? hs
    exact ⟨t, ht, congrArg Segment.name hseg⟩
  · rintro ⟨s, hs, rfl⟩
    obtain ⟨t, ht, hseg⟩ := h.documentAt? hs
    exact ⟨t, ht, congrArg Segment.name hseg⟩

/-- In a view whose segments have different names, a document has one position. -/
theorem Sound.exists_shows {v : View P} (h : v.Sound)
    (hnames : (v.segments.map Snapshot.name).Nodup) {s : Snapshot P} (hs : s ∈ v.segments)
    {l : Nat} (hl : l < s.docCount) : ∃ p, ∀ q, v.Shows q s.name l ↔ q = p := by
  obtain ⟨i, hi⟩ := List.getElem?_of_mem hs
  refine ⟨Boundaries.startOf v.counts i + l, fun q => ?_⟩
  constructor
  · rintro ⟨t, ht, hname⟩
    obtain ⟨j, hj, -, rfl⟩ := h.documentAt?_eq_some_iff.1 ht
    have hnamei : (v.segments.map Snapshot.name)[i]? = some s.name := by
      rw [List.getElem?_map, hi]
      rfl
    have hnamej : (v.segments.map Snapshot.name)[j]? = some s.name := by
      rw [List.getElem?_map, hj, ← hname]
      rfl
    have hij : j = i := by
      have hlt := (List.getElem?_eq_some_iff.1 hnamej).1
      exact (List.getElem?_inj hlt hnames).1 (hnamej.trans hnamei.symm)
    rw [hij]
  · rintro rfl
    exact ⟨s, h.documentAt?_eq_some_iff.2 ⟨i, hi, hl, rfl⟩, rfl⟩

end View

/-! ## Histories -/

/-- Whether an operation on the deletes of a view covers a document: a mark by position
covers the documents at its positions, a mark by id those with one of its ids. -/
def DeleteOp.Covers (v : View P) (name : String) (l : Nat) : DeleteOp → Prop
  | .markIds ids => ∃ p, v.Shows p name l ∧ ∃ id ∈ ids, v.stableIdAt p = some id
  | .markAt positions => ∃ p ∈ positions, v.Shows p name l
  | .commit => False

/-- Marks and commits in the order they were made, each with the view it was made on. -/
abbrev History (P : Type) := List (View P × DeleteOp)

namespace History

/-- The entry covers the document. -/
def MarksAt (h : History P) (name : String) (l i : Nat) : Prop :=
  ∃ v op, h[i]? = some (v, op) ∧ op.Covers v name l

/-- The entry is a commit. -/
def CommitsAt (h : History P) (i : Nat) : Prop := ∃ v, h[i]? = some (v, .commit)

/-- The document was marked, and a commit came later. -/
def Deletes (h : History P) (name : String) (l : Nat) : Prop :=
  ∃ i j, i < j ∧ h.MarksAt name l i ∧ h.CommitsAt j

/-- The document was marked, and no commit came since. -/
def Awaits (h : History P) (name : String) (l : Nat) : Prop :=
  ∃ i, h.MarksAt name l i ∧ ∀ j, i < j → ¬ h.CommitsAt j

variable {h : History P} {v : View P} {op : DeleteOp} {name : String} {l : Nat}

/-- A mark is one of the moments of the history. -/
theorem MarksAt.lt_length {i : Nat} (hi : h.MarksAt name l i) : i < h.length := by
  obtain ⟨v, op, hget, -⟩ := hi
  exact (List.getElem?_eq_some_iff.1 hget).1

/-- A commit is one of the moments of the history. -/
theorem CommitsAt.lt_length {i : Nat} (hi : h.CommitsAt i) : i < h.length := by
  obtain ⟨v, hget⟩ := hi
  exact (List.getElem?_eq_some_iff.1 hget).1

/-- An entry of a longer list is one of before, or the last. -/
theorem getElem?_snoc {α : Type} {xs : List α} {x y : α} {i : Nat} :
    (xs ++ [x])[i]? = some y ↔ xs[i]? = some y ∨ i = xs.length ∧ x = y := by
  rcases Nat.lt_trichotomy i xs.length with hlt | rfl | hgt
  · rw [List.getElem?_append_left hlt]
    simp [hlt.ne]
  · simp
  · rw [List.getElem?_eq_none (by simp; omega), List.getElem?_eq_none (by omega)]
    simp [hgt.ne']

/-- A mark of a longer history is one of before, or its last operation. -/
theorem marksAt_snoc {i : Nat} : MarksAt (h ++ [(v, op)]) name l i ↔
    h.MarksAt name l i ∨ i = h.length ∧ op.Covers v name l := by
  unfold MarksAt
  constructor
  · rintro ⟨w, op', hget, hcovers⟩
    rcases getElem?_snoc.1 hget with hold | ⟨rfl, heq⟩
    · exact .inl ⟨w, op', hold, hcovers⟩
    · obtain ⟨rfl, rfl⟩ := Prod.mk.inj heq
      exact .inr ⟨rfl, hcovers⟩
  · rintro (⟨w, op', hold, hcovers⟩ | ⟨rfl, hcovers⟩)
    · exact ⟨w, op', getElem?_snoc.2 (.inl hold), hcovers⟩
    · exact ⟨v, op, getElem?_snoc.2 (.inr ⟨rfl, rfl⟩), hcovers⟩

/-- A commit of a longer history is one of before, or its last operation. -/
theorem commitsAt_snoc {i : Nat} : CommitsAt (h ++ [(v, op)]) i ↔
    h.CommitsAt i ∨ i = h.length ∧ op = .commit := by
  unfold CommitsAt
  constructor
  · rintro ⟨w, hget⟩
    rcases getElem?_snoc.1 hget with hold | ⟨rfl, heq⟩
    · exact .inl ⟨w, hold⟩
    · exact .inr ⟨rfl, (Prod.mk.inj heq).2⟩
  · rintro (⟨w, hold⟩ | ⟨rfl, rfl⟩)
    · exact ⟨w, getElem?_snoc.2 (.inl hold)⟩
    · exact ⟨v, getElem?_snoc.2 (.inr ⟨rfl, rfl⟩)⟩

/-- An empty history deletes nothing. -/
theorem not_deletes_nil : ¬ Deletes ([] : History P) name l := by
  rintro ⟨i, j, -, hi, -⟩
  exact absurd hi.lt_length (Nat.not_lt_zero i)

/-- In an empty history nothing awaits a commit. -/
theorem not_awaits_nil : ¬ Awaits ([] : History P) name l := by
  rintro ⟨i, hi, -⟩
  exact absurd hi.lt_length (Nat.not_lt_zero i)

/-- A mark deletes nothing. -/
theorem deletes_snoc_mark (hop : op ≠ .commit) :
    Deletes (h ++ [(v, op)]) name l ↔ h.Deletes name l := by
  unfold Deletes
  constructor
  · rintro ⟨i, j, hij, hi, hj⟩
    rcases commitsAt_snoc.1 hj with hj | ⟨-, rfl⟩
    · rcases marksAt_snoc.1 hi with hi | ⟨rfl, -⟩
      · exact ⟨i, j, hij, hi, hj⟩
      · exact absurd hj.lt_length (by omega)
    · exact absurd rfl hop
  · rintro ⟨i, j, hij, hi, hj⟩
    exact ⟨i, j, hij, marksAt_snoc.2 (.inl hi), commitsAt_snoc.2 (.inl hj)⟩

/-- After a mark the documents wait that did before, and those that it covers. -/
theorem awaits_snoc_mark (hop : op ≠ .commit) :
    Awaits (h ++ [(v, op)]) name l ↔ h.Awaits name l ∨ op.Covers v name l := by
  have hcommits : ∀ j, CommitsAt (h ++ [(v, op)]) j ↔ h.CommitsAt j := by
    intro j
    rw [commitsAt_snoc]
    simp [hop]
  unfold Awaits
  simp only [hcommits, marksAt_snoc]
  constructor
  · rintro ⟨i, hi | ⟨-, hcovers⟩, hnone⟩
    · exact .inl ⟨i, hi, hnone⟩
    · exact .inr hcovers
  · rintro (⟨i, hi, hnone⟩ | hcovers)
    · exact ⟨i, .inl hi, hnone⟩
    · exact ⟨h.length, .inr ⟨rfl, hcovers⟩, fun j hj hcommit =>
        absurd hcommit.lt_length (by omega)⟩

/-- A commit deletes the documents that wait. -/
theorem deletes_snoc_commit : Deletes (h ++ [(v, .commit)]) name l ↔
    h.Deletes name l ∨ h.Awaits name l := by
  constructor
  · rintro ⟨i, j, hij, hi, hj⟩
    rcases marksAt_snoc.1 hi with hi | ⟨-, hcovers⟩
    · by_cases hlater : ∃ k, i < k ∧ h.CommitsAt k
      · obtain ⟨k, hik, hk⟩ := hlater
        exact .inl ⟨i, k, hik, hi, hk⟩
      · exact .inr ⟨i, hi, fun k hik hk => hlater ⟨k, hik, hk⟩⟩
    · exact hcovers.elim
  · rintro (⟨i, j, hij, hi, hj⟩ | ⟨i, hi, -⟩)
    · exact ⟨i, j, hij, marksAt_snoc.2 (.inl hi), commitsAt_snoc.2 (.inl hj)⟩
    · exact ⟨i, h.length, hi.lt_length, marksAt_snoc.2 (.inl hi),
        commitsAt_snoc.2 (.inr ⟨rfl, rfl⟩)⟩

/-- After a commit no document waits. -/
theorem not_awaits_snoc_commit : ¬ Awaits (h ++ [(v, .commit)]) name l := by
  rintro ⟨i, hi, hnone⟩
  rcases marksAt_snoc.1 hi with hi | ⟨-, hcovers⟩
  · exact hnone h.length hi.lt_length (commitsAt_snoc.2 (.inr ⟨rfl, rfl⟩))
  · exact hcovers

end History

end SegmentedView
