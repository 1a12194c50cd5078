import SegmentedView.Proofs.Boundaries.Overflow
import SegmentedView.Proofs.View.Outline

/-!
# Why a generation is refused

A generation that cannot be made into a view is refused for one reason (`Generation.Refuses`):
its first leaf that fails, or else a total that is no word, or else a total that the store
does not report. `assemble_eq_error_iff` says that these are all the reasons and that the
earlier one decides, whatever else is wrong with the generation.
-/

set_option autoImplicit false

namespace SegmentedView

variable {P : Type}

/-- Why a leaf cannot be made into a snapshot: it is no segment, or the decorator fails on
the segment, be it new or in the place of one that passes its deletes to it. -/
inductive Leaf.Fails (prior : List (Snapshot P)) (d : Decorator P) (policy : ReusePolicy) :
    Leaf → Error → Prop
  | foreign (kind : String) : Fails prior d policy (.foreign kind) (.leafNotSegment kind)
  | undecorated (s : Segment) (e : Error) (hnew : Snapshot.predecessor? prior policy s = none)
    (he : d.decorate s = .error e) : Fails prior d policy (.segment s) e
  | stuck (s : Segment) (previous : Snapshot P) (e : Error)
    (hknown : Snapshot.predecessor? prior policy s = some previous)
    (he : d.redecorate previous.payload.value s = .error e) : Fails prior d policy (.segment s) e

/-- Nothing stands in the way of a snapshot of a leaf. -/
def Leaf.Clear (prior : List (Snapshot P)) (d : Decorator P) (policy : ReusePolicy)
    (leaf : Leaf) : Prop :=
  ∀ e, ¬ leaf.Fails prior d policy e

/-- What is made of a result fails exactly as the result does. -/
theorem map_eq_error_iff {α β : Type} {f : α → β} {x : Except Error α} {e : Error} :
    x.map f = .error e ↔ x = .error e := by
  cases x <;> simp [Except.map]

section

variable {prior : List (Snapshot P)} {d : Decorator P} {policy : ReusePolicy}
  {opening place : Nat} {e : Error}

/-- A leaf makes no snapshot exactly when it fails. -/
theorem Leaf.snapshot?_eq_error_iff {leaf : Leaf} :
    leaf.snapshot? prior d policy opening place = .error e ↔ leaf.Fails prior d policy e := by
  cases leaf with
  | foreign kind =>
    constructor
    · intro h
      cases h
      exact .foreign kind
    · intro h
      cases h
      rfl
  | segment s =>
    unfold Leaf.snapshot?
    dsimp only
    cases hp : Snapshot.predecessor? prior policy s with
    | none =>
      dsimp only
      unfold Snapshot.open?
      rw [map_eq_error_iff, map_eq_error_iff]
      constructor
      · exact fun he => .undecorated s e hp he
      · intro h
        cases h with
        | undecorated _ _ hnew he => exact he
        | stuck _ previous _ hknown he =>
          rw [hp] at hknown
          cases hknown
    | some previous =>
      dsimp only
      unfold Snapshot.rebase?
      rw [map_eq_error_iff, map_eq_error_iff]
      constructor
      · exact fun he => .stuck s previous e hp he
      · intro h
        cases h with
        | undecorated _ _ hnew he =>
          rw [hp] at hnew
          cases hnew
        | stuck _ previous' _ hknown he =>
          rw [hp] at hknown
          cases hknown
          exact he

/-- The first leaf that fails decides the error, whatever comes after it. -/
theorem snapshotLeaves_eq_error_iff {leaves : List Leaf} :
    snapshotLeaves prior d policy opening place leaves = .error e ↔
      ∃ before leaf after, leaves = before ++ leaf :: after ∧
        (∀ x ∈ before, x.Clear prior d policy) ∧ leaf.Fails prior d policy e := by
  induction leaves generalizing place with
  | nil =>
    constructor
    · intro h
      cases h
    · rintro ⟨before, leaf, after, h, -⟩
      cases before <;> cases h
  | cons first leaves ih =>
    unfold snapshotLeaves
    cases hfirst : first.snapshot? prior d policy opening place with
    | error e' =>
      -- Any other split has this leaf before the one that fails, which then was clear.
      have hfails := Leaf.snapshot?_eq_error_iff.1 hfirst
      dsimp only
      constructor
      · intro h
        cases h
        exact ⟨[], first, leaves, rfl, by simp, hfails⟩
      · rintro ⟨before, leaf, after, hsplit, hbefore, hleaf⟩
        cases before with
        | nil =>
          cases hsplit
          rw [← Leaf.snapshot?_eq_error_iff, hfirst] at hleaf
          rw [Except.error.inj hleaf]
        | cons x before =>
          cases hsplit
          exact absurd hfails (hbefore first List.mem_cons_self e')
    | ok made =>
      -- This leaf is clear, so the one that fails is among the others.
      have hclear : first.Clear prior d policy := by
        intro e' he'
        rw [← Leaf.snapshot?_eq_error_iff, hfirst] at he'
        cases he'
      dsimp only
      rw [map_eq_error_iff, ih]
      constructor
      · rintro ⟨before, leaf, after, rfl, hbefore, hleaf⟩
        refine ⟨first :: before, leaf, after, rfl, fun x hx => ?_, hleaf⟩
        rcases List.mem_cons.1 hx with rfl | hx
        · exact hclear
        · exact hbefore x hx
      · rintro ⟨before, leaf, after, hsplit, hbefore, hleaf⟩
        cases before with
        | nil =>
          cases hsplit
          exact absurd hleaf (hclear e)
        | cons x before =>
          cases hsplit
          exact ⟨before, leaf, after, rfl,
            fun y hy => hbefore y (List.mem_cons_of_mem first hy), hleaf⟩

/-- Where every leaf is clear all of them become snapshots. -/
theorem exists_snapshotLeaves {leaves : List Leaf}
    (hclear : ∀ x ∈ leaves, x.Clear prior d policy) :
    ∃ made, snapshotLeaves prior d policy opening place leaves = .ok made := by
  cases h : snapshotLeaves prior d policy opening place leaves with
  | ok made => exact ⟨made, rfl⟩
  | error e =>
    obtain ⟨before, leaf, after, rfl, -, hleaf⟩ := snapshotLeaves_eq_error_iff.1 h
    exact absurd hleaf (hclear leaf (by simp) e)

/-- Of leaves that all make a snapshot none fails. -/
theorem clear_of_snapshotLeaves {leaves : List Leaf} {made : List (Snapshot P × Bool)}
    (h : snapshotLeaves prior d policy opening place leaves = .ok made) :
    ∀ x ∈ leaves, x.Clear prior d policy := by
  induction leaves generalizing place made with
  | nil => simp
  | cons first leaves ih =>
    unfold snapshotLeaves at h
    cases hfirst : first.snapshot? prior d policy opening place with
    | error e =>
      rw [hfirst] at h
      cases h
    | ok x =>
      rw [hfirst] at h
      obtain ⟨rest, hrest, -⟩ := exists_of_map_eq_ok h
      intro y hy
      rcases List.mem_cons.1 hy with rfl | hy
      · intro e he
        rw [← Leaf.snapshot?_eq_error_iff, hfirst] at he
        cases he
      · exact ih hrest y hy

end

namespace Generation

/-- Why a generation is refused: for its first leaf that fails, or, if none does, because its
documents are more than a word can count, or because they are not as many as the store
reports and the configuration asks for that. -/
inductive Refuses (g : Generation) (prior : List (Snapshot P)) (d : Decorator P)
    (config : Config) : Error → Prop
  | leaf (before : List Leaf) (leaf : Leaf) (after : List Leaf) (e : Error)
    (hsplit : g.leaves = before ++ leaf :: after)
    (hbefore : ∀ x ∈ before, x.Clear prior d config.reusePolicy)
    (hleaf : leaf.Fails prior d config.reusePolicy e) : Refuses g prior d config e
  | overflow (segments : List Segment) (hleaves : g.leaves = segments.map Leaf.segment)
    (hclear : ∀ x ∈ g.leaves, x.Clear prior d config.reusePolicy)
    (hsum : maxWord < (segments.map Segment.docCount).sum) :
    Refuses g prior d config
      (.countOverflow (Boundaries.fitting (segments.map Segment.docCount)))
  | mismatch (segments : List Segment) (hleaves : g.leaves = segments.map Leaf.segment)
    (hclear : ∀ x ∈ g.leaves, x.Clear prior d config.reusePolicy)
    (hsum : (segments.map Segment.docCount).sum ≤ maxWord)
    (hvalidate : config.validateDocCounts = true)
    (hne : (segments.map Segment.docCount).sum ≠ g.docCount) :
    Refuses g prior d config
      (.docCountMismatch (segments.map Segment.docCount).sum g.version g.docCount)

variable {g : Generation} {prior : List (Snapshot P)} {d : Decorator P} {config : Config}
  {opening : Nat} {e : Error}

/-- Counts cannot be laid out exactly when their sum is no word, or is not what the store
reports while that is asked for. -/
theorem layOut_eq_error_iff {counts : List Nat} : g.layOut config counts = .error e ↔
    maxWord < counts.sum ∧ e = .countOverflow (Boundaries.fitting counts) ∨
      counts.sum ≤ maxWord ∧ config.validateDocCounts = true ∧ counts.sum ≠ g.docCount ∧
        e = .docCountMismatch counts.sum g.version g.docCount := by
  unfold layOut
  cases h : Boundaries.ofCounts counts with
  | error e' =>
    obtain ⟨hover, rfl⟩ := Boundaries.ofCounts_eq_error_iff.1 h
    have hnot : ¬ counts.sum ≤ maxWord := by omega
    simp only [Except.error.injEq, hover, hnot, true_and, false_and, or_false]
    exact eq_comm
  | ok b =>
    have hsum : counts.sum ≤ maxWord := by
      by_contra hover
      have herror := Boundaries.ofCounts_eq_error_iff.2 ⟨Nat.lt_of_not_le hover, rfl⟩
      rw [h] at herror
      cases herror
    have hnot : ¬ maxWord < counts.sum := by omega
    dsimp only
    rw [(Boundaries.isTableOf_of_ofCounts h).total]
    simp only [hsum, hnot, true_and, false_and, false_or]
    by_cases hcheck : (config.validateDocCounts && counts.sum != g.docCount) = true
    · obtain ⟨hvalidate, hne⟩ := Bool.and_eq_true_iff.1 hcheck
      rw [if_pos hcheck]
      simp only [Except.error.injEq, hvalidate, bne_iff_ne.1 hne, ne_eq, not_false_eq_true,
        true_and]
      exact eq_comm
    · rw [if_neg hcheck]
      simp only [reduceCtorEq, false_iff]
      rintro ⟨hvalidate, hne, -⟩
      exact hcheck (Bool.and_eq_true_iff.2 ⟨hvalidate, bne_iff_ne.2 hne⟩)

/-- Where every leaf is clear only the counts of the segments can stand in the way. -/
theorem assemble_eq_error_of_clear {segments : List Segment}
    (hleaves : g.leaves = segments.map Leaf.segment)
    (hclear : ∀ x ∈ g.leaves, x.Clear prior d config.reusePolicy) :
    g.assemble prior d config opening = .error e ↔
      g.layOut config (segments.map Segment.docCount) = .error e := by
  obtain ⟨made, hmade⟩ : ∃ made,
      snapshotLeaves prior d config.reusePolicy opening 0 g.leaves = .ok made :=
    exists_snapshotLeaves hclear
  have hsegments : made.map (fun m => m.1.segment) = segments := by
    have hmade' := (segments_of_snapshotLeaves hmade).1
    rw [hleaves] at hmade'
    apply List.map_injective_iff.2 (fun _ _ => Leaf.segment.inj)
    rw [List.map_map]
    exact hmade'.symm
  have hcounts : (made.map fun m => m.1.docCount) = segments.map Segment.docCount := by
    rw [← hsegments, List.map_map]
    rfl
  rw [← map_eq_error_iff (f := Assembly.boundaries), map_assemble, hmade]
  dsimp only
  rw [hcounts]

/-- A generation is not made into a view exactly where it is refused, and the error is the
reason. -/
theorem assemble_eq_error_iff :
    g.assemble prior d config opening = .error e ↔ g.Refuses prior d config e := by
  constructor
  · intro h
    cases hmade : snapshotLeaves prior d config.reusePolicy opening 0 g.leaves with
    | error e' =>
      have herror : g.assemble prior d config opening = .error e' := by
        rw [← map_eq_error_iff (f := Assembly.boundaries), map_assemble, hmade]
      obtain rfl := Except.error.inj (herror.symm.trans h)
      obtain ⟨before, leaf, after, hsplit, hbefore, hleaf⟩ :=
        snapshotLeaves_eq_error_iff.1 hmade
      exact .leaf before leaf after _ hsplit hbefore hleaf
    | ok made =>
      have hclear := clear_of_snapshotLeaves hmade
      have hleaves : g.leaves = (made.map fun m => m.1.segment).map Leaf.segment := by
        rw [List.map_map]
        exact (segments_of_snapshotLeaves hmade).1
      rcases layOut_eq_error_iff.1 ((assemble_eq_error_of_clear hleaves hclear).1 h) with
        ⟨hover, rfl⟩ | ⟨hsum, hvalidate, hne, rfl⟩
      · exact .overflow _ hleaves hclear hover
      · exact .mismatch _ hleaves hclear hsum hvalidate hne
  · intro h
    cases h with
    | leaf before leaf after _ hsplit hbefore hleaf =>
      rw [← map_eq_error_iff (f := Assembly.boundaries), map_assemble,
        snapshotLeaves_eq_error_iff.2 ⟨before, leaf, after, hsplit, hbefore, hleaf⟩]
    | overflow segments hleaves hclear hsum =>
      rw [assemble_eq_error_of_clear hleaves hclear, layOut_eq_error_iff]
      exact .inl ⟨hsum, rfl⟩
    | mismatch segments hleaves hclear hsum hvalidate hne =>
      rw [assemble_eq_error_of_clear hleaves hclear, layOut_eq_error_iff]
      exact .inr ⟨hsum, hvalidate, hne, rfl⟩

/-- There is one reason at most. -/
theorem Refuses.unique {e' : Error} (h : g.Refuses prior d config e)
    (h' : g.Refuses prior d config e') : e = e' := by
  have herror : g.assemble prior d config 0 = .error e := assemble_eq_error_iff.2 h
  rw [assemble_eq_error_iff.2 h'] at herror
  exact (Except.error.inj herror).symm

end Generation

end SegmentedView
