import SegmentedView.Proofs.Deletes.Families

/-!
# What a pending set waits with

A pending set comes into being when a mark stages something new, and a commit takes it away. In
between it has something to publish, with one exception: a rebase may cut off all that was
staged, and keeps the pending set all the same. `Waiting` follows the sets of a state and
remembers whether that has happened since the last commit. Then there is a pending set exactly
where something is staged or was cut off as a whole, and a commit that says that it published
something has done so unless it was (`DeleteFamily.pending_iff_staged_or_emptied`).
-/

set_option autoImplicit false

namespace SegmentedView

/-- The sets of a state, and whether a rebase has cut off all that was staged since the last
commit. -/
structure Waiting where
  sets : StagedSets
  emptied : Bool

namespace Waiting

/-- A fresh state, in which nothing waits. -/
def new (n : Nat) : Waiting := ⟨.new n, false⟩

/-- Marks stage what is new of them and cut nothing off. -/
def mark (w : Waiting) (ls : List Nat) : Waiting := { w with sets := w.sets.mark ls }

/-- After a commit nothing waits. -/
def commit (w : Waiting) : Waiting := ⟨w.sets.commit, false⟩

/-- A rebase may cut off all that was staged, and that is remembered. -/
def rebase (w : Waiting) (n : Nat) : Waiting where
  sets := w.sets.rebase n
  emptied := w.emptied || decide (w.sets.staged.Nonempty ∧ (w.sets.rebase n).staged = ∅)

/-- What an operation makes of a list of them, each with the sets that it makes of the sets. -/
def step (family : List Waiting) : DeleteFamily.Step → List Waiting
  | .mark i l => family.modify i (·.mark [l])
  | .markAll i ls => family.modify i (·.mark ls)
  | .commit i => family.modify i commit
  | .fork i => family ++ family[i]?.toList
  | .rebase i n => family ++ (family[i]?.map (·.rebase n)).toList

/-- What operations in order make of the states of a family. -/
def run (family : List Waiting) (steps : List DeleteFamily.Step) : List Waiting :=
  steps.foldl step family

/-- The sets go the way of sets alone, one operation at a time. -/
theorem map_sets_step (family : List Waiting) (st : DeleteFamily.Step) :
    (step family st).map sets = StagedSets.step (family.map sets) st := by
  cases st with
  | mark i l => exact map_modify (g := sets) (k := (·.mark [l])) (fun _ => rfl) family i
  | markAll i ls => exact map_modify (g := sets) (k := (·.mark ls)) (fun _ => rfl) family i
  | commit i => exact map_modify (g := sets) (k := (·.commit)) (fun _ => rfl) family i
  | fork i =>
    simp only [step, StagedSets.step, List.map_append, List.getElem?_map]
    cases family[i]? <;> rfl
  | rebase i n =>
    simp only [step, StagedSets.step, List.map_append, List.getElem?_map]
    cases family[i]? <;> rfl

/-- And so they do over operations in order. -/
theorem map_sets_run (family : List Waiting) (steps : List DeleteFamily.Step) :
    (run family steps).map sets = StagedSets.run (family.map sets) steps := by
  induction steps generalizing family with
  | nil => rfl
  | cons st steps ih =>
    unfold run StagedSets.run at ih ⊢
    rw [List.foldl_cons, List.foldl_cons, ← map_sets_step]
    exact ih (step family st)

end Waiting

/-! ## The pending set of one state -/

namespace DeleteState

/-- There is a pending set after marks if there was one or a mark was new. -/
theorem hasPending_markAll (s : DeleteState) (ls : List Nat) :
    (s.markAll ls).1.hasPending = true ↔ s.hasPending = true ∨ (s.markAll ls).2 ≠ 0 := by
  rw [markAll_eq]
  split
  case isTrue => simp
  case isFalse hnew => simp [hasPending, hnew]

/-- There is no pending set after a commit. -/
theorem hasPending_commit (s : DeleteState) : s.commit.1.hasPending = false := by
  simp [hasPending]

/-- A rebase neither makes nor removes a pending set. -/
theorem hasPending_rebase (s : DeleteState) (n : Nat) :
    (s.rebase n).hasPending = s.hasPending := by
  simp [hasPending, pending_rebase]

/-- A commit answers whether there was a pending set. -/
theorem snd_commit (s : DeleteState) : s.commit.2 = s.hasPending :=
  Bool.eq_iff_iff.2 s.commit_eq_true_iff

/-- A commit adds what is staged to the count. -/
theorem Sound.count_commit {s : DeleteState} (h : s.Sound) (hexact : s.Exact) :
    s.commit.1.committed.count = s.committed.count + s.sets.staged.card := by
  have hafter := ((sound_commit s).shows hexact.commit).count
  rw [h.sets_commit] at hafter
  rw [hafter, (h.shows hexact).count]
  exact Finset.card_union_of_disjoint s.sets.disjoint

/-- A commit publishes another set than before exactly where something is staged. -/
theorem Sound.committed_commit_ne_iff {s : DeleteState} (h : s.Sound) (hexact : s.Exact) :
    s.commit.1.committed ≠ s.committed ↔ s.sets.staged.Nonempty := by
  rw [← not_iff_not, not_not, Finset.not_nonempty_iff_eq_empty]
  constructor
  · intro hsame
    have hcount := h.count_commit hexact
    rw [hsame] at hcount
    apply Finset.card_eq_zero.1
    omega
  · intro hnone
    apply (hexact.commit.committed.eq_iff hexact.committed).2
    refine ⟨h.size_commit, fun l => ?_⟩
    have hl : s.isStaged l = true ↔ False := by
      rw [← h.mem_staged_sets, hnone]
      simp
    have hcommit := h.isDeleted_commit l
    rw [hl, or_false] at hcommit
    exact hcommit

/-- The staged set is empty exactly when no document is staged. -/
theorem Sound.staged_nonempty_iff {s : DeleteState} (h : s.Sound) :
    s.sets.staged.Nonempty ↔ ∃ l < s.size, s.isStaged l = true := by
  constructor
  · rintro ⟨l, hl⟩
    have hstaged := h.mem_staged_sets.1 hl
    exact ⟨l, h.lt_size_of_isStaged hstaged, hstaged⟩
  · rintro ⟨l, -, hl⟩
    exact ⟨l, h.mem_staged_sets.2 hl⟩

/-- A state has the sets that are followed, and a pending set where they say so. -/
structure Follows (d : DeleteState) (w : Waiting) : Prop where
  sound : d.Sound
  exact : d.Exact
  sets : d.sets = w.sets
  pending : d.hasPending = true ↔ w.sets.staged.Nonempty ∨ w.emptied = true

/-- A fresh state has its sets and no pending set. -/
theorem follows_new (n : Nat) : (new n).Follows (.new n) where
  sound := sound_new n
  exact := exact_new n
  sets := sets_new n
  pending := by simp [new, hasPending, Waiting.new, StagedSets.new]

namespace Follows

variable {d : DeleteState} {w : Waiting}

/-- Marks go along with what is followed. -/
theorem markAll (h : d.Follows w) (ls : List Nat) : (d.markAll ls).1.Follows (w.mark ls) where
  sound := h.sound.markAll ls
  exact := h.exact.markAll ls
  sets := by
    rw [h.sound.sets_markAll, h.sets]
    rfl
  pending := by
    have hnew : (d.markAll ls).2 ≠ 0 ↔ (w.sets.fresh ls).Nonempty := by
      rw [h.sound.snd_markAll_eq_card, h.sets, Finset.card_ne_zero]
    have hstaged : (w.mark ls).sets.staged = w.sets.staged ∪ w.sets.fresh ls := rfl
    have hemptied : (w.mark ls).emptied = w.emptied := rfl
    rw [hasPending_markAll, h.pending, hnew, hstaged, hemptied, Finset.union_nonempty]
    exact or_right_comm

/-- A commit goes along with what is followed. -/
theorem commit (h : d.Follows w) : d.commit.1.Follows w.commit where
  sound := sound_commit d
  exact := h.exact.commit
  sets := by
    rw [h.sound.sets_commit, h.sets]
    rfl
  pending := by simp [hasPending_commit, Waiting.commit, StagedSets.commit]

/-- A rebase keeps a pending set: what it had to publish is still there, or is cut off now, or
had been before. -/
theorem rebase (h : d.Follows w) (n : Nat) : (d.rebase n).Follows (w.rebase n) where
  sound := h.sound.rebase n
  exact := h.exact.rebase n
  sets := by
    rw [h.sound.sets_rebase, h.sets]
    rfl
  pending := by
    have hsub : (w.sets.rebase n).staged ⊆ w.sets.staged := Finset.filter_subset _ _
    rw [hasPending_rebase, h.pending]
    simp only [Waiting.rebase, Bool.or_eq_true, decide_eq_true_eq]
    constructor
    · rintro (hstaged | hemptied)
      · rcases (w.sets.rebase n).staged.eq_empty_or_nonempty with hnone | hsome
        · exact .inr (.inr ⟨hstaged, hnone⟩)
        · exact .inl hsome
      · exact .inr (.inl hemptied)
    · rintro (hsome | hemptied | ⟨hstaged, -⟩)
      · exact .inl (hsome.mono hsub)
      · exact .inr hemptied
      · exact .inl hstaged

end Follows

/-- What a state says of what is waiting in it, and what its next commit does. -/
structure Announces (d : DeleteState) (w : Waiting) : Prop where
  isStaged : ∀ l, d.isStaged l = true ↔ l ∈ w.sets.staged
  hasPending : d.hasPending = true ↔ (∃ l < d.size, d.isStaged l = true) ∨ w.emptied = true
  commit : d.commit.2 = d.hasPending
  published : d.commit.1.committed ≠ d.committed ↔ ∃ l < d.size, d.isStaged l = true
  count : d.commit.1.committed.count = d.committed.count + w.sets.staged.card

/-- A state that is followed says of what waits in it what its sets say. -/
theorem Follows.announces {d : DeleteState} {w : Waiting} (h : d.Follows w) :
    d.Announces w where
  isStaged l := by rw [← h.sets, h.sound.mem_staged_sets]
  hasPending := by rw [h.pending, ← h.sets, h.sound.staged_nonempty_iff]
  commit := d.snd_commit
  published := by rw [h.sound.committed_commit_ne_iff h.exact, h.sound.staged_nonempty_iff]
  count := by rw [h.sound.count_commit h.exact, h.sets]

/-- Where something is staged again if all of it was cut off, a pending set means that something
is staged, and a commit that answers true publishes more than there was. -/
theorem Announces.of_staged_anew {d : DeleteState} {w : Waiting} (h : d.Announces w)
    (hw : w.emptied = true → ∃ l < d.size, d.isStaged l = true) :
    (d.hasPending = true ↔ ∃ l < d.size, d.isStaged l = true) ∧
      (d.commit.2 = true ↔ d.commit.1.committed ≠ d.committed) ∧
      (d.commit.2 = true → d.committed.count < d.commit.1.committed.count) := by
  have hpending : d.hasPending = true ↔ ∃ l < d.size, d.isStaged l = true := by
    rw [h.hasPending]
    exact or_iff_left_of_imp hw
  refine ⟨hpending, ?_, fun htrue => ?_⟩
  · rw [h.commit, hpending, h.published]
  · rw [h.commit, hpending] at htrue
    obtain ⟨l, -, hl⟩ := htrue
    have hcard := Finset.card_pos.2 ⟨l, (h.isStaged l).1 hl⟩
    have hcount := h.count
    omega

end DeleteState

/-! ## Families -/

/-- What holds of two lists entry by entry still does when related entries change alike. -/
theorem forall₂_set_modify {α β : Type} {R : α → β → Prop} {as : List α} {bs : List β}
    (h : List.Forall₂ R as bs) {i : Nat} {a a' : α} {change : β → β} (ha : as[i]? = some a)
    (hchange : ∀ b, R a b → R a' (change b)) :
    List.Forall₂ R (as.set i a') (bs.modify i change) := by
  induction h generalizing i with
  | nil => cases ha
  | cons hab hrest ih =>
    cases i with
    | zero =>
      obtain rfl := Option.some.inj ha
      exact .cons (hchange _ hab) hrest
    | succ i => exact .cons hab (ih ha)

/-- An entry of one list has its counterpart in the other. -/
theorem exists_getElem?_of_forall₂ {α β : Type} {R : α → β → Prop} {as : List α} {bs : List β}
    (h : List.Forall₂ R as bs) {i : Nat} {a : α} (ha : as[i]? = some a) :
    ∃ b, bs[i]? = some b ∧ R a b := by
  obtain ⟨hi, rfl⟩ := List.getElem?_eq_some_iff.1 ha
  exact ⟨_, List.getElem?_eq_getElem (h.length_eq ▸ hi), h.get hi (h.length_eq ▸ hi)⟩

namespace DeleteFamily

/-- Every member follows what is kept of it. -/
def Follows (f : DeleteFamily) (family : List Waiting) : Prop :=
  List.Forall₂ (fun m w => m.state.Follows w) f.members family

/-- A family that begins with a fresh state has its sets and no pending set. -/
theorem follows_new (n : Nat) : (new n).Follows [.new n] :=
  .cons (DeleteState.follows_new n) .nil

namespace Follows

variable {f : DeleteFamily} {family : List Waiting}

/-- A member that goes along keeps the family along. -/
theorem setMember (h : f.Follows family) {i : Nat} {m m' : Member} {change : Waiting → Waiting}
    (hm : f.member? i = some m)
    (hchange : ∀ w, m.state.Follows w → m'.state.Follows (change w)) :
    (f.setMember i m').Follows (family.modify i change) :=
  forall₂_set_modify h hm hchange

/-- A member that joins is followed from then on. -/
theorem addMember (h : f.Follows family) {m : Member} {w : Waiting} (hw : m.state.Follows w) :
    (f.addMember m).Follows (family ++ [w]) :=
  List.rel_append h (.cons hw .nil)

/-- One operation on a family goes along with what is followed. -/
theorem step (h : f.Follows family) (st : Step) :
    (f.step st).1.Follows (Waiting.step family st) := by
  have hlength : f.members.length = family.length := List.Forall₂.length_eq h
  cases hm : f.member? st.target with
  | none =>
    have hnone : family[st.target]? = none := by
      rw [List.getElem?_eq_none_iff, ← hlength]
      exact List.getElem?_eq_none_iff.1 hm
    have hmodify : ∀ change, family.modify st.target change = family := fun _ =>
      List.modify_eq_self (List.getElem?_eq_none_iff.1 hnone)
    rw [(step_of_missing hm).1]
    cases st <;> simp only [Step.target] at hnone hmodify <;>
      simp only [Waiting.step, hnone, hmodify, Option.map_none, Option.toList_none,
        List.append_nil] <;> exact h
  | some m =>
    obtain ⟨w, hw, hfollows⟩ := exists_getElem?_of_forall₂ h hm
    cases st with
    | mark i l =>
      have hm : f.member? i = some m := hm
      simp only [DeleteFamily.step, hm, Waiting.step]
      exact h.setMember hm fun _ hmember => hmember.markAll [l]
    | markAll i ls =>
      have hm : f.member? i = some m := hm
      simp only [DeleteFamily.step, hm, Waiting.step]
      exact h.setMember hm fun _ hmember => hmember.markAll ls
    | commit i =>
      have hm : f.member? i = some m := hm
      simp only [DeleteFamily.step, hm, Waiting.step]
      cases hcommit : m.state.commit.2 with
      | true =>
        have hset : (f.setMember i ⟨m.state.commit.1, f.publications⟩).Follows
            (family.modify i Waiting.commit) := h.setMember hm fun _ hmember => hmember.commit
        exact hset
      | false =>
        -- A commit that publishes nothing leaves the state as it is, so the member is set to
        -- itself.
        have hsame : m.state.commit.1 = m.state := DeleteState.commit_of_false hcommit
        have hset : (f.setMember i m).Follows (family.modify i Waiting.commit) :=
          h.setMember hm fun _ hmember => hsame ▸ hmember.commit
        rw [setMember_self hm] at hset
        exact hset
    | fork i =>
      have hm : f.member? i = some m := hm
      have hw : family[i]? = some w := hw
      simp only [DeleteFamily.step, hm, Waiting.step, hw]
      exact h.addMember hfollows
    | rebase i n =>
      have hm : f.member? i = some m := hm
      have hw : family[i]? = some w := hw
      have hadded : ∀ publication, (f.addMember ⟨m.state.rebase n, publication⟩).Follows
          (family ++ [w.rebase n]) := fun _ => h.addMember (hfollows.rebase n)
      simp only [DeleteFamily.step, hm, Waiting.step, hw]
      split
      case isTrue => exact hadded m.publication
      case isFalse => exact hadded f.publications

/-- And so do operations in order. -/
theorem run (h : f.Follows family) (steps : List Step) :
    (f.run steps).Follows (Waiting.run family steps) := by
  induction steps generalizing f family with
  | nil => exact h
  | cons st steps ih =>
    rw [Waiting.run, List.foldl_cons]
    exact ih (h.step st)

end Follows

/-- Whatever was done to a state and to those that grew out of it, a state has a pending set
exactly where something is staged in it or a rebase has cut off all that was since the last
commit. A commit answers whether there was one, publishes another set exactly where something is
staged, and adds that to the count. So a pending set means that something is waiting, and a
commit answers true exactly where it publishes more than there was, unless all was cut off and
nothing staged anew. -/
theorem pending_iff_staged_or_emptied (n : Nat) (steps : List Step) :
    (Waiting.run [.new n] steps).map Waiting.sets = StagedSets.run [.new n] steps ∧
      List.Forall₂ (fun m w => m.state.Announces w ∧
        ((w.emptied = true → ∃ l < m.state.size, m.state.isStaged l = true) →
          (m.state.hasPending = true ↔ ∃ l < m.state.size, m.state.isStaged l = true) ∧
            (m.state.commit.2 = true ↔ m.state.commit.1.committed ≠ m.state.committed) ∧
            (m.state.commit.2 = true →
              m.state.committed.count < m.state.commit.1.committed.count)))
        ((new n).run steps).members (Waiting.run [.new n] steps) := by
  refine ⟨Waiting.map_sets_run [.new n] steps, ?_⟩
  apply List.Forall₂.imp (fun m w hfollows => ?_) ((follows_new n).run steps)
  have hannounces := DeleteState.Follows.announces hfollows
  exact ⟨hannounces, hannounces.of_staged_anew⟩

/-- Of four documents the last one is staged, and a rebase keeps the first two: nothing is
staged, there is a pending set, and a commit answers true and publishes what was published. -/
theorem pending_after_cut_off :
    ∃ m, ((new 4).run [.mark 0 3, .rebase 0 2]).member? 1 = some m ∧
      m.state.hasPending = true ∧ (∀ l, m.state.isStaged l = false) ∧
      m.state.commit.2 = true ∧ m.state.commit.1.committed = m.state.committed :=
  ⟨_, rfl, rfl, fun _ => Bool.and_not_self _, rfl, rfl⟩

end DeleteFamily

end SegmentedView
