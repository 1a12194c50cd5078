import SegmentedView.Deletes.Family
import SegmentedView.Proofs.Deletes.Offsets

/-!
# Families of delete states, as sets

A delete state stands for a number of documents and two sets of them that do not meet: the
deleted ones, and the ones that are staged to be (`StagedSets`). A pending set may be missing,
grown from the committed one, or cut out of another state's; nothing of that can be told from
the two sets. The operations of a state are operations on sets (`Sound.sets_markAll`,
`Sound.sets_commit`, `Sound.sets_rebase`), and a family of states goes through the sets that the
same operations make of a list of sets (`DeleteFamily.Regular.run`). What a reader is shown
follows them at every step (`DeleteFamily.run_shows`).
-/

set_option autoImplicit false

namespace SegmentedView

/-! ## The sets that a state stands for -/

/-- A number of documents, the ones of them that are deleted, and the ones that are not but
are staged to be. -/
@[ext] structure StagedSets where
  size : Nat
  deleted : Finset Nat
  staged : Finset Nat
  deleted_lt : ∀ l ∈ deleted, l < size
  staged_lt : ∀ l ∈ staged, l < size
  disjoint : Disjoint deleted staged

namespace StagedSets

/-- Nothing is deleted and nothing is staged. -/
def new (n : Nat) : StagedSets where
  size := n
  deleted := ∅
  staged := ∅
  deleted_lt := by simp
  staged_lt := by simp
  disjoint := Finset.disjoint_empty_left ∅

/-- The documents of a list that are neither deleted nor staged. -/
def fresh (s : StagedSets) (ls : List Nat) : Finset Nat :=
  ls.toFinset.filter fun l => l < s.size ∧ l ∉ s.deleted ∧ l ∉ s.staged

/-- What is new of a list are the documents there that are neither deleted nor staged. -/
theorem mem_fresh {s : StagedSets} {ls : List Nat} {l : Nat} :
    l ∈ s.fresh ls ↔ l ∈ ls ∧ l < s.size ∧ l ∉ s.deleted ∧ l ∉ s.staged := by
  rw [fresh, Finset.mem_filter, List.mem_toFinset]

/-- Stages what is new of a list. -/
def mark (s : StagedSets) (ls : List Nat) : StagedSets where
  size := s.size
  deleted := s.deleted
  staged := s.staged ∪ s.fresh ls
  deleted_lt := s.deleted_lt
  staged_lt l hl := (Finset.mem_union.1 hl).elim (s.staged_lt l) fun h => (mem_fresh.1 h).2.1
  disjoint := Finset.disjoint_union_right.2
    ⟨s.disjoint, Finset.disjoint_right.2 fun _ hl => (mem_fresh.1 hl).2.2.1⟩

/-- Deletes what is staged. -/
def commit (s : StagedSets) : StagedSets where
  size := s.size
  deleted := s.deleted ∪ s.staged
  staged := ∅
  deleted_lt l hl := (Finset.mem_union.1 hl).elim (s.deleted_lt l) (s.staged_lt l)
  staged_lt := by simp
  disjoint := Finset.disjoint_empty_right _

/-- Cuts both sets to `n` documents. -/
def rebase (s : StagedSets) (n : Nat) : StagedSets where
  size := n
  deleted := s.deleted.filter (· < n)
  staged := s.staged.filter (· < n)
  deleted_lt _ hl := (Finset.mem_filter.1 hl).2
  staged_lt _ hl := (Finset.mem_filter.1 hl).2
  disjoint := Finset.disjoint_filter_filter s.disjoint

/-- What an operation makes of a list of sets: a mark or a commit changes the ones that it is
asked of, a fork or a rebase puts new ones at the end. -/
def step (family : List StagedSets) : DeleteFamily.Step → List StagedSets
  | .mark i l => family.modify i (·.mark [l])
  | .markAll i ls => family.modify i (·.mark ls)
  | .commit i => family.modify i commit
  | .fork i => family ++ family[i]?.toList
  | .rebase i n => family ++ (family[i]?.map (·.rebase n)).toList

/-- What operations in order make of a list of sets. -/
def run (family : List StagedSets) (steps : List DeleteFamily.Step) : List StagedSets :=
  steps.foldl step family

/-- Whether an operation on the member with these sets, out of `members` of them, may answer
this. A commit says whether there was a pending set, and there is one where something is
staged; a rebase that cut off all that was staged leaves one too. -/
def Allows (s : StagedSets) (members : Nat) : DeleteFamily.Step → DeleteFamily.Answer → Prop
  | .mark _ l, answer => answer = .flag (decide ((s.fresh [l]).card = 1))
  | .markAll _ ls, answer => answer = .count (s.fresh ls).card
  | .commit _, answer =>
    ∃ published, answer = .flag published ∧ (s.staged.Nonempty → published = true)
  | .fork _, answer => answer = .made members
  | .rebase _ _, answer => answer = .made members

end StagedSets

/-! ## The operations of one state -/

namespace DeleteState

/-- The sets that a state stands for. -/
def sets (s : DeleteState) : StagedSets where
  size := s.size
  deleted := (Finset.range s.size).filter fun l => s.isDeleted l = true
  staged := (Finset.range s.size).filter fun l => s.isStaged l = true
  deleted_lt _ hl := Finset.mem_range.1 (Finset.mem_filter.1 hl).1
  staged_lt _ hl := Finset.mem_range.1 (Finset.mem_filter.1 hl).1
  disjoint := Finset.disjoint_filter.2 fun _ _ hdeleted hstaged =>
    Bool.false_ne_true ((isStaged_iff.1 hstaged).2.symm.trans hdeleted)

/-- The sets of a state speak of as many documents as the state. -/
@[simp] theorem size_sets (s : DeleteState) : s.sets.size = s.size := rfl

/-- The deleted set holds what the state has deleted. -/
theorem mem_deleted_sets {s : DeleteState} {l : Nat} :
    l ∈ s.sets.deleted ↔ s.isDeleted l = true := by
  simp only [sets, Finset.mem_filter, Finset.mem_range, and_iff_right_iff_imp]
  exact lt_size_of_isDeleted

/-- The staged set holds what the state has staged. -/
theorem Sound.mem_staged_sets {s : DeleteState} (h : s.Sound) {l : Nat} :
    l ∈ s.sets.staged ↔ s.isStaged l = true := by
  simp only [sets, Finset.mem_filter, Finset.mem_range, and_iff_right_iff_imp]
  exact h.lt_size_of_isStaged

/-- A fresh state stands for two empty sets. -/
theorem sets_new (n : Nat) : (new n).sets = .new n := by
  apply StagedSets.ext
  · exact size_new n
  · ext l
    simp [mem_deleted_sets, StagedSets.new]
  · ext l
    simp [(sound_new n).mem_staged_sets, StagedSets.new, isStaged_new]

/-- What is new to the sets is what the state has neither deleted nor staged. -/
theorem Sound.mem_fresh_sets {s : DeleteState} (h : s.Sound) {ls : List Nat} {l : Nat} :
    l ∈ s.sets.fresh ls ↔
      l ∈ ls ∧ l < s.size ∧ s.isDeleted l = false ∧ s.isStaged l = false := by
  rw [StagedSets.mem_fresh, mem_deleted_sets, h.mem_staged_sets, Bool.not_eq_true,
    Bool.not_eq_true, size_sets]

/-- Marks stage what is new of them. -/
theorem Sound.sets_markAll {s : DeleteState} (h : s.Sound) (ls : List Nat) :
    (s.markAll ls).1.sets = s.sets.mark ls := by
  apply StagedSets.ext
  · exact size_markAll s ls
  · ext l
    rw [mem_deleted_sets, isDeleted_markAll]
    exact mem_deleted_sets.symm
  · ext l
    rw [(h.markAll ls).mem_staged_sets, h.isStaged_markAll, StagedSets.mark, Finset.mem_union,
      h.mem_staged_sets, h.mem_fresh_sets]
    cases s.isStaged l <;> simp

/-- Marks count the documents that they stage. -/
theorem Sound.snd_markAll_eq_card {s : DeleteState} (h : s.Sound) (ls : List Nat) :
    (s.markAll ls).2 = (s.sets.fresh ls).card := by
  rw [h.snd_markAll]
  congr 1
  ext l
  rw [h.mem_fresh_sets, Finset.mem_filter, Finset.mem_range]
  exact and_left_comm

/-- A single mark answers whether it is new. -/
theorem Sound.snd_mark {s : DeleteState} (h : s.Sound) (l : Nat) :
    (s.mark l).2 = decide ((s.sets.fresh [l]).card = 1) := by
  rw [← h.snd_markAll_eq_card]
  rfl

/-- A commit that answers no has changed nothing. -/
theorem commit_of_false {s : DeleteState} (h : s.commit.2 = false) : s.commit.1 = s := by
  cases hp : s.pending <;> simp_all [commit]

/-- A commit deletes what is staged. -/
theorem Sound.sets_commit {s : DeleteState} (h : s.Sound) : s.commit.1.sets = s.sets.commit := by
  apply StagedSets.ext
  · exact h.size_commit
  · ext l
    rw [mem_deleted_sets, h.isDeleted_commit, StagedSets.commit, Finset.mem_union,
      mem_deleted_sets, h.mem_staged_sets]
  · ext l
    rw [(sound_commit s).mem_staged_sets, isStaged_commit]
    simp [StagedSets.commit]

/-- A commit publishes wherever something is staged. -/
theorem Sound.commit_eq_true {s : DeleteState} (h : s.Sound) (hstaged : s.sets.staged.Nonempty) :
    s.commit.2 = true := by
  obtain ⟨l, hl⟩ := hstaged
  obtain ⟨hlatest, hdeleted⟩ := isStaged_iff.1 (h.mem_staged_sets.1 hl)
  rw [commit_eq_true_iff, hasPending, Option.isSome_iff_ne_none]
  intro hnone
  unfold latest at hlatest
  rw [hnone] at hlatest
  exact Bool.false_ne_true (hdeleted.symm.trans hlatest)

/-- A rebase cuts both sets to the documents of the new segment. -/
theorem Sound.sets_rebase {s : DeleteState} (h : s.Sound) (n : Nat) :
    (s.rebase n).sets = s.sets.rebase n := by
  apply StagedSets.ext
  · exact size_rebase s n
  · ext l
    rw [mem_deleted_sets, isDeleted_rebase, StagedSets.rebase, Finset.mem_filter,
      mem_deleted_sets, Bool.and_eq_true, decide_eq_true_iff, and_comm]
  · ext l
    rw [(h.rebase n).mem_staged_sets, isStaged_rebase, StagedSets.rebase, Finset.mem_filter,
      h.mem_staged_sets, Bool.and_eq_true, decide_eq_true_iff, and_comm]

/-- What a state shows of the sets that it stands for. -/
structure Shows (d : DeleteState) (s : StagedSets) : Prop where
  size : d.committed.size = s.size
  contains : ∀ l, d.committed.contains l = true ↔ l ∈ s.deleted
  isDeleted : ∀ l, d.isDeleted l = true ↔ l ∈ s.deleted
  isStaged : ∀ l, d.isStaged l = true ↔ l ∈ s.staged
  count : d.committed.count = s.deleted.card
  ascending : d.committed.offsets.Pairwise (· < ·)
  offsets : d.committed.offsets.toFinset = s.deleted

/-- A state shows the sets that it stands for. -/
theorem Sound.shows {s : DeleteState} (h : s.Sound) (hexact : s.Exact) : s.Shows s.sets where
  size := rfl
  contains _ := mem_deleted_sets.symm
  isDeleted _ := mem_deleted_sets.symm
  isStaged _ := h.mem_staged_sets.symm
  count := hexact.committed.count_eq_card
  ascending := s.committed.pairwise_offsets
  offsets := s.committed.toFinset_offsets

end DeleteState

/-! ## Families -/

namespace DeleteFamily

/-- The member that an operation is asked of. -/
def Step.target : Step → Nat
  | .mark i _ => i
  | .markAll i _ => i
  | .commit i => i
  | .fork i => i
  | .rebase i _ => i

/-- The sets that the members stand for. -/
def sets (f : DeleteFamily) : List StagedSets := f.members.map (·.state.sets)

/-- Whether an operation on a family with these sets may answer this. -/
def Allows (family : List StagedSets) (st : Step) (answer : Answer) : Prop :=
  match family[st.target]? with
  | none => answer = .missing
  | some s => s.Allows family.length st answer

/-- The states of all members are sound and their counts are exact. -/
def Regular (f : DeleteFamily) : Prop := ∀ m ∈ f.members, m.state.Sound ∧ m.state.Exact

/-- A family that begins with a fresh state is regular. -/
theorem regular_new (n : Nat) : (new n).Regular := by
  intro m hm
  obtain rfl := List.mem_singleton.1 hm
  exact ⟨DeleteState.sound_new n, DeleteState.exact_new n⟩

/-- A family that begins with a fresh state stands for two empty sets. -/
theorem sets_new (n : Nat) : (new n).sets = [.new n] :=
  congrArg (fun s => [s]) (DeleteState.sets_new n)

/-- There are sets for every member. -/
theorem length_sets (f : DeleteFamily) : f.sets.length = f.members.length := List.length_map _

/-- The sets at a place are those of the member there. -/
theorem getElem?_sets (f : DeleteFamily) (i : Nat) :
    f.sets[i]? = (f.member? i).map (·.state.sets) := List.getElem?_map

/-- Every member of a regular family has a sound state with exact counts. -/
theorem Regular.member {f : DeleteFamily} (h : f.Regular) {i : Nat} {m : Member}
    (hm : f.member? i = some m) : m.state.Sound ∧ m.state.Exact :=
  h m (List.mem_of_getElem? hm)

/-- A regular member in the place of another keeps a family regular. -/
theorem Regular.setMember {f : DeleteFamily} (h : f.Regular) {i : Nat} {m : Member}
    (hm : m.state.Sound ∧ m.state.Exact) : (f.setMember i m).Regular := by
  intro m' hm'
  rcases List.mem_or_eq_of_mem_set hm' with hm' | rfl
  · exact h m' hm'
  · exact hm

/-- One regular member more keeps a family regular. -/
theorem Regular.addMember {f : DeleteFamily} (h : f.Regular) {m : Member}
    (hm : m.state.Sound ∧ m.state.Exact) : (f.addMember m).Regular := by
  intro m' hm'
  rcases List.mem_append.1 hm' with hm' | hm'
  · exact h m' hm'
  · obtain rfl := List.mem_singleton.1 hm'
    exact hm

/-- A member in its own place changes nothing. -/
theorem setMember_self {f : DeleteFamily} {i : Nat} {m : Member} (hm : f.member? i = some m) :
    f.setMember i m = f := by
  obtain ⟨hlt, rfl⟩ := List.getElem?_eq_some_iff.1 hm
  rw [setMember, List.set_getElem_self]

/-- A changed member changes the sets at its place and no others. -/
theorem sets_setMember {f : DeleteFamily} {i : Nat} {m m' : Member}
    {change : StagedSets → StagedSets} (hm : f.member? i = some m)
    (hsets : m'.state.sets = change m.state.sets) :
    (f.setMember i m').sets = f.sets.modify i change := by
  rw [List.modify_eq_set_getElem?, getElem?_sets, hm]
  simp only [sets, setMember, List.map_set, hsets]
  rfl

/-- A member that joins brings its sets to the end of the list. -/
theorem sets_addMember (f : DeleteFamily) (m : Member) :
    (f.addMember m).sets = f.sets ++ [m.state.sets] := by
  simp [sets, addMember]

/-- An operation on a member that is not there does nothing, to the sets neither. -/
theorem step_of_missing {f : DeleteFamily} {st : Step} (h : f.member? st.target = none) :
    f.step st = (f, .missing) ∧ StagedSets.step f.sets st = f.sets := by
  have hsets : f.sets[st.target]? = none := by rw [getElem?_sets, h, Option.map_none]
  have hlength : f.sets.length ≤ st.target := List.getElem?_eq_none_iff.1 hsets
  cases st <;> simp only [Step.target] at h hsets hlength <;>
    simp [step, StagedSets.step, h, hsets, List.modify_eq_self hlength]

/-- What an operation on a member does, against what it does to sets: the members stay regular,
the sets go the way of the sets, and the answer is one that they allow. -/
theorem Regular.step_of_member {f : DeleteFamily} (h : f.Regular) {st : Step} {m : Member}
    (hm : f.member? st.target = some m) :
    (f.step st).1.Regular ∧ (f.step st).1.sets = StagedSets.step f.sets st ∧
      m.state.sets.Allows f.sets.length st (f.step st).2 := by
  obtain ⟨hsound, hexact⟩ := h.member hm
  cases st with
  | mark i l =>
    have hm : f.member? i = some m := hm
    simp only [step, hm, StagedSets.step, StagedSets.Allows]
    exact ⟨h.setMember ⟨hsound.markAll [l], hexact.markAll [l]⟩,
      sets_setMember hm (hsound.sets_markAll [l]), by rw [hsound.snd_mark]⟩
  | markAll i ls =>
    have hm : f.member? i = some m := hm
    simp only [step, hm, StagedSets.step, StagedSets.Allows]
    exact ⟨h.setMember ⟨hsound.markAll ls, hexact.markAll ls⟩,
      sets_setMember hm (hsound.sets_markAll ls), by rw [hsound.snd_markAll_eq_card]⟩
  | commit i =>
    have hm : f.member? i = some m := hm
    simp only [step, hm, StagedSets.step, StagedSets.Allows]
    cases hcommit : m.state.commit.2 with
    | true =>
      have hmember : (f.setMember i ⟨m.state.commit.1, f.publications⟩).Regular :=
        h.setMember ⟨DeleteState.sound_commit m.state, hexact.commit⟩
      exact ⟨hmember, sets_setMember hm hsound.sets_commit, true, rfl, fun _ => rfl⟩
    | false =>
      -- Nothing is pending, so nothing is staged that the sets could commit.
      have hsame : m.state.sets = m.state.sets.commit := by
        rw [← hsound.sets_commit, DeleteState.commit_of_false hcommit]
      have hsets : f.sets = f.sets.modify i StagedSets.commit := by
        rw [← sets_setMember hm hsame, setMember_self hm]
      refine ⟨h, hsets, false, rfl, fun hstaged => ?_⟩
      rw [← hcommit]
      exact hsound.commit_eq_true hstaged
  | fork i =>
    have hm : f.member? i = some m := hm
    have hsets : f.sets[i]? = some m.state.sets := by rw [getElem?_sets, hm, Option.map_some]
    simp only [step, hm, StagedSets.step, StagedSets.Allows, hsets]
    exact ⟨h.addMember ⟨hsound, hexact⟩, sets_addMember f _, by rw [length_sets]⟩
  | rebase i n =>
    have hm : f.member? i = some m := hm
    have hsets : f.sets[i]? = some m.state.sets := by rw [getElem?_sets, hm, Option.map_some]
    have hregular : ∀ publication, (f.addMember ⟨m.state.rebase n, publication⟩).Regular :=
      fun _ => h.addMember ⟨hsound.rebase n, hexact.rebase n⟩
    have hadded : ∀ publication, (f.addMember ⟨m.state.rebase n, publication⟩).sets =
        f.sets ++ [m.state.sets.rebase n] := fun publication => by
      rw [sets_addMember, ← hsound.sets_rebase]
    simp only [step, hm, StagedSets.step, StagedSets.Allows, hsets, length_sets]
    split
    case isTrue => exact ⟨hregular m.publication, hadded m.publication, rfl⟩
    case isFalse => exact ⟨hregular f.publications, hadded f.publications, rfl⟩

/-- One operation keeps a family regular, does to its sets what it does to any, and answers what
they allow. -/
theorem Regular.step {f : DeleteFamily} (h : f.Regular) (st : Step) :
    (f.step st).1.Regular ∧ (f.step st).1.sets = StagedSets.step f.sets st ∧
      Allows f.sets st (f.step st).2 := by
  unfold Allows
  rw [getElem?_sets]
  cases hm : f.member? st.target with
  | none =>
    obtain ⟨hstep, hsets⟩ := step_of_missing hm
    rw [hstep, hsets]
    exact ⟨h, rfl, rfl⟩
  | some m => exact h.step_of_member hm

/-- And so do operations in order. -/
theorem Regular.run {f : DeleteFamily} (h : f.Regular) (steps : List Step) :
    (f.run steps).Regular ∧ (f.run steps).sets = StagedSets.run f.sets steps := by
  induction steps generalizing f with
  | nil => exact ⟨h, rfl⟩
  | cons st steps ih =>
    obtain ⟨hnext, hsets, -⟩ := h.step st
    rw [StagedSets.run, List.foldl_cons, ← hsets]
    exact ih hnext

/-- Whatever was done to a state and to those that grew out of it, each stands for the sets
that the same operations make of sets and shows them, the next operation answers what these
sets allow, and committed sets are equal when they are equal as sets. -/
theorem run_shows (n : Nat) (steps : List Step) :
    List.Forall₂ (fun m s => m.state.Shows s) ((new n).run steps).members
        (StagedSets.run [.new n] steps) ∧
      (∀ st, Allows (StagedSets.run [.new n] steps) st (((new n).run steps).step st).2) ∧
      ∀ m ∈ ((new n).run steps).members, ∀ m' ∈ ((new n).run steps).members,
        (m.state.committed = m'.state.committed ↔
          m.state.committed.size = m'.state.committed.size ∧
            ∀ l, m.state.committed.contains l = true ↔ m'.state.committed.contains l = true) := by
  obtain ⟨hregular, hsets⟩ := (regular_new n).run steps
  rw [sets_new] at hsets
  rw [← hsets]
  refine ⟨?_, fun st => (hregular.step st).2.2, fun m hm m' hm' => ?_⟩
  · apply List.forall₂_map_right_iff.2
    apply List.forall₂_same.2
    intro m hm
    obtain ⟨hsound, hexact⟩ := hregular m hm
    exact hsound.shows hexact
  · exact (hregular m hm).2.committed.eq_iff (hregular m' hm').2.committed

/-- What was staged is cut off, and its pending set is published all the same. -/
example : (((new 4).run [.mark 0 3, .rebase 0 2]).step (.commit 1)).2 = .flag true := by decide

end DeleteFamily

end SegmentedView
