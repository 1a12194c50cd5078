import SegmentedView.Proofs.Leases.Releases
import SegmentedView.Proofs.Refresh.FreshOpen

/-!
# Whether a view is current

A reopen asks the store for nothing but its version. Over a segment list that is enough: the
version goes up by one with every change that is made and with nothing else, so that moments
of one version have one generation. The lease of a view has the version of the moment at
which its generation was read (`version_of_readAt`), and the view is answered as it is exactly
when no change was made since (`reopen_same_iff_unrevised`).
-/

set_option autoImplicit false

namespace SegmentedView.System

variable {σ P : Type}

/-! ## Where leases come from -/

section Leases

variable [SegmentStore σ]

/-- A step gives out no lease, or it read the store and the lease is of what it read. -/
theorem leases_step (s : System σ P) (st : Step σ P) :
    (s.step st).system.leases.length = s.leases.length ∨
      ∃ g, checkComposite s.store = .ok () ∧ (SegmentStore.enumerate s.store).1 = .ok g ∧
        (s.step st).system.leases = s.leases ++ [Lease.new g.version] := by
  have hmoves := s.transition_step st
  generalize (s.step st).result = r at hmoves
  generalize (s.step st).system = t at hmoves ⊢
  cases hmoves with
  | opened g a ho hk hg ha => exact .inr ⟨g, hk, hg, rfl⟩
  | copied slot v hv hopen hrefs => exact .inl List.length_set
  | held slot v hv hopen hrefs => exact .inl List.length_set
  | returned slot v hv => exact .inl (length_giveBackLease _ _)
  | closed slot v hv hopen => exact .inl (length_giveBackLease _ _)
  | droppedOpen slot v hv hopen => exact .inl (length_giveBackLease _ _)
  | _ => exact .inl rfl

variable (store : σ) (steps : List (Step σ P))

/-- Step `m` of a run gives out lease `i`: it is the opening that read its generation. -/
def ReadAt (i m : Nat) : Prop :=
  (moment store steps m).leases.length = i ∧ (moment store steps (m + 1)).leases.length = i + 1

variable {store : σ} {steps : List (Step σ P)} {i m n : Nat}

/-- A step adds no lease, or one for the generation that the store showed it. -/
theorem leases_moment_succ (store : σ) (steps : List (Step σ P)) (n : Nat) :
    (moment store steps (n + 1)).leases.length = (moment store steps n).leases.length ∨
      ∃ g, checkComposite (moment store steps n).store = .ok () ∧
        (SegmentStore.enumerate (moment store steps n).store).1 = .ok g ∧
        (moment store steps (n + 1)).leases =
          (moment store steps n).leases ++ [Lease.new g.version] := by
  cases hst : steps[n]? with
  | none =>
    rw [moment_succ_of_none hst]
    exact .inl rfl
  | some st =>
    rw [moment_succ hst]
    exact (moment store steps n).leases_step st

/-- Every lease was given out in some step. -/
theorem exists_readAt (hi : i < (moment store steps n).leases.length) :
    ∃ m < n, ReadAt store steps i m := by
  induction n with
  | zero => cases hi
  | succ n ih =>
    by_cases hbefore : i < (moment store steps n).leases.length
    · obtain ⟨m, hm, hread⟩ := ih hbefore
      exact ⟨m, Nat.lt_succ_of_lt hm, hread⟩
    · refine ⟨n, Nat.lt_succ_self n, ?_⟩
      have hgrown : (moment store steps (n + 1)).leases.length =
          (moment store steps n).leases.length ∨
            (moment store steps (n + 1)).leases.length =
              (moment store steps n).leases.length + 1 := by
        rcases leases_moment_succ store steps n with
          hsame | ⟨g, -, -, hleases⟩
        · exact .inl hsame
        · rw [hleases, List.length_append]
          exact .inr rfl
      unfold ReadAt
      omega

/-- A lease is of the generation that was read when it was given out. -/
theorem ReadAt.lease (h : ReadAt store steps i m) :
    ∃ g, checkComposite (moment store steps m).store = .ok () ∧
      (SegmentStore.enumerate (moment store steps m).store).1 = .ok g ∧
      (moment store steps (m + 1)).lease i = Lease.new g.version := by
  obtain ⟨hbefore, hafter⟩ := h
  rcases leases_moment_succ store steps m with
    hsame | ⟨g, hk, hg, hleases⟩
  · omega
  · refine ⟨g, hk, hg, ?_⟩
    rw [lease_of_append hleases, hbefore]
    exact if_pos rfl

/-- A lease that was given out stays, with its version. -/
theorem lease_later (hi : i < (moment store steps m).leases.length) (hle : m ≤ n) :
    i < (moment store steps n).leases.length ∧
      ((moment store steps m).lease i).Later ((moment store steps n).lease i) := by
  induction n, hle using Nat.le_induction with
  | base => exact ⟨hi, .refl _⟩
  | succ n hle ih =>
    obtain ⟨hlt, hlater⟩ := ih
    cases hst : steps[n]? with
    | none =>
      rw [moment_succ_of_none hst]
      exact ⟨hlt, hlater⟩
    | some st =>
      rw [moment_succ hst]
      have hsettles := (moment store steps n).lease_step st hlt
      exact ⟨hsettles.given, hlater.trans hsettles.later⟩

/-- A lease that is there was read before. -/
theorem ReadAt.lt (h : ReadAt store steps i m) (hi : i < (moment store steps n).leases.length) :
    m < n := by
  by_contra hle
  have hlater := (lease_later hi (Nat.le_of_not_lt hle)).1
  rw [h.1] at hlater
  exact Nat.lt_irrefl i hlater

end Leases

/-! ## Changes of the list -/

/-- Whether a step makes a change of the list. -/
def Revises (s : System SegmentList P) (st : Step SegmentList P) : Prop :=
  ∃ c, st = .changeStore (fun store => (store.change c).1) ∧
    (s.store.change c).2.isSuccess = true

/-- A revision raises the version by one. -/
theorem Revises.version {s : System SegmentList P} {st : Step SegmentList P}
    (h : s.Revises st) : (s.step st).system.store.version = s.store.version + 1 := by
  obtain ⟨c, rfl, hsuccess⟩ := h
  exact (SegmentList.follows_of_success hsuccess).version

/-- All other steps leave the generation of the list as it is. -/
theorem generation_of_not_revises {s : System SegmentList P} {st : Step SegmentList P}
    (hst : st.Mutates) (h : ¬s.Revises st) :
    (s.step st).system.store.generation = s.store.generation := by
  rcases store_step SegmentList.generation (fun _ => rfl) (fun _ _ => rfl) s st with
    hkept | ⟨change, rfl, hchange⟩
  · exact hkept
  · obtain ⟨c, hc⟩ := hst
    obtain rfl : change = fun store => (store.change c).1 := funext hc
    have hfailed : (s.store.change c).2.isSuccess = false := by
      apply Bool.eq_false_iff.2
      intro hsuccess
      exact h ⟨c, rfl, hsuccess⟩
    rw [hchange]
    exact congrArg SegmentList.generation (SegmentList.change_of_not_success hfailed)

/-- A mutation leaves the kind of the store alone. -/
theorem kind_step (s : System SegmentList P) {st : Step SegmentList P} (hst : st.Mutates) :
    (s.step st).system.store.kind = s.store.kind := by
  rcases store_step SegmentList.kind (fun _ => rfl) (fun _ _ => rfl) s st with
    hkept | ⟨change, rfl, hchange⟩
  · exact hkept
  · obtain ⟨c, hc⟩ := hst
    rw [hchange, hc]
    exact s.store.kind_change c

section Moments

variable (store : SegmentList) (steps : List (Step SegmentList P))

/-- From moment `m` to moment `n` no change of the list is made. -/
def Unrevised (m n : Nat) : Prop :=
  ∀ j st, m ≤ j → j < n → steps[j]? = some st → ¬(moment store steps j).Revises st

variable {store : SegmentList} {steps : List (Step SegmentList P)} {i m n : Nat}

/-- The store is of one kind at all moments. -/
theorem kind_moment (hmutates : ∀ st ∈ steps, st.Mutates) (n : Nat) :
    (moment store steps n).store.kind = store.kind := by
  induction n with
  | zero => rfl
  | succ n ih =>
    cases hst : steps[n]? with
    | none =>
      rw [moment_succ_of_none hst]
      exact ih
    | some st =>
      rw [moment_succ hst, kind_step _ (hmutates st (List.mem_of_getElem? hst))]
      exact ih

/-- A step makes a change and the next version, or neither. -/
theorem generation_moment_succ (store : SegmentList) (hmutates : ∀ st ∈ steps, st.Mutates)
    (n : Nat) :
    (∃ st, steps[n]? = some st ∧ (moment store steps n).Revises st ∧
        (moment store steps (n + 1)).store.version = (moment store steps n).store.version + 1) ∨
      (∀ st, steps[n]? = some st → ¬(moment store steps n).Revises st) ∧
        (moment store steps (n + 1)).store.generation =
          (moment store steps n).store.generation := by
  cases hst : steps[n]? with
  | none =>
    rw [moment_succ_of_none hst]
    exact .inr ⟨fun _ h => (nomatch h), rfl⟩
  | some st =>
    rw [moment_succ hst]
    by_cases hrevises : (moment store steps n).Revises st
    · exact .inl ⟨st, rfl, hrevises, hrevises.version⟩
    · refine .inr ⟨fun st' h => ?_,
        generation_of_not_revises (hmutates st (List.mem_of_getElem? hst)) hrevises⟩
      obtain rfl := Option.some.inj h
      exact hrevises

/-- The list of a later moment is of a later version, or no change was made and it has the
same generation. -/
theorem later_or_unrevised (store : SegmentList) (hmutates : ∀ st ∈ steps, st.Mutates)
    (hle : m ≤ n) :
    (¬Unrevised store steps m n ∧
        (moment store steps m).store.version < (moment store steps n).store.version) ∨
      Unrevised store steps m n ∧
        (moment store steps n).store.generation = (moment store steps m).store.generation := by
  induction n, hle using Nat.le_induction with
  | base => exact .inr ⟨fun j st hm hn => by omega, rfl⟩
  | succ n hle ih =>
    have hmore : Unrevised store steps m (n + 1) → Unrevised store steps m n :=
      fun h j st hm hn => h j st hm (Nat.lt_succ_of_lt hn)
    rcases generation_moment_succ store hmutates n with
      ⟨st, hst, hrevises, hversion⟩ | ⟨hnone, hgeneration⟩
    · left
      refine ⟨fun h => h n st hle (Nat.lt_succ_self n) hst hrevises, ?_⟩
      rcases ih with ⟨-, hlt⟩ | ⟨-, hsame⟩
      · omega
      · have hbefore := congrArg Generation.version hsame
        change (moment store steps n).store.version = (moment store steps m).store.version
          at hbefore
        omega
    · have hkept : (moment store steps (n + 1)).store.version =
          (moment store steps n).store.version := congrArg Generation.version hgeneration
      rcases ih with ⟨hrevised, hlt⟩ | ⟨hunrevised, hsame⟩
      · exact .inl ⟨fun h => hrevised (hmore h), by omega⟩
      · refine .inr ⟨fun j st hm hn hst => ?_, hgeneration.trans hsame⟩
        rcases Nat.lt_succ_iff_lt_or_eq.1 hn with hlt | rfl
        · exact hunrevised j st hm hlt hst
        · exact hnone st hst

/-- Moments of one version have one generation. -/
theorem generation_eq_of_version_eq (hmutates : ∀ st ∈ steps, st.Mutates)
    (h : (moment store steps m).store.version = (moment store steps n).store.version) :
    (moment store steps m).store.generation = (moment store steps n).store.generation := by
  rcases Nat.le_total m n with hle | hle
  · rcases later_or_unrevised store hmutates hle with ⟨-, hlt⟩ | ⟨-, hsame⟩
    · omega
    · exact hsame.symm
  · rcases later_or_unrevised store hmutates hle with ⟨-, hlt⟩ | ⟨-, hsame⟩
    · omega
    · exact hsame

/-- The version is the same at two moments exactly when no step between them revised the store. -/
theorem version_eq_iff_unrevised (hmutates : ∀ st ∈ steps, st.Mutates) (hle : m ≤ n) :
    (moment store steps m).store.version = (moment store steps n).store.version ↔
      Unrevised store steps m n := by
  rcases later_or_unrevised store hmutates hle with
    ⟨hrevised, hlt⟩ | ⟨hunrevised, hsame⟩
  · exact iff_of_false (by omega) hrevised
  · exact iff_of_true (congrArg Generation.version hsame).symm hunrevised

/-- A lease is of the version that the list had when its generation was read. -/
theorem version_of_readAt (h : ReadAt store steps i m) (hlt : m < n) :
    ((moment store steps n).lease i).version = (moment store steps m).store.version := by
  obtain ⟨g, -, hg, hlease⟩ := h.lease
  obtain rfl : (moment store steps m).store.generation = g := Except.ok.inj hg
  have hi : i < (moment store steps (m + 1)).leases.length := by
    rw [h.2]
    exact Nat.lt_succ_self i
  rw [(lease_later hi hlt).2.version, hlease]
  rfl

end Moments

/-! ## Reopens -/

section Reopens

variable {s : System SegmentList P} {k j nanos : Nat} {v : View P}

/-- A store of a kind that is admitted is admitted. -/
theorem checkComposite_of_kind {store t : SegmentList} (hkind : t.kind = store.kind)
    (h : checkComposite store = .ok ()) : checkComposite t = .ok () := by
  rw [checkComposite_eq_ok_iff] at h ⊢
  exact hkind.trans h

/-- An open view is answered as it is when it has the version of the list. -/
theorem reopen_same_iff (hv : s.view? k = some v) (hopen : s.isClosed v = false)
    (hk : checkComposite s.store = .ok ()) :
    (s.reopen k nanos).result = .ok .same ↔ s.version v = s.store.version := by
  rcases reopen_of_open hv hopen hk nanos with
    ⟨hunchanged, hresult, -⟩ | ⟨hchanged, hresult, -⟩
  · exact iff_of_true hresult (bne_eq_false_iff_eq.1 hunchanged).symm
  · refine iff_of_false (fun hsame => ?_) fun hversion => ?_
    · rw [hresult] at hsame
      cases hopened : (s.openGeneration v.segments v.decorator v.config).result with
      | error e =>
        rw [hopened] at hsame
        cases hsame
      | ok opened =>
        rw [hopened] at hsame
        cases hsame
    · exact bne_iff_ne.1 hchanged hversion.symm

/-- A reopen that answers the view itself leaves the system as it is. -/
theorem system_of_reopen_same (h : (s.reopen k nanos).result = .ok .same) :
    (s.reopen k nanos).system = s := by
  rcases s.reopen_cases k nanos with
    ⟨e, he⟩ | ⟨v, hv, hopen, hk, ⟨-, -, hsystem⟩ | ⟨hchanged, -⟩⟩
  · rw [he] at h
    cases h
  · exact hsystem
  · have hversion := (reopen_same_iff hv hopen hk).1 h
    exact absurd hversion.symm (bne_iff_ne.1 hchanged)

/-- How long a reopen took makes no difference to whether it answers the view itself. -/
theorem run_reopens (h : (s.reopen k nanos).result = .ok .same) (times : List Nat) :
    s.run (times.map (.reopen k)) = s ∧ ∀ t, (s.reopen k t).result = .ok .same := by
  have hsame : ∀ t, (s.reopen k t).result = .ok .same := by
    intro t
    rcases s.reopen_cases k nanos with ⟨e, he⟩ | ⟨v, hv, hopen, hk, -⟩
    · rw [he] at h
      cases h
    · exact (reopen_same_iff hv hopen hk).2 ((reopen_same_iff hv hopen hk).1 h)
  refine ⟨?_, hsame⟩
  induction times with
  | nil => rfl
  | cons t times ih =>
    change (s.reopen k t).system.run (times.map (.reopen k)) = s
    rw [system_of_reopen_same (hsame t)]
    exact ih

/-- A view that comes out of a reopen is current. -/
theorem reopen_fresh (h : (s.reopen k nanos).result = .ok (.fresh j)) (t : Nat) :
    ((s.reopen k nanos).system.reopen j t).result = .ok .same := by
  rcases s.reopen_cases k nanos with
    ⟨e, he⟩ | ⟨v, hv, hopen, hk, ⟨-, hresult, -⟩ | ⟨-, hresult, hsystem⟩⟩
  · rw [he] at h
    cases h
  · rw [hresult] at h
    cases h
  · rw [hresult] at h
    rw [hsystem]
    have hend := s.opening_openGeneration v.segments v.decorator v.config
    generalize ho : s.openGeneration v.segments v.decorator v.config = o at h hend ⊢
    cases hend with
    | refused e hk => cases h
    | unread e hk he => cases h
    | givenBack g e hk hg ha => cases h
    | opened g a hk hg ha =>
      cases h
      rw [← ho]
      obtain ⟨-, hstore, hpresents⟩ := presents_of_assemble hk hg ha
      refine (reopen_same_iff hpresents.view hpresents.isOpen ?_).2 ?_
      · rw [hstore]
        exact hk
      · rw [hpresents.version, hstore]
        exact (congrArg Generation.version (Except.ok.inj hg)).symm

end Reopens

/-- No change of the store is missed and no refresh is made without one. In a run over a segment
list whose changes may fail or not, moments of one version have one enumeration; the version
goes up by one with every change that is made and with nothing else. Of an open view there is
one step that read its generation, and a reopen answers the view itself, and as often as it is
repeated with nothing in the system changed, exactly when no change was made since. Any other
view that a reopen answers is itself answered when it is reopened at once. -/
theorem reopen_same_iff_unrevised (store : SegmentList) (steps : List (Step SegmentList P))
    (hmutates : ∀ st ∈ steps, st.Mutates) :
    (∀ m n, (moment store steps m).store.version = (moment store steps n).store.version →
        (SegmentStore.enumerate (moment store steps m).store).1 =
          (SegmentStore.enumerate (moment store steps n).store).1) ∧
      (∀ n st, steps[n]? = some st →
        ((moment store steps n).Revises st → (moment store steps (n + 1)).store.version =
            (moment store steps n).store.version + 1) ∧
          (¬(moment store steps n).Revises st → (moment store steps (n + 1)).store.version =
            (moment store steps n).store.version)) ∧
      ∀ n k v, (moment store steps n).view? k = some v →
        (moment store steps n).isClosed v = false →
        (∃ m < n, ReadAt store steps v.lease m) ∧
          ∀ nanos,
            (∀ m, ReadAt store steps v.lease m →
              (((moment store steps n).reopen k nanos).result = .ok .same ↔
                Unrevised store steps m n)) ∧
            (((moment store steps n).reopen k nanos).result = .ok .same →
              ∀ times : List Nat, (moment store steps n).run (times.map (.reopen k)) =
                moment store steps n) ∧
            ∀ j, ((moment store steps n).reopen k nanos).result = .ok (.fresh j) →
              ∀ t, (((moment store steps n).reopen k nanos).system.reopen j t).result =
                .ok .same := by
  refine ⟨fun m n h => congrArg Except.ok (generation_eq_of_version_eq hmutates h),
    fun n st hst => ⟨fun h => ?_, fun h => ?_⟩, fun n k v hv hopen => ?_⟩
  · rw [moment_succ hst]
    exact h.version
  · rw [moment_succ hst]
    exact congrArg Generation.version
      (generation_of_not_revises (hmutates st (List.mem_of_getElem? hst)) h)
  · have hs : (moment store steps n).Reachable := ⟨_, _, rfl⟩
    have hlease := hs.lease_lt hv
    obtain ⟨m, hlt, hread⟩ := exists_readAt hlease
    obtain ⟨-, hkind, -⟩ := hread.lease
    have hk : checkComposite (moment store steps n).store = .ok () :=
      checkComposite_of_kind ((kind_moment hmutates n).trans (kind_moment hmutates m).symm) hkind
    refine ⟨⟨m, hlt, hread⟩, fun nanos => ⟨fun m' hread' => ?_, fun hsame times => ?_,
      fun j hfresh => reopen_fresh hfresh⟩⟩
    · have hlt' := hread'.lt hlease
      rw [reopen_same_iff hv hopen hk, ← version_eq_iff_unrevised hmutates hlt'.le,
        ← version_of_readAt hread' hlt']
      rfl
    · exact (run_reopens hsame times).1

/-- Since the copied view was read, the list refused two changes: no change was made, and the
copy is answered as it is, twice. The first view is older than a change that was made; its
reopen answers a new one, which is current. -/
theorem reopen_same_iff_unrevised_of_refusals :
    let store : SegmentList := .ofSizes [2]
    let steps : List (Step SegmentList Segment) :=
      [.openView .segments {}, .changeStore fun store => (store.change (.add (.ofIds "a" [8]))).1,
        .reopen 0 0, .changeStore fun store => (store.change (.remove "b")).1,
        .changeStore fun store => (store.change (.merge [] "c")).1, .copy 1]
    let s := moment store steps 6
    (∀ st ∈ steps, st.Mutates) ∧ (s.view? 2).map View.lease = some 1 ∧
      ReadAt store steps 1 2 ∧ Unrevised store steps 2 6 ∧
      (s.reopen 2 0).result = .ok .same ∧ s.run [.reopen 2 7, .reopen 2 9] = s ∧
      (s.reopen 0 0).result = .ok (.fresh 3) ∧
      ((s.reopen 0 0).system.reopen 3 0).result = .ok .same := by
  intro store steps s
  have hmutates : ∀ st ∈ steps, st.Mutates := by
    simp only [steps, List.forall_mem_cons, Step.Mutates, List.not_mem_nil, false_imp_iff,
      implies_true, and_true, true_and]
    exact ⟨⟨_, fun _ => rfl⟩, ⟨_, fun _ => rfl⟩, ⟨_, fun _ => rfl⟩⟩
  have hcopy : (s.view? 2).map (fun v => (s.isClosed v, v.lease)) = some (false, 1) := by
    decide +kernel
  obtain ⟨v, hv, hv'⟩ := Option.map_eq_some_iff.1 hcopy
  obtain ⟨hopen, hlease⟩ := Prod.mk.inj hv'
  have hfirst : (s.view? 0).map (fun v => s.isClosed v) = some false := by decide +kernel
  obtain ⟨u, hu, hopen'⟩ := Option.map_eq_some_iff.1 hfirst
  have hread : ReadAt store steps 1 2 := by
    unfold ReadAt
    decide +kernel
  have hsame : (s.reopen 2 0).result = .ok .same := by decide +kernel
  have hfresh : (s.reopen 0 0).result = .ok (.fresh 3) := by decide +kernel
  obtain ⟨-, -, hviews⟩ := reopen_same_iff_unrevised store steps hmutates
  obtain ⟨-, hreopens⟩ := hviews 6 2 v hv hopen
  obtain ⟨hiff, hrepeat, -⟩ := hreopens 0
  obtain ⟨-, hreopens'⟩ := hviews 6 0 u hu hopen'
  obtain ⟨-, -, hcurrent⟩ := hreopens' 0
  rw [hlease] at hiff
  refine ⟨hmutates, ?_, hread, (hiff 2 hread).1 hsame, hsame, hrepeat hsame [7, 9], hfresh,
    hcurrent 3 hfresh 0⟩
  rw [hv, Option.map_some, hlease]

end SegmentedView.System
