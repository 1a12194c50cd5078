import SegmentedView.Proofs.System.Twins

/-!
# Copies

A caller holds views in hand and makes calls on them: look-ups, marks and commits, copies and
reopens, and what these make is in hand from then on (`Hand.replies`). Between the calls the
store changes, and others do what they like aside, as long as they keep off the views in hand
and leave their generations held (`Hand.Fair`). Two hands of twins get the same replies,
though the one is disturbed and the other is not (`Hand.Alike.replies_eq`), and a view and
its copy are twins; so nobody can tell the copy of a view from the view that was copied
(`copy_indistinguishable`).
-/

set_option autoImplicit false

namespace SegmentedView

variable {σ P α : Type}

/-! ## Look-ups -/

/-- What can be asked of a view. -/
inductive Query
  | stableIdAt (p : Nat)
  | isDeleted (p : Nat)
  | storedValue (id : Nat)
  | deletedCount
  | liveCount
  | segmentNamed (name : String)
  deriving DecidableEq, Repr

/-- What is found. A segment is shown without the place where its payload was made. -/
inductive Finding (P : Type)
  | id (id : Option Nat)
  | flag (deleted : Bool)
  | value (bytes : Option Bytes)
  | count (n : Nat)
  | segment (found : Option (Snapshot P))

/-- What a view finds when it is asked. -/
def View.find (v : View P) : Query → Except Error (Finding P)
  | .stableIdAt p => .ok (.id (v.stableIdAt p))
  | .isDeleted p => .ok (.flag (v.isDeleted p))
  | .storedValue id => (v.storedValue id).map .value
  | .deletedCount => .ok (.count v.deletedCount)
  | .liveCount => .ok (.count v.liveCount)
  | .segmentNamed name => .ok (.segment ((v.segmentNamed? name).map Snapshot.content))

/-- What a view finds is a matter of its content. -/
theorem View.find_content (v : View P) (q : Query) : v.content.find q = v.find q := by
  cases q with
  | stableIdAt p => simp only [find, v.stableIdAt_content]
  | isDeleted p => simp only [find, v.isDeleted_content]
  | storedValue id => simp only [find, v.storedValue_content]
  | deletedCount => simp only [find, v.deletedCount_content]
  | liveCount => simp only [find, v.liveCount_content]
  | segmentNamed name =>
    simp only [find, v.segmentNamed?_content, Option.map_map]
    rfl

namespace System

/-- Looks something up in the view of a number, which must be open for a document of it, and
need not be for a count or a segment. -/
def lookUp (s : System σ P) (k : Nat) : Query → Except Error (Finding P)
  | .stableIdAt p => (s.stableIdAt k p).map .id
  | .isDeleted p => (s.isDeleted k p).map .flag
  | .storedValue id => (s.storedValue k id).map .value
  | q => (s.findView k).bind fun v => v.find q

/-- Asked by its number, an open view finds what it finds. -/
theorem lookUp_of_open {s : System σ P} {k : Nat} {v : View P} (hv : s.view? k = some v)
    (hopen : s.isClosed v = false) (q : Query) : s.lookUp k q = v.find q := by
  have hopened : s.findOpenView k = .ok v := findOpenView_eq_ok_iff.2 ⟨hv, hopen⟩
  have hfound : s.findView k = .ok v := findView_eq_ok_iff.2 hv
  cases q with
  | stableIdAt p => simp only [lookUp, System.stableIdAt, hopened, Except.map, View.find]
  | isDeleted p => simp only [lookUp, System.isDeleted, hopened, Except.map, View.find]
  | storedValue id => simp only [lookUp, System.storedValue, hopened, View.find]
  | _ => simp only [lookUp, hfound, Except.bind]

/-- Twins find the same. -/
theorem Twins.lookUp {s t : System σ P} {k j : Nat} {v w : View P} (h : Twins s t k j v w)
    (q : Query) : s.lookUp k q = t.lookUp j q := by
  rw [lookUp_of_open h.left h.leftOpen, lookUp_of_open h.right h.rightOpen, ← v.find_content,
    h.content, w.find_content]

end System

/-! ## Hands -/

/-- One call on a view. -/
inductive Call
  | lookUp (q : Query)
  | edit (op : DeleteOp)
  | copy
  | reopen (nanos : Nat)
  deriving DecidableEq, Repr

/-- What a call that succeeds is answered: a view that was made is known by its version and
its content. -/
inductive Reply (P : Type)
  | found (finding : Finding P)
  | answered (answer : Answer)
  | made (view : Option (Nat × View P))

/-- What happens next: a call on one of the views in hand, a change of the store, or a step
of somebody else. -/
inductive Move (σ P : Type)
  | call (i : Nat) (c : Call)
  | storeChanges (change : σ → σ)
  | aside (st : Step σ P)

/-- Whether a move is one aside. -/
def Move.isAside : Move σ P → Bool
  | .aside _ => true
  | _ => false

/-- A system, and the numbers of the views in hand. -/
structure Hand (σ P : Type) where
  system : System σ P
  views : List Nat

/-- What a move is replied, and the hand after it. -/
structure Turn (σ P : Type) where
  replies : List (Except Error (Reply P))
  hand : Hand σ P

namespace Hand

variable [SegmentStore σ]

/-- Takes a step; a view that it makes is in hand from then on. -/
def take (h : Hand σ P) (st : Step σ P) : Turn σ P :=
  let o := h.system.step st
  match o.result with
  | .error e => ⟨[.error e], { h with system := o.system }⟩
  | .ok (.made n) =>
    ⟨[.ok (.made ((o.system.view? n).map fun v => (o.system.version v, v.content)))],
      ⟨o.system, h.views ++ [n]⟩⟩
  | .ok answer => ⟨[.ok (.answered answer)], { h with system := o.system }⟩

/-- Makes a call on the view of a number. -/
def call (h : Hand σ P) (k : Nat) : Call → Turn σ P
  | .lookUp q => ⟨[(h.system.lookUp k q).map .found], h⟩
  | .edit op => h.take (op.toStep k)
  | .copy => h.take (.copy k)
  | .reopen nanos => h.take (.reopen k nanos)

/-- Makes a move. A call on a view that is not in hand is passed over. -/
def turn (h : Hand σ P) : Move σ P → Turn σ P
  | .call i c =>
    match h.views[i]? with
    | none => ⟨[], h⟩
    | some k => h.call k c
  | .storeChanges change =>
    ⟨[], { h with system := (h.system.step (.changeStore change)).system }⟩
  | .aside st => ⟨[], { h with system := (h.system.step st).system }⟩

/-- What moves are replied, in order. -/
def replies (h : Hand σ P) : List (Move σ P) → List (Except Error (Reply P))
  | [] => []
  | m :: moves => (h.turn m).replies ++ (h.turn m).hand.replies moves

/-- A step aside must keep off the views in hand and leave their generations held. A change
of the store must be decided by what the store answers from. -/
def Allows (kept : σ → α) (h : Hand σ P) : Move σ P → Prop
  | .call _ _ => True
  | .storeChanges change => ∀ a b, kept a = kept b → kept (change a) = kept (change b)
  | .aside st => st.changesStore = false ∧ ∀ k ∈ h.views, st.isOn k = false ∧
      ∀ v ∈ h.system.view? k, ((h.system.step st).system.lease v.lease).released = false

/-- Every move is allowed when its turn comes. -/
def Fair (kept : σ → α) (h : Hand σ P) : List (Move σ P) → Prop
  | [] => True
  | m :: moves => h.Allows kept m ∧ (h.turn m).hand.Fair kept moves

/-! ## Hands of twins -/

/-- Two hands of as many views, each twin to the other's, over stores that answer alike. -/
structure Alike (kept : σ → α) (g h : Hand σ P) : Prop where
  left : g.system.Reachable
  right : h.system.Reachable
  store : kept g.system.store = kept h.system.store
  nodup : g.views.Nodup
  nodup' : h.views.Nodup
  length : g.views.length = h.views.length
  twins : ∀ {i k j : Nat}, g.views[i]? = some k → h.views[i]? = some j →
    ∃ v w, System.Twins g.system h.system k j v w

/-- A step that makes a view takes the view in hand and is replied its version and content. -/
theorem take_of_made {h : Hand σ P} {st : Step σ P} {n : Nat} {v : View P}
    (hresult : (h.system.step st).result = .ok (.made n))
    (hv : (h.system.step st).system.view? n = some v) :
    h.take st = ⟨[.ok (.made (some ((h.system.step st).system.version v, v.content)))],
      ⟨(h.system.step st).system, h.views ++ [n]⟩⟩ := by
  unfold take
  simp only [hresult, hv, Option.map_some]

/-- A step that makes no view is replied its answer and leaves the hand alone. -/
theorem take_of_quiet {h : Hand σ P} {st : Step σ P}
    (hmade : ∀ n, (h.system.step st).result ≠ .ok (.made n)) :
    h.take st = ⟨[(h.system.step st).result.map .answered],
      { h with system := (h.system.step st).system }⟩ := by
  unfold take
  cases hresult : (h.system.step st).result with
  | error e => simp only [hresult, Except.map]
  | ok answer =>
    cases answer with
    | made n => exact absurd hresult (hmade n)
    | _ => simp only [hresult, Except.map]

namespace Alike

variable {kept : σ → α} {g h : Hand σ P}

/-- A view in hand is there. -/
theorem lt_length (ha : Alike kept g h) {k : Nat} (hk : k ∈ g.views) :
    k < g.system.views.length := by
  obtain ⟨i, hi, rfl⟩ := List.getElem_of_mem hk
  obtain ⟨v, w, htwins⟩ := ha.twins (List.getElem?_eq_getElem hi)
    (List.getElem?_eq_getElem (ha.length ▸ hi))
  exact System.lt_length_of_view? htwins.left

/-- Hands are alike mutually. -/
theorem symm (ha : Alike kept g h) : Alike kept h g where
  left := ha.right
  right := ha.left
  store := ha.store.symm
  nodup := ha.nodup'
  nodup' := ha.nodup
  length := ha.length.symm
  twins hk hj := by
    obtain ⟨v, w, htwins⟩ := ha.twins hj hk
    exact ⟨w, v, htwins.symm⟩

/-- Different places of a hand hold different views. -/
theorem ne_of_ne (ha : Alike kept g h) {i i' k k' : Nat} (hne : i ≠ i')
    (hk : g.views[i]? = some k) (hk' : g.views[i']? = some k') : k ≠ k' := by
  rintro rfl
  have hlt := (List.getElem?_eq_some_iff.1 hk).1
  exact hne ((List.getElem?_inj hlt ha.nodup).1 (hk.trans hk'.symm))

/-- Steps that are on neither of two twins, and give nothing back, leave them twins. -/
theorem twins_step (ha : Alike kept g h) {st st' : Step σ P} (hgives : st.givesBack = false)
    (hgives' : st'.givesBack = false) {i k j : Nat} (hk : g.views[i]? = some k)
    (hj : h.views[i]? = some j) (hon : st.isOn k = false) (hon' : st'.isOn j = false) :
    ∃ v w, System.Twins (g.system.step st).system (h.system.step st').system k j v w := by
  obtain ⟨v, w, htwins⟩ := ha.twins hk hj
  exact ⟨v, w, htwins.keeps
    (System.keeps_of_not_givesBack ha.left htwins.left htwins.leftOpen hon hgives)
    (System.keeps_of_not_givesBack ha.right htwins.right htwins.rightOpen hon' hgives')⟩

/-- Steps that keep to the stores leave hands of twins, if they leave each view in hand twin
to the other's. -/
theorem step (ha : Alike kept g h) (hkept : SegmentStore.AnswersFrom kept) {st st' : Step σ P}
    (hst : st.changesStore = false) (hst' : st'.changesStore = false)
    (htwins : ∀ {i k j : Nat}, g.views[i]? = some k → h.views[i]? = some j →
      ∃ v w, System.Twins (g.system.step st).system (h.system.step st').system k j v w) :
    Alike kept { g with system := (g.system.step st).system }
      { h with system := (h.system.step st').system } where
  left := ha.left.step st
  right := ha.right.step st'
  store := (hkept.step g.system hst).trans (ha.store.trans (hkept.step h.system hst').symm)
  nodup := ha.nodup
  nodup' := ha.nodup'
  length := ha.length
  twins := htwins

/-- Twins that come to hand leave the hands alike. -/
theorem add (ha : Alike kept g h) {k j : Nat} {v w : View P}
    (hk : k ∉ g.views) (hj : j ∉ h.views)
    (htwins : System.Twins g.system h.system k j v w) :
    Alike kept { g with views := g.views ++ [k] } { h with views := h.views ++ [j] } where
  left := ha.left
  right := ha.right
  store := ha.store
  nodup := by
    rw [← List.concat_eq_append]
    exact ha.nodup.concat hk
  nodup' := by
    rw [← List.concat_eq_append]
    exact ha.nodup'.concat hj
  length := by simp [ha.length]
  twins {i k' j'} hk' hj' := by
    dsimp only at hk' hj'
    by_cases hlt : i < g.views.length
    · rw [List.getElem?_append_left hlt] at hk'
      rw [List.getElem?_append_left (ha.length ▸ hlt)] at hj'
      exact ha.twins hk' hj'
    · have hlast : i = g.views.length := by
        have := (List.getElem?_eq_some_iff.1 hk').1
        rw [List.length_append, List.length_singleton] at this
        omega
      subst hlast
      rw [List.getElem?_concat_length] at hk'
      rw [ha.length, List.getElem?_concat_length] at hj'
      cases hk'
      cases hj'
      exact ⟨v, w, htwins⟩

/-- Steps that answer alike get the same replies and leave hands of twins. -/
theorem take (ha : Alike kept g h) (hkept : SegmentStore.AnswersFrom kept) {st st' : Step σ P}
    (hst : st.changesStore = false) (hst' : st'.changesStore = false)
    (htwins : ∀ {i k j : Nat}, g.views[i]? = some k → h.views[i]? = some j →
      ∃ v w, System.Twins (g.system.step st).system (h.system.step st').system k j v w)
    (hanswered : System.Answered g.system h.system st st') :
    (g.take st).replies = (h.take st').replies ∧
      Alike kept (g.take st).hand (h.take st').hand := by
  have hstepped := ha.step hkept hst hst' htwins
  cases hanswered with
  | quiet hresult hmade =>
    have hmade' : ∀ n, (h.system.step st').result ≠ .ok (.made n) := by
      intro n
      rw [← hresult]
      exact hmade n
    rw [take_of_quiet hmade, take_of_quiet hmade', hresult]
    exact ⟨rfl, hstepped⟩
  | made v w hresult hresult' hmade =>
    rw [take_of_made hresult hmade.left, take_of_made hresult' hmade.right, hmade.version,
      hmade.content]
    refine ⟨rfl, hstepped.add ?_ ?_ hmade⟩
    -- The new numbers are past all that were given out before.
    · intro hk
      exact Nat.lt_irrefl _ (ha.lt_length hk)
    · intro hj
      exact Nat.lt_irrefl _ (ha.symm.lt_length hj)

/-- A call on twins gets the same reply and leaves hands of twins. -/
theorem call (ha : Alike kept g h) (hkept : SegmentStore.AnswersFrom kept) {i k j : Nat}
    (hk : g.views[i]? = some k) (hj : h.views[i]? = some j) (c : Call) :
    (g.call k c).replies = (h.call j c).replies ∧
      Alike kept (g.call k c).hand (h.call j c).hand := by
  obtain ⟨v, w, htwins⟩ := ha.twins hk hj
  cases c with
  | lookUp q =>
    have hfound := htwins.lookUp q
    exact ⟨by simp only [Hand.call, hfound], ha⟩
  | edit op =>
    obtain ⟨hanswered, hedited⟩ := htwins.edit op
    refine ha.take hkept (op.changesStore_toStep k) (op.changesStore_toStep j)
      (fun {i' k' j'} hk' hj' => ?_) hanswered
    -- The views that are edited become twins anew; all others are left alone on both sides.
    by_cases hi : i' = i
    · subst hi
      obtain rfl := Option.some.inj (hk.symm.trans hk')
      obtain rfl := Option.some.inj (hj.symm.trans hj')
      exact ⟨_, _, hedited⟩
    · refine ha.twins_step (op.givesBack_toStep k) (op.givesBack_toStep j) hk' hj'
        (op.isOn_toStep ?_) (op.isOn_toStep ?_)
      · exact ha.ne_of_ne (Ne.symm hi) hk hk'
      · exact ha.symm.ne_of_ne (Ne.symm hi) hj hj'
  | copy =>
    exact ha.take hkept rfl rfl (fun hk' hj' => ha.twins_step rfl rfl hk' hj' rfl rfl)
      (htwins.copy ha.left ha.right)
  | reopen nanos =>
    exact ha.take hkept rfl rfl (fun hk' hj' => ha.twins_step rfl rfl hk' hj' rfl rfl)
      (htwins.reopen hkept ha.store nanos)

/-- A move that is the caller's or the store's gets the same replies in both hands. -/
theorem turn (ha : Alike kept g h) (hkept : SegmentStore.AnswersFrom kept) {m : Move σ P}
    (hm : m.isAside = false) (hallows : g.Allows kept m) :
    (g.turn m).replies = (h.turn m).replies ∧ Alike kept (g.turn m).hand (h.turn m).hand := by
  cases m with
  | call i c =>
    unfold Hand.turn
    cases hk : g.views[i]? with
    | none =>
      have hj : h.views[i]? = none := by
        rw [List.getElem?_eq_none_iff, ← ha.length]
        exact List.getElem?_eq_none_iff.1 hk
      simp only [hk, hj]
      exact ⟨trivial, ha⟩
    | some k =>
      have hlt := ha.length ▸ (List.getElem?_eq_some_iff.1 hk).1
      have hj : h.views[i]? = some h.views[i] := List.getElem?_eq_getElem hlt
      simp only [hk, hj]
      exact ha.call hkept hk hj c
  | storeChanges change =>
    refine ⟨rfl, ⟨ha.left.step _, ha.right.step _, ?_, ha.nodup, ha.nodup', ha.length, ?_⟩⟩
    · exact hallows _ _ ha.store
    · intro i k j hk hj
      exact ha.twins_step rfl rfl hk hj rfl rfl
  | aside st => cases hm

/-- A fair step aside is not noticed. -/
theorem aside (ha : Alike kept g h) (hkept : SegmentStore.AnswersFrom kept) {st : Step σ P}
    (hallows : g.Allows kept (.aside st)) : Alike kept (g.turn (.aside st)).hand h where
  left := ha.left.step st
  right := ha.right
  store := (hkept.step g.system hallows.1).trans ha.store
  nodup := ha.nodup
  nodup' := ha.nodup'
  length := ha.length
  twins {i k j} hk hj := by
    obtain ⟨v, w, htwins⟩ := ha.twins hk hj
    obtain ⟨hon, hheld⟩ := hallows.2 k (List.mem_of_getElem? hk)
    have hkeeps := System.keeps_step ha.left htwins.left htwins.leftOpen hon
      (hheld v htwins.left)
    have hsame : System.Keeps h.system h.system j w := ⟨htwins.right, htwins.rightOpen, rfl⟩
    exact ⟨v, w, htwins.keeps hkeeps hsame⟩

/-- What hands of twins are replied is the same, whatever fair moves are made aside of the
one and left out with the other. -/
theorem replies_eq (ha : Alike kept g h) (hkept : SegmentStore.AnswersFrom kept)
    {moves : List (Move σ P)} (hfair : g.Fair kept moves) :
    g.replies moves = h.replies (moves.filter fun m => !m.isAside) := by
  -- `Alike` is the invariant: calls keep it on both sides, steps aside on the left alone.
  induction moves generalizing g h with
  | nil => rfl
  | cons m moves ih =>
    obtain ⟨hallows, hfair⟩ := hfair
    cases hm : m.isAside with
    | false =>
      obtain ⟨hreplies, hturn⟩ := ha.turn hkept hm hallows
      rw [List.filter_cons_of_pos (by simp [hm]), replies, replies, hreplies, ih hturn hfair]
    | true =>
      cases m with
      | aside st =>
        rw [List.filter_cons_of_neg (by simp [hm]), replies, ih (ha.aside hkept hallows) hfair]
        rfl
      | _ => cases hm

end Alike

end Hand

/-! ## Copies -/

namespace System

variable [SegmentStore σ] {s : System σ P} {k : Nat} {v : View P}

/-- A view and its copy are twins: the copy in the system after copying, and the view in the
system before. -/
theorem twins_copy (hs : s.Reachable) (hv : s.view? k = some v) (hopen : s.isClosed v = false) :
    Twins (s.step (.copy k)).system s s.views.length k v.copy v := by
  obtain ⟨-, hkeeps⟩ := step_copy hs hv hopen
  exact ⟨hkeeps.view, hv, hkeeps.isOpen, hopen, hkeeps.version, v.content_copy⟩

/-- A copy cannot be told from its original. Of any open view of any reachable system a copy
is made, and whatever is then looked up, marked, committed, copied and reopened, on the copy
and on what comes of it, is replied to as it would have been on the original and in the state
in which it was copied: with the same answers and errors, and with views of the same version
and content. What is done in the meantime to the original and to all other views does not
show, as long as the generations of the views in hand are held; of the store it is only asked
that neither readings nor generations that come back change what it answers. -/
theorem copy_indistinguishable {kept : σ → α} (hkept : SegmentStore.AnswersFrom kept)
    (hs : s.Reachable) (hv : s.view? k = some v) (hopen : s.isClosed v = false) :
    let copied : Hand σ P := ⟨(s.step (.copy k)).system, [s.views.length]⟩
    let original : Hand σ P := ⟨s, [k]⟩
    (s.step (.copy k)).result = .ok (.made s.views.length) ∧
      ∀ moves, copied.Fair kept moves →
        copied.replies moves = original.replies (moves.filter fun m => !m.isAside) := by
  intro copied original
  have halike : Hand.Alike kept copied original := by
    refine ⟨hs.step _, hs, hkept.step s rfl, List.nodup_singleton _, List.nodup_singleton _,
      rfl, fun {i k' j'} hk' hj' => ?_⟩
    cases i with
    | zero =>
      cases hk'
      cases hj'
      exact ⟨_, _, twins_copy hs hv hopen⟩
    | succ i => cases hk'
  exact ⟨(step_copy hs hv hopen).1, fun moves hfair => halike.replies_eq hkept hfair⟩

/-- While the original is marked, committed and closed, and the store loses a segment, its
copy, with a committed and a staged delete and a mapper, is looked up, marked and reopened,
and what comes of that is committed, copied and looked up. -/
theorem copy_indistinguishable_of_disturbed :
    let s := ({ store := .ofSizes [2, 2] } : System SegmentList Segment).run
      [.openView .segments {}, .install 0 fun id => some (3 - id), .markAt 0 [3], .commit 0,
        .markAt 0 [1]]
    let moves : List (Move SegmentList Segment) := [.call 0 (.lookUp (.storedValue 1)),
      .aside (.markAt 0 [0]), .aside (.commit 0), .call 0 (.edit (.markAt [1, 2])),
      .storeChanges fun store => (store.change (.remove "_0")).1, .aside (.close 0),
      .call 0 (.reopen 0), .call 1 (.edit .commit), .call 1 .copy,
      .call 2 (.lookUp .deletedCount), .call 0 (.lookUp (.segmentNamed "_0"))]
    s.Reachable ∧ ∃ v, s.view? 0 = some v ∧ s.isClosed v = false ∧ v.isStaged 1 = true ∧
      Hand.Fair (·.withReleases []) ⟨(s.step (.copy 0)).system, [s.views.length]⟩ moves ∧
      Hand.replies ⟨(s.step (.copy 0)).system, [s.views.length]⟩ moves =
        Hand.replies ⟨s, [0]⟩ (moves.filter fun m => !m.isAside) ∧
      (Hand.replies ⟨s, [0]⟩ (moves.filter fun m => !m.isAside)).length = 7 := by
  intro s moves
  have hs : s.Reachable := ⟨_, _, rfl⟩
  obtain ⟨v, hv⟩ : ∃ v, s.view? 0 = some v := Option.isSome_iff_exists.1 (by decide +kernel)
  have hstate : (s.view? 0).map (fun v => (s.isClosed v, v.isStaged 1)) = some (false, true) := by
    decide +kernel
  rw [hv] at hstate
  obtain ⟨hopen, hstaged⟩ := Prod.mk.inj (Option.some.inj hstate)
  have hfair : Hand.Fair (·.withReleases []) ⟨(s.step (.copy 0)).system, [s.views.length]⟩
      moves := by
    refine ⟨trivial, ?_, ?_, trivial, fun a b h => SegmentList.change_congr h _, ?_, trivial,
      trivial, trivial, trivial, trivial, trivial⟩
    · unfold Hand.Allows
      decide +kernel
    · unfold Hand.Allows
      decide +kernel
    · unfold Hand.Allows
      decide +kernel
  obtain ⟨-, hreplies⟩ := copy_indistinguishable SegmentList.answersFrom_withReleases hs hv hopen
  exact ⟨hs, v, hv, hopen, hstaged, hfair, hreplies moves hfair, by decide +kernel⟩

end System

end SegmentedView
