import SegmentedView.Proofs.View.DeleteSets
import SegmentedView.Store.SegmentList

/-!
# Revisions of a segment list

A change of a segment list that changes anything moves the version up by one
(`change_cases`), so that lists of one history with one version have the same entries. A
view of the entries has the ids of their documents one after the other
(`stableIdAt_of_leaves`).
-/

set_option autoImplicit false

namespace SegmentedView

variable {P : Type}

namespace SegmentList

/-- The next version of a list, of the same kind. -/
structure Follows (s t : SegmentList) : Prop where
  kind : t.kind = s.kind
  version : t.version = s.version + 1

/-- A list that is edited at the place of a name follows it if every such edit does. -/
theorem follows_of_edit {s t : SegmentList} {place? : Option Nat} {edit : Nat → SegmentList}
    (h : place?.map edit = some t) (hedit : ∀ i, s.Follows (edit i)) : s.Follows t := by
  obtain ⟨i, -, rfl⟩ := Option.map_eq_some_iff.1 h
  exact hedit i

/-- A list with segments merged follows it. -/
theorem follows_of_merge {s t : SegmentList} {names : List String} {into : String}
    (h : s.merge names into = .ok t) : s.Follows t := by
  unfold merge at h
  split at h
  · cases h
  · split at h
    · cases h
    · cases h
      exact ⟨rfl, rfl⟩

/-- Whether a change was made. -/
def Changed.isSuccess : Changed → Bool
  | .version _ => true
  | .found b => b
  | .failed _ => false

/-- A change that is made makes the next version. -/
theorem follows_of_success {s : SegmentList} {c : Change} (h : (s.change c).2.isSuccess = true) :
    s.Follows (s.change c).1 := by
  unfold change at h ⊢
  cases c with
  | add m => exact ⟨rfl, rfl⟩
  | addForeign kind => exact ⟨rfl, rfl⟩
  | report total => exact ⟨rfl, rfl⟩
  | remove name =>
    dsimp only at h ⊢
    cases hr : s.remove? name with
    | none =>
      rw [hr] at h
      cases h
    | some t => exact follows_of_edit hr fun _ => ⟨rfl, rfl⟩
  | replace m =>
    dsimp only at h ⊢
    cases hr : s.replace? m with
    | none =>
      rw [hr] at h
      cases h
    | some t => exact follows_of_edit hr fun _ => ⟨rfl, rfl⟩
  | merge names into =>
    dsimp only at h ⊢
    cases hm : s.merge names into with
    | error e =>
      rw [hm] at h
      cases h
    | ok t => exact follows_of_merge hm

/-- A change that is not made leaves the list as it is. -/
theorem change_of_not_success {s : SegmentList} {c : Change}
    (h : (s.change c).2.isSuccess = false) : (s.change c).1 = s := by
  unfold change at h ⊢
  cases c with
  | add m => cases h
  | addForeign kind => cases h
  | report total => cases h
  | remove name =>
    dsimp only at h ⊢
    cases hr : s.remove? name with
    | none => rfl
    | some t =>
      rw [hr] at h
      cases h
  | replace m =>
    dsimp only at h ⊢
    cases hr : s.replace? m with
    | none => rfl
    | some t =>
      rw [hr] at h
      cases h
  | merge names into =>
    dsimp only at h ⊢
    cases hm : s.merge names into with
    | error e => rfl
    | ok t =>
      rw [hm] at h
      cases h

/-- A change leaves the list as it is or makes the next version of it. -/
theorem change_cases (s : SegmentList) (c : Change) :
    (s.change c).1 = s ∨ (s.change c).1.version = s.version + 1 := by
  cases h : (s.change c).2.isSuccess with
  | false => exact .inl (change_of_not_success h)
  | true => exact .inr (follows_of_success h).version

/-- A change leaves the kind of the store alone. -/
theorem kind_change (s : SegmentList) (c : Change) : (s.change c).1.kind = s.kind := by
  cases h : (s.change c).2.isSuccess with
  | false => rw [change_of_not_success h]
  | true => exact (follows_of_success h).kind

/-- A change that fails changes nothing. -/
theorem change_of_failed (s : SegmentList) {c : Change} {e : Error}
    (h : (s.change c).2 = .failed e) : (s.change c).1 = s := by
  apply change_of_not_success
  rw [h]
  rfl

/-- The ids of the documents at one place. -/
def Entry.ids : Entry → List Nat
  | .segment _ m => m.ids
  | .foreign _ => []

/-- The ids of all documents, in the order of the list. -/
def ids (s : SegmentList) : List Nat := (s.entries.map Entry.ids).flatten

/-- A segment shown as a leaf has the ids of its entry, in order. -/
theorem Entry.ids_of_toLeaf {e : Entry} {s : Segment} (h : e.toLeaf = .segment s) :
    s.docCount = e.ids.length ∧ ∀ l, s.stableId l = e.ids[l]? := by
  cases e with
  | segment serial m =>
    cases h
    exact ⟨rfl, fun _ => rfl⟩
  | foreign kind => cases h

end SegmentList

/-! ## Ids -/

/-- In a view whose segments hold these ids the position of an id is its place in them
all. -/
theorem View.Sound.stableIdAt_eq_flatten {v : View P} (h : v.Sound) {lists : List (List Nat)}
    (hlength : lists.length = v.segments.length)
    (hlists : ∀ (i : Nat) (x : Snapshot P) (xs : List Nat), v.segments[i]? = some x →
      lists[i]? = some xs → x.docCount = xs.length ∧ ∀ l, x.segment.stableId l = xs[l]?) (p : Nat) :
    v.stableIdAt p = lists.flatten[p]? := by
  have hcounts : v.counts = lists.map List.length := by
    apply List.ext_getElem?
    intro i
    rw [getElem?_counts, List.getElem?_map]
    cases hx : v.segments[i]? with
    | none =>
      have hle : lists.length ≤ i := hlength ▸ List.getElem?_eq_none_iff.1 hx
      rw [List.getElem?_eq_none hle]
      rfl
    | some x =>
      have hlt : i < lists.length := hlength ▸ (List.getElem?_eq_some_iff.1 hx).1
      have hxs := List.getElem?_eq_getElem hlt
      rw [hxs]
      exact congrArg some (hlists i x _ hx hxs).1
  by_cases hp : p < v.total
  · obtain ⟨x, l, hdoc⟩ := h.exists_documentAt? hp
    obtain ⟨i, hi, hl, rfl⟩ := h.documentAt?_eq_some_iff.1 hdoc
    have hlt : i < lists.length := hlength ▸ (List.getElem?_eq_some_iff.1 hi).1
    have hxs := List.getElem?_eq_getElem hlt
    obtain ⟨hcount, hids⟩ := hlists i x _ hi hxs
    rw [h.stableIdAt_startOf_add hi hl, hids, hcounts]
    exact (Boundaries.getElem?_flatten hxs (hcount ▸ hl)).symm
  · have hle : lists.flatten.length ≤ p := by
      rw [List.length_flatten, ← hcounts, ← h.total]
      exact Nat.le_of_not_lt hp
    rw [List.getElem?_eq_none hle]
    cases hid : v.stableIdAt p with
    | none => rfl
    | some id =>
      obtain ⟨x, hdoc, -⟩ := Option.bind_eq_some_iff.1 hid
      exact absurd (lt_total_of_documentAt? hdoc) hp

/-- A view of the segments of a list has the ids of the list. -/
theorem View.Sound.stableIdAt_of_leaves {v : View P} (h : v.Sound) {store : SegmentList}
    (hleaves : v.segments.map (fun x => Leaf.segment x.segment) = store.generation.leaves)
    (p : Nat) : v.stableIdAt p = store.ids[p]? := by
  change _ = store.entries.map SegmentList.Entry.toLeaf at hleaves
  have hlength : v.segments.length = store.entries.length := by
    have hlen := congrArg List.length hleaves
    simpa using hlen
  refine h.stableIdAt_eq_flatten (by simpa using hlength.symm) (fun i x xs hx hxs => ?_) p
  obtain ⟨e, he, rfl⟩ := Option.map_eq_some_iff.1 (List.getElem?_map.symm.trans hxs)
  apply SegmentList.Entry.ids_of_toLeaf
  have hleaf := congrArg (·[i]?) hleaves
  simp only [List.getElem?_map, hx, he, Option.map_some] at hleaf
  exact (Option.some.inj hleaf).symm

end SegmentedView
