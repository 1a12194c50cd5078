import SegmentedView.Proofs.Store.Likeness
import SegmentedView.Store.SegmentList

/-!
# What a segment list was given back

A segment list writes down which generations it took back and never reads that again: its
changes neither move the record nor depend on it (`change_withReleases`). So two systems over
lists that differ in one more release behave alike (`unseen_released`).
-/

set_option autoImplicit false

namespace SegmentedView

namespace SegmentList

/-- The same list with another record of what it took back. -/
def withReleases (s : SegmentList) (releases : List Nat) : SegmentList :=
  { s with releases := releases }

variable (s : SegmentList) (releases : List Nat)

/-- A list given other returns has these returns. -/
@[simp] theorem releases_withReleases : (s.withReleases releases).releases = releases := rfl

/-- A list given its own returns is itself. -/
@[simp] theorem withReleases_self : s.withReleases s.releases = s := rfl

/-- Where names stand has nothing to do with returns. -/
theorem placesOf_withReleases (names : List String) :
    (s.withReleases releases).placesOf names = s.placesOf names := by
  induction names with
  | nil => rfl
  | cons name names ih =>
    have hplace : (s.withReleases releases).place? name = s.place? name := rfl
    unfold placesOf
    rw [hplace, ih]

/-- A merge has nothing to do with returns. -/
theorem merge_withReleases (names : List String) (into : String) :
    (s.withReleases releases).merge names into =
      (s.merge names into).map (·.withReleases releases) := by
  have hentries : (s.withReleases releases).entries = s.entries := rfl
  unfold merge
  rw [placesOf_withReleases, hentries]
  cases s.placesOf names with
  | error e => rfl
  | ok places =>
    dsimp only
    cases (List.range s.entries.length).filter (places.contains ·) <;> rfl

/-- A change of the list does not look at what was given back, and leaves it alone. -/
theorem change_withReleases (c : Change) : (s.withReleases releases).change c =
    ((s.change c).1.withReleases releases, (s.change c).2) := by
  cases c with
  | add m => rfl
  | addForeign kind => rfl
  | report total => rfl
  | remove name =>
    have hremove : (s.withReleases releases).remove? name =
        (s.remove? name).map (·.withReleases releases) := by
      unfold remove?
      rw [Option.map_map]
      rfl
    unfold change
    dsimp only
    rw [hremove]
    cases s.remove? name <;> rfl
  | replace m =>
    have hreplace : (s.withReleases releases).replace? m =
        (s.replace? m).map (·.withReleases releases) := by
      unfold replace?
      rw [Option.map_map]
      rfl
    unfold change
    dsimp only
    rw [hreplace]
    cases s.replace? m <;> rfl
  | merge names into =>
    unfold change
    dsimp only
    rw [merge_withReleases]
    cases s.merge names into <;> rfl

/-- A change of the list leaves its returns alone. -/
theorem releases_change (c : Change) : (s.change c).1.releases = s.releases := by
  have hchange := s.change_withReleases s.releases c
  rw [withReleases_self] at hchange
  rw [hchange, releases_withReleases]

/-- The second list took back `extra` besides, at some moment. -/
def Released (extra : List Nat) (a b : SegmentList) : Prop :=
  ∃ before after, a.releases = before ++ after ∧ b = a.withReleases (before ++ extra ++ after)

variable {s}

/-- What a list takes back now comes after all other returns. -/
theorem released_end (extra : List Nat) :
    Released extra s (s.withReleases (s.releases ++ extra)) :=
  ⟨s.releases, [], by simp, by simp⟩

/-- Two lists that differ in a return still do after the same change. -/
theorem Released.change {extra : List Nat} {t : SegmentList} (h : Released extra s t)
    (c : Change) : Released extra (s.change c).1 (t.change c).1 := by
  obtain ⟨before, after, hsplit, rfl⟩ := h
  exact ⟨before, after, (s.releases_change c).trans hsplit,
    congrArg Prod.fst (s.change_withReleases _ c)⟩

/-- What else it took back does not show in a list, and stays. -/
theorem unseen_released (extra : List Nat) : Unseen (Released extra) where
  kind := by
    rintro a _ ⟨before, after, -, rfl⟩
    rfl
  changed := by
    rintro a _ ⟨before, after, -, rfl⟩ since
    rfl
  shown := by
    rintro a _ ⟨before, after, -, rfl⟩
    rfl
  read h := h
  release := by
    rintro a _ ⟨before, after, hsplit, rfl⟩ version
    refine ⟨before, after ++ [version], ?_, ?_⟩
    · change a.releases ++ [version] = _
      rw [hsplit, List.append_assoc]
    · change a.withReleases (before ++ extra ++ after ++ [version]) = _
      rw [List.append_assoc]
      rfl

end SegmentList

end SegmentedView
