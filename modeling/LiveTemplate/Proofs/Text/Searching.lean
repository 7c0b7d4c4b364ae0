import LiveTemplate.Text.Search
import Mathlib.Data.List.Infix

/-!
# What Searching Finds

Where a text is cut, told without the search.

A marker is found where it occurs first, and not found if it does not occur. It may overlap
itself, so the part in front of the first occurrence is told by its length: no occurrence has
a shorter one. In particular the marker is not in that part.

The first segment of a text is what stands in front of the first separator. So a marker in front
of the text goes to the first segment if it has no separator in it.

## Theorems

* `cutAt?_eq_some_iff`: A marker is found where it occurs first.
* `exists_cutAt?_of_infix`: A marker that occurs is found.
* `not_infix_of_cutAt?`: It does not occur before that.
* `intercalate_segments`: The segments with the separators between them are the text.
* `segments_append`: Text in front of the first separator is part of the first segment.
* `segments_drop`: A marker is taken off the first segment.
-/

namespace LiveTemplate

namespace Text

/-- A marker is found where it occurs first. -/
theorem length_le_of_cutAt? {marker s before after : List Char}
    (h : cutAt? marker s = some (before, after)) {b a : List Char} (hb : b ++ marker ++ a = s) :
    before.length ≤ b.length := by
  induction s generalizing before b with
  | nil =>
      have happ := append_of_cutAt? h
      simp only [List.append_eq_nil_iff] at happ
      rw [happ.1.1]
      exact Nat.zero_le _
  | cons c cs ih =>
      rw [cutAt?] at h
      split at h
      · injection h with h
        injection h with hbefore _
        rw [← hbefore]
        exact Nat.zero_le _
      · next hnone =>
          simp only [Option.map_eq_some_iff, Prod.exists, Prod.mk.injEq] at h
          rcases h with ⟨before', after', hcut, rfl, rfl⟩
          cases b with
          | nil =>
              -- At the start of the text the marker would have been found.
              rw [List.nil_append] at hb
              rw [afterMarker?_eq_some_iff.mpr hb] at hnone
              cases hnone
          | cons d b =>
              rw [List.cons_append, List.cons_append, List.cons.injEq] at hb
              exact Nat.succ_le_succ (ih hcut hb.2)

/-- The part in front of a marker's first occurrence does not contain the marker. -/
theorem not_infix_of_cutAt? {marker s before after : List Char} (hne : marker ≠ [])
    (h : cutAt? marker s = some (before, after)) : ¬marker <:+: before := by
  rintro ⟨b, a, rfl⟩
  have happ := append_of_cutAt? h
  rw [List.append_assoc (b ++ marker) a marker, List.append_assoc] at happ
  have hle := length_le_of_cutAt? h happ
  have hpos := List.length_pos_iff.mpr hne
  simp only [List.length_append] at hle
  omega

/-- Without an occurrence the marker is not in the text. -/
theorem not_infix_of_cutAt?_eq_none {marker s : List Char} (h : cutAt? marker s = none) :
    ¬marker <:+: s := by
  induction s with
  | nil =>
      intro hin
      rw [List.infix_nil.mp hin] at h
      cases h
  | cons c cs ih =>
      rw [cutAt?] at h
      split at h
      · exact absurd h (by simp only [reduceCtorEq, not_false_eq_true])
      · next hnone =>
          rw [Option.map_eq_none_iff] at h
          rw [List.infix_cons_iff]
          rintro (⟨t, ht⟩ | hin)
          · rw [afterMarker?_eq_some_iff.mpr ht] at hnone
            exact absurd hnone (by simp only [reduceCtorEq, not_false_eq_true])
          · exact ih h hin

/-- A marker that occurs is found. -/
theorem exists_cutAt?_of_infix {marker s : List Char} (h : marker <:+: s) :
    ∃ before after, cutAt? marker s = some (before, after) := by
  cases hcut : cutAt? marker s with
  | none => exact absurd h (not_infix_of_cutAt?_eq_none hcut)
  | some parts => exact ⟨parts.1, parts.2, rfl⟩

/-- A text is cut around the first occurrence of the marker. -/
theorem cutAt?_eq_some_iff {marker s before after : List Char} :
    cutAt? marker s = some (before, after) ↔
      before ++ marker ++ after = s ∧ ∀ b a, b ++ marker ++ a = s → before.length ≤ b.length := by
  constructor
  · intro h
    exact ⟨append_of_cutAt? h, fun _ _ hb => length_le_of_cutAt? h hb⟩
  · rintro ⟨rfl, hfirst⟩
    rcases exists_cutAt?_of_infix ⟨before, after, rfl⟩ with ⟨b, a, hcut⟩
    have happ := append_of_cutAt? hcut
    -- Neither occurrence is in front of the other one.
    have hlength := Nat.le_antisymm (length_le_of_cutAt? hcut rfl) (hfirst b a happ)
    rw [List.append_assoc, List.append_assoc] at happ
    rcases List.append_inj happ hlength with ⟨rfl, hrest⟩
    rw [hcut, List.append_cancel_left hrest]

/-! ### Segments -/

/-- There is no separator in the first segment. -/
theorem separator_not_mem_segments (separator : Char) (s : List Char) :
    separator ∉ (segments separator s).1 := by
  induction s with
  | nil => exact List.not_mem_nil
  | cons c s ih =>
      rw [segments]
      dsimp only
      split
      · exact List.not_mem_nil
      · next hc => exact List.not_mem_cons_of_ne_of_not_mem (Ne.symm hc) ih

/-- There is no separator in any segment. -/
theorem separator_not_mem_of_mem_segments {separator : Char} {s segment : List Char}
    (h : segment ∈ (segments separator s).1 :: (segments separator s).2) :
    separator ∉ segment := by
  induction s generalizing segment with
  | nil =>
      rw [List.mem_singleton.mp h]
      exact List.not_mem_nil
  | cons c s ih =>
      rcases List.mem_cons.mp h with rfl | h
      · exact separator_not_mem_segments separator (c :: s)
      · rw [segments] at h
        dsimp only at h
        split at h
        · exact ih h
        · exact ih (List.mem_cons_of_mem _ h)

/-- The segments with the separators between them are the text. -/
theorem intercalate_segments (separator : Char) (s : List Char) :
    [separator].intercalate ((segments separator s).1 :: (segments separator s).2) = s := by
  induction s with
  | nil => exact List.intercalate_singleton
  | cons c s ih =>
      rw [segments]
      dsimp only
      split
      · next hc => rw [List.intercalate_cons_cons, ih, hc, List.nil_append, List.singleton_append]
      · cases hothers : (segments separator s).2 with
        | nil =>
            rw [hothers, List.intercalate_singleton] at ih
            rw [List.intercalate_singleton, ih]
        | cons next others =>
            rw [hothers, List.intercalate_cons_cons] at ih
            rw [List.intercalate_cons_cons, List.cons_append, List.cons_append, ih]

/-- Text in front of the first separator is part of the first segment. -/
theorem segments_append {separator : Char} {s : List Char} (hs : separator ∉ s) (t : List Char) :
    segments separator (s ++ t) = (s ++ (segments separator t).1, (segments separator t).2) := by
  induction s with
  | nil => rfl
  | cons c s ih =>
      rw [List.mem_cons, not_or] at hs
      rw [List.cons_append, segments, ih hs.2]
      exact if_neg fun h => hs.1 h.symm

/-- What follows a marker at the start of the first segment, and the other segments. -/
theorem segments_drop {separator : Char} {marker s rest : List Char}
    (h : afterMarker? marker (segments separator s).1 = some rest) :
    segments separator (s.drop marker.length) = (rest, (segments separator s).2) := by
  induction marker generalizing s with
  | nil =>
      rw [afterMarker?, Option.some.injEq] at h
      rw [List.length_nil, List.drop_zero, ← h]
  | cons m marker ih =>
      cases s with
      | nil => exact absurd h (Option.some_ne_none rest).symm
      | cons c s =>
          rw [List.length_cons, List.drop_succ_cons]
          rw [segments] at h ⊢
          dsimp only at h ⊢
          split at h
          · exact absurd h (Option.some_ne_none rest).symm
          · next hc =>
              rw [if_neg hc]
              rw [afterMarker?] at h
              split at h
              · exact ih h
              · exact absurd h (Option.some_ne_none rest).symm

end Text

end LiveTemplate
