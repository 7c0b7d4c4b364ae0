import LiveTemplate.Directive.Interpolation
import LiveTemplate.Proofs.Text.Searching

/-!
# Which Expression Is Found

The expressions in a text, and the one that becomes its interpolation.

An expression starts with an opening delimiter, and ends with the first closing delimiter behind
that. Delimiters are any texts, so two of them may overlap and an expression may have further
opening delimiters in it. A blank expression names no value, and an opening delimiter behind
which there is no closing one starts no expression.

The interpolation is the first expression of the text if that is not blank. So what is found is
always the leftmost expression that names something. But a blank one hides all that follow: a
text without interpolation has no expression that names something, or a blank one in front of
each of them.

## Main definitions

* `IsExpression`: An expression in a text.

## Theorems

* `find?_eq_some_iff`: What is found is the first expression, unless that is blank.
* `find?_spec`: What is found names something and is the leftmost to do so, and when nothing
  is found.
-/

namespace LiveTemplate

open Text

namespace Interpolation

variable {markers : Markers} {text before body after : List Char}

/-- An expression stands in a text: an opening delimiter, a body, and the first closing delimiter
    behind the opening one. -/
structure IsExpression (markers : Markers) (text before body after : List Char) : Prop where
  /-- The parts make up the text. -/
  parts : before ++ markers.opening.toList ++ body ++ markers.closing.toList ++ after = text
  /-- There is no earlier closing delimiter behind the opening one. -/
  first : ∀ b a, b ++ markers.closing.toList ++ a = body ++ markers.closing.toList ++ after →
    body.length ≤ b.length

/-- An expression is what a text is cut into at an opening delimiter and the first closing one
    behind it. -/
theorem isExpression_iff : IsExpression markers text before body after ↔
    ∃ rest, before ++ markers.opening.toList ++ rest = text ∧
      cutAt? markers.closing.toList rest = some (body, after) := by
  simp only [cutAt?_eq_some_iff]
  constructor
  · rintro ⟨hparts, hfirst⟩
    refine ⟨body ++ markers.closing.toList ++ after, ?_, rfl, hfirst⟩
    rw [← hparts]
    simp only [List.append_assoc]
  · rintro ⟨_, hparts, rfl, hfirst⟩
    refine ⟨?_, hfirst⟩
    rw [← hparts]
    simp only [List.append_assoc]

/-- The body does not contain the closing delimiter. -/
theorem IsExpression.not_infix (h : IsExpression markers text before body after)
    (hbody : body ≠ []) : ¬markers.closing.toList <:+: body := by
  rcases isExpression_iff.mp h with ⟨rest, _, hclosing⟩
  refine not_infix_of_cutAt? (fun hempty => hbody ?_) hclosing
  refine List.eq_nil_of_length_eq_zero (Nat.le_zero.mp (h.first [] (body ++ after) ?_))
  simp only [hempty, List.nil_append, List.append_nil]

/-- Where an opening delimiter is in front of an expression there is an expression, too. -/
theorem IsExpression.exists_of_opening {b rest : List Char}
    (h : IsExpression markers text before body after)
    (hb : b ++ markers.opening.toList ++ rest = text) (hle : b.length ≤ before.length) :
    ∃ body' after', cutAt? markers.closing.toList rest = some (body', after') := by
  rcases isExpression_iff.mp h with ⟨rest', hrest', hclosing⟩
  have hsuffix : rest' <:+ rest := by
    refine List.suffix_of_suffix_length_le ⟨_, hrest'⟩ ⟨_, hb⟩ ?_
    have hlength := congrArg List.length (hrest'.trans hb.symm)
    simp only [List.length_append] at hlength
    omega
  refine exists_cutAt?_of_infix (List.IsInfix.trans ?_ hsuffix.isInfix)
  exact ⟨body, after, append_of_cutAt? hclosing⟩

/-- If there is an expression then there is one at the first opening delimiter. -/
theorem IsExpression.exists_first (h : IsExpression markers text before body after) :
    ∃ b body' a, IsExpression markers text b body' a ∧
      ∀ b' rest, b' ++ markers.opening.toList ++ rest = text → b.length ≤ b'.length := by
  rcases isExpression_iff.mp h with ⟨rest, hparts, _⟩
  rcases exists_cutAt?_of_infix ⟨before, rest, hparts⟩ with ⟨b, rest', hopening⟩
  rcases cutAt?_eq_some_iff.mp hopening with ⟨hparts', hfirst⟩
  rcases h.exists_of_opening hparts' (hfirst before rest hparts) with ⟨body', a, hclosing⟩
  exact ⟨b, body', a, isExpression_iff.mpr ⟨rest', hparts', hclosing⟩, hfirst⟩

/-- Only one expression starts at a place. -/
theorem IsExpression.body_eq {before' body' after' : List Char}
    (h : IsExpression markers text before body after)
    (h' : IsExpression markers text before' body' after')
    (hlength : before.length = before'.length) : body = body' := by
  rcases isExpression_iff.mp h with ⟨rest, hparts, hclosing⟩
  rcases isExpression_iff.mp h' with ⟨rest', hparts', hclosing'⟩
  have hsame := hparts.trans hparts'.symm
  rw [List.append_assoc, List.append_assoc] at hsame
  rcases List.append_inj hsame hlength with ⟨rfl, hrest⟩
  rw [List.append_cancel_left hrest, hclosing'] at hclosing
  cases hclosing
  rfl

/-- What is found is the expression at the first opening delimiter, unless that is blank. -/
theorem find?_eq_some_iff {text : String} {i : Interpolation} :
    find? markers text = some i ↔
      ∃ body, IsExpression markers text.toList i.before.toList body i.after.toList ∧
        trim body = i.key.toList ∧ i.key ≠ "" ∧
        ∀ b rest, b ++ markers.opening.toList ++ rest = text.toList →
          i.before.toList.length ≤ b.length := by
  simp only [isExpression_iff]
  unfold find?
  constructor
  · intro h
    split at h
    · cases h
    · next before rest hopening =>
        split at h
        · cases h
        · next body after hclosing =>
            split at h
            · cases h
            · next key hkey hne =>
                cases h
                rw [cutAt?_eq_some_iff] at hopening
                simp only [String.toList_ofList]
                refine ⟨body, ⟨rest, hopening.1, hclosing⟩, rfl, ?_, hopening.2⟩
                rw [Ne, String.ofList_eq_empty_iff]
                exact hne
  · rintro ⟨body, ⟨rest, hparts, hclosing⟩, hkey, hne, hfirst⟩
    rw [cutAt?_eq_some_iff.mpr ⟨hparts, hfirst⟩]
    dsimp only
    rw [hclosing]
    dsimp only
    split
    · next hblank =>
        rw [hkey, String.toList_eq_nil_iff] at hblank
        exact absurd hblank hne
    · rw [hkey, String.ofList_toList, String.ofList_toList, String.ofList_toList]

/-- What is found in a text. It is an expression that names something, and there is none further
    to the left. Nothing is found exactly if in front of each expression that names something
    there is a blank one. -/
theorem find?_spec (markers : Markers) (text : String) :
    (∀ i, find? markers text = some i → ∃ body,
      IsExpression markers text.toList i.before.toList body i.after.toList ∧
        trim body = i.key.toList ∧ i.key ≠ "" ∧ ¬markers.closing.toList <:+: body ∧
        ∀ b body' a, IsExpression markers text.toList b body' a → trim body' ≠ [] →
          i.before.toList.length ≤ b.length) ∧
      (find? markers text = none ↔
        ∀ b body a, IsExpression markers text.toList b body a → trim body ≠ [] →
          ∃ b' body' a', IsExpression markers text.toList b' body' a' ∧ trim body' = [] ∧
            b'.length < b.length) := by
  refine ⟨fun i hi => ?_, fun hnone b body a hexpression hbody => ?_, fun h => ?_⟩
  · rcases find?_eq_some_iff.mp hi with ⟨body, hexpression, hkey, hne, hfirst⟩
    have hbody : body ≠ [] := by
      rintro rfl
      exact hne (String.toList_eq_nil_iff.mp hkey.symm)
    refine ⟨body, hexpression, hkey, hne, hexpression.not_infix hbody, ?_⟩
    intro b body' a hother _
    rcases isExpression_iff.mp hother with ⟨rest, hparts, _⟩
    exact hfirst b rest hparts
  · -- The first opening delimiter starts an expression, too, which is blank.
    rcases hexpression.exists_first with ⟨b', body', a', hother, hfirst⟩
    have hblank : trim body' = [] := by
      by_contra hkey
      have hfound : find? markers text =
          some ⟨String.ofList b', String.ofList (trim body'), String.ofList a'⟩ := by
        rw [find?_eq_some_iff]
        simp only [String.toList_ofList, ne_eq, String.ofList_eq_empty_iff]
        exact ⟨body', hother, rfl, hkey, hfirst⟩
      rw [hnone] at hfound
      cases hfound
    rcases isExpression_iff.mp hexpression with ⟨rest, hparts, _⟩
    refine ⟨b', body', a', hother, hblank, Nat.lt_of_le_of_ne (hfirst b rest hparts) ?_⟩
    intro hlength
    rw [hother.body_eq hexpression hlength] at hblank
    exact hbody hblank
  · rw [Option.eq_none_iff_forall_ne_some]
    intro i hi
    rcases find?_eq_some_iff.mp hi with ⟨body, hexpression, hkey, hne, hfirst⟩
    have hnamed : trim body ≠ [] := by
      rw [hkey, Ne, String.toList_eq_nil_iff]
      exact hne
    rcases h _ body _ hexpression hnamed with ⟨b, body', a, hother, _, hlt⟩
    rcases isExpression_iff.mp hother with ⟨rest, hparts, _⟩
    exact absurd (hfirst b rest hparts) (Nat.not_le_of_lt hlt)

/-- Of two expressions that name something, the first one is found. -/
theorem find?_spec_greeting :
    find? .standard "Hi \x7b\x7b name \x7d\x7d, \x7b\x7b x \x7d\x7d" =
        some ⟨"Hi ", "name", ", \x7b\x7b x \x7d\x7d"⟩ ∧
      ∃ body, IsExpression .standard "Hi \x7b\x7b name \x7d\x7d, \x7b\x7b x \x7d\x7d".toList
        "Hi ".toList body ", \x7b\x7b x \x7d\x7d".toList ∧ trim body = "name".toList := by
  have hfound : find? .standard "Hi \x7b\x7b name \x7d\x7d, \x7b\x7b x \x7d\x7d" =
      some ⟨"Hi ", "name", ", \x7b\x7b x \x7d\x7d"⟩ := by decide +kernel
  rcases (find?_spec .standard _).1 _ hfound with ⟨body, hexpression, hkey, _⟩
  exact ⟨hfound, body, hexpression, hkey⟩

/-- A blank expression hides the one behind it. -/
theorem find?_hidden :
    find? .standard "\x7b\x7b\x7d\x7d\x7b\x7ba\x7d\x7d" = none ∧
      IsExpression .standard "\x7b\x7b\x7d\x7d\x7b\x7ba\x7d\x7d".toList
        "\x7b\x7b\x7d\x7d".toList "a".toList [] ∧ trim "a".toList ≠ [] := by
  refine ⟨by decide +kernel, ?_, by decide⟩
  rw [isExpression_iff]
  exact ⟨"a\x7d\x7d".toList, by decide, by decide⟩

end Interpolation

end LiveTemplate
