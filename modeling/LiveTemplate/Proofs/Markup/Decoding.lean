import LiveTemplate.Proofs.Markup.Spelling
import Mathlib.Data.List.Forall2
import Mathlib.Data.Nat.Digits.Defs
import Mathlib.Tactic.IntervalCases
import Mathlib.Tactic.Ring

/-!
# What References Stand For

The grammar of character references, and reading as replacement of what it describes.

A reference is one of five names, or a number in decimal or hexadecimal digits, between an
ampersand and a semicolon that is at most ten bytes behind it. The number is that of a
character. Everything else stands for itself, and so do the characters of what looks like a
reference and is none. The grammar is described apart from the reading, and a text is taken
apart by it from left to right, so that what has been decoded is never looked at again.

The digits may have a plus sign in front of them, which is no part of the grammar that is
documented. So reading is described by the grammar with signs, for every text, and by the one
without exactly if no number with a sign occurs in the text: reading such a number makes the
text shorter than it should be, and nothing that follows makes up for that.

## Main definitions

* `Numeral`: The number that digits write.
* `ReferenceName`, `IsReference`: The grammar of references.
* `Decodes`: A text with its references replaced, one after the other.

## Theorems

* `natural?_eq_some_iff`: Digits are read as the number that they write.
* `character?_eq_some_iff`: The names of the grammar are the ones that are read.
* `decodes_iff`: Reading replaces the references of the grammar with signs.
* `decodes_unescape_spec`: Which texts are read by the grammar without signs.
-/

namespace LiveTemplate

namespace Markup

open Text

/-! ### Numbers -/

/-- A character is the digit of a value below sixteen. -/
def IsDigit (c : Char) (d : Nat) : Prop :=
  "0123456789abcdef".toList[d]? = some c ∨ "0123456789ABCDEF".toList[d]? = some c

/-- One or more digits write a number, the last one counting once. -/
def Numeral (radix : Nat) (digits : List Char) (n : Nat) : Prop :=
  digits ≠ [] ∧ ∃ ds, List.Forall₂ (fun c d => IsDigit c d ∧ d < radix) digits ds ∧
    n = Nat.ofDigits radix ds.reverse

theorem IsDigit.lt {c : Char} {d : Nat} (h : IsDigit c d) : d < 16 := by
  rcases h with h | h
  · exact (List.getElem?_eq_some_iff.mp h).1
  · exact (List.getElem?_eq_some_iff.mp h).1

/-! ### The grammar -/

/-- What may stand in front of the digits of a number. -/
abbrev Signs := List (List Char)

/-- Nothing. -/
def Signs.without : Signs := [[]]

/-- A plus sign, or nothing. -/
def Signs.plus : Signs := [[], ['+']]

/-- What stands between the ampersand and the semicolon of a reference to a character. -/
inductive ReferenceName (signs : Signs) : List Char → Char → Prop
  /-- The character has a name. -/
  | named {name : List Char} {c : Char} (h : (name, c) ∈ namedCharacters) :
      ReferenceName signs name c
  /-- The character's number in decimal digits. -/
  | decimal {sign digits : List Char} {c : Char} (hsign : sign ∈ signs)
      (h : Numeral 10 digits c.toNat) : ReferenceName signs ('#' :: (sign ++ digits)) c
  /-- The character's number in hexadecimal digits. -/
  | hexadecimal {x : Char} {sign digits : List Char} {c : Char} (hx : x = 'x' ∨ x = 'X')
      (hsign : sign ∈ signs) (h : Numeral 16 digits c.toNat) :
      ReferenceName signs ('#' :: x :: (sign ++ digits)) c

/-- A text is a reference to a character. Its semicolon is at most ten bytes behind the
    ampersand. -/
def IsReference (signs : Signs) (r : List Char) (c : Char) : Prop :=
  ∃ name, r = '&' :: name ++ [';'] ∧ utf8Length ('&' :: name) ≤ 10 ∧ ReferenceName signs name c

/-- A text with its references replaced by their characters, from left to right. -/
inductive Decodes (signs : Signs) : List Char → List Char → Prop
  /-- There is nothing to decode. -/
  | nil : Decodes signs [] []
  /-- The text starts with a reference. -/
  | reference {r s out : List Char} {c : Char} (hr : IsReference signs r c)
      (hs : Decodes signs s out) : Decodes signs (r ++ s) (c :: out)
  /-- The text does not start with a reference. -/
  | literal {s out : List Char} {d : Char} (hd : ∀ r c, IsReference signs r c → ¬r <+: d :: s)
      (hs : Decodes signs s out) : Decodes signs (d :: s) (d :: out)

/-! ### Reading numbers -/

/-- Where a character of an interval stands in a list in which the interval stands somewhere. -/
theorem getElem?_of_le {chars : List Char} {first last c : Char} (offset : Nat)
    (hchars : ∀ k ≤ last.toNat - first.toNat,
      chars[k + offset]? = some (Char.ofNat (first.toNat + k)))
    (hc : first ≤ c ∧ c ≤ last) : chars[c.toNat - first.toNat + offset]? = some c := by
  have hfirst : first.toNat ≤ c.toNat := UInt32.le_iff_toNat_le.mp (Char.le_def.mp hc.1)
  have hlast : c.toNat ≤ last.toNat := UInt32.le_iff_toNat_le.mp (Char.le_def.mp hc.2)
  rw [hchars _ (Nat.sub_le_sub_right hlast _), Nat.add_sub_cancel' hfirst, Char.ofNat_toNat]

/-- Digits are read as their values. -/
theorem digit?_eq_some_iff {radix d : Nat} {c : Char} :
    digit? radix c = some d ↔ IsDigit c d ∧ d < radix := by
  rw [digit?, Option.filter_eq_some_iff, decide_eq_true_eq]
  refine and_congr_left fun _ => ⟨fun h => ?_, fun h => ?_⟩
  · split at h
    · next hc =>
        rw [← Option.some.inj h]
        exact .inl (getElem?_of_le 0 (by decide) hc)
    · split at h
      · next hc =>
          rw [← Option.some.inj h]
          exact .inl (getElem?_of_le 10 (by decide) hc)
      · split at h
        · next hc =>
            rw [← Option.some.inj h]
            exact .inr (getElem?_of_le 10 (by decide) hc)
        · cases h
  · have hd := h.lt
    rw [IsDigit] at h
    interval_cases d <;> rcases h with h | h <;> cases h <;> decide

theorem naturalFrom_eq_some_iff {radix acc n : Nat} {digits : List Char} :
    naturalFrom radix acc digits = some n ↔
      ∃ ds, List.Forall₂ (fun c d => IsDigit c d ∧ d < radix) digits ds ∧
        n = Nat.ofDigits radix (ds.reverse ++ [acc]) := by
  induction digits generalizing acc with
  | nil =>
      simp only [naturalFrom, List.forall₂_nil_left_iff, exists_eq_left, List.reverse_nil,
        List.nil_append, Nat.ofDigits_singleton, Option.some.injEq]
      exact eq_comm
  | cons c cs ih =>
      -- What has been read so far counts as often as the next digit, once for each value below it.
      have hstep : ∀ (d : Nat) (ds : List Nat),
          Nat.ofDigits radix (ds.reverse ++ [acc * radix + d]) =
            Nat.ofDigits radix ((d :: ds).reverse ++ [acc]) := by
        intro d ds
        simp only [List.reverse_cons, List.append_assoc, List.cons_append, List.nil_append,
          Nat.ofDigits_append, Nat.ofDigits_cons, Nat.ofDigits_nil]
        ring
      simp only [naturalFrom, List.forall₂_cons_left_iff]
      cases hd : digit? radix c with
      | none =>
          refine ⟨fun h => absurd h.symm (Option.some_ne_none n), ?_⟩
          rintro ⟨_, ⟨d, _, hc, _, _⟩, _⟩
          rw [← digit?_eq_some_iff, hd] at hc
          cases hc
      | some d =>
          simp only [ih, hstep]
          constructor
          · rintro ⟨ds, hds, hn⟩
            exact ⟨d :: ds, ⟨d, ds, digit?_eq_some_iff.mp hd, hds, rfl⟩, hn⟩
          · rintro ⟨_, ⟨d', ds, hc, hds, rfl⟩, hn⟩
            rw [← digit?_eq_some_iff, hd] at hc
            cases hc
            exact ⟨ds, hds, hn⟩

/-- Digits are read as the number that they write. -/
theorem natural?_eq_some_iff {radix n : Nat} {digits : List Char} :
    natural? radix digits = some n ↔ Numeral radix digits n := by
  cases digits with
  | nil => exact ⟨nofun, fun h => absurd rfl h.1⟩
  | cons c cs =>
      rw [natural?, naturalFrom_eq_some_iff, Numeral]
      simp only [Nat.ofDigits_append, Nat.ofDigits_singleton, Nat.mul_zero, Nat.add_zero, ne_eq,
        reduceCtorEq, not_false_eq_true, true_and]

/-- A number in a reference is read with a plus sign in front of it or none. -/
theorem referenceNumber?_eq_some_iff {radix n : Nat} {cs : List Char} :
    referenceNumber? radix cs = some n ↔
      ∃ sign ∈ Signs.plus, ∃ digits, cs = sign ++ digits ∧ Numeral radix digits n := by
  have hplus : ∀ digits, natural? radix ('+' :: digits) ≠ some n := fun digits h =>
    absurd (isAlphanum_of_natural? h '+' List.mem_cons_self) (by decide)
  simp only [Signs.plus, List.exists_mem_cons_iff, List.not_mem_nil, false_and, exists_false,
    or_false, List.nil_append, List.cons_append, exists_eq_left', ← natural?_eq_some_iff]
  unfold referenceNumber?
  split
  · next digits =>
      simp only [List.cons.injEq, true_and, exists_eq_left', hplus digits, false_or]
  · next hne =>
      refine ⟨.inl, fun h => h.elim id ?_⟩
      rintro ⟨digits, rfl, _⟩
      exact absurd rfl (hne digits)

/-- The number of a character is read as that character. -/
theorem map_ofNat_filter_eq_some_iff {number? : Option Nat} {c : Char} :
    (number?.filter fun n => decide n.isValidChar).map Char.ofNat = some c ↔
      number? = some c.toNat := by
  rw [Option.map_eq_some_iff]
  constructor
  · rintro ⟨n, hn, rfl⟩
    rw [Option.filter_eq_some_iff, decide_eq_true_eq] at hn
    have hread : (Char.ofNat n).toNat = n := by
      rw [Char.ofNat, dif_pos hn.2]
      rfl
    rw [hread, hn.1]
  · rintro rfl
    refine ⟨c.toNat, ?_, Char.ofNat_toNat c⟩
    rw [Option.filter_some]
    exact if_pos (decide_eq_true c.valid)

/-- A number is read in hexadecimal behind a mark, and in decimal otherwise. -/
theorem character?_number_iff {cs : List Char} {c : Char} :
    character? ('#' :: cs) = some c ↔
      (∃ x digits, cs = x :: digits ∧ (x = 'x' ∨ x = 'X') ∧
        referenceNumber? 16 digits = some c.toNat) ∨ referenceNumber? 10 cs = some c.toNat := by
  simp only [character?, reduceIte, String.reduceToList, List.cons.injEq, Char.reduceEq, false_and]
  rw [map_ofNat_filter_eq_some_iff]
  split
  · next digits hcs =>
      cases hcs
      refine ⟨fun h => .inl ⟨'x', digits, rfl, .inl rfl, h⟩, ?_⟩
      rintro (⟨_, _, heq, _, h⟩ | h)
      · cases heq
        exact h
      · cases h
  · next digits hcs =>
      cases hcs
      refine ⟨fun h => .inl ⟨'X', digits, rfl, .inr rfl, h⟩, ?_⟩
      rintro (⟨_, _, heq, _, h⟩ | h)
      · cases heq
        exact h
      · cases h
  · next hlower hupper hcs =>
      cases hcs
      refine ⟨.inr, ?_⟩
      rintro (⟨_, digits, rfl, rfl | rfl, _⟩ | h)
      · exact absurd rfl (hlower digits)
      · exact absurd rfl (hupper digits)
      · exact h
  · next hnone => exact absurd rfl (hnone cs)

/-- The names that are read are those of the grammar with signs. -/
theorem character?_eq_some_iff {name : List Char} {c : Char} :
    character? name = some c ↔ ReferenceName .plus name c := by
  constructor
  · intro h
    by_cases hnumber : ∃ cs, name = '#' :: cs
    · rcases hnumber with ⟨cs, rfl⟩
      simp only [character?_number_iff, referenceNumber?_eq_some_iff] at h
      rcases h with ⟨x, _, rfl, hx, sign, hsign, digits, rfl, h⟩ | ⟨sign, hsign, digits, rfl, h⟩
      · exact .hexadecimal hx hsign h
      · exact .decimal hsign h
    · refine .named ?_
      unfold character? at h
      split_ifs at h with hamp hlt hgt hquot hapos
      · rw [hamp, ← Option.some.inj h]
        decide
      · rw [hlt, ← Option.some.inj h]
        decide
      · rw [hgt, ← Option.some.inj h]
        decide
      · rw [hquot, ← Option.some.inj h]
        decide
      · rw [hapos, ← Option.some.inj h]
        decide
      · -- What has no name here and is no number is not read at all.
        dsimp only at h
        split at h
        · exact absurd ⟨_, rfl⟩ hnumber
        · exact absurd ⟨_, rfl⟩ hnumber
        · exact absurd ⟨_, rfl⟩ hnumber
        · cases h
  · rintro (h | ⟨hsign, h⟩ | ⟨hx, hsign, h⟩)
    · simp only [namedCharacters, List.mem_cons, Prod.mk.injEq, List.not_mem_nil, or_false] at h
      rcases h with ⟨rfl, rfl⟩ | ⟨rfl, rfl⟩ | ⟨rfl, rfl⟩ | ⟨rfl, rfl⟩ | ⟨rfl, rfl⟩ <;> decide
    · rw [character?_number_iff, referenceNumber?_eq_some_iff]
      exact .inr ⟨_, hsign, _, rfl, h⟩
    · simp only [character?_number_iff, referenceNumber?_eq_some_iff]
      exact .inl ⟨_, _, rfl, hx, _, hsign, _, rfl, h⟩

/-- What stands between the ampersand and the semicolon is made of letters, digits, `#` and
    signs. -/
theorem ReferenceName.of_mem {signs : Signs} {name : List Char} {c d : Char}
    (h : ReferenceName signs name c) (hd : d ∈ name) :
    d.isAlphanum = true ∨ d = '#' ∨ ∃ sign ∈ signs, d ∈ sign := by
  have hdigits : ∀ {radix n : Nat} {digits : List Char}, Numeral radix digits n →
      ∀ d ∈ digits, d.isAlphanum = true := fun h =>
    isAlphanum_of_natural? (natural?_eq_some_iff.mpr h)
  cases h with
  | named h =>
      have hnames : ∀ p ∈ namedCharacters, p.1.all Char.isAlphanum = true := by decide
      exact .inl (List.all_eq_true.mp (hnames _ h) d hd)
  | decimal hsign h =>
      simp only [List.mem_cons, List.mem_append] at hd
      rcases hd with rfl | hd | hd
      · exact .inr (.inl rfl)
      · exact .inr (.inr ⟨_, hsign, hd⟩)
      · exact .inl (hdigits h d hd)
  | hexadecimal hx hsign h =>
      simp only [List.mem_cons, List.mem_append] at hd
      rcases hd with rfl | rfl | hd | hd
      · exact .inr (.inl rfl)
      · rcases hx with rfl | rfl
        · exact .inl (by decide)
        · exact .inl (by decide)
      · exact .inr (.inr ⟨_, hsign, hd⟩)
      · exact .inl (hdigits h d hd)

theorem ReferenceName.semicolon_not_mem {name : List Char} {c : Char}
    (h : ReferenceName .plus name c) : ';' ∉ name := fun hd =>
  absurd (h.of_mem hd) (by decide)

theorem ReferenceName.ampersand_not_mem {name : List Char} {c : Char}
    (h : ReferenceName .plus name c) : '&' ∉ name := fun hd =>
  absurd (h.of_mem hd) (by decide)

/-! ### Reading references -/

/-- What is read behind an ampersand is what makes a reference of it. -/
theorem reference?_eq_some_iff {s rest : List Char} {c : Char} :
    reference? s = some (c, rest) ↔ ∃ r, IsReference .plus r c ∧ '&' :: s = r ++ rest := by
  constructor
  · intro h
    unfold reference? at h
    split at h
    · cases h
    · next d tail hdrop =>
        dsimp only at h
        split at h
        · next hshort =>
            simp only [Option.map_eq_some_iff, Prod.mk.injEq] at h
            rcases h with ⟨_, hc, rfl, rfl⟩
            have hd : d = ';' := by
              have hstop := List.head?_dropWhile_not (· != ';') s
              rw [hdrop] at hstop
              exact of_not_not fun hne => absurd (bne_iff_ne.mpr hne) (by simpa using hstop)
            have hs : s = s.takeWhile (· != ';') ++ ';' :: tail := by
              rw [hd] at hdrop
              rw [← hdrop, List.takeWhile_append_dropWhile]
            refine ⟨_, ⟨_, rfl, ?_, character?_eq_some_iff.mp hc⟩, ?_⟩
            · rw [utf8Length]
              exact Nat.add_le_add_left hshort 1
            · rw [List.cons_append, List.cons_append, List.append_assoc, List.singleton_append,
                ← hs]
        · cases h
  · rintro ⟨_, ⟨name, rfl, hshort, hname⟩, heq⟩
    rw [List.cons_append, List.cons_append, List.cons.injEq, List.append_assoc,
      List.singleton_append] at heq
    rw [heq.2]
    exact reference?_of_name hname.semicolon_not_mem (Nat.le_of_add_le_add_left (a := 1) hshort)
      (character?_eq_some_iff.mpr hname) rest

/-- A reference is read as its character. -/
theorem IsReference.unescape_append {r : List Char} {c : Char} (h : IsReference .plus r c)
    (s : List Char) : unescape (r ++ s) = c :: unescape s := by
  have hread : ∃ cs, r = '&' :: cs := by
    rcases h with ⟨name, rfl, _⟩
    exact ⟨_, rfl⟩
  rcases hread with ⟨cs, rfl⟩
  exact unescape_ampersand_of_reference? (reference?_eq_some_iff.mpr ⟨_, h, rfl⟩)

/-- A reference is one to a single character. -/
theorem IsReference.unique {r : List Char} {c c' : Char} (h : IsReference .plus r c)
    (h' : IsReference .plus r c') : c = c' := by
  have hread := (h.unescape_append []).symm.trans (h'.unescape_append [])
  exact (List.cons.inj hread).1

/-- A text that does not start with a reference is read as its first character, and what follows
    that. -/
theorem unescape_cons_of_not_reference {d : Char} {s : List Char}
    (h : ∀ r c, IsReference .plus r c → ¬r <+: d :: s) : unescape (d :: s) = d :: unescape s := by
  by_cases hd : d = '&'
  · subst hd
    rw [unescape]
    split
    · next c rest href =>
        rcases reference?_eq_some_iff.mp href with ⟨r, hr, hs⟩
        exact absurd ⟨rest, hs.symm⟩ (h r c hr)
    · rfl
  · exact unescape_cons_of_ne hd s

/-- A text is read as what the grammar with signs makes of it. -/
theorem decodes_iff {s out : List Char} : Decodes .plus s out ↔ out = unescape s := by
  constructor
  · intro h
    induction h with
    | nil => rw [unescape]
    | reference hr _ ih => rw [hr.unescape_append, ih]
    | literal hd _ ih => rw [unescape_cons_of_not_reference hd, ih]
  · rintro rfl
    fun_induction unescape s with
    | case1 => exact .nil
    | case2 cs c rest href ih =>
        rcases reference?_eq_some_iff.mp href with ⟨r, hr, hs⟩
        rw [hs]
        exact .reference hr ih
    | case3 cs href ih =>
        refine .literal (fun r c hr hprefix => ?_) ih
        rcases hprefix with ⟨rest, hs⟩
        have hread := reference?_eq_some_iff.mpr ⟨r, hr, hs.symm⟩
        rw [href] at hread
        cases hread
    | case4 d cs hd ih =>
        refine .literal (fun r c hr hprefix => ?_) ih
        rcases hr with ⟨name, rfl, _⟩
        rw [List.cons_append, List.cons_prefix_cons] at hprefix
        exact hd hprefix.1.symm

/-! ### References with signs -/

/-- The grammar without signs describes fewer references. -/
theorem IsReference.of_without {r : List Char} {c : Char} (h : IsReference .without r c) :
    IsReference .plus r c := by
  have hsigns : ∀ sign ∈ Signs.without, sign ∈ Signs.plus := by decide
  rcases h with ⟨name, rfl, hshort, hname⟩
  refine ⟨name, rfl, hshort, ?_⟩
  cases hname with
  | named h => exact .named h
  | decimal hsign h => exact .decimal (hsigns _ hsign) h
  | hexadecimal hx hsign h => exact .hexadecimal hx (hsigns _ hsign) h

/-- Text in front of which there is no ampersand is read as it stands. -/
theorem unescape_append_of_not_mem {p : List Char} (hp : '&' ∉ p) (s : List Char) :
    unescape (p ++ s) = p ++ unescape s := by
  induction p with
  | nil => rfl
  | cons d p ih =>
      rw [List.mem_cons, not_or] at hp
      rw [List.cons_append, unescape_cons_of_ne (Ne.symm hp.1), ih hp.2, List.cons_append]

/-- What starts with an ampersand does not start where there is none. -/
theorem infix_of_infix_append {p s name : List Char} (hp : '&' ∉ p)
    (h : '&' :: name <:+: p ++ s) : '&' :: name <:+: s := by
  induction p with
  | nil => exact h
  | cons d p ih =>
      rw [List.mem_cons, not_or] at hp
      rw [List.cons_append, List.infix_cons_iff, List.cons_prefix_cons] at h
      exact ih hp.2 (h.resolve_left fun hand => hp.1 hand.1)

/-- Two names that end at the same semicolon are the same. -/
theorem eq_of_append_semicolon {name name' s s' : List Char} (hname : ';' ∉ name)
    (hname' : ';' ∉ name') (h : name ++ ';' :: s = name' ++ ';' :: s') : name = name' := by
  have htake : ∀ {name : List Char}, ';' ∉ name → ∀ s,
      (name ++ ';' :: s).takeWhile (· != ';') = name := by
    intro name hname s
    have hne : ∀ d ∈ name, (d != ';') = true := fun d hd =>
      bne_iff_ne.mpr (ne_of_mem_of_not_mem hd hname)
    rw [List.takeWhile_append_of_pos hne, List.takeWhile_cons_of_neg (by decide), List.append_nil]
  rw [← htake hname s, h, htake hname' s']

/-- References do not overlap: behind the start of one there is none before its end. -/
theorem IsReference.eq_or_infix {r r' s : List Char} {c c' : Char} (h : IsReference .plus r c)
    (h' : IsReference .plus r' c') (hinside : r' <:+: r ++ s) : r' = r ∨ r' <:+: s := by
  rcases h with ⟨name, rfl, _, hname⟩
  rcases h' with ⟨name', rfl, _, hname'⟩
  rw [List.cons_append, List.cons_append, List.cons_append, List.infix_cons_iff,
    List.cons_prefix_cons] at hinside
  rcases hinside with ⟨_, t, heq⟩ | hinside
  · rw [List.append_assoc, List.append_assoc] at heq
    rw [eq_of_append_semicolon hname'.semicolon_not_mem hname.semicolon_not_mem heq]
    exact .inl rfl
  · refine .inr (infix_of_infix_append (fun hmem => ?_) hinside)
    rcases List.mem_append.mp hmem with hmem | hmem
    · exact hname.ampersand_not_mem hmem
    · exact absurd hmem (by decide)

/-- What is read is no longer than what the grammar without signs makes of a text, and as long only
    if no number in a reference has a sign. -/
theorem Decodes.length_unescape {s out : List Char} (h : Decodes .without s out) :
    (unescape s).length ≤ out.length ∧ ((unescape s).length = out.length →
      ∀ r c, IsReference .plus r c → r <:+: s → IsReference .without r c) := by
  -- Both readings take the text apart at the same places until the first number with a sign.
  induction h with
  | nil =>
      refine ⟨by rw [unescape], fun _ r c hr hinside => ?_⟩
      rcases hr with ⟨name, rfl, _⟩
      exact absurd (List.infix_nil.mp hinside) (List.cons_ne_nil '&' (name ++ [';']))
  | @reference r s out c hr hs ih =>
      rw [hr.of_without.unescape_append, List.length_cons, List.length_cons]
      refine ⟨Nat.succ_le_succ ih.1, fun hlength r' c' hr' hinside => ?_⟩
      rcases hr.of_without.eq_or_infix hr' hinside with rfl | hinside
      · rw [← hr.of_without.unique hr']
        exact hr
      · exact ih.2 (Nat.succ.inj hlength) r' c' hr' hinside
  | @literal s out d hd hs ih =>
      by_cases hsigned : ∃ r c, IsReference .plus r c ∧ r <+: d :: s
      · -- The number with the sign stands for one character, and should stand for more of them.
        rcases hsigned with ⟨_, c, hr, rest, heq⟩
        have hread := hr.unescape_append rest
        rcases hr with ⟨name, rfl, hshort, hname⟩
        rw [heq] at hread
        rw [List.cons_append, List.cons_append, List.append_assoc, List.singleton_append,
          List.cons.injEq] at heq
        have hlonger := ih.1
        rw [← heq.2, unescape_append_of_not_mem hname.ampersand_not_mem,
          unescape_cons_of_ne (by decide), List.length_append, List.length_cons] at hlonger
        rw [hread, List.length_cons, List.length_cons]
        exact ⟨by omega, fun hlength => by omega⟩
      · simp only [not_exists, not_and] at hsigned
        rw [unescape_cons_of_not_reference hsigned, List.length_cons, List.length_cons]
        refine ⟨Nat.succ_le_succ ih.1, fun hlength r c hr hinside => ?_⟩
        rcases List.infix_cons_iff.mp hinside with hprefix | hinside
        · exact absurd hprefix (hsigned r c hr)
        · exact ih.2 (Nat.succ.inj hlength) r c hr hinside

/-- How a text is read. References are replaced by their characters from left to right, and
    everything else stands for itself, if numbers in references may have a plus sign. This is
    what the grammar without signs makes of the text exactly if no number has one. -/
theorem decodes_unescape_spec (s : List Char) :
    (∀ out, Decodes .plus s out ↔ out = unescape s) ∧
      (Decodes .without s (unescape s) ↔
        ∀ r c, IsReference .plus r c → r <:+: s → IsReference .without r c) := by
  refine ⟨fun out => decodes_iff, fun h => h.length_unescape.2 rfl, fun h => ?_⟩
  have hdecodes : Decodes .plus s (unescape s) := decodes_iff.mpr rfl
  generalize unescape s = out at hdecodes
  -- Each reference that is replaced occurs in the text, so it is one without sign.
  induction hdecodes with
  | nil => exact .nil
  | reference hr _ ih =>
      refine .reference (h _ _ hr (List.prefix_append _ _).isInfix) (ih fun r c hr' hinside => ?_)
      exact h r c hr' (hinside.trans (List.suffix_append _ _).isInfix)
  | literal hd _ ih =>
      refine .literal (fun r c hr => hd r c hr.of_without) (ih fun r c hr hinside => ?_)
      exact h r c hr (hinside.trans (List.suffix_cons _ _).isInfix)

/-- A number with a sign is read, although the grammar without signs has no such reference. -/
theorem not_decodes_signed :
    unescape "&#+65;".toList = ['A'] ∧
      ¬Decodes .without "&#+65;".toList (unescape "&#+65;".toList) := by
  have hname : character? "#+65".toList = some 'A' := by decide
  have hr : IsReference .plus "&#+65;".toList 'A' :=
    ⟨"#+65".toList, rfl, by decide, character?_eq_some_iff.mp hname⟩
  have hread := hr.unescape_append []
  rw [List.append_nil, unescape] at hread
  refine ⟨hread, fun h => ?_⟩
  rcases h.length_unescape.2 rfl _ 'A' hr (List.infix_refl _) with ⟨name, heq, _, hwithout⟩
  have hplus : '+' ∈ '&' :: name ++ [';'] := by
    rw [← heq]
    decide
  rw [List.cons_append, List.mem_cons, List.mem_append] at hplus
  rcases hplus with heq | hmem | hmem
  · exact absurd heq (by decide)
  · exact absurd (hwithout.of_mem hmem) (by decide)
  · exact absurd hmem (by decide)

end Markup

end LiveTemplate
