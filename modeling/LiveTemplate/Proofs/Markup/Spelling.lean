import LiveTemplate.Markup.Escape
import Mathlib.Tactic.ByContra

/-!
# Faithful Spellings

Which spellings can be read back.

A spelling is faithful if it writes each of the six special characters as a reference
to that character, by its name or by its number in hexadecimal, and every other
character as itself. Reading knows no more about the writer than this: a short
reference is read as its character, and what is no ampersand is read as it stands.

Besides being readable, faithful text is harmless. It has no `<` and no quote in it,
whatever it spells, because the characters of a reference are letters, digits and
the marks around them.

## Main definitions

* `isSpecial`: The characters that need a reference.
* `RefersTo`: A text is a reference to a character.
* `Spelling.Faithful`: The spellings that can be read back.

## Theorems

* `RefersTo.exists_name`: What stands between `&` and `;` names the character.
* `unescape_escape`: Reading undoes faithful writing.
* `not_mem_escape`: Faithful text has no special character in it but those of references.
* `faithful_standard`: The standard spelling is faithful.
-/

namespace LiveTemplate

namespace Markup

open Text

/-- A character that could end a text or a quoted value, or start a reference. -/
def isSpecial (c : Char) : Bool :=
  c == '&' || c == '<' || c == '>' || c == '"' || c == '\'' || c == '/'

/-- The characters that have names. -/
def namedCharacters : List (List Char × Char) :=
  [("amp".toList, '&'), ("lt".toList, '<'), ("gt".toList, '>'), ("quot".toList, '"'),
    ("apos".toList, '\'')]

/-- A text is a reference to a character, by its name or by its number in hexadecimal. -/
inductive RefersTo : List Char → Char → Prop
  /-- By its name. -/
  | named {name : List Char} {c : Char} (h : (name, c) ∈ namedCharacters) :
      RefersTo ('&' :: name ++ [';']) c
  /-- By its number. -/
  | number {x c : Char} {digits : List Char} (hx : x = 'x' ∨ x = 'X')
      (h : natural? 16 digits = some c.toNat) : RefersTo ('&' :: '#' :: x :: digits ++ [';']) c

/-- Special characters are written as short references, and other characters as
    themselves. -/
structure Spelling.Faithful (spell : Spelling) : Prop where
  /-- A special character is written as a reference to it. -/
  refersTo : ∀ c, isSpecial c = true → RefersTo (spell c) c
  /-- A reference takes up at most six bytes. -/
  short : ∀ c, isSpecial c = true → utf8Length (spell c) ≤ 6
  /-- Any other character stands for itself. -/
  plain : ∀ c, isSpecial c = false → spell c = [c]

section Letters

variable {c : Char}

theorem isDigit_iff : c.isDigit = true ↔ 48 ≤ c.val.toNat ∧ c.val.toNat ≤ 57 := by
  change (decide (48 ≤ c.val) && decide (c.val ≤ 57)) = true ↔ _
  rw [Bool.and_eq_true, decide_eq_true_iff, decide_eq_true_iff, UInt32.le_iff_toNat_le,
    UInt32.le_iff_toNat_le]
  rfl

theorem isLower_iff : c.isLower = true ↔ 97 ≤ c.val.toNat ∧ c.val.toNat ≤ 122 := by
  change (decide (97 ≤ c.val) && decide (c.val ≤ 122)) = true ↔ _
  rw [Bool.and_eq_true, decide_eq_true_iff, decide_eq_true_iff, UInt32.le_iff_toNat_le,
    UInt32.le_iff_toNat_le]
  rfl

theorem isUpper_iff : c.isUpper = true ↔ 65 ≤ c.val.toNat ∧ c.val.toNat ≤ 90 := by
  change decide (65 ≤ c.val ∧ c.val ≤ 90) = true ↔ _
  rw [decide_eq_true_iff, UInt32.le_iff_toNat_le, UInt32.le_iff_toNat_le]
  rfl

theorem isAlpha_of_isLower (h : c.isLower = true) : c.isAlpha = true :=
  Bool.or_eq_true_iff.mpr (Or.inr h)

theorem isAlpha_of_isUpper (h : c.isUpper = true) : c.isAlpha = true :=
  Bool.or_eq_true_iff.mpr (Or.inl h)

end Letters

/-- A digit in any radix is a letter or a digit. -/
theorem isAlphanum_of_digit? {radix d : Nat} {c : Char} (h : digit? radix c = some d) :
    c.isAlphanum = true := by
  have hc : ('0' ≤ c ∧ c ≤ '9') ∨ ('a' ≤ c ∧ c ≤ 'f') ∨ ('A' ≤ c ∧ c ≤ 'F') := by
    by_contra hnone
    simp only [not_or] at hnone
    rcases hnone with ⟨h0, ha, hA⟩
    simp only [digit?, if_neg h0, if_neg ha, if_neg hA, Option.filter_none, reduceCtorEq] at h
  simp only [Char.le_def, UInt32.le_iff_toNat_le] at hc
  rw [Char.isAlphanum, Bool.or_eq_true]
  rcases hc with hdigit | ⟨hlow, hhigh⟩ | ⟨hlow, hhigh⟩
  · exact Or.inr (isDigit_iff.mpr hdigit)
  -- Digits beyond nine are letters, and not the last ones of the alphabet.
  · exact Or.inl (isAlpha_of_isLower (isLower_iff.mpr ⟨hlow, Nat.le_trans hhigh (by decide)⟩))
  · exact Or.inl (isAlpha_of_isUpper (isUpper_iff.mpr ⟨hlow, Nat.le_trans hhigh (by decide)⟩))

theorem isAlphanum_of_naturalFrom {radix acc n : Nat} {digits : List Char}
    (h : naturalFrom radix acc digits = some n) : ∀ d ∈ digits, d.isAlphanum = true := by
  induction digits generalizing acc with
  | nil => simp only [List.not_mem_nil, false_implies, implies_true]
  | cons c cs ih =>
      simp only [naturalFrom] at h
      cases hd : digit? radix c with
      | none => simp only [hd, reduceCtorEq] at h
      | some v =>
          rw [hd] at h
          intro d hmem
          rcases List.mem_cons.mp hmem with rfl | hmem
          · exact isAlphanum_of_digit? hd
          · exact ih h d hmem

/-- The characters of a number are letters and digits. -/
theorem isAlphanum_of_natural? {radix n : Nat} {digits : List Char}
    (h : natural? radix digits = some n) : ∀ d ∈ digits, d.isAlphanum = true := by
  cases digits with
  | nil => simp only [List.not_mem_nil, false_implies, implies_true]
  | cons c cs => exact isAlphanum_of_naturalFrom h

/-- A number without sign is read as such in a reference. -/
theorem referenceNumber?_of_natural? {radix n : Nat} {digits : List Char}
    (h : natural? radix digits = some n) : referenceNumber? radix digits = some n := by
  unfold referenceNumber?
  split
  · next cs =>
      have hplus := isAlphanum_of_natural? h '+' List.mem_cons_self
      exact absurd hplus (by decide)
  · exact h

theorem isAlphanum_or_of_all {name : List Char}
    (h : (name.all fun d => d.isAlphanum || d == '#') = true) :
    ∀ d ∈ name, d.isAlphanum = true ∨ d = '#' := by
  intro d hd
  have hall := List.all_eq_true.mp h d hd
  rwa [Bool.or_eq_true, beq_iff_eq] at hall

/-- Between the ampersand and the semicolon of a reference stands a name of its
    character, made of letters, digits and `#`. -/
theorem RefersTo.exists_name {s : List Char} {c : Char} (h : RefersTo s c) :
    ∃ name, s = '&' :: name ++ [';'] ∧ (∀ d ∈ name, d.isAlphanum = true ∨ d = '#') ∧
      character? name = some c := by
  cases h with
  | @named name c h =>
      simp only [namedCharacters, List.mem_cons, Prod.mk.injEq, List.not_mem_nil, or_false] at h
      rcases h with ⟨rfl, rfl⟩ | ⟨rfl, rfl⟩ | ⟨rfl, rfl⟩ | ⟨rfl, rfl⟩ | ⟨rfl, rfl⟩ <;>
        exact ⟨_, rfl, isAlphanum_or_of_all (by decide), by decide⟩
  | @number x c digits hx h =>
      refine ⟨'#' :: x :: digits, rfl, ?_, ?_⟩
      · intro d hd
        rcases List.mem_cons.mp hd with rfl | hd
        · exact Or.inr rfl
        · rcases List.mem_cons.mp hd with rfl | hd
          · rcases hx with rfl | rfl <;> exact Or.inl (by decide)
          · exact Or.inl (isAlphanum_of_natural? h d hd)
      · have hnumber := referenceNumber?_of_natural? h
        have hvalid : c.toNat.isValidChar := c.valid
        have hfound : ((referenceNumber? 16 digits).filter fun n => decide n.isValidChar).map
            Char.ofNat = some c := by
          rw [hnumber, Option.filter_some, if_pos (decide_eq_true hvalid), Option.map_some,
            Char.ofNat_toNat]
        rcases hx with rfl | rfl <;>
          simpa only [character?, reduceIte, String.reduceToList, List.cons.injEq, Char.reduceEq,
            false_and] using hfound

/-- What follows an ampersand is a reference if a short name comes up to the semicolon. -/
theorem reference?_of_name {name : List Char} {c : Char} (hname : ';' ∉ name)
    (hshort : utf8Length name ≤ maxNameLength) (hc : character? name = some c) (rest : List Char) :
    reference? (name ++ ';' :: rest) = some (c, rest) := by
  have hne : ∀ d ∈ name, (d != ';') = true := fun d hd =>
    bne_iff_ne.mpr (ne_of_mem_of_not_mem hd hname)
  have htake : (name ++ ';' :: rest).takeWhile (· != ';') = name := by
    rw [List.takeWhile_append_of_pos hne, List.takeWhile_cons_of_neg (by decide), List.append_nil]
  have hdrop : (name ++ ';' :: rest).dropWhile (· != ';') = ';' :: rest := by
    rw [List.dropWhile_append_of_pos hne, List.dropWhile_cons_of_neg (by decide)]
  simp only [reference?, hdrop, htake, if_pos hshort, hc, Option.map_some]

theorem unescape_cons_of_ne {c : Char} (hc : c ≠ '&') (cs : List Char) :
    unescape (c :: cs) = c :: unescape cs := by
  rw [unescape]
  exact fun h => absurd h hc

theorem unescape_ampersand_of_reference? {cs rest : List Char} {c : Char}
    (h : reference? cs = some (c, rest)) : unescape ('&' :: cs) = c :: unescape rest := by
  rw [unescape]
  split
  · next c' rest' h' =>
      rw [h] at h'
      injection h' with h'
      injection h' with hc hrest
      rw [hc, hrest]
  · next h' => rw [h] at h'; exact absurd h' (by simp only [reduceCtorEq, not_false_eq_true])

/-- Reading a reference of at most six bytes gives its character. -/
theorem unescape_refersTo {s : List Char} {c : Char} (h : RefersTo s c)
    (hshort : utf8Length s ≤ 6) (rest : List Char) : unescape (s ++ rest) = c :: unescape rest := by
  rcases h.exists_name with ⟨name, rfl, hname, hc⟩
  have hlen : utf8Length name ≤ maxNameLength := by
    rw [List.cons_append, utf8Length, utf8Length_append] at hshort
    rw [maxNameLength]
    omega
  have hend : ';' ∉ name := fun hd => absurd (hname _ hd) (by decide)
  have href := reference?_of_name hend hlen hc rest
  have happ : '&' :: name ++ [';'] ++ rest = '&' :: (name ++ ';' :: rest) := by
    simp only [List.cons_append, List.append_assoc, List.nil_append]
  rw [happ]
  exact unescape_ampersand_of_reference? href

namespace Spelling.Faithful

variable {spell : Spelling}

theorem unescape_spell (hs : spell.Faithful) (c : Char) (rest : List Char) :
    unescape (spell c ++ rest) = c :: unescape rest := by
  cases hc : isSpecial c with
  | true => exact unescape_refersTo (hs.refersTo c hc) (hs.short c hc) rest
  | false =>
      rw [hs.plain c hc]
      refine unescape_cons_of_ne ?_ rest
      rintro rfl
      exact absurd hc (by decide)

/-- Reading undoes faithful writing. -/
theorem unescape_escape (hs : spell.Faithful) (s : List Char) :
    unescape (escape spell s) = s := by
  induction s with
  | nil => rw [escape, List.flatMap_nil, unescape]
  | cons c cs ih =>
      rw [escape, List.flatMap_cons, hs.unescape_spell c, ← escape, ih]

/-- A character of a faithful spelling is part of a reference or no special one. -/
theorem of_mem_spell (hs : spell.Faithful) {c d : Char} (hd : d ∈ spell c) :
    d = '&' ∨ d = ';' ∨ d = '#' ∨ d.isAlphanum = true ∨ isSpecial d = false := by
  cases hc : isSpecial c with
  | true =>
      rcases (hs.refersTo c hc).exists_name with ⟨name, hname, hall, _⟩
      rw [hname] at hd
      simp only [List.cons_append, List.mem_cons, List.mem_append, List.not_mem_nil,
        or_false] at hd
      rcases hd with rfl | hd | rfl
      · exact Or.inl rfl
      · rcases hall d hd with h | rfl
        · exact Or.inr (Or.inr (Or.inr (Or.inl h)))
        · exact Or.inr (Or.inr (Or.inl rfl))
      · exact Or.inr (Or.inl rfl)
  | false =>
      rw [hs.plain c hc, List.mem_singleton] at hd
      rw [hd]
      exact Or.inr (Or.inr (Or.inr (Or.inr hc)))

/-- No special character but the ampersand comes up in faithful text. -/
theorem not_mem_escape (hs : spell.Faithful) {d : Char} (hd : isSpecial d = true) (hne : d ≠ '&')
    (s : List Char) : d ∉ escape spell s := by
  intro hmem
  rcases List.mem_flatMap.mp hmem with ⟨c, _, hdc⟩
  have hplain : d ≠ ';' ∧ d ≠ '#' ∧ d.isAlphanum = false := by
    simp only [isSpecial, Bool.or_eq_true, beq_iff_eq] at hd
    rcases hd with ((((rfl | rfl) | rfl) | rfl) | rfl) | rfl <;> decide
  rcases hs.of_mem_spell hdc with h | h | h | h | h
  · exact hne h
  · exact hplain.1 h
  · exact hplain.2.1 h
  · rw [hplain.2.2] at h
    exact absurd h (by decide)
  · rw [hd] at h
    exact absurd h (by decide)

theorem escape_ne_nil (hs : spell.Faithful) {s : List Char} (h : s ≠ []) :
    escape spell s ≠ [] := by
  intro hnil
  have hread := hs.unescape_escape s
  rw [hnil, unescape] at hread
  exact h hread.symm

end Spelling.Faithful

/-- The standard spelling is faithful. -/
theorem faithful_standard : Spelling.standard.Faithful where
  refersTo c hc := by
    simp only [isSpecial, Bool.or_eq_true, beq_iff_eq] at hc
    rcases hc with ((((rfl | rfl) | rfl) | rfl) | rfl) | rfl
    · exact @RefersTo.named "amp".toList '&' (by decide)
    · exact @RefersTo.named "lt".toList '<' (by decide)
    · exact @RefersTo.named "gt".toList '>' (by decide)
    · exact @RefersTo.named "quot".toList '"' (by decide)
    · exact @RefersTo.number 'x' '\'' "27".toList (Or.inl rfl) (by decide)
    · exact @RefersTo.number 'x' '/' "2f".toList (Or.inl rfl) (by decide)
  short c hc := by
    simp only [isSpecial, Bool.or_eq_true, beq_iff_eq] at hc
    rcases hc with ((((rfl | rfl) | rfl) | rfl) | rfl) | rfl <;> decide
  plain c hc := by
    simp only [isSpecial, Bool.or_eq_false_iff, beq_eq_false_iff_ne] at hc
    rcases hc with ⟨⟨⟨⟨⟨h1, h2⟩, h3⟩, h4⟩, h5⟩, h6⟩
    unfold Spelling.standard
    split <;> first | rfl | contradiction

end Markup

end LiveTemplate
