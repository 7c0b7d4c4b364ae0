/-!
# Blank Characters

Which characters separate words, and what is left of a text without the blanks
around it.

A blank is a character with the Unicode property `White_Space`. The property has
twenty-five members, and the ASCII test of the core library knows only four of
them: a template author may indent with U+00A0 or U+3000, and an attribute name
ends at either.

## Main definitions

* `isBlank`: Membership in `White_Space`.
* `skipBlanks`: A text without its leading blanks.
* `trim`: A text without its leading and trailing blanks.

## Theorems

* `isBlank_of_isWhitespace`: The core library's blanks are blanks.
* `length_skipBlanks_le`: Skipping never lengthens.
* `isBlank_of_skipBlanks`: What is left after skipping does not start with a blank.
-/

namespace LiveTemplate

namespace Text

/-- A character with the Unicode property `White_Space`. -/
def isBlank (c : Char) : Bool :=
  let n := c.toNat
  (9 ≤ n && n ≤ 13) || n == 32 || n == 0x85 || n == 0xA0 || n == 0x1680 ||
    (0x2000 ≤ n && n ≤ 0x200A) || n == 0x2028 || n == 0x2029 || n == 0x202F ||
    n == 0x205F || n == 0x3000

/-- What follows the leading blanks. -/
def skipBlanks (s : List Char) : List Char :=
  s.dropWhile isBlank

/-- The text without the blanks at either end. -/
def trim (s : List Char) : List Char :=
  (skipBlanks (skipBlanks s).reverse).reverse

/-- `trim` on strings. -/
def trimmed (s : String) : String :=
  String.ofList (trim s.toList)

/-- The blanks of the core library are blanks here too. -/
theorem isBlank_of_isWhitespace (c : Char) (h : c.isWhitespace = true) : isBlank c = true := by
  simp only [Char.isWhitespace, Bool.or_eq_true, decide_eq_true_eq] at h
  rcases h with ((rfl | rfl) | rfl) | rfl <;> decide

theorem length_skipBlanks_le (s : List Char) : (skipBlanks s).length ≤ s.length :=
  (List.dropWhile_suffix isBlank).length_le

/-- Skipping stops at a character that is no blank. -/
theorem isBlank_of_skipBlanks {s : List Char} {c : Char} {r : List Char}
    (h : skipBlanks s = c :: r) : isBlank c = false := by
  have hd := List.head?_dropWhile_not isBlank s
  rw [show s.dropWhile isBlank = c :: r from h] at hd
  exact hd

end Text

end LiveTemplate
