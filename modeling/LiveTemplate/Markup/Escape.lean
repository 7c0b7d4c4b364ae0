import LiveTemplate.Text.Natural
import LiveTemplate.Text.Search

/-!
# Character References

How text is written inside markup, and how it is read back.

Writing replaces the six characters that could end a text or a quoted attribute
value by references, and leaves every other character alone. Reading accepts more
than writing produces: the five named references, and decimal and hexadecimal ones
for every character. A reference is a name between `&` and `;`. It must be short,
with at most nine bytes between the two, and what is no reference stands for
itself, ampersand included. A number in a reference may carry a plus sign.

Reading goes once from left to right, so a decoded character is never part of a
further reference.

Nothing but the reading depends on how a special character is spelled, so writing
takes the spelling as a parameter, of which `Spelling.standard` is the one in use.

## Main definitions

* `Spelling`, `Spelling.standard`: How single characters are written.
* `escape`: A text with its characters spelled for markup.
* `character?`: The character that a reference's name stands for.
* `reference?`: The reference at the start of a text that follows an ampersand.
* `unescape`: A text with its references replaced by their characters.

## Theorems

* `length_reference?_lt`: A reference is not empty.
-/

namespace LiveTemplate

namespace Markup

open Text

/-- How each character is written in a text or a quoted attribute value. -/
abbrev Spelling := Char → List Char

/-- The spelling with a reference for each of the six special characters. -/
def Spelling.standard : Spelling := fun c =>
  match c with
  | '"' => "&quot;".toList
  | '&' => "&amp;".toList
  | '\'' => "&#x27;".toList
  | '/' => "&#x2f;".toList
  | '<' => "&lt;".toList
  | '>' => "&gt;".toList
  | c => [c]

/-- The text as it is written in markup. -/
def escape (spell : Spelling) (s : List Char) : List Char :=
  s.flatMap spell

/-- The number of a numeric reference, with or without a plus sign. -/
def referenceNumber? (radix : Nat) : List Char → Option Nat
  | '+' :: cs => natural? radix cs
  | cs => natural? radix cs

/-- The character that the name between `&` and `;` stands for. -/
def character? (name : List Char) : Option Char :=
  if name = "amp".toList then some '&'
  else if name = "lt".toList then some '<'
  else if name = "gt".toList then some '>'
  else if name = "quot".toList then some '"'
  else if name = "apos".toList then some '\''
  else
    let number? :=
      match name with
      | '#' :: 'x' :: digits => referenceNumber? 16 digits
      | '#' :: 'X' :: digits => referenceNumber? 16 digits
      | '#' :: digits => referenceNumber? 10 digits
      | _ => none
    (number?.filter fun n => decide n.isValidChar).map Char.ofNat

/-- Most bytes that the name of a reference can have. -/
def maxNameLength : Nat := 9

/-- The character of the reference whose name starts here, and what follows the
    semicolon. -/
def reference? (s : List Char) : Option (Char × List Char) :=
  match s.dropWhile (· != ';') with
  | [] => none
  | _ :: rest =>
    let name := s.takeWhile (· != ';')
    if utf8Length name ≤ maxNameLength then (character? name).map (·, rest) else none

/-- A reference takes up at least its semicolon. -/
theorem length_reference?_lt {s rest : List Char} {c : Char}
    (h : reference? s = some (c, rest)) : rest.length < s.length := by
  have hlen := (List.dropWhile_suffix (l := s) (· != ';')).length_le
  simp only [reference?] at h
  split at h
  · simp only [reduceCtorEq] at h
  · next d r hd =>
      split at h
      · simp only [Option.map_eq_some_iff, Prod.mk.injEq] at h
        obtain ⟨_, _, _, rfl⟩ := h
        rw [hd, List.length_cons] at hlen
        omega
      · simp only [reduceCtorEq] at h

/-- The text that the markup stands for. -/
def unescape : List Char → List Char
  | [] => []
  | '&' :: cs =>
    match _h : reference? cs with
    | some (c, rest) => c :: unescape rest
    | none => '&' :: unescape cs
  | c :: cs => c :: unescape cs
termination_by s => s.length
decreasing_by
  · have := length_reference?_lt _h
    simp only [List.length_cons]
    omega
  · simp only [List.length_cons]
    omega
  · simp only [List.length_cons]
    omega

end Markup

end LiveTemplate
