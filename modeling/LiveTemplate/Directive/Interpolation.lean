import LiveTemplate.Directive.Markers
import LiveTemplate.Text.Blank
import LiveTemplate.Text.Search

/-!
# Interpolations

A text with an expression in it: the path of a value between two delimiters, which
the value replaces.

The expression runs from the first opening delimiter to the first closing delimiter
after it, and the path is what stands between them without the blanks around it. A
text whose first expression is blank or does not end has no interpolation, whatever
follows.

## Main definitions

* `Interpolation`: A path and the texts around it.
* `Interpolation.find?`: The interpolation in a text.
* `Interpolation.render`: The text with a value in place of the expression.
* `Interpolation.describe`: The expression as it is named in errors.
-/

namespace LiveTemplate

open Text

/-- A text with one expression. -/
structure Interpolation where
  /-- The text in front of the expression. -/
  before : String
  /-- The path of the value. -/
  key : String
  /-- The text behind the expression. -/
  after : String
  deriving DecidableEq

namespace Interpolation

/-- The first expression of a text, unless it is blank or unfinished. -/
def find? (markers : Markers) (text : String) : Option Interpolation :=
  match cutAt? markers.opening.toList text.toList with
  | none => none
  | some (before, rest) =>
    match cutAt? markers.closing.toList rest with
    | none => none
    | some (body, after) =>
      match trim body with
      | [] => none
      | key => some ⟨String.ofList before, String.ofList key, String.ofList after⟩

/-- The text with `value` in place of the expression. -/
def render (i : Interpolation) (value : String) : String :=
  i.before ++ value ++ i.after

/-- The expression in its delimiters, with one space on either side of the path. -/
def describe (markers : Markers) (i : Interpolation) : String :=
  markers.opening ++ " " ++ i.key ++ " " ++ markers.closing

end Interpolation

end LiveTemplate
