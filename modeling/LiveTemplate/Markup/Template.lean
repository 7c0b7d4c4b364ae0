import LiveTemplate.Markup.Fragment

/-!
# Templates

A template is a fragment with one root element. Comments and blank text beside the
root do not count; text that is not blank does.

## Main definitions

* `TemplateError`: Why a fragment is no template.
* `template`: The root element of a markup text.
-/

namespace LiveTemplate

namespace Markup

open Text

/-- Why markup is not a template. -/
inductive TemplateError where
  /-- Nothing but comments, blank text or a single text stands at top level. -/
  | noRootElement
  /-- Several things stand at top level. -/
  | multipleRoots (count : Nat)
  deriving DecidableEq

/-- The wording of the error. -/
def TemplateError.message : TemplateError → String
  | noRootElement => "template has no root element"
  | multipleRoots count =>
    "template must have exactly one root element, found " ++ toString count ++
      " top-level nodes"

namespace Tree

/-- The tree counts at the top level of a template. -/
def isSignificant : Tree → Bool
  | element .. => true
  | text content => !(trim content.toList).isEmpty
  | comment _ => false

end Tree

/-- The root of a template among the trees at top level. -/
def rootElement (forest : List Tree) : Except TemplateError Tree :=
  match forest.filter Tree.isSignificant with
  | [] => .error .noRootElement
  | [t] => if t.isElement then .ok t else .error .noRootElement
  | ts => .error (.multipleRoots ts.length)

/-- The root element of a template's markup. -/
def template (markup : String) : Except TemplateError Tree :=
  rootElement (parse markup)

end Markup

end LiveTemplate
