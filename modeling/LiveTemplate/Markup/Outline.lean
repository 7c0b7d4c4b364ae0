import LiveTemplate.Markup.Tree

/-!
# Outlines

A forest as a flat list in document order, each line with its depth. An element's
line shows what it holds as a form field, which its `value` attribute sets.

## Main definitions

* `OutlineItem`, `OutlineLine`: What a line shows, and a line with its depth.
* `outline`: The lines of a forest.
-/

namespace LiveTemplate

namespace Markup

/-- What one line of an outline shows. -/
inductive OutlineItem where
  /-- An element with its tag, its attributes and its form value. -/
  | element (tag : String) (attributes : Attributes) (value : String)
  /-- A text. -/
  | text (content : String)
  /-- A comment. -/
  | comment (content : String)
  deriving DecidableEq

/-- A line of an outline. -/
structure OutlineLine where
  /-- The number of trees around this one. -/
  depth : Nat
  /-- What the line shows. -/
  item : OutlineItem
  deriving DecidableEq

/-- What an element with these attributes holds before anything is entered. -/
def Attributes.formValue (attributes : Attributes) : String :=
  (attributes.get? "value").getD ""

mutual

/-- The lines of a tree whose root has the given depth. -/
def outlineTree (depth : Nat) : Tree → List OutlineLine
  | .element tag attributes children =>
    ⟨depth, .element tag attributes attributes.formValue⟩ :: outlineForest (depth + 1) children
  | .text content => [⟨depth, .text content⟩]
  | .comment content => [⟨depth, .comment content⟩]

/-- The lines of trees that stand side by side at the given depth. -/
def outlineForest (depth : Nat) : List Tree → List OutlineLine
  | [] => []
  | t :: ts => outlineTree depth t ++ outlineForest depth ts

end

/-- The lines of a forest. -/
def outline (forest : List Tree) : List OutlineLine :=
  outlineForest 0 forest

end Markup

end LiveTemplate
