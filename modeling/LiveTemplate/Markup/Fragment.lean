import LiveTemplate.Markup.Token

/-!
# Markup Fragments

The forest that a sequence of tokens describes.

Elements are open from their opening tag to their closing tag. A closing tag ends
the innermost open element of its name together with everything opened inside it,
and is a stray if there is none. Elements still open at the end of the markup end
there, so every markup describes a forest.

## Main definitions

* `Nesting`: The open elements and the finished roots part-way through the markup.
* `Nesting.add`: One token more.
* `Fragment`: The forest and the stray closing tags of some markup.
* `Fragment.parse`: The fragment that a markup text describes.
-/

namespace LiveTemplate

namespace Markup

/-- An element whose closing tag is still to come. -/
structure OpenElement where
  /-- The element's tag. -/
  tag : String
  /-- The element's attributes. -/
  attributes : Attributes
  /-- The children read so far, last one first. -/
  children : List Tree

/-- What has been read of a fragment. -/
structure Nesting where
  /-- The open elements, innermost first. -/
  opened : List OpenElement := []
  /-- The finished roots, last one first. -/
  roots : List Tree := []
  /-- Closing tags that closed nothing, last one first. -/
  strays : List String := []

namespace Nesting

/-- Puts a finished tree into the innermost open element, or among the roots. -/
def attach (t : Tree) (n : Nesting) : Nesting :=
  match n.opened with
  | [] => { n with roots := t :: n.roots }
  | e :: es => { n with opened := { e with children := t :: e.children } :: es }

/-- Finishes the innermost open element. -/
def close (n : Nesting) : Nesting :=
  match n.opened with
  | [] => n
  | e :: es => attach (.element e.tag e.attributes e.children.reverse) { n with opened := es }

/-- Finishes the `k` innermost open elements. -/
def closeMany : Nat → Nesting → Nesting
  | 0, n => n
  | k + 1, n => closeMany k n.close

/-- Reads one token. -/
def add (n : Nesting) : Token → Nesting
  | .text content => n.attach (.text content)
  | .comment content => n.attach (.comment content)
  | .opening tag attributes closed =>
    if closed || isVoid tag then n.attach (.element tag attributes [])
    else { n with opened := ⟨tag, attributes, []⟩ :: n.opened }
  | .closing tag =>
    match n.opened.findIdx? (·.tag == tag) with
    | some i => n.closeMany (i + 1)
    | none => { n with strays := tag :: n.strays }

/-- The roots once every open element is finished. -/
def forest (n : Nesting) : List Tree :=
  (n.closeMany n.opened.length).roots.reverse

end Nesting

/-- What a markup text describes. -/
structure Fragment where
  /-- The trees at top level. -/
  forest : List Tree
  /-- The closing tags that closed nothing, first to last. -/
  strays : List String

/-- Reads markup. Every text describes some fragment. -/
def Fragment.parse (markup : String) : Fragment :=
  let n := (tokens markup.toList).foldl Nesting.add {}
  ⟨n.forest, n.strays.reverse⟩

/-- The forest that a markup text describes. -/
def parse (markup : String) : List Tree :=
  (Fragment.parse markup).forest

end Markup

end LiveTemplate
