import LiveTemplate.Markup.Escape
import LiveTemplate.Markup.Tree

/-!
# Writing Markup

The markup text of a tree. Texts and attribute values are escaped and every value is
quoted; names, tags and comments are written as they are. An element of a void tag
is its opening tag alone.

## Main definitions

* `Tree.write`, `Tree.writeAll`: The characters of a tree and of a forest, with a
  spelling for the ones in texts and values.
* `html`: The markup text of a forest in the standard spelling.
-/

namespace LiveTemplate

namespace Markup

/-- The attributes as they stand in an opening tag, each after a space. -/
def Attributes.write (spell : Spelling) : Attributes → List Char
  | [] => []
  | (name, value) :: rest =>
    ' ' :: name.toList ++ "=\"".toList ++ escape spell value.toList ++ '"' :: write spell rest

namespace Tree

mutual

/-- The characters of a tree. -/
def write (spell : Spelling) : Tree → List Char
  | text content => escape spell content.toList
  | comment content => "<!--".toList ++ content.toList ++ "-->".toList
  | element tag attributes children =>
    '<' :: tag.toList ++ attributes.write spell ++ '>' ::
      if isVoid tag then [] else writeAll spell children ++ "</".toList ++ tag.toList ++ ['>']

/-- The characters of a list of trees, one after the other. -/
def writeAll (spell : Spelling) : List Tree → List Char
  | [] => []
  | t :: ts => write spell t ++ writeAll spell ts

end

end Tree

/-- The markup text of a forest. -/
def html (forest : List Tree) : String :=
  String.ofList (Tree.writeAll .standard forest)

end Markup

end LiveTemplate
