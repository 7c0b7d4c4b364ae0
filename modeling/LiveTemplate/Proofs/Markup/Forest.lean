import LiveTemplate.Markup.Printer
import LiveTemplate.Markup.Token

/-!
# Forests That Can Be Written

What a forest has to be like for its text to describe it again.

Writing keeps no record of how names and tags were meant, so a forest has to be one
whose tags and names the reader can tell from their surroundings, and whose comments
do not end early. `Tree.Writable` says so of every node. The one thing about the
order of the nodes that text cannot show is where one text ends and the next one
begins, and `Tree.Separated` says that this does not arise.

`joined` merges neighbouring texts. It changes nothing about the text of a forest,
which is why a forest that is not separated still describes its joined form.

Statements about forests are proved by `forestInduction`, which goes down into an
element's children and on to its neighbours in one step.

## Main definitions

* `IsTag`, `IsName`, `IsAttributes`: Tags and attributes that are read back as written.
* `IsSpelledTag`: A tag in any letters.
* `Tree.Writable`, `Tree.WritableAll`: Every node of a forest can be read back.
* `Tree.Separated`, `Tree.SeparatedAll`: No text stands next to another one.
* `Tree.joined`, `Tree.joinedAll`: Neighbouring texts merged into one.

## Theorems

* `forestInduction`: Induction over a forest.
* `writeAll_joinedAll`: Merging texts does not change what is written.
* `writableAll_joinedAll`: Merging texts keeps a forest writable.
* `separatedAll_joinedAll`: After merging no text stands next to another one.
-/

namespace LiveTemplate

namespace Markup

/-- A tag that starts with a letter and has only letters in lower case, digits and the
    three marks that tags may contain. -/
structure IsTag (tag : String) : Prop where
  /-- It starts with a letter. -/
  initial : ∃ c cs, tag.toList = c :: cs ∧ c.isAlpha = true
  /-- It consists of characters of tags. -/
  tagChars : ∀ c ∈ tag.toList, isTagChar c = true
  /-- Its letters are in lower case. -/
  lower : tagName tag.toList = tag

/-- A tag in letters of any case, as it may stand in a closing tag. -/
structure IsSpelledTag (name : String) : Prop where
  /-- It starts with a letter. -/
  initial : ∃ c cs, name.toList = c :: cs ∧ c.isAlpha = true
  /-- It consists of characters of tags. -/
  tagChars : ∀ c ∈ name.toList, isTagChar c = true

theorem IsTag.spelled {tag : String} (h : IsTag tag) : IsSpelledTag tag :=
  ⟨h.initial, h.tagChars⟩

/-- An attribute name that the reader finds the end of. A lone `=` is one, too. -/
def IsName (name : String) : Prop :=
  name = "=" ∨ (name ≠ "" ∧ ∀ c ∈ name.toList, endsName c = false)

/-- Attributes with names that can be read back, no two of them alike. -/
structure IsAttributes (attributes : Attributes) : Prop where
  /-- Every name can be read back. -/
  isName : ∀ a ∈ attributes, IsName a.1
  /-- The names are distinct. -/
  nodup : (attributes.map (·.1)).Nodup

namespace Tree

/-- The tree is a text. -/
def IsText (t : Tree) : Prop :=
  ∃ content, t = text content

mutual

/-- Every node of the tree can be read back from its text. -/
def Writable : Tree → Prop
  | text content => content ≠ ""
  | comment content => ¬"-->".toList <:+: content.toList
  | element tag attributes children =>
    IsTag tag ∧ IsAttributes attributes ∧ (isVoid tag = true → children = []) ∧
      WritableAll children

/-- Every node of the forest can be read back from its text. -/
def WritableAll : List Tree → Prop
  | [] => True
  | t :: ts => Writable t ∧ WritableAll ts

end

mutual

/-- No text in the tree stands next to another one. -/
def Separated : Tree → Prop
  | element _ _ children => SeparatedAll children
  | _ => True

/-- No text in the forest stands next to another one. -/
def SeparatedAll : List Tree → Prop
  | [] => True
  | t :: ts => Separated t ∧ (IsText t → ∀ u ∈ ts.head?, ¬IsText u) ∧ SeparatedAll ts

end

/-- Puts a tree in front of a forest, into its first text if both are texts. -/
def joinCons : Tree → List Tree → List Tree
  | text a, text b :: ts => text (a ++ b) :: ts
  | t, ts => t :: ts

mutual

/-- The tree with each run of neighbouring texts merged into one. -/
def joined : Tree → Tree
  | element tag attributes children => element tag attributes (joinedAll children)
  | text content => text content
  | comment content => comment content

/-- The forest with each run of neighbouring texts merged into one. -/
def joinedAll : List Tree → List Tree
  | [] => []
  | t :: ts => joinCons (joined t) (joinedAll ts)

end

mutual

/-- The step from a forest's elements to a tree's, for `forestInduction`. -/
theorem treeInduction {P : List Tree → Prop} (nil : P [])
    (text : ∀ content ts, P ts → P (text content :: ts))
    (comment : ∀ content ts, P ts → P (comment content :: ts))
    (element : ∀ tag attributes children ts, P children → P ts →
      P (element tag attributes children :: ts)) :
    ∀ (t : Tree) (ts : List Tree), P ts → P (t :: ts)
  | .text content, ts, hts => text content ts hts
  | .comment content, ts, hts => comment content ts hts
  | .element tag attributes children, ts, hts =>
    element tag attributes children ts
      (forestInduction nil text comment element children) hts

/-- Induction over a forest: the first tree's children come first, then its neighbours. -/
@[elab_as_elim]
theorem forestInduction {P : List Tree → Prop} (nil : P [])
    (text : ∀ content ts, P ts → P (text content :: ts))
    (comment : ∀ content ts, P ts → P (comment content :: ts))
    (element : ∀ tag attributes children ts, P children → P ts →
      P (element tag attributes children :: ts)) : ∀ ts, P ts
  | [] => nil
  | t :: ts =>
    treeInduction nil text comment element t ts
      (forestInduction nil text comment element ts)

end

theorem writeAll_append (spell : Spelling) (ts us : List Tree) :
    writeAll spell (ts ++ us) = writeAll spell ts ++ writeAll spell us := by
  induction ts with
  | nil => rfl
  | cons t ts ih => rw [List.cons_append, writeAll, writeAll, ih, List.append_assoc]

theorem writeAll_joinCons (spell : Spelling) (t : Tree) (ts : List Tree) :
    writeAll spell (joinCons t ts) = write spell t ++ writeAll spell ts := by
  unfold joinCons
  split
  · next a b ts =>
      simp only [writeAll, write, String.toList_append, escape, List.flatMap_append,
        List.append_assoc]
  · rfl

/-- Merging texts does not change what is written. -/
theorem writeAll_joinedAll (spell : Spelling) (ts : List Tree) :
    writeAll spell (joinedAll ts) = writeAll spell ts := by
  induction ts using forestInduction with
  | nil => rfl
  | text content ts ih => rw [joinedAll, writeAll_joinCons, joined, ih, writeAll]
  | comment content ts ih => rw [joinedAll, writeAll_joinCons, joined, ih, writeAll]
  | element tag attributes children ts ihc ih =>
      rw [joinedAll, writeAll_joinCons, joined, ih, writeAll, write, write, ihc]

theorem writableAll_joinCons {t : Tree} {ts : List Tree} (ht : Writable t)
    (hts : WritableAll ts) : WritableAll (joinCons t ts) := by
  unfold joinCons
  split
  · next a b ts =>
      refine ⟨?_, hts.2⟩
      intro hnil
      exact ht (String.append_eq_empty_iff.mp hnil).1
  · exact ⟨ht, hts⟩

/-- Merging texts keeps a forest writable. -/
theorem writableAll_joinedAll {ts : List Tree} (h : WritableAll ts) :
    WritableAll (joinedAll ts) := by
  induction ts using forestInduction with
  | nil => exact h
  | text content ts ih => exact writableAll_joinCons h.1 (ih h.2)
  | comment content ts ih => exact writableAll_joinCons h.1 (ih h.2)
  | element tag attributes children ts ihc ih =>
      rcases h with ⟨⟨htag, hattributes, hvoid, hchildren⟩, hts⟩
      refine writableAll_joinCons ⟨htag, hattributes, ?_, ihc hchildren⟩ (ih hts)
      intro hv
      rw [hvoid hv, joinedAll]

theorem separatedAll_joinCons {t : Tree} {ts : List Tree} (ht : Separated t)
    (hts : SeparatedAll ts) : SeparatedAll (joinCons t ts) := by
  unfold joinCons
  split
  · next a b ts => exact ⟨trivial, fun _ => hts.2.1 ⟨b, rfl⟩, hts.2.2⟩
  · next t ts hne =>
      refine ⟨ht, ?_, hts⟩
      rintro ⟨a, rfl⟩ u hu ⟨b, rfl⟩
      rcases List.head?_eq_some_iff.mp hu with ⟨vs, rfl⟩
      exact hne a b vs rfl rfl

/-- After merging no text stands next to another one. -/
theorem separatedAll_joinedAll (ts : List Tree) : SeparatedAll (joinedAll ts) := by
  induction ts using forestInduction with
  | nil => exact trivial
  | text content ts ih => exact separatedAll_joinCons trivial ih
  | comment content ts ih => exact separatedAll_joinCons trivial ih
  | element tag attributes children ts ihc ih => exact separatedAll_joinCons ihc ih

end Tree

end Markup

end LiveTemplate
