/-!
# Markup Trees

What markup describes: elements with attributes and children, texts, and comments.

Attributes keep the order in which their names first appear. Setting an attribute
again replaces its value where it stands, so the names stay distinct whatever the
markup repeats.

## Main definitions

* `Attributes`: The attributes of an element in order.
* `Attributes.get?`, `Attributes.set`, `Attributes.erase`: Look-up and edits by name.
* `Tree`: An element, a text or a comment.
* `isVoid`: Tags of the elements that never have children.
* `Tree.textContent`: What a reader of the tree sees.
* `Tree.beq`: Being one and the same tree, which is decided by it.
-/

namespace LiveTemplate

namespace Markup

/-- Attribute names and values in document order. -/
abbrev Attributes := List (String × String)

namespace Attributes

/-- The value under `name`. -/
def get? (name : String) : Attributes → Option String
  | [] => none
  | (n, v) :: rest => if n = name then some v else get? name rest

/-- Puts `value` under `name`, in place if the name is there and at the end if not. -/
def set (name value : String) : Attributes → Attributes
  | [] => [(name, value)]
  | (n, v) :: rest => if n = name then (n, value) :: rest else (n, v) :: set name value rest

/-- Drops the first attribute called `name`. -/
def erase (name : String) : Attributes → Attributes
  | [] => []
  | (n, v) :: rest => if n = name then rest else (n, v) :: erase name rest

end Attributes

/-- A piece of markup. -/
inductive Tree where
  /-- An element with its tag, its attributes and its children. -/
  | element (tag : String) (attributes : Attributes) (children : List Tree)
  /-- Running text. -/
  | text (content : String)
  /-- A comment. -/
  | comment (content : String)
  deriving Inhabited

/-- Elements that have neither children nor a closing tag. -/
def voidTags : List String :=
  ["br", "hr", "img", "input", "link", "meta"]

/-- An element with this tag stays empty. -/
def isVoid (tag : String) : Bool :=
  voidTags.contains tag

namespace Tree

/-- The tag of an element; empty for texts and comments. -/
def tag : Tree → String
  | element tag _ _ => tag
  | _ => ""

/-- The children of an element. -/
def children : Tree → List Tree
  | element _ _ children => children
  | _ => []

/-- The tree is an element. -/
def isElement : Tree → Bool
  | element .. => true
  | _ => false

mutual

/-- The texts inside an element, comments left out. -/
def visibleText : Tree → String
  | element _ _ children => visibleTexts children
  | text content => content
  | comment _ => ""

/-- The texts inside a list of trees. -/
def visibleTexts : List Tree → String
  | [] => ""
  | t :: ts => visibleText t ++ visibleTexts ts

end

/-- A text's or a comment's own content, and the visible text of an element. -/
def textContent : Tree → String
  | element _ _ children => visibleTexts children
  | text content => content
  | comment content => content

/-! ### Being one and the same tree -/

mutual

/-- The trees are one and the same. -/
def beq : Tree → Tree → Bool
  | element tag attributes children, element tag' attributes' children' =>
    tag == tag' && attributes == attributes' && beqAll children children'
  | text content, text content' => content == content'
  | comment content, comment content' => content == content'
  | _, _ => false

/-- The same, tree by tree. -/
def beqAll : List Tree → List Tree → Bool
  | [], [] => true
  | t :: ts, u :: us => beq t u && beqAll ts us
  | _, _ => false

end

mutual

theorem beq_iff (t u : Tree) : t.beq u = true ↔ t = u := by
  cases t with
  | element tag attributes children =>
      cases u with
      | element tag' attributes' children' =>
          rw [beq, Bool.and_eq_true, Bool.and_eq_true, beq_iff_eq, beq_iff_eq,
            beqAll_iff children children', element.injEq, and_assoc]
      | _ => simp only [beq, Bool.false_eq_true, reduceCtorEq]
  | _ =>
      cases u with
      | _ => simp only [beq, beq_iff_eq, Bool.false_eq_true, reduceCtorEq, text.injEq,
          comment.injEq]

theorem beqAll_iff (ts us : List Tree) : beqAll ts us = true ↔ ts = us := by
  cases ts with
  | nil =>
      cases us with
      | nil => simp only [beqAll]
      | cons u us => simp only [beqAll, Bool.false_eq_true, reduceCtorEq]
  | cons t ts =>
      cases us with
      | nil => simp only [beqAll, Bool.false_eq_true, reduceCtorEq]
      | cons u us => rw [beqAll, Bool.and_eq_true, beq_iff t u, beqAll_iff ts us, List.cons.injEq]

end

instance : DecidableEq Tree := fun t u =>
  decidable_of_iff (t.beq u = true) (beq_iff t u)

end Tree

end Markup

end LiveTemplate
