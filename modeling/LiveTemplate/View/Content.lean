import LiveTemplate.Markup.Fragment
import LiveTemplate.Markup.Outline
import LiveTemplate.Markup.Printer
import LiveTemplate.View.Structure

/-!
# The Content of the View

Nodes as markup: planting markup as nodes, and reading nodes as markup.

Planting gives every piece of a tree a node of its own. Reading goes down the child
lists of elements; what has been put beneath a text or a comment is no part of its
markup.

## Main definitions

* `World.plant`, `World.plantForest`: Nodes for markup.
* `World.tree?`, `World.trees?`: The markup of a node and of several.
* `World.written?`: The markup text of several nodes, in some spelling.
* `World.outerHtml?`, `World.innerHtml?`, `World.textContent?`: What a node shows.
* `World.outline?`: The outline of a node.
* `World.setText`, `World.setHtml`: New content for a node.
-/

namespace LiveTemplate

open Markup

namespace World

variable {κ σ : Type}

mutual

/-- A node for a tree, beneath a parent that is yet to list it. -/
def plantUnder (parent : Option NodeId) (t : Tree) (w : World κ σ) : NodeId × World κ σ :=
  match t with
  | .text content => w.addNode { kind := .text content, parent }
  | .comment content => w.addNode { kind := .comment content, parent }
  | .element tag attributes children =>
    let (n, w) :=
      w.addNode { kind := .element tag, attributes, value := attributes.formValue, parent }
    let (ns, w) := plantAllUnder (some n) children w
    (n, w.setChildren n ns)

/-- Nodes for trees, beneath a parent that is yet to list them. -/
def plantAllUnder (parent : Option NodeId) (ts : List Tree) (w : World κ σ) :
    List NodeId × World κ σ :=
  match ts with
  | [] => ([], w)
  | t :: ts =>
    let (n, w) := plantUnder parent t w
    let (ns, w) := plantAllUnder parent ts w
    (n :: ns, w)

end

/-- A node for a tree. -/
def plant (t : Tree) (w : World κ σ) : NodeId × World κ σ :=
  plantUnder none t w

/-- Nodes for the trees of a forest. -/
def plantForest (ts : List Tree) (w : World κ σ) : List NodeId × World κ σ :=
  plantAllUnder none ts w

/-- The markup of a node, if its elements are at most `depth` deep. -/
def treeWithin? (w : World κ σ) : (depth : Nat) → NodeId → Option Tree
  | 0, _ => none
  | depth + 1, n =>
    let node := w.node n
    match node.kind with
    | .text content => some (.text content)
    | .comment content => some (.comment content)
    | .element tag =>
      (gather? (fun c => (w.treeWithin? depth c).map ([·])) node.children).map
        (.element tag node.attributes)

/-- The markup of a node. In a forest nothing lies deeper than there are nodes. -/
def tree? (w : World κ σ) (n : NodeId) : Option Tree :=
  w.treeWithin? w.nodes.size n

/-- The markup of several nodes. -/
def trees? (w : World κ σ) (ns : List NodeId) : Option (List Tree) :=
  gather? (fun n => (w.tree? n).map ([·])) ns

/-- The markup text of several nodes, one after the other. -/
def written? (spell : Spelling) (w : World κ σ) (ns : List NodeId) : Option String :=
  (w.trees? ns).map fun ts => String.ofList (Tree.writeAll spell ts)

/-- The markup text of a node. -/
def outerHtml? (w : World κ σ) (n : NodeId) : Option String :=
  w.written? .standard [n]

/-- The markup text of what stands beneath a node. -/
def innerHtml? (w : World κ σ) (n : NodeId) : Option String :=
  w.written? .standard (w.node n).children

/-- A text's or a comment's own content, and the visible text of an element. -/
def textContent? (w : World κ σ) (n : NodeId) : Option String :=
  (w.tree? n).map Tree.textContent

/-- The outline of a node at some depth, if it is at most `limit` levels high. -/
def outlineWithin? (w : World κ σ) : (limit depth : Nat) → NodeId → Option (List OutlineLine)
  | 0, _, _ => none
  | limit + 1, depth, n =>
    let node := w.node n
    match node.kind with
    | .text content => some [⟨depth, .text content⟩]
    | .comment content => some [⟨depth, .comment content⟩]
    | .element tag =>
      (gather? (w.outlineWithin? limit (depth + 1)) node.children).map
        (⟨depth, .element tag node.attributes node.value⟩ :: ·)

/-- The outline of a node. -/
def outline? (w : World κ σ) (n : NodeId) : Option (List OutlineLine) :=
  w.outlineWithin? w.nodes.size 0 n

variable [Client σ]

/-- Reads markup and plants it as nodes by themselves. -/
def plantMarkup (markup : String) (w : World κ σ) : List NodeId × World κ σ :=
  let fragment := Fragment.parse markup
  let w := w.noticeAll (fragment.strays.map .strayClosing)
  plantForest fragment.forest (w.notice (.markupRead fragment.forest.length))

/-- New text for a node. An element gets a single text beneath it, or nothing if the text
    is empty. -/
def setText (w : World κ σ) (n : NodeId) (content : String) : World κ σ :=
  match (w.node n).kind with
  | .text _ => w.updateNode n fun node => { node with kind := .text content }
  | .comment _ => w.updateNode n fun node => { node with kind := .comment content }
  | .element _ =>
    if content.isEmpty then w.replaceChildren n []
    else
      let (t, w) := w.newNode (.text content)
      w.replaceChildren n [t]

/-- New markup beneath an element. For texts and comments markup is plain text. -/
def setHtml (w : World κ σ) (n : NodeId) (markup : String) : World κ σ :=
  match (w.node n).kind with
  | .element _ =>
    let (ns, w) := w.plantMarkup markup
    w.replaceChildren n ns
  | _ => w.setText n markup

end World

end LiveTemplate
