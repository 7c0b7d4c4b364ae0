import LiveTemplate.World.Liveness

/-!
# The Structure of the View

Nodes and how they stand beneath each other.

A child list and a parent link say the same thing twice, and every move keeps the
two in step: a node that is put beneath another one leaves the place where it was
before. A node cannot be put beneath itself. A parent that is gone counts as none.

## Main definitions

* `World.newNode`: A node by itself.
* `World.lineage`: A node and those above it.
* `World.detach`, `World.append`, `World.replaceChildren`: Moves.
* `World.find?`: The first node at or beneath a node that satisfies a test.
* `World.setAttribute`, `World.setValue`: Attributes and the form value of a node.
-/

namespace LiveTemplate

/-- The tag of an element; empty for texts and comments. -/
def NodeKind.tag : NodeKind → String
  | element tag => tag
  | _ => ""

/-- The node is an element. -/
def NodeKind.isElement : NodeKind → Bool
  | element _ => true
  | _ => false

/-- The node is a text. -/
def NodeKind.isText : NodeKind → Bool
  | text _ => true
  | _ => false

/-- The kind of an element with the given tag, of which ASCII letters count in lower
    case. -/
def NodeKind.ofTag (tag : String) : NodeKind :=
  .element (String.ofList (tag.toList.map Char.toLower))

/-- The node as diagnostics show it. -/
def Node.summary {κ : Type} (n : Node κ) : NodeSummary :=
  match n.kind with
  | .element tag => .element tag n.children.length
  | .text content => .text content
  | .comment content => .comment content

/-- A node after an attribute is set. The attribute `value` sets the form value too, until
    that has been set by itself. -/
def Node.withAttribute {κ : Type} (n : Node κ) (name value : String) : Node κ :=
  { n with
    attributes := n.attributes.set name value
    value := if name = "value" ∧ n.edited = false then value else n.value }

namespace World

variable {κ σ : Type}

/-- A new node by itself. -/
def newNode (w : World κ σ) (kind : NodeKind) : NodeId × World κ σ :=
  w.addNode { kind }

/-- Sets an attribute of a node. -/
def setAttribute (w : World κ σ) (n : NodeId) (name value : String) : World κ σ :=
  w.updateNode n (·.withAttribute name value)

/-- Removes an attribute of a node. -/
def removeAttribute (w : World κ σ) (n : NodeId) (name : String) : World κ σ :=
  w.updateNode n fun node => { node with attributes := node.attributes.erase name }

/-- Sets the form value of a node. -/
def setValue (w : World κ σ) (n : NodeId) (value : String) : World κ σ :=
  w.updateNode n fun node => { node with value, edited := true }

/-- Sets the parent link of a node. -/
def setParent (w : World κ σ) (n : NodeId) (parent : Option NodeId) : World κ σ :=
  w.updateNode n fun node => { node with parent }

/-- Sets the children of a node. -/
def setChildren (w : World κ σ) (n : NodeId) (children : List NodeId) : World κ σ :=
  w.updateNode n fun node => { node with children }

/-- A node's listeners to a kind of event, in the order of their registration. -/
def listenersOf (w : World κ σ) (n : NodeId) (kind : String) : List (Listener κ) :=
  ((w.node n).listeners.filter (·.1 == kind)).map (·.2)

/-- Adds a listener to a node. -/
def listen (w : World κ σ) (n : NodeId) (kind : String) (listener : Listener κ) : World κ σ :=
  w.updateNode n fun node => { node with listeners := node.listeners ++ [(kind, listener)] }

variable [Client σ]

/-- At most `limit` nodes from a node upward. -/
def lineageWithin (w : World κ σ) : (limit : Nat) → NodeId → List NodeId
  | 0, _ => []
  | limit + 1, n =>
    n :: match w.parent? n with
      | some p => lineageWithin w limit p
      | none => []

/-- A node and those above it, from the inside out. In a forest none is above itself, and
    there are no more of them than nodes. -/
def lineage (w : World κ σ) (n : NodeId) : List NodeId :=
  w.lineageWithin w.nodes.size n

/-- A node stands beneath another one, or is it. -/
def isBeneath (w : World κ σ) (n above : NodeId) : Bool :=
  (w.lineage n).contains above

/-- Takes a node away from its parent. -/
def detach (w : World κ σ) (n : NodeId) : World κ σ :=
  let w :=
    match w.parent? n with
    | some p => w.updateNode p fun node => { node with children := node.children.filter (· != n) }
    | none => w
  w.setParent n none

/-- Puts a node beneath another one, behind its children. A node is not put beneath
    itself. -/
def append (w : World κ σ) (parent child : NodeId) : World κ σ :=
  if w.isBeneath parent child then w.notice (.beneathItself (w.node parent).kind.tag)
  else
    let w := (w.detach child).setParent child (some parent)
    w.updateNode parent fun node => { node with children := node.children ++ [child] }

/-- Moves a node out of its place and links it to a parent that is yet to list it. -/
def adopt (parent : NodeId) (w : World κ σ) (n : NodeId) : World κ σ :=
  (w.detach n).setParent n (some parent)

/-- Gives a node other children. The old ones stand by themselves afterwards, unless they
    are among the new ones. Until then all of them are held on to, so a new child leaves
    its place even if that is beneath an old one. -/
def replaceChildren (w : World κ σ) (n : NodeId) (children : List NodeId) : World κ σ :=
  let old := (w.node n).children
  w.holding ((n :: old ++ children).map .node) fun w =>
    let w := w.setChildren n []
    let w := old.foldl (fun w c => w.setParent c none) w
    let w := children.foldl (adopt n) w
    w.setChildren n children

omit [Client σ] in
/-- Joins the lists that `f?` gives for the elements of a list. -/
def gather? {α : Type} (f? : NodeId → Option (List α)) : List NodeId → Option (List α)
  | [] => some []
  | n :: ns =>
    match f? n, gather? f? ns with
    | some as, some bs => some (as ++ bs)
    | _, _ => none

/-- What a search has come to: the node that it was for, if it has been found, and the
    number of nodes that were looked at. -/
abbrev Finding := Option NodeId × Nat

omit [Client σ] in
/-- Searches in one place after the other, until something is found. -/
def findAmong? (find? : NodeId → Option Finding) : List NodeId → Option Finding
  | [] => some (none, 0)
  | n :: ns =>
    match find? n with
    | some (none, visited) =>
      (findAmong? find? ns).map fun (found, more) => (found, visited + more)
    | finding => finding

omit [Client σ] in
/-- Searches a node and what stands beneath it, unless that takes it `depth` levels down. -/
def findWithin? (w : World κ σ) (test : NodeId → Bool) : (depth : Nat) → NodeId → Option Finding
  | 0, _ => none
  | depth + 1, n =>
    if test n then some (some n, 1)
    else
      (findAmong? (w.findWithin? test depth) (w.node n).children).map fun (found, visited) =>
        (found, visited + 1)

omit [Client σ] in
/-- The first node that satisfies a test, of a node and everything beneath it in document
    order. A search that goes deeper than there are nodes has come to a node beneath
    itself, and will not come to an end. -/
def find? (w : World κ σ) (test : NodeId → Bool) (n : NodeId) : Option Finding :=
  w.findWithin? test w.nodes.size n

end World

end LiveTemplate
