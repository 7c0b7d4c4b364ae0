import LiveTemplate.Proofs.Markup.Forest
import LiveTemplate.Proofs.World.Access
import LiveTemplate.View.Content

/-!
# Planted Markup

Nodes that stand for trees, and planting as the way in which they come about.

Nodes stand for a forest if each has the kind and the attributes of a tree of it and
children that stand for the tree's children. A child lies behind its parent among the
nodes, as it does when markup is planted. This is what bounds the depth: going down
from a node there are fewer and fewer nodes left, so that reading the nodes back
comes to an end before the bound that it is given.

Planting only adds nodes. The new ones stand for the planted forest, and each of them
holds as a form field what its attributes say. They are counted in document order, so
what is planted beneath a node fills the places between the node and its next
neighbour.

## Main definitions

* `World.StandFor`: Nodes that stand for trees, all of them in some condition.
* `Node.IsFresh`: A node as planting leaves it.
* `World.Planted`: What planting does to the world.
* `World.Spans`: Nodes that fill the places from one to another in document order.

## Theorems

* `StandFor.trees?_eq`: Nodes that stand for trees read as these trees.
* `StandFor.outline?_eq`: With the form values of the attributes they read as the outline.
* `planted_plantForest`: What planting does to the world.
* `spans_plantForest`: Planted nodes are counted in document order.
-/

namespace LiveTemplate

open Markup

variable {κ σ : Type}

namespace World

/-- The nodes stand for the trees, and all nodes in them are in a condition. -/
inductive StandFor (w : World κ σ) (ok : NodeId → Prop) : List NodeId → List Tree → Prop
  /-- No nodes stand for no trees. -/
  | nil : StandFor w ok [] []
  /-- A text node. -/
  | text {n : NodeId} {content : String} {ns : List NodeId} {ts : List Tree} (hok : ok n)
      (hlt : n.index < w.nodes.size) (hkind : (w.node n).kind = .text content)
      (hns : StandFor w ok ns ts) : StandFor w ok (n :: ns) (.text content :: ts)
  /-- A comment node. -/
  | comment {n : NodeId} {content : String} {ns : List NodeId} {ts : List Tree} (hok : ok n)
      (hlt : n.index < w.nodes.size) (hkind : (w.node n).kind = .comment content)
      (hns : StandFor w ok ns ts) : StandFor w ok (n :: ns) (.comment content :: ts)
  /-- An element with its children, which lie behind it. -/
  | element {n : NodeId} {tag : String} {children : List Tree} {ns : List NodeId}
      {ts : List Tree} (hok : ok n) (hlt : n.index < w.nodes.size)
      (hkind : (w.node n).kind = .element tag)
      (hbehind : ∀ c ∈ (w.node n).children, n.index < c.index)
      (hchildren : StandFor w ok (w.node n).children children) (hns : StandFor w ok ns ts) :
      StandFor w ok (n :: ns) (.element tag (w.node n).attributes children :: ts)

namespace StandFor

variable {w w' : World κ σ} {ok ok' : NodeId → Prop} {ns : List NodeId} {ts : List Tree}

theorem forall_ok (h : w.StandFor ok ns ts) : ∀ n ∈ ns, ok n := by
  induction h with
  | nil => exact fun n hn => absurd hn List.not_mem_nil
  | text hok _ _ _ ih => exact List.forall_mem_cons.mpr ⟨hok, ih⟩
  | comment hok _ _ _ ih => exact List.forall_mem_cons.mpr ⟨hok, ih⟩
  | element hok _ _ _ _ _ _ ih => exact List.forall_mem_cons.mpr ⟨hok, ih⟩

/-- An element from what is known of its node. -/
theorem element_of_node {n : NodeId} {tag : String} {attributes : Attributes}
    {cs : List NodeId} {children : List Tree} (hok : ok n) (hlt : n.index < w.nodes.size)
    (hkind : (w.node n).kind = .element tag) (hattributes : (w.node n).attributes = attributes)
    (hcs : (w.node n).children = cs) (hbehind : ∀ c ∈ cs, n.index < c.index)
    (hchildren : w.StandFor ok cs children) (h : w.StandFor ok ns ts) :
    w.StandFor ok (n :: ns) (.element tag attributes children :: ts) := by
  subst hattributes hcs
  exact element hok hlt hkind hbehind hchildren h

/-- Nodes that are left as they were stand for what they stood for. -/
theorem mono (h : w.StandFor ok ns ts) (hsize : w.nodes.size ≤ w'.nodes.size)
    (hok : ∀ n, ok n → n.index < w.nodes.size →
      ok' n ∧ (w'.node n).kind = (w.node n).kind ∧
        (w'.node n).attributes = (w.node n).attributes ∧
        (w'.node n).children = (w.node n).children) : w'.StandFor ok' ns ts := by
  induction h with
  | nil => exact nil
  | text hn hlt hkind _ ih =>
      rcases hok _ hn hlt with ⟨hn', hkind', _, _⟩
      exact text hn' (Nat.lt_of_lt_of_le hlt hsize) (hkind'.trans hkind) ih
  | comment hn hlt hkind _ ih =>
      rcases hok _ hn hlt with ⟨hn', hkind', _, _⟩
      exact comment hn' (Nat.lt_of_lt_of_le hlt hsize) (hkind'.trans hkind) ih
  | element hn hlt hkind hbehind _ _ ihc ih =>
      rcases hok _ hn hlt with ⟨hn', hkind', hattributes, hchildren⟩
      rw [← hattributes]
      refine element hn' (Nat.lt_of_lt_of_le hlt hsize) (hkind'.trans hkind) ?_ ?_ ih
      · rw [hchildren]
        exact hbehind
      · rw [hchildren]
        exact ihc

/-- As deep as there are nodes left behind the roots, the nodes read as the trees. -/
theorem gather?_treeWithin? (h : w.StandFor ok ns ts) {depth : Nat}
    (hdepth : ∀ n ∈ ns, w.nodes.size ≤ n.index + depth) :
    gather? (fun n => (w.treeWithin? depth n).map ([·])) ns = some ts := by
  induction h generalizing depth with
  | nil => rfl
  | @text n content ns ts _ hlt hkind _ ih =>
      rw [List.forall_mem_cons] at hdepth
      have hneighbours := ih hdepth.2
      rcases depth with _ | depth
      · exact absurd hdepth.1 (Nat.not_le_of_lt hlt)
      · have htree : w.treeWithin? (depth + 1) n = some (.text content) := by
          simp only [treeWithin?, hkind]
        simp only [gather?, htree, hneighbours, Option.map_some, List.singleton_append]
  | @comment n content ns ts _ hlt hkind _ ih =>
      rw [List.forall_mem_cons] at hdepth
      have hneighbours := ih hdepth.2
      rcases depth with _ | depth
      · exact absurd hdepth.1 (Nat.not_le_of_lt hlt)
      · have htree : w.treeWithin? (depth + 1) n = some (.comment content) := by
          simp only [treeWithin?, hkind]
        simp only [gather?, htree, hneighbours, Option.map_some, List.singleton_append]
  | @element n tag children ns ts _ hlt hkind hbehind _ _ ihc ih =>
      rw [List.forall_mem_cons] at hdepth
      have hneighbours := ih hdepth.2
      rcases depth with _ | depth
      · exact absurd hdepth.1 (Nat.not_le_of_lt hlt)
      · have hbelow : ∀ c ∈ (w.node n).children, w.nodes.size ≤ c.index + depth := by
          intro c hc
          have hc := hbehind c hc
          omega
        have htree : w.treeWithin? (depth + 1) n =
            some (.element tag (w.node n).attributes children) := by
          simp only [treeWithin?, hkind, ihc hbelow, Option.map_some]
        simp only [gather?, htree, hneighbours, Option.map_some, List.singleton_append]

/-- Nodes that stand for trees read as these trees. -/
theorem trees?_eq (h : w.StandFor ok ns ts) : w.trees? ns = some ts :=
  h.gather?_treeWithin? fun n _ => Nat.le_add_left w.nodes.size n.index

theorem tree?_eq {n : NodeId} {t : Tree} (h : w.StandFor ok [n] [t]) : w.tree? n = some t := by
  have htrees := h.trees?_eq
  rw [trees?, gather?, gather?] at htrees
  cases hread : w.tree? n with
  | none =>
      rw [hread] at htrees
      exact absurd htrees (by simp only [Option.map_none, reduceCtorEq, not_false_eq_true])
  | some t' =>
      rw [hread] at htrees
      simp only [Option.map_some, List.append_nil, Option.some.injEq, List.cons.injEq,
        and_true] at htrees
      rw [htrees]

/-- As deep as there are nodes left behind the roots, the nodes read as the outline of the
    trees. -/
theorem gather?_outlineWithin? (h : w.StandFor ok ns ts)
    (hvalue : ∀ n, ok n → (w.node n).value = Attributes.formValue (w.node n).attributes)
    {limit depth : Nat} (hlimit : ∀ n ∈ ns, w.nodes.size ≤ n.index + limit) :
    gather? (w.outlineWithin? limit depth) ns = some (outlineForest depth ts) := by
  induction h generalizing limit depth with
  | nil => rfl
  | @text n content ns ts _ hlt hkind _ ih =>
      rw [List.forall_mem_cons] at hlimit
      have hneighbours := @ih limit depth hlimit.2
      rcases limit with _ | limit
      · exact absurd hlimit.1 (Nat.not_le_of_lt hlt)
      · have hlines : w.outlineWithin? (limit + 1) depth n = some [⟨depth, .text content⟩] := by
          simp only [outlineWithin?, hkind]
        simp only [gather?, hlines, hneighbours, outlineForest, outlineTree]
  | @comment n content ns ts _ hlt hkind _ ih =>
      rw [List.forall_mem_cons] at hlimit
      have hneighbours := @ih limit depth hlimit.2
      rcases limit with _ | limit
      · exact absurd hlimit.1 (Nat.not_le_of_lt hlt)
      · have hlines : w.outlineWithin? (limit + 1) depth n =
            some [⟨depth, .comment content⟩] := by
          simp only [outlineWithin?, hkind]
        simp only [gather?, hlines, hneighbours, outlineForest, outlineTree]
  | @element n tag children ns ts hok hlt hkind hbehind _ _ ihc ih =>
      rw [List.forall_mem_cons] at hlimit
      have hneighbours := @ih limit depth hlimit.2
      rcases limit with _ | limit
      · exact absurd hlimit.1 (Nat.not_le_of_lt hlt)
      · have hbelow : ∀ c ∈ (w.node n).children, w.nodes.size ≤ c.index + limit := by
          intro c hc
          have hc := hbehind c hc
          omega
        have hlines : w.outlineWithin? (limit + 1) depth n =
            some (outlineTree depth (.element tag (w.node n).attributes children)) := by
          simp only [outlineWithin?, hkind, ihc hbelow, Option.map_some, outlineTree,
            hvalue n hok]
        simp only [gather?, hlines, hneighbours, outlineForest]

/-- With the form values of their attributes the nodes read as the outline of the trees. -/
theorem outline?_eq (h : w.StandFor ok ns ts)
    (hvalue : ∀ n, ok n → (w.node n).value = Attributes.formValue (w.node n).attributes) :
    gather? w.outline? ns = some (outline ts) :=
  h.gather?_outlineWithin? hvalue fun n _ => Nat.le_add_left w.nodes.size n.index

end StandFor

end World

/-- A node as planting leaves it: it holds what its attributes say and has no listeners. -/
structure Node.IsFresh (node : Node κ) : Prop where
  /-- It holds what its attributes say. -/
  value : node.value = node.attributes.formValue
  /-- Nothing stands beneath it unless it is an element. -/
  leaf : node.kind.isElement = false → node.children = []
  /-- Its form value has not been set by itself. -/
  edited : node.edited = false
  /-- Nothing listens to it. -/
  listeners : node.listeners = []

namespace World

/-- Nodes for a forest have been planted, beneath a parent that is yet to list them. -/
structure Planted (w : World κ σ) (parent : Option NodeId) (ts : List Tree) (ns : List NodeId)
    (w' : World κ σ) : Prop where
  /-- There are more nodes. -/
  grown : w.nodes.size ≤ w'.nodes.size
  /-- The nodes that were there are as they were. -/
  kept : ∀ m : NodeId, m.index < w.nodes.size → w'.node m = w.node m
  /-- The new nodes stand for the forest. -/
  stand : w'.StandFor (fun n => w.nodes.size ≤ n.index ∧ (w'.node n).IsFresh) ns ts
  /-- They know their parent. -/
  parents : ∀ n ∈ ns, (w'.node n).parent = parent
  /-- Nothing else has changed. -/
  rest : w.OnlyNodes w'

theorem Planted.nil (w : World κ σ) (parent : Option NodeId) : w.Planted parent [] [] w :=
  ⟨Nat.le_refl _, fun _ _ => rfl, StandFor.nil, fun _ hn => absurd hn List.not_mem_nil,
    OnlyNodes.refl w⟩

/-- Planting one more root in front: its own node, and what has been planted beneath it. -/
theorem Planted.cons {w w₁ w₂ : World κ σ} {parent : Option NodeId} {t : Tree} {ts : List Tree}
    {n : NodeId} {ns : List NodeId} (h₁ : w.Planted parent [t] [n] w₁)
    (h₂ : w₁.Planted parent ts ns w₂) : w.Planted parent (t :: ts) (n :: ns) w₂ := by
  have hlt : n.index < w₁.nodes.size := by
    cases h₁.stand with
    | text _ hlt => exact hlt
    | comment _ hlt => exact hlt
    | element _ hlt => exact hlt
  refine ⟨Nat.le_trans h₁.grown h₂.grown, ?_, ?_, ?_, ?_⟩
  · intro m hm
    rw [h₂.kept m (Nat.lt_of_lt_of_le hm h₁.grown), h₁.kept m hm]
  · have hfirst : w₂.StandFor (fun n => w.nodes.size ≤ n.index ∧ (w₂.node n).IsFresh) [n] [t] := by
      refine h₁.stand.mono h₂.grown ?_
      intro m hm hmlt
      rw [h₂.kept m hmlt]
      exact ⟨hm, rfl, rfl, rfl⟩
    have hrest : w₂.StandFor (fun n => w.nodes.size ≤ n.index ∧ (w₂.node n).IsFresh) ns ts := by
      refine h₂.stand.mono (Nat.le_refl _) ?_
      intro m hm _
      exact ⟨⟨Nat.le_trans h₁.grown hm.1, hm.2⟩, rfl, rfl, rfl⟩
    cases hfirst with
    | text hok hlt hkind _ => exact .text hok hlt hkind hrest
    | comment hok hlt hkind _ => exact .comment hok hlt hkind hrest
    | element hok hlt hkind hbehind hchildren _ =>
        exact .element hok hlt hkind hbehind hchildren hrest
  · intro m hm
    rcases List.mem_cons.mp hm with rfl | hm
    · rw [h₂.kept m hlt]
      exact h₁.parents m List.mem_cons_self
    · exact h₂.parents m hm
  · exact h₁.rest.trans h₂.rest

/-- Planting a text or a comment adds its node. -/
theorem planted_addNode (w : World κ σ) (parent : Option NodeId) {t : Tree} {kind : NodeKind}
    (ht : (∃ content, kind = .text content ∧ t = .text content) ∨
      ∃ content, kind = .comment content ∧ t = .comment content) :
    w.Planted parent [t] [(w.addNode { kind, parent }).1] (w.addNode { kind, parent }).2 := by
  have hnew := node_addNode_fst w { kind, parent }
  have hlt : (w.addNode { kind, parent }).1.index < (w.addNode { kind, parent }).2.nodes.size := by
    rw [size_nodes_addNode]
    exact Nat.lt_succ_self _
  have hfresh : ((w.addNode { kind, parent }).2.node (w.addNode { kind, parent }).1).IsFresh := by
    rw [hnew]
    exact ⟨rfl, fun _ => rfl, rfl, rfl⟩
  refine ⟨?_, fun m hm => node_addNode_of_lt w _ hm, ?_, ?_, rfl⟩
  · rw [size_nodes_addNode]
    exact Nat.le_succ _
  · rcases ht with ⟨content, rfl, rfl⟩ | ⟨content, rfl, rfl⟩
    · exact .text ⟨Nat.le_refl _, hfresh⟩ hlt (by rw [hnew]) .nil
    · exact .comment ⟨Nat.le_refl _, hfresh⟩ hlt (by rw [hnew]) .nil
  · intro m hm
    rw [List.mem_singleton.mp hm, hnew]

/-- Planting an element adds its node, then what is beneath it, and then lists that. -/
theorem Planted.element {w w₂ : World κ σ} {parent : Option NodeId} {node : Node κ} {tag : String}
    {children : List Tree} {cs : List NodeId} (hkind : node.kind = .element tag)
    (hfresh : node.IsFresh) (hparent : node.parent = parent)
    (h : (w.addNode node).2.Planted (some (w.addNode node).1) children cs w₂) :
    w.Planted parent [.element tag node.attributes children] [(w.addNode node).1]
      (w₂.setChildren (w.addNode node).1 cs) := by
  have hsize := size_nodes_addNode w node
  have hlt : (w.addNode node).1.index < w₂.nodes.size := by
    refine Nat.lt_of_lt_of_le ?_ h.grown
    rw [hsize]
    exact Nat.lt_succ_self _
  have hroot : (w₂.setChildren (w.addNode node).1 cs).node (w.addNode node).1 =
      { node with children := cs } := by
    have hkept := h.kept (w.addNode node).1 (by rw [hsize]; exact Nat.lt_succ_self _)
    rw [setChildren, node_updateNode, if_pos ⟨rfl, hlt⟩, hkept, node_addNode_fst]
  have hother : ∀ m, m ≠ (w.addNode node).1 →
      (w₂.setChildren (w.addNode node).1 cs).node m = w₂.node m :=
    fun m hm => node_updateNode_of_ne w₂ _ (Ne.symm hm)
  have hbehind : ∀ c : NodeId, (w.addNode node).2.nodes.size ≤ c.index →
      (w.addNode node).1.index < c.index := by
    intro c hc
    rw [hsize] at hc
    exact hc
  refine ⟨?_, ?_, ?_, ?_, ?_⟩
  · rw [setChildren, size_nodes_updateNode]
    exact Nat.le_trans (hsize ▸ Nat.le_succ _) h.grown
  · intro m hm
    have hne : m ≠ (w.addNode node).1 := by
      rintro rfl
      exact Nat.lt_irrefl _ hm
    rw [hother m hne, h.kept m (by rw [hsize]; omega), node_addNode_of_lt w node hm]
  · have hchildren : (w₂.setChildren (w.addNode node).1 cs).StandFor (fun n =>
        w.nodes.size ≤ n.index ∧ ((w₂.setChildren (w.addNode node).1 cs).node n).IsFresh)
        cs children := by
      refine h.stand.mono (Nat.le_of_eq (size_nodes_updateNode _ _ _).symm) ?_
      rintro m ⟨hm, hmfresh⟩ _
      have hne : m ≠ (w.addNode node).1 := by
        rintro rfl
        exact Nat.lt_irrefl _ (hbehind _ hm)
      rw [hother m hne]
      exact ⟨⟨Nat.le_trans (hsize ▸ Nat.le_succ _) hm, hmfresh⟩, rfl, rfl, rfl⟩
    have hlt' : (w.addNode node).1.index <
        (w₂.setChildren (w.addNode node).1 cs).nodes.size := by
      rw [setChildren, size_nodes_updateNode]
      exact hlt
    refine StandFor.element_of_node ⟨Nat.le_refl _, ?_⟩ hlt' ?_ ?_ ?_ ?_ hchildren .nil
    · rw [hroot]
      refine ⟨hfresh.value, fun hleaf => ?_, hfresh.edited, hfresh.listeners⟩
      exact absurd hleaf (by simp only [hkind, NodeKind.isElement, Bool.true_eq_false,
        not_false_eq_true])
    · rw [hroot]
      exact hkind
    · rw [hroot]
    · rw [hroot]
    · exact fun c hc => hbehind c (h.stand.forall_ok c hc).1
  · intro m hm
    rw [List.mem_singleton.mp hm, hroot]
    exact hparent
  · exact ((OnlyNodes.addNode w node).trans h.rest).trans (OnlyNodes.updateNode w₂ _ _)

/-- Planting a forest beneath a parent that is yet to list it. -/
theorem planted_plantAllUnder (parent : Option NodeId) (ts : List Tree) (w : World κ σ) :
    w.Planted parent ts (plantAllUnder parent ts w).1 (plantAllUnder parent ts w).2 := by
  induction ts using Tree.forestInduction generalizing parent w with
  | nil => exact Planted.nil w parent
  | text content ts ih =>
      exact (planted_addNode w parent (Or.inl ⟨content, rfl, rfl⟩)).cons (ih _ _)
  | comment content ts ih =>
      exact (planted_addNode w parent (Or.inr ⟨content, rfl, rfl⟩)).cons (ih _ _)
  | element tag attributes children ts ihc ih =>
      let node : Node κ :=
        { kind := .element tag, attributes, value := attributes.formValue, parent }
      have hfresh : node.IsFresh := ⟨rfl, fun _ => rfl, rfl, rfl⟩
      have hroot : w.Planted parent [.element tag attributes children] _ _ :=
        Planted.element rfl hfresh rfl (ihc (some (w.addNode node).1) (w.addNode node).2)
      exact hroot.cons (ih _ _)

/-- Planting a forest by itself. -/
theorem planted_plantForest (ts : List Tree) (w : World κ σ) :
    w.Planted none ts (plantForest ts w).1 (plantForest ts w).2 :=
  planted_plantAllUnder none ts w

/-- Starting from one place, the nodes and everything beneath them fill the places up to
    another one in document order. -/
inductive Spans (w : World κ σ) : Nat → List NodeId → Nat → Prop
  /-- No nodes fill no places. -/
  | nil {start : Nat} : Spans w start [] start
  /-- A node, what is beneath it, and the nodes after it. -/
  | cons {start middle stop : Nat} {ns : List NodeId} (hlt : start < w.nodes.size)
      (hbeneath : Spans w (start + 1) (w.node ⟨start⟩).children middle)
      (hafter : Spans w middle ns stop) : Spans w start (⟨start⟩ :: ns) stop

namespace Spans

variable {w w' : World κ σ} {start stop : Nat} {ns : List NodeId}

theorem le (h : w.Spans start ns stop) : start ≤ stop := by
  induction h with
  | nil => exact Nat.le_refl _
  | cons _ _ _ ihb iha => exact Nat.le_trans (Nat.le_of_lt ihb) iha

/-- Nodes whose children are the same fill the same places. -/
theorem congr (h : w.Spans start ns stop) (hgrown : w.nodes.size ≤ w'.nodes.size)
    (hsame : ∀ n : NodeId, start ≤ n.index → n.index < stop →
      (w'.node n).children = (w.node n).children) : w'.Spans start ns stop := by
  induction h with
  | nil => exact nil
  | @cons start middle stop ns hlt hbeneath hafter ihb iha =>
      have hmiddle := hbeneath.le
      have hstop := hafter.le
      refine cons (Nat.lt_of_lt_of_le hlt hgrown) ?_ (iha fun n hn => hsame n (by omega))
      rw [hsame ⟨start⟩ (Nat.le_refl _) (Nat.lt_of_lt_of_le hmiddle hstop)]
      exact ihb fun n hn hlt => hsame n (by omega) (by omega)

end Spans

/-- A root that has been planted, in front of what is planted after it. -/
theorem Spans.plantAfter {w w₁ : World κ σ} {parent : Option NodeId} {ts : List Tree}
    (hlt : w.nodes.size < w₁.nodes.size)
    (hroot : w₁.Spans (w.nodes.size + 1) (w₁.node ⟨w.nodes.size⟩).children w₁.nodes.size)
    (hafter : (plantAllUnder parent ts w₁).2.Spans w₁.nodes.size (plantAllUnder parent ts w₁).1
      (plantAllUnder parent ts w₁).2.nodes.size) :
    (plantAllUnder parent ts w₁).2.Spans w.nodes.size
      (⟨w.nodes.size⟩ :: (plantAllUnder parent ts w₁).1)
      (plantAllUnder parent ts w₁).2.nodes.size := by
  have hplanted := planted_plantAllUnder parent ts w₁
  refine cons (Nat.lt_of_lt_of_le hlt hplanted.grown) ?_ hafter
  rw [hplanted.kept ⟨w.nodes.size⟩ hlt]
  refine hroot.congr hplanted.grown fun n _ hn => ?_
  rw [hplanted.kept n hn]

/-- A leaf has nothing beneath it. -/
theorem Spans.leaf (parent : Option NodeId) (w : World κ σ) (kind : NodeKind) :
    (w.addNode { kind, parent }).2.Spans (w.nodes.size + 1)
      ((w.addNode { kind, parent }).2.node ⟨w.nodes.size⟩).children
      (w.addNode { kind, parent }).2.nodes.size := by
  have hnew := node_addNode_fst w { kind, parent }
  have hchildren : ((w.addNode { kind, parent }).2.node ⟨w.nodes.size⟩).children = [] :=
    congrArg Node.children hnew
  rw [hchildren, size_nodes_addNode]
  exact .nil

/-- A node that comes to list the nodes in the places behind it. -/
theorem Spans.setChildren {w : World κ σ} {n : NodeId} {cs : List NodeId} {stop : Nat}
    (h : w.Spans (n.index + 1) cs stop) (hn : n.index < w.nodes.size) :
    (w.setChildren n cs).Spans (n.index + 1) ((w.setChildren n cs).node n).children stop := by
  have hchildren : ((w.setChildren n cs).node n).children = cs := by
    rw [World.setChildren, node_updateNode, if_pos ⟨rfl, hn⟩]
  rw [hchildren]
  refine h.congr (Nat.le_of_eq (size_nodes_updateNode w _ _).symm) fun m hm _ => ?_
  have hne : n ≠ m := by
    rintro rfl
    exact Nat.lt_irrefl _ hm
  rw [World.setChildren, node_updateNode_of_ne w _ hne]

/-- Planted nodes are counted in document order. -/
theorem spans_plantAllUnder (parent : Option NodeId) (ts : List Tree) (w : World κ σ) :
    (plantAllUnder parent ts w).2.Spans w.nodes.size (plantAllUnder parent ts w).1
      (plantAllUnder parent ts w).2.nodes.size := by
  have hlt : ∀ (w : World κ σ) (node : Node κ), w.nodes.size < (w.addNode node).2.nodes.size := by
    intro w node
    rw [size_nodes_addNode]
    exact Nat.lt_succ_self _
  induction ts using Tree.forestInduction generalizing parent w with
  | nil => exact .nil
  | text content ts ih => exact Spans.plantAfter (hlt w _) (.leaf parent w (.text content)) (ih _ _)
  | comment content ts ih =>
      exact Spans.plantAfter (hlt w _) (.leaf parent w (.comment content)) (ih _ _)
  | element tag attributes children ts ihc ih =>
      let node : Node κ :=
        { kind := .element tag, attributes, value := attributes.formValue, parent }
      rcases hbelow : plantAllUnder (some (w.addNode node).1) children (w.addNode node).2
        with ⟨cs, w₂⟩
      have hplanted := planted_plantAllUnder (some (w.addNode node).1) children (w.addNode node).2
      have hspans := ihc (some (w.addNode node).1) (w.addNode node).2
      rw [hbelow] at hplanted hspans
      rw [size_nodes_addNode] at hspans
      have hn : w.nodes.size < w₂.nodes.size := Nat.lt_of_lt_of_le (hlt w node) hplanted.grown
      have hsize : (w₂.setChildren (w.addNode node).1 cs).nodes.size = w₂.nodes.size :=
        size_nodes_updateNode w₂ _ _
      have hroot : (w₂.setChildren (w.addNode node).1 cs).Spans (w.nodes.size + 1)
          ((w₂.setChildren (w.addNode node).1 cs).node ⟨w.nodes.size⟩).children
          (w₂.setChildren (w.addNode node).1 cs).nodes.size := by
        rw [hsize]
        exact Spans.setChildren hspans hn
      rw [← hsize] at hn
      have hall := Spans.plantAfter hn hroot (ih parent (w₂.setChildren (w.addNode node).1 cs))
      have hstep : plantAllUnder parent (.element tag attributes children :: ts) w =
          (⟨w.nodes.size⟩ :: (plantAllUnder parent ts (w₂.setChildren (w.addNode node).1 cs)).1,
            (plantAllUnder parent ts (w₂.setChildren (w.addNode node).1 cs)).2) := by
        rw [plantAllUnder, plantUnder]
        simp only [node] at hbelow
        simp only [hbelow]
        rfl
      rw [hstep]
      exact hall

/-- Planted nodes are counted in document order. -/
theorem spans_plantForest (ts : List Tree) (w : World κ σ) :
    (plantForest ts w).2.Spans w.nodes.size (plantForest ts w).1
      (plantForest ts w).2.nodes.size :=
  spans_plantAllUnder none ts w

end World

end LiveTemplate
