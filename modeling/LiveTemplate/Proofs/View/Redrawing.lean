import LiveTemplate.Proofs.View.Frame

/-!
# Redrawing a Node

What showing a value at a node does to the nodes.

Only the node itself is drawn again. What it gets to hold is new, and the nodes that
it held before stay as they were, though nothing stands above them any more: apart
from links to parents, no other node that was there changes. The node itself keeps
its attributes and listeners, and it changes in one aspect only: its own content, its
children or its form value.

## Main definitions

* `Node.loose`: A node without the link to its parent.
* `World.Rehung`: The children of one node have changed.
* `Aspect`: What a rendering changes about its node.
* `World.Redrawn`: One aspect of one node has changed.
* `Rendering.forest`: What a rendering puts beneath its node.
* `World.Bears`: A text is in the view where a rendering puts it.

## Theorems

* `rehung_replaceChildren`: New children for a node.
* `redrawn_render`: Showing a value changes one aspect of its node.
* `own_render`, `beneath_render`, `field_render`: What is there afterwards.
* `bears_render`: What has been rendered is in the view.
-/

namespace LiveTemplate

open Markup

/-- The node without the link to its parent. -/
def Node.loose {κ : Type} (node : Node κ) : Node κ :=
  { node with parent := none }

namespace Node

variable {κ : Type} {a b : Node κ} (h : a.loose = b.loose)

include h

theorem kind_of_loose : a.kind = b.kind := by
  have hpart := congrArg kind h
  exact hpart

theorem attributes_of_loose : a.attributes = b.attributes := by
  have hpart := congrArg attributes h
  exact hpart

theorem children_of_loose : a.children = b.children := by
  have hpart := congrArg children h
  exact hpart

theorem value_of_loose : a.value = b.value := by
  have hpart := congrArg value h
  exact hpart

theorem listeners_of_loose : a.listeners = b.listeners := by
  have hpart := congrArg listeners h
  exact hpart

end Node

namespace World

section Rehanging

variable {κ σ : Type}

/-- Nothing has changed but the children of one node, and links to parents. -/
structure Rehung (w w' : World κ σ) (n : NodeId) : Prop where
  /-- There are as many nodes. -/
  size : w'.nodes.size = w.nodes.size
  /-- The other nodes are as they were. -/
  others : ∀ m, m ≠ n → (w'.node m).loose = (w.node m).loose
  /-- The node is as it was, apart from its children. -/
  self : { (w'.node n).loose with children := [] } = { (w.node n).loose with children := [] }

namespace Rehung

theorem refl (w : World κ σ) (n : NodeId) : w.Rehung w n :=
  ⟨rfl, fun _ _ => rfl, rfl⟩

theorem trans {w₁ w₂ w₃ : World κ σ} {n : NodeId} (h₁ : w₁.Rehung w₂ n) (h₂ : w₂.Rehung w₃ n) :
    w₁.Rehung w₃ n :=
  ⟨h₂.size.trans h₁.size, fun m hm => (h₂.others m hm).trans (h₁.others m hm),
    h₂.self.trans h₁.self⟩

/-- A change of a link to a parent. -/
theorem setParent (w : World κ σ) (n m : NodeId) (parent : Option NodeId) :
    w.Rehung (w.setParent m parent) n := by
  have hkeeps : ∀ node : Node κ, { node with parent }.loose = node.loose := fun _ => rfl
  have hloose : ∀ c, ((w.setParent m parent).node c).loose = (w.node c).loose :=
    fun c => node_updateNode_congr Node.loose hkeeps w m c
  exact ⟨size_nodes_updateNode w m _, fun c _ => hloose c, by rw [hloose]⟩

/-- A change of the children of the node. -/
theorem updateChildren (w : World κ σ) (n : NodeId) (change : List NodeId → List NodeId) :
    w.Rehung (w.updateNode n fun node => { node with children := change node.children }) n := by
  have hkeeps : ∀ node : Node κ,
      { ({ node with children := change node.children } : Node κ).loose with children := [] } =
        { node.loose with children := [] } := fun _ => rfl
  refine ⟨size_nodes_updateNode w n _, ?_, ?_⟩
  · intro m hm
    rw [node_updateNode_of_ne w _ (Ne.symm hm)]
  · exact node_updateNode_congr (fun node => { node.loose with children := [] }) hkeeps w n n

theorem foldl {α : Type} {step : World κ σ → α → World κ σ} {n : NodeId}
    (h : ∀ (w : World κ σ) a, w.Rehung (step w a) n) (as : List α) (w : World κ σ) :
    w.Rehung (as.foldl step w) n := by
  induction as generalizing w with
  | nil => exact refl w n
  | cons a as ih => exact (h w a).trans (ih (step w a))

end Rehung

theorem parent_children (change : List NodeId → List NodeId) (node : Node κ) :
    ({ node with children := change node.children } : Node κ).parent = node.parent :=
  rfl

variable [Client σ]

/-- Moving a node that stands nowhere, or beneath the node already, to the node. -/
theorem rehung_adopt {w : World κ σ} {n c : NodeId}
    (hc : (w.node c).parent = none ∨ (w.node c).parent = some n) :
    w.Rehung (adopt n w c) n := by
  have hdetached : w.Rehung (w.detach c) n := by
    have hleft : w.parent? c = none ∨ w.parent? c = some n := by
      rw [parent?]
      rcases hc with hc | hc
      · rw [hc]
        exact Or.inl rfl
      · rw [hc, Option.filter_some]
        split
        · exact Or.inr rfl
        · exact Or.inl rfl
    unfold detach
    rcases hleft with hleft | hleft
    · rw [hleft]
      exact Rehung.setParent w n c none
    · rw [hleft]
      exact (Rehung.updateChildren w n (·.filter (· != c))).trans (Rehung.setParent _ n c none)
  exact hdetached.trans (Rehung.setParent _ n c (some n))

theorem parent_adopt {w : World κ σ} {n c m : NodeId}
    (hm : (w.node m).parent = none ∨ (w.node m).parent = some n) :
    ((adopt n w c).node m).parent = none ∨ ((adopt n w c).node m).parent = some n := by
  have hset : ∀ (v : World κ σ) (parent : Option NodeId), parent = none ∨ parent = some n →
      (v.node m).parent = none ∨ (v.node m).parent = some n →
      ((v.setParent c parent).node m).parent = none ∨
        ((v.setParent c parent).node m).parent = some n := by
    intro v parent hparent hv
    rw [World.setParent, node_updateNode]
    split
    · exact hparent
    · exact hv
  refine hset _ _ (Or.inr rfl) ?_
  unfold detach
  split
  · next p _ =>
      refine hset _ _ (Or.inl rfl) ?_
      rw [node_updateNode_congr Node.parent (parent_children _)]
      exact hm
  · exact hset _ _ (Or.inl rfl) hm

/-- Nodes that stand nowhere are moved to the node one after the other. -/
theorem rehung_foldl_adopt {n : NodeId} (cs : List NodeId) {w : World κ σ}
    (hcs : ∀ c ∈ cs, (w.node c).parent = none ∨ (w.node c).parent = some n) :
    w.Rehung (cs.foldl (adopt n) w) n := by
  induction cs generalizing w with
  | nil => exact Rehung.refl w n
  | cons c cs ih =>
      rw [List.forall_mem_cons] at hcs
      exact (rehung_adopt hcs.1).trans (ih fun m hm => parent_adopt (hcs.2 m hm))

/-- New children for a node, which stand nowhere yet. -/
theorem rehung_replaceChildren {w : World κ σ} {n : NodeId} {cs : List NodeId}
    (hcs : ∀ c ∈ cs, (w.node c).parent = none) :
    w.Rehung (w.replaceChildren n cs) n ∧
      (n.index < w.nodes.size → ((w.replaceChildren n cs).node n).children = cs) := by
  generalize hpinned : ({ w with
    pins := (n :: (w.node n).children ++ cs).map .node ++ w.pins } : World κ σ) = v
  have hv : ∀ m, v.node m = w.node m := fun m => by rw [← hpinned]; rfl
  have hvsize : v.nodes.size = w.nodes.size := by rw [← hpinned]
  let cleared := v.setChildren n []
  let left := (w.node n).children.foldl (fun w c => w.setParent c none) cleared
  let moved := cs.foldl (adopt n) left
  have hcleared : v.Rehung cleared n := Rehung.updateChildren v n fun _ => []
  have hleft : cleared.Rehung left n :=
    Rehung.foldl (fun w c => Rehung.setParent w n c none) _ cleared
  have hparents : ∀ c ∈ cs, (left.node c).parent = none ∨ (left.node c).parent = some n := by
    intro c hc
    have hfirst : (cleared.node c).parent = none := by
      rw [← hcs c hc, ← hv]
      exact node_updateNode_congr Node.parent (parent_children fun _ => []) v n c
    have hfold : ∀ (old : List NodeId) (u : World κ σ), (u.node c).parent = none →
        ((old.foldl (fun w c => w.setParent c none) u).node c).parent = none := by
      intro old
      induction old with
      | nil => exact fun u hu => hu
      | cons o old ih =>
          intro u hu
          refine ih (u.setParent o none) ?_
          rw [World.setParent, node_updateNode]
          split
          · rfl
          · exact hu
    exact Or.inl (hfold _ cleared hfirst)
  have hmoved : left.Rehung moved n := rehung_foldl_adopt cs hparents
  have hlisted : moved.Rehung (moved.setChildren n cs) n :=
    Rehung.updateChildren moved n fun _ => cs
  have hall := ((hcleared.trans hleft).trans hmoved).trans hlisted
  have hnodes : ∀ m, (w.replaceChildren n cs).node m = (moved.setChildren n cs).node m := by
    intro m
    simp only [moved, left, cleared, ← hpinned]
    rfl
  have hsize : (w.replaceChildren n cs).nodes.size = (moved.setChildren n cs).nodes.size := by
    simp only [moved, left, cleared, ← hpinned]
    rfl
  refine ⟨⟨?_, ?_, ?_⟩, ?_⟩
  · rw [hsize, hall.size, hvsize]
  · intro m hm
    rw [hnodes, hall.others m hm, hv]
  · rw [hnodes, hall.self, hv]
  · intro hn
    have hlt : n.index < moved.nodes.size := by
      rw [hmoved.size, hleft.size, hcleared.size, hvsize]
      exact hn
    rw [hnodes, World.setChildren, node_updateNode, if_pos ⟨rfl, hlt⟩]

end Rehanging

end World

/-- What a rendering changes about its node. -/
inductive Aspect where
  /-- The content of a text. -/
  | own
  /-- The children of an element. -/
  | beneath
  /-- The form value. -/
  | field
  deriving DecidableEq

namespace Rendering

/-- What the rendering changes about its node. -/
def aspect : Rendering → Aspect
  | interpolated _ _ => .own
  | text _ => .beneath
  | markup _ => .beneath
  | field _ => .field

/-- What the rendering puts beneath its node. -/
def forest : Rendering → String → List Tree
  | text _, shown => if shown.isEmpty then [] else [.text shown]
  | markup _, shown => parse shown
  | _, _ => []

/-- The rendering is for nodes of this kind. -/
def Fits (r : Rendering) (kind : NodeKind) : Prop :=
  (∃ content, kind = .text content ∧ r.aspect = .own) ∨
    ∃ tag, kind = .element tag ∧ r.aspect ≠ .own

end Rendering

namespace World

/-- One aspect of one node has changed, there may be more nodes, and links to parents may be
    different. -/
structure Redrawn {κ σ : Type} (w w' : World κ σ) (n : NodeId) (a : Aspect) : Prop where
  /-- There may be more nodes. -/
  grown : w.nodes.size ≤ w'.nodes.size
  /-- The other nodes are as they were. -/
  others : ∀ m : NodeId, m.index < w.nodes.size → m ≠ n → (w'.node m).loose = (w.node m).loose
  /-- The node has its attributes and its listeners. -/
  self : (w'.node n).attributes = (w.node n).attributes ∧
    (w'.node n).listeners = (w.node n).listeners
  /-- It has its own content, or that is what has changed. -/
  own : a ≠ .own → (w'.node n).kind = (w.node n).kind
  /-- It has its children, or these are what has changed. -/
  beneath : a ≠ .beneath → (w'.node n).children = (w.node n).children
  /-- It has its form value, or this is what has changed. -/
  field : a ≠ .field → (w'.node n).value = (w.node n).value

/-- Nothing stands beneath the node unless it is an element. -/
def IsLeaf {κ σ : Type} (w : World κ σ) (n : NodeId) : Prop :=
  (w.node n).kind.isElement = false → (w.node n).children = []

section Redrawing

variable {ν τ : Type}

/-- Only the nodes matter. -/
theorem Redrawn.of_nodes {κ σ : Type} {w w' v v' : World κ σ} {n : NodeId} {a : Aspect}
    (h : w.Redrawn w' n a) (hv : v.nodes = w.nodes) (hv' : v'.nodes = w'.nodes) :
    v.Redrawn v' n a := by
  have hnode : ∀ m, v.node m = w.node m := fun m => by rw [node, hv, ← node]
  have hnode' : ∀ m, v'.node m = w'.node m := fun m => by rw [node, hv', ← node]
  refine ⟨?_, ?_, ?_, ?_, ?_, ?_⟩
  · rw [hv, hv']
    exact h.grown
  · intro m hm hne
    rw [hv] at hm
    rw [hnode, hnode']
    exact h.others m hm hne
  · rw [hnode, hnode']
    exact h.self
  · rw [hnode, hnode']
    exact h.own
  · rw [hnode, hnode']
    exact h.beneath
  · rw [hnode, hnode']
    exact h.field

/-- A change to one aspect of the node itself. -/
theorem Redrawn.updateNode {κ σ : Type} (w : World κ σ) (n : NodeId) {a : Aspect}
    {change : Node κ → Node κ}
    (hself : ∀ node, (change node).attributes = node.attributes ∧
      (change node).listeners = node.listeners)
    (hown : a ≠ .own → ∀ node, (change node).kind = node.kind)
    (hbeneath : a ≠ .beneath → ∀ node, (change node).children = node.children)
    (hfield : a ≠ .field → ∀ node, (change node).value = node.value) :
    w.Redrawn (w.updateNode n change) n a where
  grown := Nat.le_of_eq (size_nodes_updateNode w n change).symm
  others m _ hm := by rw [node_updateNode_of_ne w change (Ne.symm hm)]
  self := ⟨node_updateNode_congr Node.attributes (fun node => (hself node).1) w n n,
    node_updateNode_congr Node.listeners (fun node => (hself node).2) w n n⟩
  own ha := node_updateNode_congr Node.kind (hown ha) w n n
  beneath ha := node_updateNode_congr Node.children (hbeneath ha) w n n
  field ha := node_updateNode_congr Node.value (hfield ha) w n n

/-- New nodes, and a node whose children have changed. -/
theorem Redrawn.of_rehung {κ σ : Type} {w v w' : World κ σ} {n : NodeId}
    (hn : n.index < w.nodes.size) (hgrown : w.nodes.size ≤ v.nodes.size)
    (hkept : ∀ m : NodeId, m.index < w.nodes.size → v.node m = w.node m) (h : v.Rehung w' n) :
    w.Redrawn w' n .beneath := by
  have hself := h.self
  rw [hkept n hn] at hself
  refine ⟨?_, ?_, ⟨?_, ?_⟩, fun _ => ?_, fun ha => absurd rfl ha, fun _ => ?_⟩
  · rw [h.size]
    exact hgrown
  · intro m hm hne
    rw [h.others m hne, hkept m hm]
  · have hpart := congrArg Node.attributes hself
    exact hpart
  · have hpart := congrArg Node.listeners hself
    exact hpart
  · have hpart := congrArg Node.kind hself
    exact hpart
  · have hpart := congrArg Node.value hself
    exact hpart

/-- Renderings beneath a node plant something and put it there. -/
theorem render_eq_of_beneath {w : ClientWorld ν τ} {r : Rendering} (hr : r.aspect = .beneath)
    (hfits : r.Fits (w.node r.target).kind) (shown : String) :
    w.render r shown = (plantForest (r.forest shown) w).2.replaceChildren r.target
      (plantForest (r.forest shown) w).1 := by
  have helement : ∃ tag, (w.node r.target).kind = .element tag := by
    rcases hfits with ⟨_, _, hown⟩ | ⟨tag, htag, _⟩
    · rw [hr] at hown
      exact absurd hown (by simp only [reduceCtorEq, not_false_eq_true])
    · exact ⟨tag, htag⟩
  rcases helement with ⟨tag, htag⟩
  cases r with
  | interpolated target i => exact absurd hr (by simp only [Rendering.aspect, reduceCtorEq,
      not_false_eq_true])
  | field target => exact absurd hr (by simp only [Rendering.aspect, reduceCtorEq,
      not_false_eq_true])
  | text target =>
      rw [Rendering.target] at htag ⊢
      simp only [World.render, setText, htag, Rendering.forest]
      split
      · rfl
      · rfl
  | markup target =>
      rw [Rendering.target] at htag ⊢
      simp only [World.render, setHtml, htag, Rendering.forest, plantMarkup_eq]

/-- Showing a value changes one aspect of its node. -/
theorem redrawn_render {w : ClientWorld ν τ} {r : Rendering}
    (hlt : r.target.index < w.nodes.size) (hfits : r.Fits (w.node r.target).kind)
    (shown : String) : w.Redrawn (w.render r shown) r.target r.aspect := by
  by_cases hr : r.aspect = .beneath
  · have hplanted := planted_plantForest (r.forest shown) w
    rw [render_eq_of_beneath hr hfits, hr]
    exact Redrawn.of_rehung hlt hplanted.grown hplanted.kept
      (rehung_replaceChildren fun c hc => hplanted.parents c hc).1
  · cases r with
    | text target => exact absurd rfl hr
    | markup target => exact absurd rfl hr
    | interpolated target i =>
        rcases hfits with ⟨content, hcontent, _⟩ | ⟨_, _, hown⟩
        · rw [Rendering.target] at hcontent
          simp only [World.render, setText, hcontent, Rendering.target, Rendering.aspect]
          exact Redrawn.updateNode w target (fun _ => ⟨rfl, rfl⟩) (fun ha => absurd rfl ha)
            (fun _ _ => rfl) (fun _ _ => rfl)
        · exact absurd rfl hown
    | field target =>
        exact Redrawn.updateNode w target (fun _ => ⟨rfl, rfl⟩) (fun _ _ => rfl)
          (fun _ _ => rfl) (fun ha => absurd rfl ha)

/-- What is beneath a node after a rendering there. Nothing stands beneath its texts. -/
theorem beneath_render {w : ClientWorld ν τ} {r : Rendering} (hr : r.aspect = .beneath)
    (hlt : r.target.index < w.nodes.size) (hfits : r.Fits (w.node r.target).kind)
    (shown : String) :
    (w.render r shown).StandFor (fun c => w.nodes.size ≤ c.index ∧ (w.render r shown).IsLeaf c)
        ((w.render r shown).node r.target).children (r.forest shown) ∧
      (w.render r shown).Spans w.nodes.size ((w.render r shown).node r.target).children
        (w.render r shown).nodes.size := by
  have hplanted := planted_plantForest (r.forest shown) w
  have hspans := spans_plantForest (r.forest shown) w
  have hrehung := rehung_replaceChildren (n := r.target) fun c hc => hplanted.parents c hc
  have hsame : ∀ m : NodeId, w.nodes.size ≤ m.index →
      (((plantForest (r.forest shown) w).2.replaceChildren r.target
        (plantForest (r.forest shown) w).1).node m).loose =
          ((plantForest (r.forest shown) w).2.node m).loose := by
    intro m hm
    refine hrehung.1.others m ?_
    rintro rfl
    exact absurd hlt (Nat.not_lt_of_le hm)
  rw [render_eq_of_beneath hr hfits, hrehung.2 (Nat.lt_of_lt_of_le hlt hplanted.grown),
    hrehung.1.size]
  constructor
  · refine hplanted.stand.mono (Nat.le_of_eq hrehung.1.size.symm) ?_
    rintro m ⟨hm, hfresh⟩ _
    have hloose := hsame m hm
    have hkind := Node.kind_of_loose hloose
    have hchildren := Node.children_of_loose hloose
    refine ⟨⟨hm, fun hleaf => ?_⟩, hkind, Node.attributes_of_loose hloose, hchildren⟩
    rw [hkind] at hleaf
    rw [hchildren]
    exact hfresh.leaf hleaf
  · refine hspans.congr (Nat.le_of_eq hrehung.1.size.symm) ?_
    exact fun m hm _ => Node.children_of_loose (hsame m hm)

/-- What a text is after a rendering into it. -/
theorem own_render {w : ClientWorld ν τ} {target : NodeId} {i : Interpolation}
    (hlt : target.index < w.nodes.size)
    (hfits : (Rendering.interpolated target i).Fits (w.node target).kind) (shown : String) :
    ((w.render (.interpolated target i) shown).node target).kind = .text (i.render shown) := by
  rcases hfits with ⟨content, hcontent, _⟩ | ⟨_, _, hown⟩
  · simp only [World.render, setText, hcontent]
    rw [node_updateNode, if_pos ⟨rfl, hlt⟩]
  · exact absurd rfl hown

/-- What a form field holds after a rendering there. -/
theorem field_render {w : ClientWorld ν τ} {target : NodeId}
    (hlt : target.index < w.nodes.size) (shown : String) :
    ((w.render (.field target) shown).node target).value = shown := by
  simp only [World.render, setValue]
  rw [node_updateNode, if_pos ⟨rfl, hlt⟩]

/-- The text is in the view where the rendering puts it. If there is a forest for it, its nodes
    are in some condition. -/
def Bears {κ σ : Type} (w : World κ σ) (ok : NodeId → Prop) (r : Rendering) (shown : String) :
    Prop :=
  match r with
  | .interpolated n i => (w.node n).kind = .text (i.render shown)
  | .field n => (w.node n).value = shown
  | r => w.StandFor ok (w.node r.target).children (r.forest shown)

theorem bears_beneath_iff {κ σ : Type} {w : World κ σ} {ok : NodeId → Prop} {r : Rendering}
    {shown : String} (hr : r.aspect = .beneath) :
    w.Bears ok r shown ↔ w.StandFor ok (w.node r.target).children (r.forest shown) := by
  cases r with
  | interpolated n i =>
      exact absurd hr (by simp only [Rendering.aspect, reduceCtorEq, not_false_eq_true])
  | field n => exact absurd hr (by simp only [Rendering.aspect, reduceCtorEq, not_false_eq_true])
  | text n => exact Iff.rfl
  | markup n => exact Iff.rfl

/-- What is in the view stays, if the node keeps the aspect in question and the nodes of the
    forest are as they were. -/
theorem Bears.frame {κ σ : Type} {w w' : World κ σ} {ok ok' : NodeId → Prop} {r : Rendering}
    {shown : String} (h : w.Bears ok r shown) (hgrown : w.nodes.size ≤ w'.nodes.size)
    (hown : r.aspect = .own → (w'.node r.target).kind = (w.node r.target).kind)
    (hfield : r.aspect = .field → (w'.node r.target).value = (w.node r.target).value)
    (hbeneath : r.aspect = .beneath → (w'.node r.target).children = (w.node r.target).children)
    (hkept : ∀ c : NodeId, ok c → c.index < w.nodes.size → ok' c ∧
      (w'.node c).kind = (w.node c).kind ∧ (w'.node c).attributes = (w.node c).attributes ∧
        (w'.node c).children = (w.node c).children) :
    w'.Bears ok' r shown := by
  by_cases hr : r.aspect = .beneath
  · rw [bears_beneath_iff hr] at h ⊢
    rw [hbeneath hr]
    exact h.mono hgrown hkept
  · cases r with
    | interpolated n i => exact (hown rfl).trans h
    | field n => exact (hfield rfl).trans h
    | text n => exact absurd rfl hr
    | markup n => exact absurd rfl hr

/-- What has been rendered is in the view. -/
theorem bears_render {w : ClientWorld ν τ} {r : Rendering} (hlt : r.target.index < w.nodes.size)
    (hfits : r.Fits (w.node r.target).kind) (shown : String) :
    (w.render r shown).Bears (fun c => w.nodes.size ≤ c.index ∧ (w.render r shown).IsLeaf c) r
      shown := by
  by_cases hr : r.aspect = .beneath
  · exact (bears_beneath_iff hr).mpr (beneath_render hr hlt hfits shown).1
  · cases r with
    | interpolated n i => exact own_render hlt hfits shown
    | field n => exact field_render hlt shown
    | text n => exact absurd rfl hr
    | markup n => exact absurd rfl hr

end Redrawing

end World

end LiveTemplate
