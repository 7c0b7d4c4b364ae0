import LiveTemplate.Proofs.View.Redrawing
import LiveTemplate.Proofs.View.Sprouting

/-!
# Links and Texts

What putting a text at a node does to the links of a view.

A text that is put beneath an element pushes out what was there. It takes the links of
those nodes, and links itself to the element. No other link changes and no other node lists
anything else, so whoever stands beneath another node goes on standing there, as far up as
nobody puts texts.

A node that lists what does not link to it could lose its place to somebody else. In a view
that is built from a template there is no such node, and texts have nothing beneath them.
Putting texts keeps it that way.

## Main definitions

* `World.Tidy`: Texts and comments have nothing.
* `World.Linked`: What is listed links back, and only elements have anything.
* `World.SameShape`: Only form values and listeners have changed.
* `World.Retexted`: A text has been put at a node.

## Theorems

* `parent_replaceChildren`: Links after a node has got other children.
* `retexted_setText`: Putting a text at a node.
* `Retexted.linked`: It keeps links and lists together.
* `linked_plantForest`: They are together when a view has been planted.
-/

namespace LiveTemplate

open Markup
open Relation (TransGen)

namespace World

variable {κ σ : Type} {w w' v : World κ σ} {n : NodeId}

/-- Texts and comments have no children and no attributes. -/
def Tidy (w : World κ σ) : Prop :=
  ∀ m, (w.node m).kind.isElement = false →
    (w.node m).children = [] ∧ (w.node m).attributes = []

/-- What a node lists links back to it, and only elements list anything or have attributes. -/
structure Linked (w : World κ σ) : Prop where
  /-- What a node lists links back to it. -/
  listed : ∀ p c, c ∈ (w.node p).children → (w.node c).parent = some p
  /-- Texts and comments have no children and no attributes. -/
  tidy : w.Tidy

/-- Nodes differ in their form values and their listeners at most. -/
structure SameShape (w w' : World κ σ) : Prop where
  /-- There are as many nodes. -/
  size : w'.nodes.size = w.nodes.size
  /-- They have the same content. -/
  content : ∀ m, (w'.node m).kind = (w.node m).kind ∧
    (w'.node m).attributes = (w.node m).attributes
  /-- They stand where they stood. -/
  place : ∀ m, (w'.node m).children = (w.node m).children ∧
    (w'.node m).parent = (w.node m).parent

theorem SameShape.of_nodes (h : w'.nodes = w.nodes) : w.SameShape w' := by
  have hnode : ∀ m, w'.node m = w.node m := fun m => by rw [node, h, ← node]
  exact ⟨congrArg Heap.size h, fun m => by rw [hnode]; exact ⟨rfl, rfl⟩,
    fun m => by rw [hnode]; exact ⟨rfl, rfl⟩⟩

theorem SameShape.trans (h : w.SameShape v) (h' : v.SameShape w') : w.SameShape w' where
  size := h'.size.trans h.size
  content m := ⟨(h'.content m).1.trans (h.content m).1, (h'.content m).2.trans (h.content m).2⟩
  place m := ⟨(h'.place m).1.trans (h.place m).1, (h'.place m).2.trans (h.place m).2⟩

/-- Somebody more listens. -/
theorem SameShape.listen (w : World κ σ) (n : NodeId) (kind : String) (listener : Listener κ) :
    w.SameShape (w.listen n kind listener) := by
  have hpart : ∀ {β : Type} (part : Node κ → β),
      (∀ node entry, part { node with listeners := node.listeners ++ [entry] } = part node) →
        ∀ m, part ((w.listen n kind listener).node m) = part (w.node m) :=
    fun part hpart m => node_updateNode_congr part (fun node => hpart node _) w n m
  exact ⟨size_nodes_updateNode w n _,
    fun m => ⟨hpart Node.kind (fun _ _ => rfl) m, hpart Node.attributes (fun _ _ => rfl) m⟩,
    fun m => ⟨hpart Node.children (fun _ _ => rfl) m, hpart Node.parent (fun _ _ => rfl) m⟩⟩

theorem Linked.sameShape (h : w.Linked) (hsame : w.SameShape w') : w'.Linked where
  listed p c hc := by
    rw [(hsame.place p).1] at hc
    rw [(hsame.place c).2]
    exact h.listed p c hc
  tidy m hm := by
    rw [(hsame.content m).1] at hm
    rw [(hsame.place m).1, (hsame.content m).2]
    exact h.tidy m hm

/-- A node that is not there is blank. -/
theorem node_of_size_le {m : NodeId} (hm : w.nodes.size ≤ m.index) :
    w.node m = { kind := .text "" } := by
  rw [node, Heap.get?_eq_none hm]
  rfl

theorem size_foldl_clear (old : List NodeId) (w : World κ σ) :
    (old.foldl (fun w c => w.setParent c none) w).nodes.size = w.nodes.size := by
  induction old generalizing w with
  | nil => rfl
  | cons c old ih => rw [List.foldl_cons, ih, size_setParent]

/-- Nodes that come to stand by themselves one after the other. -/
theorem parent_foldl_clear (old : List NodeId) (w : World κ σ) (m : NodeId) :
    ((old.foldl (fun w c => w.setParent c none) w).node m).parent =
      if m ∈ old then none else (w.node m).parent := by
  induction old generalizing w with
  | nil => rw [List.foldl_nil, if_neg List.not_mem_nil]
  | cons c old ih =>
      rw [List.foldl_cons, ih, parent_setParent]
      by_cases hm : m ∈ old
      · rw [if_pos hm, if_pos (List.mem_cons_of_mem c hm)]
      · rw [if_neg hm]
        by_cases hcm : m = c
        · subst hcm
          rw [if_pos List.mem_cons_self]
          split
          · rfl
          · next hout =>
              rw [node_of_size_le (Nat.le_of_not_lt fun hlt => hout ⟨rfl, hlt⟩)]
        · rw [if_neg fun hand => hcm hand.1.symm,
            if_neg fun hmem => (List.mem_cons.mp hmem).elim hcm hm]

/-- A text has been put at a node. It may be beneath it, as a new node. -/
structure Retexted (w w' : World κ σ) (n : NodeId) : Prop where
  /-- There may be more nodes. -/
  grown : w.nodes.size ≤ w'.nodes.size
  /-- Elements are elements still, and all nodes have the attributes that they had. -/
  kept : ∀ m : NodeId, m.index < w.nodes.size →
    (w'.node m).kind.isElement = (w.node m).kind.isElement ∧
      (w'.node m).attributes = (w.node m).attributes
  /-- What was a text is one. -/
  texts : ∀ m, (w.node m).kind.isText = true → (w'.node m).kind.isText = true
  /-- A new node is a text with nothing to it. -/
  new : ∀ m : NodeId, w.nodes.size ≤ m.index → (w'.node m).kind.isText = true ∧
    (w'.node m).children = [] ∧ (w'.node m).attributes = []
  /-- The others list what they listed, and so does a node that is no element. -/
  children : ∀ p, p ≠ n ∨ (w.node p).kind.isElement = false →
    (w'.node p).children = (w.node p).children
  /-- The node lists new nodes only. -/
  beneath : ∀ c ∈ (w'.node n).children, w.nodes.size ≤ c.index ∧ (w'.node c).parent = some n
  /-- Whoever was beneath another node is so still. -/
  parent : ∀ c p, (w.node c).parent = some p → p ≠ n → (w'.node c).parent = some p
  /-- Whoever was by itself is so still. -/
  alone : ∀ m : NodeId, m.index < w.nodes.size → (w.node m).parent = none →
    (w'.node m).parent = none

namespace Retexted

/-- Links and lists go together still. -/
theorem linked (h : w.Retexted w' n) (hlinked : w.Linked) : w'.Linked where
  listed p c hc := by
    by_cases hp : p = n
    · subst hp
      exact (h.beneath c hc).2
    · rw [h.children p (.inl hp)] at hc
      exact h.parent c p (hlinked.listed p c hc) hp
  tidy m hm := by
    rcases Nat.lt_or_ge m.index w.nodes.size with hlt | hge
    · rw [(h.kept m hlt).1] at hm
      rw [h.children m (.inr hm), (h.kept m hlt).2]
      exact hlinked.tidy m hm
    · exact (h.new m hge).2

/-- Whatever a node lists it listed before, unless it is new. -/
theorem mem_children (h : w.Retexted w' n) {p c : NodeId} (hc : c ∈ (w'.node p).children) :
    c ∈ (w.node p).children ∨ w.nodes.size ≤ c.index := by
  by_cases hp : p = n
  · subst hp
    exact .inr (h.beneath c hc).1
  · rw [h.children p (.inl hp)] at hc
    exact .inl hc

end Retexted

theorem isElement_of_isText {kind : NodeKind} (h : kind.isText = true) :
    kind.isElement = false := by
  cases kind with
  | text content => rfl
  | element tag | comment content => exact absurd h Bool.false_ne_true

/-- A text lists nothing. -/
theorem Tidy.isText_eq_false (h : w.Tidy) {p c : NodeId} (hc : c ∈ (w.node p).children) :
    (w.node p).kind.isText = false := by
  rw [← Bool.not_eq_true]
  intro htext
  rw [(h p (isElement_of_isText htext)).1] at hc
  exact absurd hc List.not_mem_nil

/-- The content of a text or a comment is another one. -/
theorem retexted_updateNode {kind : NodeKind} (hlinked : w.Linked)
    (hn : (w.node n).kind.isElement = false) (hkind : kind.isElement = false)
    (htext : (w.node n).kind.isText = true → kind.isText = true) :
    w.Retexted (w.updateNode n fun node => { node with kind }) n := by
  have hpart : ∀ {β : Type} (part : Node κ → β), (∀ node, part { node with kind } = part node) →
      ∀ m, part ((w.updateNode n fun node => { node with kind }).node m) = part (w.node m) :=
    fun part h m => node_updateNode_congr part h w n m
  have hchildren := hpart Node.children fun _ => rfl
  have hparent := hpart Node.parent fun _ => rfl
  refine ⟨Nat.le_of_eq (size_nodes_updateNode w n _).symm, fun m _ => ⟨?_, ?_⟩,
    fun m hm => ?_, fun m hm => ?_, fun p _ => hchildren p, fun c hc => ?_,
    fun c p hc _ => (hparent c).trans hc, fun m _ hm => (hparent m).trans hm⟩
  · rw [node_updateNode]
    split
    · next hand => rw [hkind, ← hand.1, hn]
    · rfl
  · exact hpart Node.attributes (fun _ => rfl) m
  · rw [node_updateNode]
    split
    · next hand => exact htext (hand.1 ▸ hm)
    · exact hm
  · rw [node_updateNode, if_neg fun hand => Nat.not_lt_of_le hm hand.2, node_of_size_le hm]
    exact ⟨rfl, rfl, rfl⟩
  · rw [hchildren, (hlinked.tidy n hn).1] at hc
    exact absurd hc List.not_mem_nil

/-- The element is there. -/
theorem lt_of_isElement (hn : (w.node n).kind.isElement = true) : n.index < w.nodes.size := by
  by_contra hge
  rw [node_of_size_le (Nat.le_of_not_lt hge)] at hn
  exact absurd hn Bool.false_ne_true

variable [Client σ]

/-- Nodes that are moved to a node one after the other. -/
theorem parent_foldl_adopt {cs : List NodeId} (hcs : ∀ c ∈ cs, c.index < w.nodes.size)
    (m : NodeId) :
    ((cs.foldl (adopt n) w).node m).parent = if m ∈ cs then some n else (w.node m).parent := by
  induction cs generalizing w with
  | nil => rw [List.foldl_nil, if_neg List.not_mem_nil]
  | cons c cs ih =>
      rw [List.forall_mem_cons] at hcs
      rw [List.foldl_cons, ih fun x hx => by rw [size_adopt]; exact hcs.2 x hx,
        parent_adopt_eq n w hcs.1]
      by_cases hm : m ∈ cs
      · rw [if_pos hm, if_pos (List.mem_cons_of_mem c hm)]
      · rw [if_neg hm]
        by_cases hmc : m = c
        · rw [if_pos hmc, if_pos (hmc ▸ List.mem_cons_self)]
        · rw [if_neg hmc, if_neg fun hmem => (List.mem_cons.mp hmem).elim hmc hm]

/-- Links after a node has got other children: theirs lead to the node, and those of the ones that
    it had lead nowhere. -/
theorem parent_replaceChildren {cs : List NodeId} (hcs : ∀ c ∈ cs, c.index < w.nodes.size)
    (m : NodeId) :
    ((w.replaceChildren n cs).node m).parent =
      if m ∈ cs then some n
      else if m ∈ (w.node n).children then none else (w.node m).parent := by
  unfold replaceChildren holding
  dsimp only
  change (((cs.foldl (adopt n) _).setChildren n cs).node m).parent = _
  rw [parent_setChildren, parent_foldl_adopt fun c hc => by
    rw [size_foldl_clear, size_setChildren]
    exact hcs c hc]
  rw [parent_foldl_clear, parent_setChildren]
  rfl

section Beneath

variable {cs : List NodeId} (hlinked : w.Linked) (hn : (w.node n).kind.isElement = true)
  (hgrown : w.nodes.size ≤ v.nodes.size)
  (hkept : ∀ m : NodeId, m.index < w.nodes.size → v.node m = w.node m)
  (hblank : ∀ m : NodeId, w.nodes.size ≤ m.index →
    ∃ content, v.node m = { kind := .text content })
  (hcs : ∀ c ∈ cs, w.nodes.size ≤ c.index ∧ c.index < v.nodes.size)

include hblank hcs in
/-- New texts do not stand anywhere yet. -/
theorem rehung_of_blank : v.Rehung (v.replaceChildren n cs) n ∧
    (n.index < v.nodes.size → ((v.replaceChildren n cs).node n).children = cs) := by
  refine rehung_replaceChildren fun c hc => ?_
  rcases hblank c (hcs c hc).1 with ⟨content, hcontent⟩
  rw [hcontent]

include hn hkept hblank hcs in
/-- Apart from links the nodes are the ones that there were, and blank texts. Only the element
    has other children. -/
theorem loose_replaceChildren (m : NodeId) :
    (m.index < w.nodes.size → m ≠ n →
      ((v.replaceChildren n cs).node m).loose = (w.node m).loose) ∧
    (w.nodes.size ≤ m.index → ∃ content,
      ((v.replaceChildren n cs).node m).loose = Node.loose { kind := .text content }) := by
  have hothers := (rehung_of_blank (n := n) hblank hcs).1.others m
  refine ⟨fun hm hne => ?_, fun hm => ?_⟩
  · rw [hothers hne, hkept m hm]
  · rcases hblank m hm with ⟨content, hcontent⟩
    refine ⟨content, ?_⟩
    rw [hothers fun hmn => Nat.not_lt_of_le hm (hmn ▸ lt_of_isElement hn), hcontent]

include hn hkept hcs in
/-- The links of the nodes that there were lead where they led, unless they led to the element. -/
theorem parent_of_replaceChildren {m : NodeId} (hm : m.index < w.nodes.size) :
    ((v.replaceChildren n cs).node m).parent =
      if m ∈ (w.node n).children then none else (w.node m).parent := by
  rw [parent_replaceChildren (n := n) fun c hc => (hcs c hc).2, hkept m hm,
    hkept n (lt_of_isElement hn), if_neg fun hmem => Nat.not_lt_of_le (hcs m hmem).1 hm]

include hlinked hn hgrown hkept hblank hcs

/-- An element has got new texts beneath it instead of what was there. -/
theorem retexted_replaceChildren : w.Retexted (v.replaceChildren n cs) n := by
  have hlt := lt_of_isElement hn
  have hloose := loose_replaceChildren hn hkept hblank hcs
  have hparent := fun {m : NodeId} => parent_of_replaceChildren (m := m) hn hkept hcs
  rcases rehung_of_blank (n := n) hblank hcs with ⟨hrehung, hchildren⟩
  have hself := hrehung.self
  rw [hkept n hlt] at hself
  have hkind : ((v.replaceChildren n cs).node n).kind = (w.node n).kind := by
    have hpart := congrArg Node.kind hself
    exact hpart
  have hattributes : ((v.replaceChildren n cs).node n).attributes = (w.node n).attributes := by
    have hpart := congrArg Node.attributes hself
    exact hpart
  refine ⟨hrehung.size.symm ▸ hgrown, fun m hm => ?_, fun m hm => ?_, fun m hm => ?_,
    fun p hp => ?_, fun c hc => ?_, fun c p hc hp => ?_, fun m hm hnone => ?_⟩
  · by_cases hmn : m = n
    · subst hmn
      exact ⟨congrArg NodeKind.isElement hkind, hattributes⟩
    · have hsame := (hloose m).1 hm hmn
      exact ⟨congrArg NodeKind.isElement (Node.kind_of_loose hsame),
        Node.attributes_of_loose hsame⟩
  · rcases Nat.lt_or_ge m.index w.nodes.size with hmlt | hge
    · have hmn : m ≠ n := by
        rintro rfl
        rw [isElement_of_isText hm] at hn
        exact absurd hn Bool.false_ne_true
      rw [Node.kind_of_loose ((hloose m).1 hmlt hmn)]
      exact hm
    · rcases (hloose m).2 hge with ⟨content, hcontent⟩
      rw [Node.kind_of_loose hcontent]
      rfl
  · rcases (hloose m).2 hm with ⟨content, hcontent⟩
    rw [Node.kind_of_loose hcontent, Node.children_of_loose hcontent,
      Node.attributes_of_loose hcontent]
    exact ⟨rfl, rfl, rfl⟩
  · have hpn : p ≠ n := by
      rintro rfl
      rcases hp with hp | hp
      · exact hp rfl
      · exact absurd (hn.symm.trans hp) Bool.false_ne_true.symm
    rcases Nat.lt_or_ge p.index w.nodes.size with hplt | hge
    · exact Node.children_of_loose ((hloose p).1 hplt hpn)
    · rcases (hloose p).2 hge with ⟨content, hcontent⟩
      rw [Node.children_of_loose hcontent, node_of_size_le hge]
  · rw [hchildren (Nat.lt_of_lt_of_le hlt hgrown)] at hc
    rw [parent_replaceChildren (n := n) fun c hc => (hcs c hc).2, if_pos hc]
    exact ⟨(hcs c hc).1, rfl⟩
  · rw [hparent (lt_of_parent hc), if_neg fun hmem => hp ?_, hc]
    have hback := hlinked.listed n c hmem
    rwa [hc, Option.some.injEq] at hback
  · rw [hparent hm, hnone, ite_self]

end Beneath

/-- Putting a text at a node. -/
theorem retexted_setText (hlinked : w.Linked) (n : NodeId) (content : String) :
    w.Retexted (w.setText n content) n := by
  unfold setText
  split
  · next hkind =>
      exact retexted_updateNode hlinked (by rw [hkind]; rfl) rfl fun _ => rfl
  · next hkind =>
      exact retexted_updateNode hlinked (by rw [hkind]; rfl) rfl fun htext => by
        rw [hkind] at htext
        exact absurd htext Bool.false_ne_true
  · next hkind =>
      have hn : (w.node n).kind.isElement = true := by
        rw [hkind]
        rfl
      split
      · exact retexted_replaceChildren hlinked hn (Nat.le_refl _) (fun _ _ => rfl)
          (fun m hm => ⟨"", node_of_size_le hm⟩) fun c hc => absurd hc List.not_mem_nil
      · have hsize := size_nodes_addNode w { kind := .text content }
        have hblank : ∀ m : NodeId, w.nodes.size ≤ m.index → ∃ shown,
            (w.addNode { kind := .text content }).2.node m = { kind := .text shown } := by
          intro m hm
          rw [node_addNode]
          split
          · exact ⟨content, rfl⟩
          · exact ⟨"", node_of_size_le hm⟩
        exact retexted_replaceChildren hlinked hn (Nat.le_of_lt (Nat.lt_of_succ_le hsize.ge))
          (fun m hm => node_addNode_of_lt w _ hm) hblank fun c hc => by
            rw [List.mem_singleton] at hc
            rw [hc]
            exact ⟨Nat.le_refl _, Nat.lt_of_succ_le hsize.ge⟩

/-! ### Planting -/

omit [Client σ] in
theorem Tidy.addNode (h : w.Tidy) {node : Node κ}
    (hnode : node.kind.isElement = false → node.children = [] ∧ node.attributes = []) :
    (w.addNode node).2.Tidy := by
  intro m hm
  rw [node_addNode] at hm ⊢
  split at hm
  · next hnew =>
      rw [if_pos hnew]
      exact hnode hm
  · next hold =>
      rw [if_neg hold]
      exact h m hm

omit [Client σ] in
/-- An element may list anything. -/
theorem Tidy.setChildren (h : w.Tidy) (hn : (w.node n).kind.isElement = true)
    (children : List NodeId) : (w.setChildren n children).Tidy := by
  intro m hm
  rw [World.setChildren, node_updateNode] at hm ⊢
  split at hm
  · next hand =>
      rw [← hand.1] at hm
      exact absurd (hn.symm.trans hm) Bool.false_ne_true.symm
  · next hout =>
      rw [if_neg hout]
      exact h m hm

omit [Client σ] in
/-- Planted texts and comments have no children and no attributes. -/
theorem Tidy.plantAllUnder (parent : Option NodeId) (ts : List Tree) {w : World κ σ} (h : w.Tidy) :
    (plantAllUnder parent ts w).2.Tidy := by
  induction ts using Tree.forestInduction generalizing parent w with
  | nil => exact h
  | text content ts ih => exact ih _ (h.addNode fun _ => ⟨rfl, rfl⟩)
  | comment content ts ih => exact ih _ (h.addNode fun _ => ⟨rfl, rfl⟩)
  | element tag attributes children ts ihc ih =>
      let node : Node κ :=
        { kind := .element tag, attributes, value := attributes.formValue, parent }
      have helement : node.kind.isElement = true := rfl
      have hnode : (w.addNode node).2.Tidy := h.addNode fun hnot =>
        absurd (helement.symm.trans hnot) Bool.false_ne_true.symm
      have hplanted := planted_plantAllUnder (some (w.addNode node).1) children (w.addNode node).2
      have hbeneath := ihc (some (w.addNode node).1) hnode
      have hlt : (w.addNode node).1.index < (w.addNode node).2.nodes.size := by
        rw [size_nodes_addNode]
        exact Nat.lt_succ_self _
      have hkept := hplanted.kept (w.addNode node).1 hlt
      rw [node_addNode_fst] at hkept
      exact ih parent (hbeneath.setChildren (congrArg (·.kind.isElement) hkept) _)

omit [Client σ] in
/-- Where nothing is planted yet, what is planted lists what links to it. -/
theorem linked_plantForest (hempty : w.nodes.size = 0) (ts : List Tree) :
    (plantForest ts w).2.Linked := by
  have hblank : ∀ m, w.node m = { kind := .text "" } :=
    fun m => node_of_size_le (hempty ▸ Nat.zero_le _)
  have harranged : w.Arranged fun _ => False := by
    refine ⟨fun p hp => hp.elim, fun c p hp => ?_, fun c hc => ?_⟩
    · rw [hblank] at hp
      exact nomatch hp
    · rcases TransGen.head'_iff.mp hc with ⟨_, hstep, _⟩
      exact hstep.2
  have hsprouted : w.Sprouted (fun _ => False) (plantForest ts w).1 (plantForest ts w).2 :=
    sprouted_plantAllUnder none ts harranged ⟨fun _ hp => hp.elim, fun p hp => nomatch hp⟩
  refine ⟨fun p c hc => ?_, Tidy.plantAllUnder none ts fun m _ => by rw [hblank]; exact ⟨rfl, rfl⟩⟩
  rcases Nat.lt_or_ge p.index (plantForest ts w).2.nodes.size with hlt | hge
  · exact (hsprouted.arranged.mem_children_iff (.inr ⟨hempty ▸ Nat.zero_le _, hlt⟩)).mp hc
  · rw [node_of_size_le hge] at hc
    exact absurd hc List.not_mem_nil

end World

end LiveTemplate
