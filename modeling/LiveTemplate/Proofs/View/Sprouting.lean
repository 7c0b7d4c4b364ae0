import LiveTemplate.Proofs.View.Moving

/-!
# Planting Keeps the View Arranged

New nodes belong to a view that is well arranged.

Planting makes a node that links to a parent which is yet to list it, then everything
beneath the node, and then the list of that. So the parent must stay out of what is
well arranged until its list is there. From a node whose parent is outside no way
leads on, so nothing that is put beneath it can be above it.

## Main definitions

* `World.Outside`: A parent that does not belong to a set of nodes yet.
* `World.Sprouted`: What planting does to a set of nodes that is well arranged.

## Theorems

* `sprouted_plantAllUnder`: Planted nodes belong to the view.
-/

namespace LiveTemplate

open Markup
open Relation (TransGen ReflTransGen)

namespace World

variable {κ σ : Type} {w w' : World κ σ} {L : NodeId → Prop}

/-- The set has only nodes, and the parent, if there is one, is a node outside of it. -/
def Outside (w : World κ σ) (L : NodeId → Prop) (parent : Option NodeId) : Prop :=
  (∀ p, L p → p.index < w.nodes.size) ∧ ∀ p, parent = some p → ¬L p ∧ p.index < w.nodes.size

/-- A node outside of the set comes in anew. -/
theorem Arranged.addNode {node : Node κ} (h : w.Arranged L) (hout : w.Outside L node.parent) :
    (w.addNode node).2.Arranged L := by
  rcases hout with ⟨hL, hparent⟩
  have hsame : ∀ x p, L p →
      (((w.addNode node).2.node x).parent = some p ↔ (w.node x).parent = some p) := by
    intro x p hp
    rw [node_addNode]
    split
    · next hx =>
        refine ⟨fun hlink => absurd hp (hparent p hlink).1, fun hlink => ?_⟩
        have hlt := lt_of_parent hlink
        rw [hx] at hlt
        exact absurd hlt (Nat.lt_irrefl _)
    · exact Iff.rfl
  have hbeneath : (w.addNode node).2.Beneath L ≤ w.Beneath L :=
    fun x p hstep => ⟨(hsame x p hstep.2).mp hstep.1, hstep.2⟩
  refine ⟨?_, ?_, fun x hx => h.acyclic x (TransGen.mono hbeneath x x hx)⟩
  · intro p hp x
    rw [node_addNode_of_lt w node (hL p hp), h.listed p hp x]
    simp only [hsame x p hp]
  · intro x p hlink
    rw [size_nodes_addNode]
    refine Nat.lt_succ_of_lt ?_
    rw [node_addNode] at hlink
    split at hlink
    · exact (hparent p hlink).2
    · exact h.linked x p hlink

/-- Nodes have been planted, a set of nodes that was well arranged is so together with the
    new ones, and only the roots among these have links to what was there. -/
structure Sprouted (w : World κ σ) (L : NodeId → Prop) (ns : List NodeId) (w' : World κ σ) :
    Prop where
  /-- The new nodes join the set. -/
  arranged : w'.Arranged fun p => L p ∨ w.nodes.size ≤ p.index ∧ p.index < w'.nodes.size
  /-- The roots are distinct. -/
  nodup : ns.Nodup
  /-- They are new. -/
  new : ∀ n ∈ ns, w.nodes.size ≤ n.index ∧ n.index < w'.nodes.size
  /-- The others among the new ones stand beneath new ones. -/
  inner : ∀ c p : NodeId, w.nodes.size ≤ c.index → c ∉ ns → (w'.node c).parent = some p →
    w.nodes.size ≤ p.index

theorem Sprouted.nil (h : w.Arranged L) : w.Sprouted L [] w := by
  refine ⟨h.mono fun p hp => ?_, List.nodup_nil, fun n hn => absurd hn List.not_mem_nil, ?_⟩
  · rcases hp with hp | ⟨hle, hlt⟩
    · exact hp
    · exact absurd hlt (Nat.not_lt_of_le hle)
  · intro c p hc _ hlink
    exact absurd (lt_of_parent hlink) (Nat.not_lt_of_le hc)

/-- One more root in front. -/
theorem Sprouted.cons {w₁ w₂ : World κ σ} {n : NodeId} {ns : List NodeId}
    (h₁ : w.Sprouted L [n] w₁) (h₂ : w₁.Sprouted
      (fun p => L p ∨ w.nodes.size ≤ p.index ∧ p.index < w₁.nodes.size) ns w₂)
    (hgrown : w.nodes.size ≤ w₁.nodes.size)
    (hkept : ∀ m : NodeId, m.index < w₁.nodes.size → w₂.node m = w₁.node m)
    (hgrown' : w₁.nodes.size ≤ w₂.nodes.size) : w.Sprouted L (n :: ns) w₂ := by
  have hn := h₁.new n List.mem_cons_self
  refine ⟨h₂.arranged.mono fun p hp => ?_, ?_, ?_, ?_⟩
  · rcases hp with hp | ⟨hle, hlt⟩
    · exact Or.inl (Or.inl hp)
    · by_cases hp : p.index < w₁.nodes.size
      · exact Or.inl (Or.inr ⟨hle, hp⟩)
      · exact Or.inr ⟨Nat.le_of_not_lt hp, hlt⟩
  · refine List.nodup_cons.mpr ⟨fun hmem => ?_, h₂.nodup⟩
    have hbehind := (h₂.new n hmem).1
    omega
  · intro m hm
    rcases List.mem_cons.mp hm with rfl | hm
    · exact ⟨hn.1, Nat.lt_of_lt_of_le hn.2 hgrown'⟩
    · have hm := h₂.new m hm
      exact ⟨Nat.le_trans hgrown hm.1, hm.2⟩
  · intro c p hc hmem hlink
    rw [List.mem_cons, not_or] at hmem
    by_cases hlt : c.index < w₁.nodes.size
    · rw [hkept c hlt] at hlink
      exact h₁.inner c p hc (fun h => hmem.1 (List.mem_singleton.mp h)) hlink
    · exact Nat.le_trans hgrown (h₂.inner c p (Nat.le_of_not_lt hlt) hmem.2 hlink)

/-- A root with nothing beneath it. -/
theorem Sprouted.leaf {node : Node κ} (h : w.Arranged L) (hout : w.Outside L node.parent)
    (hchildren : node.children = []) :
    w.Sprouted L [(w.addNode node).1] (w.addNode node).2 := by
  have hlink : ∀ c, ((w.addNode node).2.node c).parent ≠ some (w.addNode node).1 := by
    intro c hc
    rw [node_addNode] at hc
    split at hc
    · exact Nat.lt_irrefl _ (hout.2 _ hc).2
    · exact Nat.lt_irrefl _ (h.linked c _ hc)
  have hinsert : (w.addNode node).2.Arranged fun p => L p ∨ p = (w.addNode node).1 := by
    refine (h.addNode hout).insert (fun c => ?_) fun c hc => absurd hc (hlink c)
    rw [node_addNode_fst, hchildren, List.count_nil, if_neg (hlink c)]
  refine ⟨hinsert.mono fun p hp => ?_, List.nodup_singleton _, fun n hn => ?_, ?_⟩
  · rcases hp with hp | ⟨hle, hlt⟩
    · exact Or.inl hp
    · rw [size_nodes_addNode] at hlt
      exact Or.inr (NodeId.ext (Nat.le_antisymm (Nat.le_of_lt_succ hlt) hle))
  · rw [List.mem_singleton.mp hn, size_nodes_addNode]
    exact ⟨Nat.le_refl _, Nat.lt_succ_self _⟩
  · intro c p hc hmem hlink
    have hlt := lt_of_parent hlink
    rw [size_nodes_addNode] at hlt
    refine absurd (List.mem_singleton.mpr (NodeId.ext ?_)) hmem
    exact Nat.le_antisymm (Nat.le_of_lt_succ hlt) hc

/-- A root, what has been planted beneath it, and then the list of that. -/
theorem Sprouted.element {w₂ : World κ σ} {node : Node κ} {ts : List Tree} {cs : List NodeId}
    (h : w.Arranged L) (hout : w.Outside L node.parent)
    (hplanted : (w.addNode node).2.Planted (some (w.addNode node).1) ts cs w₂)
    (hbelow : (w.addNode node).2.Sprouted L cs w₂) :
    w.Sprouted L [(w.addNode node).1] (w₂.setChildren (w.addNode node).1 cs) := by
  rcases hout with ⟨hL, hparent⟩
  have hkept := hplanted.kept
  have hgrown := hplanted.grown
  have hinner := hbelow.inner
  have hbelowArranged := hbelow.arranged
  simp only [size_nodes_addNode] at hkept hgrown hinner hbelowArranged
  have hindex : (w.addNode node).1.index = w.nodes.size := rfl
  have hself : w₂.node (w.addNode node).1 = node := by
    rw [hkept (w.addNode node).1 (Nat.lt_succ_self _), node_addNode_fst]
  have hold : ∀ c p, (w₂.node c).parent = some p → c.index < w.nodes.size + 1 →
      p.index < w.nodes.size := by
    intro c p hlink hc
    rw [hkept c hc, node_addNode] at hlink
    split at hlink
    · exact (hparent p hlink).2
    · exact h.linked c p hlink
  have hparents := hplanted.parents
  generalize (w.addNode node).1 = n at hindex hself hparents ⊢
  have hchild : ∀ c, (w₂.node c).parent = some n ↔ c ∈ cs := by
    refine fun c => ⟨fun hlink => ?_, hparents c⟩
    by_contra hmem
    by_cases hc : c.index < w.nodes.size + 1
    · have hlt := hold c n hlink hc
      omega
    · have hle := hinner c n (Nat.le_of_not_lt hc) hmem hlink
      omega
  have hpending : ¬(L n ∨ w.nodes.size + 1 ≤ n.index ∧ n.index < w₂.nodes.size) := by
    rintro (hmem | ⟨hle, _⟩)
    · have hlt := hL n hmem
      omega
    · omega
  have hlisted : (w₂.setChildren n cs).Arranged fun p =>
      L p ∨ w.nodes.size + 1 ≤ p.index ∧ p.index < w₂.nodes.size :=
    hbelowArranged.updateChildren hpending fun _ => cs
  have hlinks := parent_setChildren w₂ n cs
  have hinsert := hlisted.insert (n := n) (fun c => ?_) fun c hc hway => ?_
  · refine ⟨hinsert.mono fun p hp => ?_, List.nodup_singleton _, fun m hm => ?_, ?_⟩
    · rcases hp with hp | ⟨hle, hplt⟩
      · exact Or.inl (Or.inl hp)
      · rw [size_setChildren] at hplt
        by_cases hp : p.index = w.nodes.size
        · exact Or.inr (NodeId.ext (hp.trans hindex.symm))
        · exact Or.inl (Or.inr ⟨by omega, hplt⟩)
    · rw [List.mem_singleton.mp hm, size_setChildren]
      omega
    · intro c p hc hmem hlink
      rw [hlinks] at hlink
      by_cases hcs : c ∈ cs
      · rw [(hchild c).mpr hcs] at hlink
        injection hlink with hlink
        rw [← hlink, hindex]
      · have hne : c.index ≠ w.nodes.size := fun heq =>
          hmem (List.mem_singleton.mpr (NodeId.ext (heq.trans hindex.symm)))
        have hle := hinner c p (by omega) hcs hlink
        omega
  · rw [children_setChildren, if_pos ⟨rfl, by omega⟩, hlinks, hbelow.nodup.count]
    simp only [hchild]
  · -- No way leads on from the root, since its own parent is not in the set.
    rw [hlinks, hchild] at hc
    rcases Relation.ReflTransGen.cases_head hway with rfl | ⟨p, ⟨hlink, hp⟩, _⟩
    · have hlt := hold n n ((hchild n).mpr hc) (by omega)
      omega
    · rw [hlinks, hself] at hlink
      rcases hp with hp | ⟨hle, _⟩
      · exact (hparent p hlink).1 hp
      · have hlt := (hparent p hlink).2
        omega

/-- With the new nodes in the set, the parent is still outside. -/
theorem Outside.extend {w₁ : World κ σ} {parent : Option NodeId} (hout : w.Outside L parent)
    (hgrown : w.nodes.size ≤ w₁.nodes.size) :
    w₁.Outside (fun p => L p ∨ w.nodes.size ≤ p.index ∧ p.index < w₁.nodes.size) parent := by
  refine ⟨?_, fun p hp => ⟨?_, Nat.lt_of_lt_of_le (hout.2 p hp).2 hgrown⟩⟩
  · rintro p (hp | ⟨_, hlt⟩)
    · exact Nat.lt_of_lt_of_le (hout.1 p hp) hgrown
    · exact hlt
  · rintro (hmem | ⟨hle, _⟩)
    · exact (hout.2 p hp).1 hmem
    · exact Nat.not_lt_of_le hle (hout.2 p hp).2

/-- Planting nodes beneath a parent outside of the set. -/
theorem sprouted_plantAllUnder (parent : Option NodeId) (ts : List Tree) {w : World κ σ}
    {L : NodeId → Prop} (h : w.Arranged L) (hout : w.Outside L parent) :
    w.Sprouted L (plantAllUnder parent ts w).1 (plantAllUnder parent ts w).2 := by
  have hadded : ∀ (w : World κ σ) (node : Node κ),
      w.nodes.size ≤ (w.addNode node).2.nodes.size := by
    intro w node
    rw [size_nodes_addNode]
    exact Nat.le_succ _
  induction ts using Tree.forestInduction generalizing parent w L with
  | nil => exact Sprouted.nil h
  | text content ts ih =>
      let node : Node κ := { kind := .text content, parent }
      have hroot : w.Sprouted L [(w.addNode node).1] (w.addNode node).2 := .leaf h hout rfl
      have hafter := planted_plantAllUnder parent ts (w.addNode node).2
      exact hroot.cons (ih parent hroot.arranged (hout.extend (hadded w node))) (hadded w node)
        hafter.kept hafter.grown
  | comment content ts ih =>
      let node : Node κ := { kind := .comment content, parent }
      have hroot : w.Sprouted L [(w.addNode node).1] (w.addNode node).2 := .leaf h hout rfl
      have hafter := planted_plantAllUnder parent ts (w.addNode node).2
      exact hroot.cons (ih parent hroot.arranged (hout.extend (hadded w node))) (hadded w node)
        hafter.kept hafter.grown
  | element tag attributes children ts ihc ih =>
      let node : Node κ :=
        { kind := .element tag, attributes, value := attributes.formValue, parent }
      have hplanted := planted_plantAllUnder (some (w.addNode node).1) children (w.addNode node).2
      have hpending : (w.addNode node).2.Outside L (some (w.addNode node).1) := by
        refine ⟨fun p hp => Nat.lt_of_lt_of_le (hout.1 p hp) (hadded w node), fun p hp => ?_⟩
        injection hp with hp
        subst hp
        refine ⟨fun hmem => Nat.lt_irrefl _ (hout.1 _ hmem), ?_⟩
        rw [size_nodes_addNode]
        exact Nat.lt_succ_self _
      have hadd : (w.addNode node).2.Arranged L := h.addNode hout
      have hroot := Sprouted.element h hout hplanted (ihc (some (w.addNode node).1) hadd hpending)
      let below := plantAllUnder (some (w.addNode node).1) children (w.addNode node).2
      have hgrown :
          w.nodes.size ≤ (below.2.setChildren (w.addNode node).1 below.1).nodes.size := by
        rw [size_setChildren]
        exact Nat.le_trans (hadded w node) hplanted.grown
      have hafter := planted_plantAllUnder parent ts
        (below.2.setChildren (w.addNode node).1 below.1)
      exact hroot.cons (ih parent hroot.arranged (hout.extend hgrown)) hgrown
        hafter.kept hafter.grown

end World

end LiveTemplate
