import LiveTemplate.Proofs.View.Frame
import LiveTemplate.Proofs.View.Lineage

/-!
# Moving Nodes

Every move leaves the view well arranged.

A move is made of small changes after which links and child lists do not agree: a node
is taken out of its place, links lead to a parent that does not list them yet. But
they disagree at one node at most, the one that gets new children. Among the others
the view stays well arranged, and at the end the one is back, with as many more links
as it has new children. These close no circle if none of the children was above the
node, since meanwhile nothing has come to stand above anything else.

A move brings nothing back that was gone, so what links it can do without checking
are links to what is gone for good.

## Theorems

* `alive_of_nodes`: A change of nodes that brings nothing back.
* `Arranged.insert`: A node that agrees with its links belongs to the view.
* `Arranged.detach`, `Arranged.append`, `Arranged.replaceChildren`: Moves.
-/

namespace LiveTemplate

open Relation (TransGen ReflTransGen)

namespace World

section Changes

variable {κ σ : Type} {w w' : World κ σ} {L : NodeId → Prop}

theorem count_filter_ne (c x : NodeId) (ns : List NodeId) :
    (ns.filter (· != c)).count x = if x = c then 0 else ns.count x := by
  by_cases hx : x = c
  · rw [if_pos hx]
    refine List.count_eq_zero_of_not_mem fun hmem => ?_
    have hkept := List.of_mem_filter hmem
    rw [bne_iff_ne] at hkept
    exact hkept hx
  · rw [if_neg hx]
    exact List.count_filter (p := fun y => y != c) (bne_iff_ne.mpr hx)

@[simp]
theorem parent_setParent (w : World κ σ) (c : NodeId) (parent : Option NodeId) (m : NodeId) :
    ((w.setParent c parent).node m).parent =
      if c = m ∧ m.index < w.nodes.size then parent else (w.node m).parent := by
  rw [setParent, node_updateNode]
  split
  · rfl
  · rfl

@[simp]
theorem children_setParent (w : World κ σ) (c : NodeId) (parent : Option NodeId) (m : NodeId) :
    ((w.setParent c parent).node m).children = (w.node m).children := by
  rw [setParent, node_updateNode]
  split
  · rfl
  · rfl

@[simp]
theorem parent_updateChildren (w : World κ σ) (n : NodeId) (change : List NodeId → List NodeId)
    (m : NodeId) :
    ((w.updateNode n fun node => { node with children := change node.children }).node m).parent =
      (w.node m).parent := by
  rw [node_updateNode]
  split
  · rfl
  · rfl

@[simp]
theorem size_setParent (w : World κ σ) (c : NodeId) (parent : Option NodeId) :
    (w.setParent c parent).nodes.size = w.nodes.size :=
  size_nodes_updateNode w c _

@[simp]
theorem parent_setChildren (w : World κ σ) (n : NodeId) (children : List NodeId) (m : NodeId) :
    ((w.setChildren n children).node m).parent = (w.node m).parent := by
  rw [setChildren, node_updateNode]
  split
  · rfl
  · rfl

@[simp]
theorem children_setChildren (w : World κ σ) (n : NodeId) (children : List NodeId) (m : NodeId) :
    ((w.setChildren n children).node m).children =
      if n = m ∧ m.index < w.nodes.size then children else (w.node m).children := by
  rw [setChildren, node_updateNode]
  split
  · rfl
  · rfl

@[simp]
theorem size_setChildren (w : World κ σ) (n : NodeId) (children : List NodeId) :
    (w.setChildren n children).nodes.size = w.nodes.size :=
  size_nodes_updateNode w n _

/-- A node of the set that lists what is linked to it, and from which no way leads back to
    what is linked to it, joins the set. -/
theorem Arranged.insert {n : NodeId} (h : w.Arranged L)
    (hlisted : ∀ c, (w.node n).children.count c = if (w.node c).parent = some n then 1 else 0)
    (hfree : ∀ c, (w.node c).parent = some n → ¬ReflTransGen (w.Beneath L) n c) :
    w.Arranged (fun p => L p ∨ p = n) := by
  refine ⟨?_, h.linked, acyclic_of_edges h.acyclic ?_ hfree⟩
  · rintro p (hp | rfl) c
    · exact h.listed p hp c
    · exact hlisted c
  · rintro a b ⟨hparent, hb | rfl⟩
    · exact Or.inl ⟨hparent, hb⟩
    · exact Or.inr ⟨hparent, rfl⟩

/-- Links to nodes outside of the set do not matter. -/
theorem Arranged.setParent {c : NodeId} {parent : Option NodeId} (h : w.Arranged L)
    (hbefore : ∀ p, (w.node c).parent = some p → ¬L p)
    (hafter : ∀ p, parent = some p → ¬L p ∧ p.index < w.nodes.size) :
    (w.setParent c parent).Arranged L := by
  have hsame : ∀ x p, L p →
      (((w.setParent c parent).node x).parent = some p ↔ (w.node x).parent = some p) := by
    intro x p hp
    rw [parent_setParent]
    split
    · next hx =>
        rw [← hx.1]
        exact ⟨fun hparent => absurd hp (hafter p hparent).1,
          fun hparent => absurd hp (hbefore p hparent)⟩
    · exact Iff.rfl
  have hbeneath : (w.setParent c parent).Beneath L ≤ w.Beneath L :=
    fun x p hstep => ⟨(hsame x p hstep.2).mp hstep.1, hstep.2⟩
  refine ⟨?_, ?_, fun x hx => h.acyclic x (TransGen.mono hbeneath x x hx)⟩
  · intro p hp x
    rw [children_setParent, h.listed p hp x]
    simp only [hsame x p hp]
  · intro x p hparent
    rw [parent_setParent] at hparent
    rw [size_setParent]
    split at hparent
    · exact (hafter p hparent).2
    · exact h.linked x p hparent

/-- Child lists of nodes outside of the set do not matter. -/
theorem Arranged.updateChildren {n : NodeId} (h : w.Arranged L) (hn : ¬L n)
    (change : List NodeId → List NodeId) :
    (w.updateNode n fun node => { node with children := change node.children }).Arranged L := by
  have hlink := parent_updateChildren w n change
  have hbeneath : (w.updateNode n fun node =>
      { node with children := change node.children }).Beneath L = w.Beneath L := by
    funext c p
    rw [Beneath, hlink, Beneath]
  refine ⟨?_, ?_, ?_⟩
  · intro p hp x
    have hne : n ≠ p := by
      rintro rfl
      exact hn hp
    rw [node_updateNode_of_ne w _ hne, hlink]
    exact h.listed p hp x
  · intro x p hparent
    rw [hlink] at hparent
    rw [size_nodes_updateNode]
    exact h.linked x p hparent
  · rw [hbeneath]
    exact h.acyclic

end Changes

section Moves

variable {κ σ : Type} [Client σ] {w w' : World κ σ}

/-- A change of nodes and of what is held on to brings nothing back if nothing that was dead
    is held on to or listed. -/
theorem alive_of_nodes (hobjects : w'.objects = w.objects)
    (hregistries : w'.registries = w.registries) (hsubscribers : w'.subscribers = w.subscribers)
    (hsize : w.nodes.size ≤ w'.nodes.size)
    (hrooted : ∀ h ∈ w.handles, w'.rooted h = true → w.alive h = true)
    (hchildren : ∀ p c : NodeId, c.index < w.nodes.size → c ∈ (w'.node p).children →
      c ∈ (w.node p).children ∨ w.alive (.node c) = true) {h : Handle} (hmem : h ∈ w.handles)
    (halive : w'.alive h = true) : w.alive h = true := by
  have hnode : ∀ p : NodeId, ∀ c ∈ (w.node p).children, Handle.node p ∈ w.handles := by
    intro p c hc
    refine mem_handles_node.mpr (Nat.lt_of_not_le fun hp => ?_)
    rw [node, Heap.get?_eq_none hp] at hc
    exact absurd hc List.not_mem_nil
  have hgrown : ∀ h ∈ w.handles, h ∈ w'.handles := by
    have hrange : ∀ i, i < w.nodes.size → i < w'.nodes.size :=
      fun i hi => Nat.lt_of_lt_of_le hi hsize
    intro h hh
    simp only [handles, List.mem_append, List.mem_map, List.mem_range, hobjects, hregistries,
      hsubscribers] at hh ⊢
    rcases hh with hh | ⟨i, hi, hih⟩
    · exact Or.inl hh
    · exact Or.inr ⟨i, hrange i hi, hih⟩
  refine alive_of_change hgrown hrooted ?_ hmem halive
  intro g x hx howned
  cases g with
  | object o =>
      have hsame : w'.owned (.object o) = w.owned (.object o) := by
        rw [owned, owned, object, object, hobjects]
      rw [hsame] at howned
      refine Or.inl ⟨howned, mem_handles_object.mpr (Nat.lt_of_not_le fun ho => ?_)⟩
      rw [owned, object, Heap.get?_eq_none ho] at howned
      exact absurd howned List.not_mem_nil
  | registry r =>
      have hsame : w'.owned (.registry r) = w.owned (.registry r) := by
        rw [owned, owned, registry, registry, hregistries]
      rw [hsame] at howned
      refine Or.inl ⟨howned, mem_handles_registry.mpr (Nat.lt_of_not_le fun hr => ?_)⟩
      rw [owned, registry, Heap.get?_eq_none hr] at howned
      exact absurd howned List.not_mem_nil
  | subscriber s =>
      have hsame : w'.owned (.subscriber s) = w.owned (.subscriber s) := by
        rw [owned, owned, subscriber?, subscriber?, hsubscribers]
      rw [hsame] at howned
      refine Or.inl ⟨howned, mem_handles_subscriber.mpr (Nat.lt_of_not_le fun hs => ?_)⟩
      rw [owned, subscriber?, Heap.get?_eq_none hs] at howned
      exact absurd howned List.not_mem_nil
  | node p =>
      rcases List.mem_map.mp howned with ⟨c, hc, rfl⟩
      rcases hchildren p c (mem_handles_node.mp hx) hc with hc | halive
      · exact Or.inl ⟨List.mem_map_of_mem hc, hnode p c hc⟩
      · exact Or.inr halive

/-- The same while the same things are held on to, and no node is new. -/
theorem lives_of_onlyNodes (h : w.OnlyNodes w') (hsize : w'.nodes.size = w.nodes.size)
    (hchildren : ∀ p c : NodeId, c ∈ (w'.node p).children →
      c ∈ (w.node p).children ∨ w.alive (.node c) = true) {n : NodeId} (hn : w'.Lives n) :
    w.Lives n := by
  have hlt : n.index < w.nodes.size := hsize ▸ hn.1
  refine ⟨hlt, alive_of_nodes h.objects h.registries h.subscribers (Nat.le_of_eq hsize.symm) ?_
    (fun p c _ => hchildren p c) (mem_handles_node.mpr hlt) hn.2⟩
  intro x _ hrooted
  rw [rooted, h.pins, h.client, ← rooted] at hrooted
  exact alive_of_rooted hrooted

/-- The same while the nodes stay as they are. -/
theorem lives_of_rooted {p : NodeId} (hp : w'.Lives p) (hnodes : w'.nodes = w.nodes)
    (hrest : w'.objects = w.objects ∧ w'.registries = w.registries ∧
      w'.subscribers = w.subscribers)
    (hrooted : ∀ h ∈ w.handles, w'.rooted h = true → w.alive h = true) : w.Lives p := by
  have hlt : p.index < w.nodes.size := hnodes ▸ hp.1
  refine ⟨hlt, alive_of_nodes hrest.1 hrest.2.1 hrest.2.2
    (Nat.le_of_eq (congrArg Heap.size hnodes).symm) hrooted (fun q c _ hc => Or.inl ?_)
    (mem_handles_node.mpr hlt) hp.2⟩
  rw [node, hnodes, ← node] at hc
  exact hc

/-- A node without its place has no link, and the other links are as they were. -/
@[simp]
theorem parent_detach (w : World κ σ) (c m : NodeId) :
    ((w.detach c).node m).parent = if m = c then none else (w.node m).parent := by
  have hlink : ∀ v : World κ σ, (∀ m, (v.node m).parent = (w.node m).parent) →
      v.nodes.size = w.nodes.size →
      ((v.setParent c none).node m).parent = if m = c then none else (w.node m).parent := by
    intro v hv hsize
    rw [parent_setParent, hv]
    by_cases hm : m = c
    · subst hm
      rw [if_pos rfl, hsize]
      split
      · rfl
      · next hlt =>
          cases hparent : (w.node m).parent with
          | none => rfl
          | some p => exact absurd ⟨rfl, lt_of_parent hparent⟩ hlt
    · rw [if_neg hm, if_neg fun h => hm h.1.symm]
  unfold detach
  split
  · refine hlink _ (fun m => parent_updateChildren w _ (·.filter (· != c)) m) ?_
    exact size_nodes_updateNode w _ _
  · exact hlink w (fun _ => rfl) rfl

@[simp]
theorem size_detach (w : World κ σ) (c : NodeId) :
    (w.detach c).nodes.size = w.nodes.size := by
  unfold detach
  split
  · rw [size_setParent, size_nodes_updateNode]
  · rw [size_setParent]

/-- A node is taken out of child lists, but not put into one. -/
theorem mem_children_of_detach {c p m : NodeId} (h : m ∈ ((w.detach c).node p).children) :
    m ∈ (w.node p).children := by
  unfold detach at h
  split at h
  · rw [children_setParent, node_updateNode] at h
    split at h
    · exact List.mem_of_mem_filter h
    · exact h
  · rw [children_setParent] at h
    exact h

/-- Where links and child lists agree, a node that is taken out of its place is in no list
    any more. -/
theorem Arranged.children_detach {L : NodeId → Prop} (h : w.Arranged L)
    (hL : ∀ p, L p → w.alive (.node p) = true) (c : NodeId) {q : NodeId} (hq : L q) :
    ((w.detach c).node q).children = (w.node q).children.filter (· != c) := by
  have hunlisted : (w.node c).parent ≠ some q →
      (w.node q).children = (w.node q).children.filter (· != c) := by
    intro hne
    rw [eq_comm, List.filter_eq_self]
    intro x hx
    rw [bne_iff_ne]
    rintro rfl
    exact hne ((h.mem_children_iff hq).mp hx)
  unfold World.detach
  cases hparent : w.parent? c with
  | none =>
      rw [children_setParent]
      refine hunlisted fun hlink => ?_
      rw [parent?, hlink, Option.filter_some, if_pos (hL q hq)] at hparent
      exact absurd hparent (Option.some_ne_none q)
  | some p =>
      rw [h.parent?_eq_some_iff] at hparent
      rw [children_setParent, node_updateNode]
      by_cases hpq : p = q
      · subst hpq
        rw [if_pos ⟨rfl, h.linked c p hparent.1⟩]
      · rw [if_neg fun hand => hpq hand.1]
        refine hunlisted fun hlink => hpq ?_
        rw [hparent.1] at hlink
        injection hlink

/-- Taking a node out of its place. -/
theorem Arranged.detach {L : NodeId → Prop} (h : w.Arranged L)
    (hL : ∀ p, L p → w.alive (.node p) = true) (c : NodeId) : (w.detach c).Arranged L := by
  have hlink : ∀ x p, ((w.detach c).node x).parent = some p → (w.node x).parent = some p := by
    intro x p hx
    rw [parent_detach] at hx
    split at hx
    · exact absurd hx (Option.some_ne_none p).symm
    · exact hx
  have hbeneath : (w.detach c).Beneath L ≤ w.Beneath L :=
    fun x p hstep => ⟨hlink x p hstep.1, hstep.2⟩
  refine ⟨?_, ?_, fun x hx => h.acyclic x (TransGen.mono hbeneath x x hx)⟩
  · intro p hp x
    rw [h.children_detach hL c hp, parent_detach, count_filter_ne]
    by_cases hx : x = c
    · rw [if_pos hx, if_pos hx, if_neg (Option.some_ne_none p).symm]
    · rw [if_neg hx, if_neg hx]
      exact h.listed p hp x
  · intro x p hx
    rw [size_detach]
    exact h.linked x p (hlink x p hx)

/-- Taking a node out of its place brings nothing back. -/
theorem lives_of_detach {c n : NodeId} (h : (w.detach c).Lives n) : w.Lives n :=
  lives_of_onlyNodes (w.onlyNodes_detach c) (size_detach w c)
    (fun _ _ hmem => Or.inl (mem_children_of_detach hmem)) h

@[simp]
theorem size_adopt (n : NodeId) (w : World κ σ) (c : NodeId) :
    (adopt n w c).nodes.size = w.nodes.size := by
  rw [adopt, size_setParent, size_detach]

@[simp]
theorem parent_adopt_eq (n : NodeId) (w : World κ σ) {c : NodeId} (hc : c.index < w.nodes.size)
    (m : NodeId) :
    ((adopt n w c).node m).parent = if m = c then some n else (w.node m).parent := by
  rw [adopt, parent_setParent, size_detach, parent_detach]
  by_cases hm : m = c
  · subst hm
    rw [if_pos ⟨rfl, hc⟩, if_pos rfl]
  · rw [if_neg fun hand => hm hand.1.symm, if_neg hm, if_neg hm]

/-- Moving a node to one outside of the set. -/
theorem Arranged.adopt {L : NodeId → Prop} {n : NodeId} (h : w.Arranged L)
    (hL : ∀ p, L p → w.alive (.node p) = true) (hn : ¬L n) (hlt : n.index < w.nodes.size)
    (c : NodeId) : (adopt n w c).Arranged L := by
  refine (h.detach hL c).setParent ?_ ?_
  · intro p hp
    rw [parent_detach, if_pos rfl] at hp
    exact absurd hp (Option.some_ne_none p).symm
  · intro p hp
    injection hp with hp
    subst hp
    rw [size_detach]
    exact ⟨hn, hlt⟩

/-- A node that is not above the other one is adopted by that, and listed last. -/
theorem append_eq {p c : NodeId} (hnot : w.isBeneath p c = false) :
    w.append p c = (World.adopt p w c).updateNode p fun node =>
      { node with children := node.children ++ [c] } := by
  unfold World.append
  rw [hnot]
  rfl

theorem onlyNodes_append_of_not {p c : NodeId} (hnot : w.isBeneath p c = false) :
    w.OnlyNodes (w.append p c) := by
  rw [append_eq hnot]
  exact (w.onlyNodes_adopt p c).trans (OnlyNodes.updateNode _ p _)

theorem size_append {p c : NodeId} (hnot : w.isBeneath p c = false) :
    (w.append p c).nodes.size = w.nodes.size := by
  rw [append_eq hnot, size_nodes_updateNode, size_adopt]

theorem parent_append {p c : NodeId} (hc : c.index < w.nodes.size)
    (hnot : w.isBeneath p c = false) (m : NodeId) :
    ((w.append p c).node m).parent = if m = c then some p else (w.node m).parent := by
  rw [append_eq hnot, parent_updateChildren _ p (· ++ [c]), parent_adopt_eq p w hc]

/-- Nothing is put into a list but the node itself. -/
theorem mem_children_append {p c q x : NodeId} (hnot : w.isBeneath p c = false)
    (hx : x ∈ ((w.append p c).node q).children) : x ∈ (w.node q).children ∨ x = c := by
  rw [append_eq hnot, node_updateNode] at hx
  split at hx
  · rcases List.mem_append.mp hx with hx | hx
    · rw [World.adopt, children_setParent] at hx
      exact Or.inl (mem_children_of_detach hx)
    · exact Or.inr (List.mem_singleton.mp hx)
  · rw [World.adopt, children_setParent] at hx
    exact Or.inl (mem_children_of_detach hx)

/-- Putting a node beneath another one that is not beneath it. -/
theorem Arranged.append {parent child : NodeId} (h : w.Arranged w.Lives) (hparent : w.Lives parent)
    (hchild : w.Lives child) (hnot : w.isBeneath parent child = false) :
    (w.append parent child).Arranged (w.append parent child).Lives := by
  have hL : ∀ p, w.Lives p ∧ p ≠ parent → w.alive (.node p) = true := fun p hp => hp.1.2
  have hmoved : (World.adopt parent w child).Arranged fun p => w.Lives p ∧ p ≠ parent :=
    (h.mono fun p hp => hp.1).adopt hL (fun hp => hp.2 rfl) hparent.1 child
  have hlisted := hmoved.updateChildren (fun hp => hp.2 rfl) (· ++ [child])
  rw [← append_eq hnot] at hlisted
  have hlink := parent_append hchild.1 hnot
  have hchildren : ((w.append parent child).node parent).children =
      (w.node parent).children.filter (· != child) ++ [child] := by
    rw [append_eq hnot, node_updateNode, if_pos ⟨rfl, by rw [size_adopt]; exact hparent.1⟩]
    rw [World.adopt, children_setParent, h.children_detach (fun p hp => hp.2) child hparent]
  have hshrunk : (w.append parent child).Beneath (fun p => w.Lives p ∧ p ≠ parent) ≤
      w.Beneath w.Lives := by
    rintro x p ⟨hx, hp⟩
    rw [hlink] at hx
    split at hx
    · injection hx with hx
      exact absurd hx.symm hp.2
    · exact ⟨hx, hp.1⟩
  -- Only the new parent is missing. It lists the child, which is not above it.
  refine (hlisted.insert (n := parent) ?_ ?_).mono fun p hp => ?_
  · intro c
    rw [hchildren, List.count_append, count_filter_ne, hlink, h.listed parent hparent c]
    by_cases hc : c = child
    · simp only [hc, List.count_singleton_self, if_true, Nat.zero_add]
    · have hother : [child].count c = 0 :=
        List.count_eq_zero_of_not_mem fun hmem => hc (List.mem_singleton.mp hmem)
      rw [hother, if_neg hc, if_neg hc, Nat.add_zero]
  · intro c hc hway
    have hway := ReflTransGen.mono hshrunk parent c hway
    rw [hlink] at hc
    split at hc
    · next hchild =>
        rw [hchild] at hway
        exact h.not_above hparent.1 hnot hway
    · exact h.acyclic c (.head' ⟨hc, hparent⟩ hway)
  · have hlives : w.Lives p :=
      lives_of_onlyNodes (onlyNodes_append_of_not hnot) (size_append hnot)
        (fun q x hx => (mem_children_append hnot hx).imp_right fun hxc => hxc ▸ hchild.2) hp
    by_cases hpp : p = parent
    · exact Or.inr hpp
    · exact Or.inl ⟨hlives, hpp⟩

/-- Nodes have been moved about, nothing has come back, and all nodes but one agree with their
    links. -/
structure Unsettled (w w' : World κ σ) (n : NodeId) : Prop where
  /-- Only nodes have changed. -/
  rest : w.OnlyNodes w'
  /-- There are as many. -/
  size : w'.nodes.size = w.nodes.size
  /-- None has come back. -/
  lives : ∀ p, w'.Lives p → w.Lives p
  /-- The others agree with their links. -/
  arranged : w'.Arranged fun p => w'.Lives p ∧ p ≠ n

theorem Unsettled.trans {w₁ w₂ w₃ : World κ σ} {n : NodeId} (h₁ : w₁.Unsettled w₂ n)
    (h₂ : w₂.Unsettled w₃ n) : w₁.Unsettled w₃ n :=
  ⟨h₁.rest.trans h₂.rest, h₂.size.trans h₁.size, fun p hp => h₁.lives p (h₂.lives p hp),
    h₂.arranged⟩

/-- One more change that puts nothing into a child list. -/
theorem Unsettled.of_step {n : NodeId} (hrest : w.OnlyNodes w')
    (hsize : w'.nodes.size = w.nodes.size)
    (hchildren : ∀ p, ∀ c ∈ (w'.node p).children, c ∈ (w.node p).children)
    (h : w'.Arranged fun p => w.Lives p ∧ p ≠ n) : w.Unsettled w' n := by
  have hlives : ∀ p, w'.Lives p → w.Lives p :=
    fun p => lives_of_onlyNodes hrest hsize fun q c hc => Or.inl (hchildren q c hc)
  exact ⟨hrest, hsize, hlives, h.mono fun p hp => ⟨hlives p hp.1, hp.2⟩⟩

/-- The children that a node has given up come to stand by themselves one after the other. -/
theorem Unsettled.clear {n : NodeId} (old : List NodeId) {w : World κ σ}
    (h : w.Arranged fun p => w.Lives p ∧ p ≠ n)
    (hold : ∀ c ∈ old, ∀ p, (w.node c).parent = some p → p = n) :
    w.Unsettled (old.foldl (fun w c => w.setParent c none) w) n ∧
      ∀ x, ((old.foldl (fun w c => w.setParent c none) w).node x).parent =
        if x ∈ old then none else (w.node x).parent := by
  induction old generalizing w with
  | nil => exact ⟨⟨OnlyNodes.refl w, rfl, fun _ hp => hp, h⟩, fun x =>
      (if_neg List.not_mem_nil).symm⟩
  | cons c old ih =>
      rw [List.forall_mem_cons] at hold
      have hlink : ∀ x, ((w.setParent c none).node x).parent =
          if x = c then none else (w.node x).parent := by
        intro x
        rw [parent_setParent]
        by_cases hx : x = c
        · subst hx
          rw [if_pos rfl]
          split
          · rfl
          · next hlt =>
              by_contra hlink
              rcases Option.ne_none_iff_exists'.mp hlink with ⟨p, hp⟩
              exact hlt ⟨rfl, lt_of_parent hp⟩
        · rw [if_neg hx, if_neg fun hand => hx hand.1.symm]
      have hfirst : w.Unsettled (w.setParent c none) n := by
        refine .of_step (OnlyNodes.updateNode w c _) (size_setParent w c none) ?_ ?_
        · intro p x hx
          rw [children_setParent] at hx
          exact hx
        · refine h.setParent (fun p hp hmem => hmem.2 (hold.1 p hp)) ?_
          exact fun p hp => absurd hp (Option.some_ne_none p).symm
      have hrest : ∀ c' ∈ old, ∀ p, ((w.setParent c none).node c').parent = some p → p = n := by
        intro c' hc' p hp
        rw [hlink] at hp
        split at hp
        · exact absurd hp (Option.some_ne_none p).symm
        · exact hold.2 c' hc' p hp
      rcases ih hfirst.arranged hrest with ⟨hunsettled, hlinks⟩
      refine ⟨hfirst.trans hunsettled, fun x => ?_⟩
      rw [List.foldl_cons, hlinks, hlink]
      by_cases hx : x ∈ old
      · rw [if_pos hx, if_pos (List.mem_cons_of_mem _ hx)]
      · simp only [List.mem_cons, hx, or_false, if_false]

/-- Nodes are moved to a node one after the other. -/
theorem Unsettled.adoptAll {n : NodeId} (cs : List NodeId) {w : World κ σ}
    (h : w.Arranged fun p => w.Lives p ∧ p ≠ n) (hn : n.index < w.nodes.size)
    (hcs : ∀ c ∈ cs, c.index < w.nodes.size) :
    w.Unsettled (cs.foldl (adopt n) w) n ∧
      ∀ x, ((cs.foldl (adopt n) w).node x).parent =
        if x ∈ cs then some n else (w.node x).parent := by
  induction cs generalizing w with
  | nil => exact ⟨⟨OnlyNodes.refl w, rfl, fun _ hp => hp, h⟩, fun x =>
      (if_neg List.not_mem_nil).symm⟩
  | cons c cs ih =>
      rw [List.forall_mem_cons] at hcs
      have hsize := size_adopt n w c
      have hfirst : w.Unsettled (adopt n w c) n := by
        refine .of_step (w.onlyNodes_adopt n c) hsize (fun p x hx => ?_) ?_
        · rw [adopt, children_setParent] at hx
          exact mem_children_of_detach hx
        · exact h.adopt (fun p hp => hp.1.2) (fun hp => hp.2 rfl) hn c
      rcases ih hfirst.arranged (hsize ▸ hn) (fun c' hc' => hsize ▸ hcs.2 c' hc') with
        ⟨hunsettled, hlinks⟩
      refine ⟨hfirst.trans hunsettled, fun x => ?_⟩
      rw [List.foldl_cons, hlinks, parent_adopt_eq n w hcs.1]
      by_cases hx : x ∈ cs
      · rw [if_pos hx, if_pos (List.mem_cons_of_mem _ hx)]
      · simp only [List.mem_cons, hx, or_false, if_false]

/-- Before it gets other children, a node gives up those that it has. -/
theorem Arranged.emptied {n : NodeId} (h : w.Arranged w.Lives) (hn : w.Lives n) :
    w.Unsettled ((w.node n).children.foldl (fun w c => w.setParent c none) (w.setChildren n [])) n ∧
      ∀ x, (((w.node n).children.foldl (fun w c => w.setParent c none)
          (w.setChildren n [])).node x).parent =
        if (w.node x).parent = some n then none else (w.node x).parent := by
  have hfirst : w.Unsettled (w.setChildren n []) n := by
    refine .of_step (OnlyNodes.updateNode w n _) (size_setChildren w n []) (fun p x hx => ?_) ?_
    · rw [children_setChildren] at hx
      split at hx
      · exact absurd hx List.not_mem_nil
      · exact hx
    · exact (h.mono fun p hp => hp.1).updateChildren (fun hp => hp.2 rfl) fun _ => []
  have hold : ∀ c ∈ (w.node n).children, ∀ p,
      ((w.setChildren n []).node c).parent = some p → p = n := by
    intro c hc p hp
    rw [parent_setChildren, (h.mem_children_iff hn).mp hc] at hp
    injection hp with hp
    exact hp.symm
  rcases Unsettled.clear (w.node n).children hfirst.arranged hold with ⟨hunsettled, hlinks⟩
  refine ⟨hfirst.trans hunsettled, fun x => ?_⟩
  rw [hlinks, parent_setChildren]
  by_cases hx : (w.node x).parent = some n
  · rw [if_pos ((h.mem_children_iff hn).mpr hx), if_pos hx]
  · rw [if_neg fun hmem => hx ((h.mem_children_iff hn).mp hmem), if_neg hx]

/-- Giving a node other children that are there, but not above it. -/
theorem Arranged.rehang {n : NodeId} {cs : List NodeId} (h : w.Arranged w.Lives) (hn : w.Lives n)
    (hcs : ∀ c ∈ cs, c.index < w.nodes.size) (hnodup : cs.Nodup)
    (hpinned : ∀ c ∈ cs, Handle.node c ∈ w.pins)
    (hfree : ∀ c ∈ cs, ¬ReflTransGen (w.Beneath w.Lives) n c)
    (hw' : w' = (cs.foldl (World.adopt n) ((w.node n).children.foldl
      (fun w c => w.setParent c none) (w.setChildren n []))).setChildren n cs) :
    w.OnlyNodes w' ∧ w'.Arranged w'.Lives := by
  rcases h.emptied hn with ⟨hemptied, hunlinked⟩
  generalize (w.node n).children.foldl (fun w c => w.setParent c none) (w.setChildren n []) =
    emptied at *
  rcases Unsettled.adoptAll cs hemptied.arranged (hemptied.size ▸ hn.1)
    (fun c hc => hemptied.size ▸ hcs c hc) with ⟨hadopted, hlinked⟩
  have hall := hemptied.trans hadopted
  generalize cs.foldl (World.adopt n) emptied = adopted at *
  have hlast : adopted.OnlyNodes w' := by
    rw [hw']
    exact OnlyNodes.updateNode adopted n _
  have hlinks : ∀ m, (w'.node m).parent = if m ∈ cs then some n else
      if (w.node m).parent = some n then none else (w.node m).parent := by
    intro m
    rw [hw', parent_setChildren, hlinked, hunlinked]
  have hchild : ∀ c, (w'.node c).parent = some n ↔ c ∈ cs := by
    intro c
    rw [hlinks]
    by_cases hc : c ∈ cs
    · simp only [hc, if_true]
    · by_cases hparent : (w.node c).parent = some n
      · simp only [hc, hparent, if_true, if_false, reduceCtorEq]
      · simp only [hc, hparent, if_false]
  have hshrunk : w'.Beneath (fun p => adopted.Lives p ∧ p ≠ n) ≤ w.Beneath w.Lives := by
    rintro x p ⟨hx, hp⟩
    refine ⟨?_, hall.lives p hp.1⟩
    rw [hlinks] at hx
    split at hx
    · injection hx with hx
      exact absurd hx.symm hp.2
    · split at hx
      · exact absurd hx (Option.some_ne_none p).symm
      · exact hx
  have hlisted : w'.Arranged fun p => adopted.Lives p ∧ p ≠ n := by
    rw [hw']
    exact hall.arranged.updateChildren (fun hp => hp.2 rfl) fun _ => cs
  refine ⟨hall.rest.trans hlast, ?_⟩
  -- At last the node is back, with children that are not above it.
  refine (hlisted.insert (n := n) ?_ ?_).mono fun p hp => ?_
  · intro c
    have hchildren : (w'.node n).children = cs := by
      rw [hw', children_setChildren, if_pos ⟨rfl, by rw [hall.size]; exact hn.1⟩]
    rw [hchildren, hnodup.count]
    simp only [hchild]
  · intro c hc hway
    exact hfree c ((hchild c).mp hc) (ReflTransGen.mono hshrunk n c hway)
  · have hlives : adopted.Lives p := by
      refine lives_of_onlyNodes hlast (by rw [hw', size_setChildren]) (fun q c hc => ?_) hp
      rw [hw', children_setChildren] at hc
      split at hc
      · refine Or.inr (alive_of_mem_pins ?_)
        rw [hall.rest.pins]
        exact hpinned c hc
      · exact Or.inl hc
    by_cases hpn : p = n
    · exact Or.inr hpn
    · exact Or.inl ⟨hlives, hpn⟩

/-- Giving a node other children, which are not above it while all of them are held on to. -/
theorem Arranged.replaceChildren {v : World κ σ} {n : NodeId} {cs : List NodeId}
    (hv : v = { w with pins := (n :: (w.node n).children ++ cs).map .node ++ w.pins })
    (h : v.Arranged v.Lives) (hn : n.index < w.nodes.size)
    (hcs : ∀ c ∈ cs, c.index < w.nodes.size) (hnodup : cs.Nodup)
    (hfree : ∀ c ∈ cs, ¬ReflTransGen (v.Beneath v.Lives) n c) :
    (w.replaceChildren n cs).Arranged (w.replaceChildren n cs).Lives := by
  have hpinned : ∀ c ∈ n :: (w.node n).children ++ cs, Handle.node c ∈ v.pins := by
    intro c hc
    rw [hv]
    exact List.mem_append_left _ (List.mem_map_of_mem hc)
  have hlives : v.Lives n := by
    refine ⟨?_, alive_of_mem_pins (hpinned n List.mem_cons_self)⟩
    rw [hv]
    exact hn
  generalize hhung : (cs.foldl (World.adopt n) ((v.node n).children.foldl
    (fun w c => w.setParent c none) (v.setChildren n []))).setChildren n cs = hung
  have hresult : w.replaceChildren n cs = { hung with pins := w.pins } := by
    rw [← hhung, hv]
    rfl
  rcases h.rehang hlives (by rw [hv]; exact hcs) hnodup
    (fun c hc => hpinned c (List.mem_append_right _ hc)) hfree hhung.symm with ⟨hrest, harranged⟩
  have hpins : hung.pins = (n :: (w.node n).children ++ cs).map .node ++ w.pins := by
    rw [hrest.pins, hv]
  have hunpinned : World.Arranged { hung with pins := w.pins } hung.Lives :=
    harranged.of_nodes rfl
  rw [hresult]
  refine hunpinned.mono fun p hp => ⟨hp.1, ?_⟩
  -- What is alive afterwards was alive while more things were held on to.
  have halive : World.alive { hung with
      pins := (n :: (w.node n).children ++ cs).map .node ++ w.pins } (.node p) = true :=
    alive_pins hp.2
  rw [← hpins] at halive
  exact halive

end Moves

end World

end LiveTemplate
