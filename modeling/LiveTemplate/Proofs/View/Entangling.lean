import LiveTemplate.Proofs.View.Linking
import LiveTemplate.Proofs.View.Placing

/-!
# Children That Are No Children

Which lists of children leave the view a forest.

Giving a node other children installs the list as it is. No check is made of the kind
that is made before a node is put beneath another one: a list with a node that stands twice in
it lists that node twice, and a list with the node itself, or with one above it, closes
a circle. These are the only lists that do harm. A circle is closed for the following
reason. The way up from the node is there still, as far as the first node on it that is a
new child, since only new children and old ones get another link, and an old child does
not stand above its parent. From there the link leads to the node.

A circle counts only if its nodes are there still, but nobody loses the last hold on
life who does not stand beneath the node: whoever has lost the place where it was
listed is listed by the node itself now.

## Main statements

* `World.Lives.replaceChildren`: Who is there still after a node has got other children.
* `World.arranged_replaceChildren_iff`: New children leave the view a forest exactly if they are
  distinct and neither the node itself nor above it.
-/

namespace LiveTemplate

open Relation (TransGen ReflTransGen)

namespace World

section Lists

variable {κ σ : Type} [Client σ] {w : World κ σ} {n : NodeId}

/-- The others stay in their lists when a node is taken out of its place. -/
theorem mem_children_detach {c p x : NodeId} (hx : x ∈ (w.node p).children) (hne : x ≠ c) :
    x ∈ ((w.detach c).node p).children := by
  unfold detach
  split
  · rw [children_setParent, node_updateNode]
    split
    · exact List.mem_filter.mpr ⟨hx, bne_iff_ne.mpr hne⟩
    · exact hx
  · rw [children_setParent]
    exact hx

theorem mem_children_foldl_adopt {cs : List NodeId} {p x : NodeId}
    (hx : x ∈ (w.node p).children) (hout : x ∉ cs) :
    x ∈ ((cs.foldl (adopt n) w).node p).children := by
  induction cs generalizing w with
  | nil => exact hx
  | cons c cs ih =>
      rw [List.mem_cons, not_or] at hout
      refine ih ?_ hout.2
      rw [adopt, children_setParent]
      exact mem_children_detach hx hout.1

omit [Client σ] in
theorem children_foldl_clear (old : List NodeId) (w : World κ σ) (p : NodeId) :
    ((old.foldl (fun w c => w.setParent c none) w).node p).children = (w.node p).children := by
  induction old generalizing w with
  | nil => rfl
  | cons c old ih => rw [List.foldl_cons, ih, children_setParent]

/-- Who has been listed by another node and is no new child is listed there still. -/
theorem mem_children_replaceChildren {cs : List NodeId} {p x : NodeId} (hp : p ≠ n)
    (hx : x ∈ (w.node p).children) (hout : x ∉ cs) :
    x ∈ ((w.replaceChildren n cs).node p).children := by
  unfold replaceChildren holding
  change x ∈ (((cs.foldl (adopt n) _).setChildren n cs).node p).children
  rw [children_setChildren, if_neg fun hand => hp hand.1.symm]
  refine mem_children_foldl_adopt ?_ hout
  rw [children_foldl_clear, children_setChildren, if_neg fun hand => hp hand.1.symm]
  exact hx

theorem size_foldl_adopt (cs : List NodeId) (w : World κ σ) :
    (cs.foldl (adopt n) w).nodes.size = w.nodes.size := by
  induction cs generalizing w with
  | nil => rfl
  | cons c cs ih => rw [List.foldl_cons, ih, size_adopt]

theorem size_replaceChildren (w : World κ σ) (n : NodeId) (cs : List NodeId) :
    (w.replaceChildren n cs).nodes.size = w.nodes.size := by
  unfold replaceChildren holding
  change ((cs.foldl (adopt n) _).setChildren n cs).nodes.size = _
  rw [size_setChildren, size_foldl_adopt, size_foldl_clear, size_setChildren]

/-- The node lists what it has been given. -/
theorem children_replaceChildren (hn : n.index < w.nodes.size) (cs : List NodeId) :
    ((w.replaceChildren n cs).node n).children = cs := by
  unfold replaceChildren holding
  change (((cs.foldl (adopt n) _).setChildren n cs).node n).children = cs
  rw [children_setChildren, size_foldl_adopt, size_foldl_clear, size_setChildren,
    if_pos ⟨rfl, hn⟩]

/-- Who does not stand beneath a node is there still after that has got other children. -/
theorem Lives.replaceChildren {cs : List NodeId} (h : w.Arranged w.Lives) (hn : w.Lives n)
    {m : NodeId} (hm : w.Lives m) (hnot : ¬TransGen (w.Beneath w.Lives) m n) :
    (w.replaceChildren n cs).Lives m := by
  have hsize := size_replaceChildren w n cs
  refine ⟨hsize.symm ▸ hm.1, ?_⟩
  refine alive_of_relisted (P := fun m => ¬TransGen (w.Beneath w.Lives) m n)
    (w.onlyNodes_replaceChildren n cs) hsize ?_ (mem_handles_node.mpr hm.1) hm.2 ?_
  · intro p c hc hp hlisted
    have hlink : w.Beneath w.Lives c p := ⟨(h.mem_children_iff hp).mp hlisted, hp⟩
    by_cases hmem : c ∈ cs
    · refine Or.inr ⟨n, h.acyclic n, hn, ?_⟩
      rw [children_replaceChildren hn.1]
      exact hmem
    · have hpn : p ≠ n := by
        rintro rfl
        exact hc (.single hlink)
      exact Or.inr ⟨p, fun hway => hc (.head hlink hway), hp,
        mem_children_replaceChildren hpn hlisted hmem⟩
  · rintro _ ⟨⟩
    exact hnot

/-- After a node has got other children, the way up from it leads to wherever it led before,
    or to one of the new children. -/
theorem Arranged.way_replaceChildren {cs : List NodeId} (h : w.Arranged w.Lives) (hn : w.Lives n)
    (hcs : ∀ c ∈ cs, w.Lives c) {a : NodeId} (hway : ReflTransGen (w.Beneath w.Lives) n a) :
    let w' := w.replaceChildren n cs
    ReflTransGen (w'.Beneath w'.Lives) n a ∨ ∃ c ∈ cs, ReflTransGen (w'.Beneath w'.Lives) n c := by
  intro w'
  -- Induct on the way: once a new child has been met, the link there leads back to the node, so
  -- only the part of the way before it is followed.
  induction hway with
  | refl => exact Or.inl .refl
  | @tail b d hbefore hstep ih =>
      rcases ih with hb | hnew
      · by_cases hmem : b ∈ cs
        · exact Or.inr ⟨b, hmem, hb⟩
        · -- Nobody on the way up is an old child, and everybody is there still.
          have hold : b ∉ (w.node n).children := by
            intro hlisted
            have hback : w.Beneath w.Lives b n := ⟨(h.mem_children_iff hn).mp hlisted, hn⟩
            exact h.acyclic n (.tail' hbefore hback)
          have hlink : (w'.node b).parent = some d := by
            rw [parent_replaceChildren fun c hc => (hcs c hc).1, if_neg hmem, if_neg hold]
            exact hstep.1
          have habove : ¬TransGen (w.Beneath w.Lives) d n := by
            intro hdown
            exact h.acyclic n (.trans_right hbefore (.head hstep hdown))
          exact Or.inl (hb.tail ⟨hlink, Lives.replaceChildren h hn hstep.2 habove⟩)
      · exact Or.inr hnew

/-- A list with a node that is above its new parent closes a circle. -/
theorem Arranged.not_above_of_replaceChildren {cs : List NodeId} (h : w.Arranged w.Lives)
    (hn : w.Lives n) (hcs : ∀ c ∈ cs, w.Lives c)
    (h' : (w.replaceChildren n cs).Arranged (w.replaceChildren n cs).Lives) :
    ∀ c ∈ cs, ¬ReflTransGen (w.Beneath w.Lives) n c := by
  intro c hc hway
  have hlives : (w.replaceChildren n cs).Lives n := Lives.replaceChildren h hn hn (h.acyclic n)
  -- From a new child a link leads to the node, so no way may lead from the node to a new child.
  have hcircle : ∀ c ∈ cs,
      ¬ReflTransGen ((w.replaceChildren n cs).Beneath (w.replaceChildren n cs).Lives) n c := by
    intro c hc hto
    refine h'.acyclic n (.tail' hto ⟨?_, hlives⟩)
    rw [parent_replaceChildren fun c hc => (hcs c hc).1, if_pos hc]
  rcases h.way_replaceChildren hn hcs hway with hto | ⟨c', hc', hto⟩
  · exact hcircle c hc hto
  · exact hcircle c' hc' hto

/-- A list with a node that stands twice in it lists that node twice. -/
theorem Arranged.nodup_of_replaceChildren {cs : List NodeId} (h : w.Arranged w.Lives)
    (hn : w.Lives n)
    (h' : (w.replaceChildren n cs).Arranged (w.replaceChildren n cs).Lives) : cs.Nodup := by
  rw [List.nodup_iff_count_le_one]
  intro c
  have hcount := h'.listed n (Lives.replaceChildren h hn hn (h.acyclic n)) c
  rw [children_replaceChildren hn.1] at hcount
  rw [hcount]
  split <;> decide

end Lists

variable {ν τ : Type} {w : ClientWorld ν τ} {n : NodeId}

/-- A node has the children that it is given, and the view is a forest afterwards exactly if
    these are distinct and none of them is the node itself or above it. -/
theorem arranged_replaceChildren_iff {cs : List NodeId} (h : w.Arranged w.Lives)
    (hn : w.Lives n) (hcs : ∀ c ∈ cs, w.Lives c) :
    ((w.replaceChildren n cs).node n).children = cs ∧
      ((w.replaceChildren n cs).Arranged (w.replaceChildren n cs).Lives ↔
        cs.Nodup ∧ ∀ c ∈ cs, ¬ReflTransGen (fun c p => w.parent? c = some p) n c) := by
  refine ⟨children_replaceChildren hn.1 cs, fun h' => ⟨h.nodup_of_replaceChildren hn h', ?_⟩, ?_⟩
  · rw [h.parent?_eq]
    exact h.not_above_of_replaceChildren hn hcs h'
  · rintro ⟨hnodup, hfree⟩
    refine h.replaceLiving hn hcs hnodup fun c hc => ?_
    rw [isBeneath, ← Bool.not_eq_true, List.contains_iff_mem, h.mem_lineage_iff hn.1]
    exact hfree c hc

open ViewCommand in
/-- The items of a list can change their places. -/
theorem arranged_replaceChildren_iff_listing :
    listingWorld.Lives ⟨0⟩ ∧
      (listingWorld.replaceChildren ⟨0⟩ [⟨3⟩, ⟨1⟩]).Arranged
        (listingWorld.replaceChildren ⟨0⟩ [⟨3⟩, ⟨1⟩]).Lives := by
  have harranged : listingWorld.Arranged listingWorld.Lives :=
    runAll_arranged (arranged_start ()) (Option.some_get isSome_listing).symm
  have hlist : listingWorld.Lives ⟨0⟩ := ⟨by decide +kernel, by decide +kernel⟩
  have hitems : ∀ c ∈ [(⟨3⟩ : NodeId), ⟨1⟩], listingWorld.Lives c := by decide +kernel
  refine ⟨hlist, (arranged_replaceChildren_iff harranged hlist hitems).2.mpr ⟨by decide, ?_⟩⟩
  intro c hc hway
  have htop : listingWorld.parent? ⟨0⟩ = none := by decide +kernel
  rcases hway.cases_head with rfl | ⟨p, hp, _⟩
  · exact absurd hc (by decide)
  · rw [htop] at hp
    exact absurd hp (Option.some_ne_none p).symm

open ViewCommand in
/-- A list that is given itself as a child is beneath itself, and one that is given an item twice
    lists it twice, although the view was a forest. -/
theorem entangled_listing :
    listingWorld.Arranged listingWorld.Lives ∧ listingWorld.Lives ⟨0⟩ ∧ listingWorld.Lives ⟨1⟩ ∧
      (listingWorld.replaceChildren ⟨0⟩ [⟨0⟩]).parent? ⟨0⟩ = some ⟨0⟩ ∧
      ¬(listingWorld.replaceChildren ⟨0⟩ [⟨0⟩]).Arranged
        (listingWorld.replaceChildren ⟨0⟩ [⟨0⟩]).Lives ∧
      ((listingWorld.replaceChildren ⟨0⟩ [⟨1⟩, ⟨1⟩]).node ⟨0⟩).children = [⟨1⟩, ⟨1⟩] ∧
      ¬(listingWorld.replaceChildren ⟨0⟩ [⟨1⟩, ⟨1⟩]).Arranged
        (listingWorld.replaceChildren ⟨0⟩ [⟨1⟩, ⟨1⟩]).Lives := by
  refine ⟨runAll_arranged (arranged_start ()) (Option.some_get isSome_listing).symm,
    by decide +kernel, by decide +kernel, by decide +kernel, fun h => ?_, by decide +kernel,
    fun h => ?_⟩
  · refine h.acyclic ⟨0⟩ (.single ⟨?_, ?_⟩)
    · decide +kernel
    · decide +kernel
  · have hcount := h.listed ⟨0⟩ (by decide +kernel) ⟨1⟩
    revert hcount
    decide +kernel

end World

end LiveTemplate
