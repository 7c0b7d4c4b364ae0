import LiveTemplate.Proofs.View.Arrangement
import Mathlib.Logic.Function.Basic

/-!
# What a Move Does

A move takes a node from one place to another and does nothing else.

The node leaves the list that it was in, where the others keep their order, and comes
to the end of the other list; it takes along what is beneath it. No other node is
linked or listed elsewhere than before, none changes in any other way, and nothing
comes to life or dies. The last point is what links depend on, since a link counts only
as long as its parent is there.

## Main definitions

* `Node.unplaced`: A node apart from its place.
* `World.Moved`: A move, described by everybody's parent and children afterwards.

## Main statements

* `World.alive_of_relisted`: What stays listed somewhere stays alive.
* `World.moved_append_detach`: What putting a node beneath another one and taking it out
  of its place do.
-/

namespace LiveTemplate

open Relation (TransGen ReflTransGen)

/-- A node apart from its place: its content, attributes, form value and listeners. -/
def Node.unplaced {κ : Type} (node : Node κ) : Node κ :=
  { node with parent := none, children := [] }

namespace World

variable {κ σ : Type} [Client σ] {w w' : World κ σ}

/-- Nodes have been moved: who their parents and children are now, and that nothing else has
    changed. -/
structure Moved (w w' : World κ σ) (parent : NodeId → Option NodeId)
    (children : NodeId → List NodeId) : Prop where
  /-- Only nodes have changed. -/
  rest : w.OnlyNodes w'
  /-- There are as many. -/
  size : w'.nodes.size = w.nodes.size
  /-- The same things are alive. -/
  alive : ∀ x ∈ w.handles, w'.alive x = w.alive x
  /-- The parents. -/
  parent : ∀ m, w'.parent? m = parent m
  /-- The children. -/
  children : ∀ m, (w'.node m).children = children m
  /-- Apart from their places the nodes are as they were. -/
  content : ∀ m, (w'.node m).unplaced = (w.node m).unplaced

/-! ### Staying alive -/

omit [Client σ] in
theorem owned_of_onlyNodes (h : w.OnlyNodes w') {g : Handle} (hg : ∀ p, g ≠ .node p) :
    w'.owned g = w.owned g := by
  cases g with
  | object o => rw [owned, owned, object, object, h.objects]
  | registry r => rw [owned, owned, registry, registry, h.registries]
  | subscriber s => rw [owned, owned, subscriber?, subscriber?, h.subscribers]
  | node p => exact absurd rfl (hg p)

omit [Client σ] in
theorem handles_of_onlyNodes (h : w.OnlyNodes w') (hsize : w'.nodes.size = w.nodes.size) :
    w'.handles = w.handles := by
  rw [handles, handles, h.objects, h.registries, h.subscribers, hsize]

theorem rooted_of_onlyNodes (h : w.OnlyNodes w') (x : Handle) : w'.rooted x = w.rooted x := by
  rw [rooted, rooted, h.pins, h.client]

/-- Living things stay alive, of nodes the ones with a property, if each such node that was
    listed is held on to or is listed by one of them. -/
theorem alive_of_relisted {P : NodeId → Prop} (h : w.OnlyNodes w')
    (hsize : w'.nodes.size = w.nodes.size)
    (hlisted : ∀ p c, P c → w.Lives p → c ∈ (w.node p).children →
      w.rooted (.node c) = true ∨ ∃ q, P q ∧ w.Lives q ∧ c ∈ (w'.node q).children)
    {x : Handle} (hx : x ∈ w.handles) (halive : w.alive x = true) (hP : ∀ n, x = .node n → P n) :
    w'.alive x = true := by
  -- They support each other afterwards as they did before.
  refine alive_of_supported (S := fun x => x ∈ w.handles ∧ w.alive x = true ∧
    ∀ n, x = .node n → P n) ?_ ⟨hx, halive, hP⟩
  rintro x ⟨hx, halive, hP⟩
  rw [rooted_of_onlyNodes h, handles_of_onlyNodes h hsize]
  rcases rooted_or_held_of_alive hx halive with hrooted | ⟨g, hg, howned, hgalive⟩
  · exact Or.inl hrooted
  · -- Only nodes hold other things than before.
    by_cases hnode : ∃ p, g = .node p
    · rcases hnode with ⟨p, rfl⟩
      rcases List.mem_map.mp howned with ⟨c, hc, rfl⟩
      rcases hlisted p c (hP c rfl) ⟨mem_handles_node.mp hg, hgalive⟩ hc with
        hrooted | ⟨q, hq, hqlives, hcq⟩
      · exact Or.inl hrooted
      · refine Or.inr ⟨.node q, mem_handles_node.mpr hqlives.1, List.mem_map_of_mem hcq,
          mem_handles_node.mpr hqlives.1, hqlives.2, ?_⟩
        rintro n ⟨⟩
        exact hq
    · have hother := not_exists.mp hnode
      rw [← owned_of_onlyNodes h hother] at howned
      exact Or.inr ⟨g, hg, howned, hg, hgalive, fun n hn => absurd hn (hother n)⟩

/-- The same things are alive if nothing dead is listed and everything that was listed still is
    or is held on to. -/
theorem alive_eq_of_relisted (h : w.OnlyNodes w') (hsize : w'.nodes.size = w.nodes.size)
    (hold : ∀ p c, w.Lives p → c ∈ (w.node p).children →
      w.rooted (.node c) = true ∨ ∃ q, w.Lives q ∧ c ∈ (w'.node q).children)
    (hnew : ∀ p c, c ∈ (w'.node p).children →
      c ∈ (w.node p).children ∨ w.alive (.node c) = true) {x : Handle} (hx : x ∈ w.handles) :
    w'.alive x = w.alive x := by
  rw [Bool.eq_iff_iff]
  -- A move brings nothing to life since it lists only what is alive, and lets nothing die.
  constructor
  · refine alive_of_nodes h.objects h.registries h.subscribers hsize.ge ?_
      (fun p c _ => hnew p c) hx
    intro y _ hrooted
    rw [rooted_of_onlyNodes h] at hrooted
    exact alive_of_rooted hrooted
  · intro halive
    refine alive_of_relisted (P := fun _ => True) h hsize ?_ hx halive fun _ _ => trivial
    intro p c _ hp hc
    simpa only [true_and] using hold p c hp hc

/-- The parents after a move, when each link leads to a node and the same nodes are alive. -/
theorem Arranged.parent?_of_alive {L : NodeId → Prop} (h : w.Arranged L)
    (halive : ∀ x ∈ w.handles, w'.alive x = w.alive x) {m : NodeId}
    (hlink : (w'.node m).parent = (w.node m).parent) : w'.parent? m = w.parent? m := by
  rw [parent?, parent?, hlink]
  cases hparent : (w.node m).parent with
  | none => rfl
  | some p =>
      rw [Option.filter_some, Option.filter_some,
        halive _ (mem_handles_node.mpr (h.linked m p hparent))]

/-! ### Taking a node out of its place -/

/-- The lists after a node has been taken out of its place. -/
theorem Arranged.children_detach_eq (h : w.Arranged w.Lives) (c m : NodeId) :
    ((w.detach c).node m).children =
      if w.parent? c = some m then (w.node m).children.filter (· != c)
      else (w.node m).children := by
  unfold World.detach
  cases hparent : w.parent? c with
  | none => rw [children_setParent, if_neg (Option.some_ne_none m).symm]
  | some p =>
      rw [children_setParent, node_updateNode]
      by_cases hpm : p = m
      · subst hpm
        rw [if_pos rfl, if_pos ⟨rfl, (h.parent?_eq_some_iff.mp hparent).2.1⟩]
      · rw [if_neg fun hand => hpm hand.1, if_neg fun heq => hpm (Option.some.inj heq)]

omit [Client σ] in
theorem unplaced_setParent (w : World κ σ) (c : NodeId) (parent : Option NodeId) (m : NodeId) :
    ((w.setParent c parent).node m).unplaced = (w.node m).unplaced := by
  unfold setParent
  refine node_updateNode_congr Node.unplaced ?_ w c m
  exact fun _ => rfl

omit [Client σ] in
theorem unplaced_updateChildren (w : World κ σ) (n : NodeId) (change : List NodeId → List NodeId)
    (m : NodeId) :
    ((w.updateNode n fun node => { node with children := change node.children }).node m).unplaced =
      (w.node m).unplaced := by
  refine node_updateNode_congr Node.unplaced ?_ w n m
  exact fun _ => rfl

theorem unplaced_detach (w : World κ σ) (c m : NodeId) :
    ((w.detach c).node m).unplaced = (w.node m).unplaced := by
  unfold detach
  split
  · rw [unplaced_setParent, unplaced_updateChildren _ _ (·.filter (· != c))]
  · rw [unplaced_setParent]

/-- A node that somebody holds on to stays alive without its place, and the others stay alive in
    theirs. -/
theorem Arranged.alive_detach (h : w.Arranged w.Lives) {c : NodeId}
    (hheld : w.rooted (.node c) = true ∨ w.parent? c = none) {x : Handle} (hx : x ∈ w.handles) :
    (w.detach c).alive x = w.alive x := by
  refine alive_eq_of_relisted (w.onlyNodes_detach c) (size_detach w c) ?_
    (fun p y hy => Or.inl (mem_children_of_detach hy)) hx
  intro p y hp hy
  by_cases hyc : y = c
  · subst hyc
    -- Whoever is listed has a parent, so it is the node that is held on to.
    rcases hheld with hrooted | hnone
    · exact Or.inl hrooted
    · have hparent := h.parent?_eq_some_iff.mpr ⟨(h.mem_children_iff hp).mp hy, hp⟩
      rw [hnone] at hparent
      exact absurd hparent (Option.some_ne_none p).symm
  · refine Or.inr ⟨p, hp, ?_⟩
    rw [h.children_detach_eq]
    split
    · exact List.mem_filter.mpr ⟨hy, bne_iff_ne.mpr hyc⟩
    · exact hy

/-- A node that is held on to, or that has no parent, is taken out of its place. -/
theorem Arranged.moved_detach (h : w.Arranged w.Lives) {c : NodeId}
    (hheld : w.rooted (.node c) = true ∨ w.parent? c = none) :
    w.Moved (w.detach c) (Function.update w.parent? c none) fun m =>
      if w.parent? c = some m then (w.node m).children.filter (· != c)
      else (w.node m).children where
  rest := w.onlyNodes_detach c
  size := size_detach w c
  alive _ hx := h.alive_detach hheld hx
  parent m := by
    by_cases hm : m = c
    · subst hm
      rw [Function.update_self, parent?, parent_detach, if_pos rfl]
      rfl
    · rw [Function.update_of_ne hm]
      refine h.parent?_of_alive (fun _ hx => h.alive_detach hheld hx) ?_
      rw [parent_detach, if_neg hm]
  children := h.children_detach_eq c
  content := unplaced_detach w c

/-! ### Putting a node beneath another one -/

theorem unplaced_append {p c : NodeId} (hnot : w.isBeneath p c = false) (m : NodeId) :
    ((w.append p c).node m).unplaced = (w.node m).unplaced := by
  rw [append_eq hnot, unplaced_updateChildren _ p (· ++ [c]), World.adopt, unplaced_setParent,
    unplaced_detach]

/-- The lists after a node has been put beneath another one. -/
theorem Arranged.children_append_eq (h : w.Arranged w.Lives) {p c : NodeId} (hp : w.Lives p)
    (hnot : w.isBeneath p c = false) (m : NodeId) :
    ((w.append p c).node m).children =
      if m = p then (w.node p).children.filter (· != c) ++ [c]
      else if w.parent? c = some m then (w.node m).children.filter (· != c)
      else (w.node m).children := by
  rw [append_eq hnot, node_updateNode, size_adopt]
  by_cases hm : m = p
  · subst hm
    rw [if_pos ⟨rfl, hp.1⟩, if_pos rfl, World.adopt, children_setParent,
      h.children_detach (fun _ hq => hq.2) c hp]
  · rw [if_neg fun hand => hm hand.1.symm, if_neg hm, World.adopt, children_setParent,
      h.children_detach_eq]

/-- The node stays alive in its new place, and the others in their old ones. -/
theorem Arranged.alive_append (h : w.Arranged w.Lives) {p c : NodeId} (hp : w.Lives p)
    (hc : w.Lives c) (hnot : w.isBeneath p c = false) {x : Handle} (hx : x ∈ w.handles) :
    (w.append p c).alive x = w.alive x := by
  have hchildren := h.children_append_eq hp hnot
  refine alive_eq_of_relisted (onlyNodes_append_of_not hnot) (size_append hnot) ?_ ?_ hx
  · intro q y hq hy
    -- The node itself is listed by its new parent, and the others where they were.
    by_cases hyc : y = c
    · refine Or.inr ⟨p, hp, ?_⟩
      rw [hchildren, if_pos rfl, hyc]
      exact List.mem_append_right _ List.mem_cons_self
    · refine Or.inr ⟨q, hq, ?_⟩
      have hkept : y ∈ (w.node q).children.filter (· != c) :=
        List.mem_filter.mpr ⟨hy, bne_iff_ne.mpr hyc⟩
      rw [hchildren]
      split
      · next hqp => exact List.mem_append_left _ (hqp ▸ hkept)
      · split
        · exact hkept
        · exact hy
  · intro q y hy
    rw [hchildren] at hy
    split at hy
    · next hqp =>
        rcases List.mem_append.mp hy with hy | hy
        · exact Or.inl (hqp ▸ List.mem_of_mem_filter hy)
        · rw [List.mem_singleton.mp hy]
          exact Or.inr hc.2
    · split at hy
      · exact Or.inl (List.mem_of_mem_filter hy)
      · exact Or.inl hy

/-- A node that is not above the other one is put beneath it. -/
theorem Arranged.moved_append (h : w.Arranged w.Lives) {p c : NodeId} (hp : w.Lives p)
    (hc : w.Lives c) (hnot : w.isBeneath p c = false) :
    w.Moved (w.append p c) (Function.update w.parent? c (some p)) fun m =>
      if m = p then (w.node p).children.filter (· != c) ++ [c]
      else if w.parent? c = some m then (w.node m).children.filter (· != c)
      else (w.node m).children where
  rest := onlyNodes_append_of_not hnot
  size := size_append hnot
  alive _ hx := h.alive_append hp hc hnot hx
  parent m := by
    have halive : ∀ x ∈ w.handles, (w.append p c).alive x = w.alive x :=
      fun _ hx => h.alive_append hp hc hnot hx
    by_cases hm : m = c
    · subst hm
      rw [Function.update_self, parent?, parent_append hc.1 hnot, if_pos rfl, Option.filter_some,
        halive _ (mem_handles_node.mpr hp.1), hp.2]
      rfl
    · rw [Function.update_of_ne hm]
      refine h.parent?_of_alive halive ?_
      rw [parent_append hc.1 hnot, if_neg hm]
  children := h.children_append_eq hp hnot
  content := unplaced_append hnot

/-- What the two moves do in a forest. Putting a node beneath itself or beneath a node that it
    is above is refused, and nothing changes but what the client notes about it. Otherwise the
    node is the last child of its new parent, its old parent has lost it, and everything
    else is as it was. A node that somebody holds on to can be taken out of its place, and
    one without a parent stays as it is. -/
theorem moved_append_detach (h : w.Arranged w.Lives) {p c : NodeId} (hp : w.Lives p)
    (hc : w.Lives c) :
    (ReflTransGen (fun c p => w.parent? c = some p) p c →
        { w.append p c with client := w.client } = w) ∧
      (¬ReflTransGen (fun c p => w.parent? c = some p) p c →
        w.Moved (w.append p c) (Function.update w.parent? c (some p)) fun m =>
          if m = p then (w.node p).children.filter (· != c) ++ [c]
          else if w.parent? c = some m then (w.node m).children.filter (· != c)
          else (w.node m).children) ∧
      (w.rooted (.node c) = true →
        w.Moved (w.detach c) (Function.update w.parent? c none) fun m =>
          if w.parent? c = some m then (w.node m).children.filter (· != c)
          else (w.node m).children) ∧
      (w.parent? c = none →
        w.Moved (w.detach c) w.parent? fun m => (w.node m).children) := by
  have hbeneath : w.isBeneath p c = true ↔ ReflTransGen (fun c p => w.parent? c = some p) p c := by
    rw [isBeneath, List.contains_iff_mem, h.mem_lineage_iff hp.1]
  refine ⟨fun hway => ?_, fun hfree => ?_, fun hheld => h.moved_detach (Or.inl hheld),
    fun hnone => ?_⟩
  · rw [append, if_pos (hbeneath.mpr hway)]
    rfl
  · rw [← hbeneath, Bool.not_eq_true] at hfree
    exact h.moved_append hp hc hfree
  · -- Without a parent there is no list to leave, and no link to cut.
    have hmoved := h.moved_detach (c := c) (Or.inr hnone)
    rw [hnone] at hmoved
    simp only [reduceCtorEq, if_false] at hmoved
    rwa [← hnone, Function.update_eq_self] at hmoved

end World

namespace ViewCommand

/-- A list of two items. -/
def listing : List ViewCommand :=
  [.create (.element "ul"), .plant "<li>a</li><li>b</li>", .append ⟨0⟩ ⟨1⟩, .append ⟨0⟩ ⟨3⟩]

theorem isSome_listing : (runAll listing (World.start Unit ())).isSome = true := by
  decide +kernel

/-- The world with the list. -/
def listingWorld : ClientWorld Unit Unit :=
  (runAll listing (World.start Unit ())).get isSome_listing

end ViewCommand

open ViewCommand in
/-- The first item of a list becomes the last one, or leaves the list, and the list does not
    come to stand beneath it. -/
theorem World.moved_append_detach_listing :
    { listingWorld.append ⟨1⟩ ⟨0⟩ with client := listingWorld.client } = listingWorld ∧
      ((listingWorld.append ⟨0⟩ ⟨1⟩).node ⟨0⟩).children = [⟨3⟩, ⟨1⟩] ∧
      (listingWorld.append ⟨0⟩ ⟨1⟩).parent? ⟨1⟩ = some ⟨0⟩ ∧
      ((listingWorld.detach ⟨1⟩).node ⟨0⟩).children = [⟨3⟩] ∧
      (listingWorld.detach ⟨1⟩).parent? ⟨1⟩ = none ∧
      ∀ m, ((listingWorld.detach ⟨0⟩).node m).children = (listingWorld.node m).children := by
  have harranged : listingWorld.Arranged listingWorld.Lives :=
    runAll_arranged (arranged_start ()) (Option.some_get isSome_listing).symm
  have hlist : listingWorld.Lives ⟨0⟩ := ⟨by decide +kernel, by decide +kernel⟩
  have hitem : listingWorld.Lives ⟨1⟩ := ⟨by decide +kernel, by decide +kernel⟩
  have htop : listingWorld.parent? ⟨0⟩ = none := by decide +kernel
  have hbeneath : listingWorld.parent? ⟨1⟩ = some ⟨0⟩ := by decide +kernel
  have hfree : ¬ReflTransGen (fun c p => listingWorld.parent? c = some p) ⟨0⟩ ⟨1⟩ := by
    intro hway
    rcases hway.cases_head with heq | ⟨p, hp, _⟩
    · exact absurd heq (by decide)
    · rw [htop] at hp
      exact absurd hp (Option.some_ne_none p).symm
  have hdown := moved_append_detach harranged hlist hitem
  have hup := moved_append_detach harranged hitem hlist
  have happended := hdown.2.1 hfree
  have hdetached := hdown.2.2.1 (by decide +kernel)
  refine ⟨hup.1 (.single hbeneath), ?_, ?_, ?_, ?_, (hup.2.2.2 htop).children⟩
  · rw [happended.children]
    decide +kernel
  · rw [happended.parent, Function.update_self]
  · rw [hdetached.children, if_pos hbeneath]
    decide +kernel
  · rw [hdetached.parent, Function.update_self]

end LiveTemplate
