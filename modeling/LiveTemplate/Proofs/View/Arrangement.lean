import LiveTemplate.Proofs.Reaction.Running
import LiveTemplate.Proofs.Reaction.UpToDate
import LiveTemplate.Proofs.View.Sprouting
import LiveTemplate.Reaction.Dispatch

/-!
# The View Is a Forest

However a client builds and rearranges a view, it stays a forest.

A client creates nodes, plants markup, moves nodes about, gives them new content and
lets go of them, in any order. It works with nodes that are there, and gives a node
other children only if these are distinct and not above it; everything else it may do
without care, even try to put a node beneath itself. After any such run a node is
listed once by its parent and by no other node that is there, and going up from a node
never leads back to it. So the walks up and down the view come to an end.

## Main definitions

* `ViewCommand`: What a client does to a view.
* `ViewCommand.runAll`: Several commands, one after the other.

## Theorems

* `ViewCommand.run_arranged`: Every command leaves the view well arranged.
* `ViewCommand.forest_of_runAll`: After any run the view is a forest.
-/

namespace LiveTemplate

open Markup
open Relation (TransGen ReflTransGen)

namespace World

section Planting

variable {κ σ : Type} [Client σ] {w₀ w w' : World κ σ}

omit [Client σ] in
/-- There are more nodes, and nothing else has changed. -/
structure Grown (w w' : World κ σ) : Prop where
  /-- There are more nodes. -/
  grown : w.nodes.size ≤ w'.nodes.size
  /-- The nodes that were there are as they were. -/
  kept : ∀ m : NodeId, m.index < w.nodes.size → w'.node m = w.node m
  /-- Nothing else has changed. -/
  rest : w.OnlyNodes w'

omit [Client σ] in
theorem Planted.toGrown {parent : Option NodeId} {ts : List Tree} {ns : List NodeId}
    (h : w.Planted parent ts ns w') : w.Grown w' :=
  ⟨h.grown, h.kept, h.rest⟩

omit [Client σ] in
theorem grown_addNode (w : World κ σ) (node : Node κ) : w.Grown (w.addNode node).2 := by
  refine ⟨?_, fun m hm => node_addNode_of_lt w node hm, OnlyNodes.addNode w node⟩
  rw [size_nodes_addNode]
  exact Nat.le_succ _

/-- What is there after planting, when nothing that was dead is held on to, was there before
    or has been planted. -/
theorem Sprouted.lives {ns : List NodeId} (hs : w₀.Sprouted w₀.Lives ns w) {p : NodeId}
    (hp : w'.Lives p) (hgrown : w₀.Grown w) (hlinked : w₀.Arranged w₀.Lives)
    (hrest : w.objects = w'.objects ∧ w.registries = w'.registries ∧
      w.subscribers = w'.subscribers ∧ w.nodes = w'.nodes)
    (hrooted : ∀ h ∈ w₀.handles, w'.rooted h = true → w₀.alive h = true) :
    w₀.Lives p ∨ w₀.nodes.size ≤ p.index ∧ p.index < w.nodes.size := by
  rcases hrest with ⟨hobjects, hregistries, hsubscribers, hnodes⟩
  have hnode : ∀ m, w'.node m = w.node m := fun m => by rw [node, ← hnodes, ← node]
  by_cases hlt : p.index < w₀.nodes.size
  · refine Or.inl ⟨hlt, alive_of_nodes (hobjects.symm.trans hgrown.rest.objects)
      (hregistries.symm.trans hgrown.rest.registries)
      (hsubscribers.symm.trans hgrown.rest.subscribers) (hnodes ▸ hgrown.grown) hrooted ?_
      (mem_handles_node.mpr hlt) hp.2⟩
    intro q c hc hmem
    rw [hnode] at hmem
    by_cases hq : q.index < w₀.nodes.size
    · rw [hgrown.kept q hq] at hmem
      exact Or.inl hmem
    · -- A new node lists only what links to it, and old nodes do not.
      have hqlt : q.index < w.nodes.size := by
        by_contra hqlt
        rw [node, Heap.get?_eq_none (Nat.le_of_not_lt hqlt)] at hmem
        exact absurd hmem List.not_mem_nil
      have hlink := (hs.arranged.mem_children_iff (Or.inr ⟨Nat.le_of_not_lt hq, hqlt⟩)).mp hmem
      rw [hgrown.kept c hc] at hlink
      exact absurd (hlinked.linked c q hlink) hq
  · rw [Lives, ← hnodes] at hp
    exact Or.inr ⟨Nat.le_of_not_lt hlt, hp.1⟩

/-- From a node that was there before planting no way leads to a new one. -/
theorem Grown.not_above (hgrown : w₀.Grown w) (hlinked : w₀.Arranged w₀.Lives) {v : World κ σ}
    (hv : v.nodes = w.nodes) {L : NodeId → Prop} {n c : NodeId} (hn : n.index < w₀.nodes.size)
    (hc : w₀.nodes.size ≤ c.index) : ¬ReflTransGen (v.Beneath L) n c := by
  intro hway
  have hold : ∀ m, ReflTransGen (v.Beneath L) n m → m.index < w₀.nodes.size := by
    intro m hm
    induction hm with
    | refl => exact hn
    | tail _ hstep ih =>
        have hlink := hstep.1
        rw [node, hv, ← node, hgrown.kept _ ih] at hlink
        exact hlinked.linked _ _ hlink
  exact Nat.not_lt_of_le hc (hold c hway)

/-- Giving a node the children that have just been planted. -/
theorem Arranged.replaceSprouted {ns : List NodeId} (h : w₀.Arranged w₀.Lives)
    (hgrown : w₀.Grown w) (hs : w₀.Sprouted w₀.Lives ns w) {n : NodeId}
    (hn : w₀.Lives n) :
    (w.replaceChildren n ns).Arranged (w.replaceChildren n ns).Lives := by
  generalize hv : ({ w with pins := (n :: (w.node n).children ++ ns).map .node ++ w.pins } :
    World κ σ) = v
  have hnodes : v.nodes = w.nodes := by rw [← hv]
  have hvlives : ∀ p, v.Lives p →
      w₀.Lives p ∨ w₀.nodes.size ≤ p.index ∧ p.index < w.nodes.size := by
    refine fun p hp => hs.lives hp hgrown h ?_ fun x hx hrooted => ?_
    · rw [← hv]
      exact ⟨rfl, rfl, rfl, rfl⟩
    · rw [rooted_eq_true_iff, ← hv, List.mem_append] at hrooted
      rcases hrooted with (hpin | hpin) | hheld
      · rcases List.mem_map.mp hpin with ⟨m, hm, rfl⟩
        rw [List.cons_append, List.mem_cons, List.mem_append] at hm
        rcases hm with rfl | hm | hm
        · exact hn.2
        · rw [hgrown.kept n hn.1] at hm
          exact (h.lives_of_mem_children hn hm).2
        · exact absurd (mem_handles_node.mp hx) (Nat.not_lt_of_le (hs.new m hm).1)
      · rw [hgrown.rest.pins] at hpin
        exact alive_of_mem_pins hpin
      · rw [hgrown.rest.client] at hheld
        exact alive_of_mem_held hheld
  have harranged : v.Arranged v.Lives :=
    (hs.arranged.of_nodes hnodes).mono hvlives
  refine Arranged.replaceChildren hv.symm harranged (Nat.lt_of_lt_of_le hn.1 hgrown.grown)
    (fun c hc => (hs.new c hc).2) hs.nodup fun c hc => ?_
  exact hgrown.not_above h hnodes hn.1 (hs.new c hc).1

theorem sprouted_plantForest (h : w.Arranged w.Lives) (ts : List Tree) :
    w.Sprouted w.Lives (plantForest ts w).1 (plantForest ts w).2 :=
  sprouted_plantAllUnder none ts h
    ⟨fun _ hp => hp.1, fun p hp => absurd hp (Option.some_ne_none p).symm⟩

end Planting

/-- Kinds and contents do not matter. -/
theorem Arranged.updateContent {κ σ : Type} [Client σ] {w : World κ σ} (h : w.Arranged w.Lives)
    (n : NodeId) {change : Node κ → Node κ} (hparent : ∀ node, (change node).parent = node.parent)
    (hchildren : ∀ node, (change node).children = node.children) :
    (w.updateNode n change).Arranged (w.updateNode n change).Lives := by
  have hlists := node_updateNode_congr Node.children hchildren w n
  refine (h.congr (size_nodes_updateNode w n change)
    (node_updateNode_congr Node.parent hparent w n) hlists).mono fun p => ?_
  refine lives_of_onlyNodes (OnlyNodes.updateNode w n change) (size_nodes_updateNode w n change)
    fun q c hc => ?_
  rw [hlists] at hc
  exact Or.inl hc

section Content

variable {ν τ : Type} {w : ClientWorld ν τ} {n : NodeId}

theorem Arranged.setText (h : w.Arranged w.Lives) (hn : w.Lives n) (content : String) :
    (w.setText n content).Arranged (w.setText n content).Lives := by
  unfold World.setText
  cases hkind : (w.node n).kind with
  | text _ => exact h.updateContent n (fun _ => rfl) fun _ => rfl
  | comment _ => exact h.updateContent n (fun _ => rfl) fun _ => rfl
  | element tag =>
      by_cases hempty : content.isEmpty = true
      · rw [if_pos hempty]
        exact h.replaceSprouted (planted_plantForest [] w).toGrown (sprouted_plantForest h []) hn
      · rw [if_neg hempty]
        exact h.replaceSprouted (planted_plantForest [.text content] w).toGrown
          (sprouted_plantForest h [.text content]) hn

theorem Arranged.setHtml (h : w.Arranged w.Lives) (hn : w.Lives n) (markup : String) :
    (w.setHtml n markup).Arranged (w.setHtml n markup).Lives := by
  unfold World.setHtml
  cases hkind : (w.node n).kind with
  | text _ => exact h.setText hn markup
  | comment _ => exact h.setText hn markup
  | element tag =>
      rw [plantMarkup_eq]
      exact h.replaceSprouted (planted_plantForest (parse markup) w).toGrown
        (sprouted_plantForest h (parse markup)) hn

/-- Holding on to the roots of what has been planted. -/
theorem Arranged.keep {w' : ClientWorld ν τ} {ns : List NodeId} (h : w.Arranged w.Lives)
    (hgrown : w.Grown w') (hs : w.Sprouted w.Lives ns w') :
    (w'.hold (ns.map .node)).Arranged (w'.hold (ns.map .node)).Lives := by
  refine Arranged.mono (hs.arranged.of_nodes rfl) fun p hp => ?_
  refine hs.lives hp hgrown h ⟨rfl, rfl, rfl, rfl⟩ fun x hx hrooted => ?_
  rw [rooted_eq_true_iff] at hrooted
  rcases hrooted with hpin | hheld
  · refine alive_of_mem_pins ?_
    rw [← hgrown.rest.pins]
    exact hpin
  · rcases List.mem_append.mp hheld with hroot | hheld
    · rcases List.mem_map.mp hroot with ⟨m, hm, rfl⟩
      exact absurd (mem_handles_node.mp hx) (Nat.not_lt_of_le (hs.new m hm).1)
    · refine alive_of_mem_held ?_
      rw [← hgrown.rest.client]
      exact hheld

/-- Holding on to what is there and letting go of things. -/
theorem Arranged.write (h : w.Arranged w.Lives) {change : Journal τ → Journal τ}
    (hheld : ∀ x ∈ (change w.client).held, x ∈ w.client.held ∨ w.alive x = true) :
    (w.write change).Arranged (w.write change).Lives := by
  refine Arranged.mono (h.of_nodes rfl) fun p hp => ?_
  refine lives_of_rooted hp rfl ⟨rfl, rfl, rfl⟩ fun x _ hrooted => ?_
  rw [rooted_eq_true_iff] at hrooted
  rcases hrooted with hpin | hx
  · exact alive_of_mem_pins hpin
  · rcases hheld x hx with hx | halive
    · exact alive_of_mem_held hx
    · exact halive

/-- Giving a node other children that are there. -/
theorem Arranged.replaceLiving (h : w.Arranged w.Lives) (hn : w.Lives n) {cs : List NodeId}
    (hcs : ∀ c ∈ cs, w.Lives c) (hnodup : cs.Nodup)
    (hnot : ∀ c ∈ cs, w.isBeneath n c = false) :
    (w.replaceChildren n cs).Arranged (w.replaceChildren n cs).Lives := by
  generalize hv : ({ w with pins := (n :: (w.node n).children ++ cs).map .node ++ w.pins } :
    ClientWorld ν τ) = v
  have hlives : ∀ p, v.Lives p → w.Lives p := by
    rw [← hv]
    refine fun p hp => lives_of_rooted hp rfl ⟨rfl, rfl, rfl⟩ fun x _ hrooted => ?_
    rw [rooted_eq_true_iff, List.mem_append] at hrooted
    rcases hrooted with (hpin | hpin) | hheld
    · rcases List.mem_map.mp hpin with ⟨m, hm, rfl⟩
      rw [List.cons_append, List.mem_cons, List.mem_append] at hm
      rcases hm with rfl | hm | hm
      · exact hn.2
      · exact (h.lives_of_mem_children hn hm).2
      · exact (hcs m hm).2
    · exact alive_of_mem_pins hpin
    · exact alive_of_mem_held hheld
  have hsame : v.Beneath v.Lives ≤ w.Beneath w.Lives := by
    rintro x p ⟨hx, hp⟩
    refine ⟨?_, hlives p hp⟩
    rw [← hv] at hx
    exact hx
  have harranged : v.Arranged v.Lives := by
    refine Arranged.mono ?_ hlives
    rw [← hv]
    exact h.of_nodes rfl
  exact Arranged.replaceChildren hv.symm harranged hn.1 (fun c hc => (hcs c hc).1) hnodup
    fun c hc hway => h.not_above hn.1 (hnot c hc) (ReflTransGen.mono hsame n c hway)

/-- Putting a node beneath another one, which is not done if that is beneath it. -/
theorem Arranged.appendLiving {parent child : NodeId} (h : w.Arranged w.Lives)
    (hparent : w.Lives parent) (hchild : w.Lives child) :
    (w.append parent child).Arranged (w.append parent child).Lives := by
  cases hnot : w.isBeneath parent child with
  | false => exact h.append hparent hchild hnot
  | true =>
      have hsame : w.append parent child = w := by
        rw [World.append, if_pos hnot]
        rfl
      rw [hsame]
      exact h

theorem Arranged.detachLiving (h : w.Arranged w.Lives) (n : NodeId) :
    (w.detach n).Arranged (w.detach n).Lives :=
  (h.detach (fun _ hp => hp.2) n).mono fun _ hp => lives_of_detach hp

end Content

end World

/-- What a client does to a view in one step. -/
inductive ViewCommand where
  /-- Creates a node and holds on to it. -/
  | create (kind : NodeKind)
  /-- Reads markup and holds on to its roots. -/
  | plant (markup : String)
  /-- Holds on to a node that is there. -/
  | hold (n : NodeId)
  /-- Lets go of a node. -/
  | release (n : NodeId)
  /-- Puts a node beneath another one. -/
  | append (parent child : NodeId)
  /-- Takes a node out of its place. -/
  | detach (n : NodeId)
  /-- Gives a node other children. -/
  | replaceChildren (n : NodeId) (children : List NodeId)
  /-- Gives a node another text. -/
  | setText (n : NodeId) (content : String)
  /-- Gives a node other markup. -/
  | setHtml (n : NodeId) (markup : String)

namespace ViewCommand

variable {ν τ : Type}

/-- What a command needs: the nodes that it is about are there, and new children are distinct
    and not above their parent. -/
def Possible (w : ClientWorld ν τ) : ViewCommand → Prop
  | create _ => True
  | plant _ => True
  | hold n => w.Lives n
  | release _ => True
  | append parent child => w.Lives parent ∧ w.Lives child
  | detach n => w.Lives n
  | replaceChildren n children => w.Lives n ∧ (∀ c ∈ children, w.Lives c) ∧ children.Nodup ∧
      ∀ c ∈ children, w.isBeneath n c = false
  | setText n _ => w.Lives n
  | setHtml n _ => w.Lives n

/-- What a command does to the world. -/
def perform (w : ClientWorld ν τ) : ViewCommand → ClientWorld ν τ
  | create kind =>
    let (n, w) := w.newNode kind
    w.hold [.node n]
  | plant markup =>
    let (ns, w) := w.plantMarkup markup
    w.hold (ns.map .node)
  | hold n => w.hold [.node n]
  | release n => w.release (.node n)
  | append parent child => w.append parent child
  | detach n => w.detach n
  | replaceChildren n children => w.replaceChildren n children
  | setText n content => w.setText n content
  | setHtml n markup => w.setHtml n markup

instance (w : ClientWorld ν τ) (n : NodeId) : Decidable (w.Lives n) :=
  inferInstanceAs (Decidable (n.index < w.nodes.size ∧ w.alive (.node n) = true))

instance (w : ClientWorld ν τ) (command : ViewCommand) : Decidable (command.Possible w) := by
  cases command <;> unfold Possible <;> infer_instance

/-- Several commands, one after the other, as long as each of them is possible. -/
def runAll : List ViewCommand → ClientWorld ν τ → Option (ClientWorld ν τ)
  | [], w => some w
  | command :: commands, w =>
    if command.Possible w then runAll commands (command.perform w) else none

/-- Every command leaves the view well arranged. -/
theorem perform_arranged {w : ClientWorld ν τ} (h : w.Arranged w.Lives) {command : ViewCommand}
    (hpossible : command.Possible w) :
    (command.perform w).Arranged (command.perform w).Lives := by
  cases command with
  | create kind =>
      exact h.keep (World.grown_addNode w { kind }) (.leaf h ⟨fun _ hp => hp.1, fun _ hp =>
        absurd hp (Option.some_ne_none _).symm⟩ rfl)
  | plant markup =>
      rw [perform, World.plantMarkup_eq]
      exact h.keep (World.planted_plantForest (parse markup) w).toGrown
        (World.sprouted_plantForest h (parse markup))
  | hold n =>
      unfold perform World.hold
      refine h.write fun x hx => ?_
      rcases List.mem_append.mp hx with hx | hx
      · rw [List.mem_singleton.mp hx]
        exact Or.inr hpossible.2
      · exact Or.inl hx
  | release n =>
      unfold perform World.release
      exact h.write fun x hx => Or.inl (List.mem_of_mem_erase hx)
  | append parent child => exact h.appendLiving hpossible.1 hpossible.2
  | detach n => exact h.detachLiving n
  | replaceChildren n children =>
      rcases hpossible with ⟨hn, hchildren, hnodup, hnot⟩
      exact h.replaceLiving hn hchildren hnodup hnot
  | setText n content => exact h.setText hpossible content
  | setHtml n markup => exact h.setHtml hpossible markup

theorem arranged_start (memory : τ) :
    (World.start ν memory).Arranged (World.start ν memory).Lives := by
  have hlink : ∀ c p, ((World.start ν memory).node c).parent ≠ some p :=
    fun _ p => (Option.some_ne_none p).symm
  refine ⟨fun p hp => absurd hp.1 (Nat.not_lt_zero _), fun c p hp => absurd hp (hlink c p),
    fun c hc => ?_⟩
  rcases TransGen.head'_iff.mp hc with ⟨p, hp, _⟩
  exact hlink c p hp.1

/-- Every run of commands leaves the view well arranged. -/
theorem runAll_arranged {commands : List ViewCommand} {w w' : ClientWorld ν τ}
    (h : w.Arranged w.Lives) (hrun : runAll commands w = some w') : w'.Arranged w'.Lives := by
  induction commands generalizing w with
  | nil =>
      rw [runAll, Option.some.injEq] at hrun
      rw [← hrun]
      exact h
  | cons command commands ih =>
      rw [runAll] at hrun
      split at hrun
      · next hpossible => exact ih (perform_arranged h hpossible) hrun
      · exact absurd hrun.symm (Option.some_ne_none w')

end ViewCommand

/-- When the listeners at a node have run, an event goes on to the parent of the node unless it has
    been stopped. -/
theorem Host.climb_of_runListeners {κ σ : Type} [Client σ] {host : Host κ σ} {w v : World κ σ}
    {limit : Nat} {n : NodeId} {e e' : Event}
    (hrun : host.runListeners (w.listenersOf n e.kind) { e with current := some n }
      { w with pins := .node n :: w.pins } = some (e', v)) :
    host.climb (limit + 1) n e w =
      if e'.flags.stopped then some (e', { v with pins := w.pins })
      else match World.parent? { v with pins := w.pins } n with
        | some p => host.climb limit p e' { v with pins := w.pins }
        | none => some (e', { v with pins := w.pins }) := by
  have hhere : Run.pinned [.node n] (do
      host.runListeners ((← get).listenersOf n e.kind) { e with current := some n }) w =
        some (e', { v with pins := w.pins }) :=
    Run.pinned_eq_some_iff.mpr ⟨v, hrun, rfl⟩
  rw [climb, Run.bind_of_eq_some hhere]
  split
  · rfl
  · rw [Run.bind_of_eq_some (Run.get_eq _)]
    cases World.parent? { v with pins := w.pins } n with
    | some p => rfl
    | none => rfl

/-- An event that nobody listens to passes by all that is above, if it is given enough
    steps. -/
theorem Host.climb_of_unheard {κ σ : Type} [Client σ] (host : Host κ σ) {w : World κ σ}
    {limit : Nat} {n : NodeId} {e : Event}
    (hlimit : ∀ ns : List NodeId, (n :: ns).IsChain (fun c p => w.parent? c = some p) →
      (n :: ns).length ≤ limit)
    (hunheard : ∀ a, w.listenersOf a e.kind = []) :
    ∃ e', host.climb limit n e w = some (e', w) := by
  induction limit generalizing n e with
  | zero => exact absurd (hlimit [] (List.isChain_singleton n)) (Nat.not_succ_le_zero 0)
  | succ limit ih =>
      have hpassed : host.runListeners (w.listenersOf n e.kind) { e with current := some n }
          { w with pins := .node n :: w.pins } =
            some ({ e with current := some n }, { w with pins := .node n :: w.pins }) := by
        rw [hunheard n]
        rfl
      rw [climb_of_runListeners hpassed]
      split
      · exact ⟨_, rfl⟩
      · cases hparent : w.parent? n with
        | none => exact ⟨_, rfl⟩
        | some p => exact ih (length_le_of_step hlimit hparent) hunheard

namespace World

variable {ν τ : Type} {w : ClientWorld ν τ}

/-- Nodes that are there form a forest, so walks up and down come to an end. -/
structure IsForest (w : ClientWorld ν τ) : Prop where
  /-- A node is listed once by its parent, and by no other node. -/
  listed : ∀ c p, w.Lives c → w.Lives p →
    (w.node p).children.count c = if w.parent? c = some p then 1 else 0
  /-- No node is above itself. -/
  acyclic : ∀ c, ¬TransGen (fun c p => w.parent? c = some p) c c
  /-- The walk upward comes upon a node and all that is above it. -/
  lineage : ∀ n, w.Lives n → ∀ a,
    a ∈ w.lineage n ↔ ReflTransGen (fun c p => w.parent? c = some p) n a
  /-- An event that nobody listens to passes by. -/
  dispatch : ∀ n, w.Lives n → ∀ (host : Host (Code ν) (Journal τ)) (e : Event),
    w.nodes.size ≤ host.patience → (∀ a, w.listenersOf a e.kind = []) →
      ∃ e', host.dispatch n e w = some (e', w)
  /-- Markup and text of a node can be read. -/
  reading : ∀ n, w.Lives n → (w.outerHtml? n).isSome = true ∧ (w.textContent? n).isSome = true

/-- An event that nobody listens to passes by. -/
theorem Arranged.dispatch (h : w.Arranged w.Lives) {n : NodeId} (hn : w.Lives n)
    (host : Host (Code ν) (Journal τ)) (e : Event) (hpatience : w.nodes.size ≤ host.patience)
    (hunheard : ∀ a, w.listenersOf a e.kind = []) :
    ∃ e', host.dispatch n e w = some (e', w) := by
  generalize hv : ({ w with pins := [.node n] ++ w.pins } : ClientWorld ν τ) = v
  have hlives : ∀ p, v.Lives p → w.Lives p := by
    rw [← hv]
    refine fun p hp => lives_of_rooted hp rfl ⟨rfl, rfl, rfl⟩ fun x _ hrooted => ?_
    rw [rooted_eq_true_iff, List.mem_append, List.mem_singleton] at hrooted
    rcases hrooted with (rfl | hpin) | hheld
    · exact hn.2
    · exact alive_of_mem_pins hpin
    · exact alive_of_mem_held hheld
  have harranged : v.Arranged v.Lives := by
    refine Arranged.mono ?_ hlives
    rw [← hv]
    exact h.of_nodes rfl
  have hsize : n.index < v.nodes.size := by
    rw [← hv]
    exact hn.1
  have hlimit : ∀ ns : List NodeId, (n :: ns).IsChain (fun c p => v.parent? c = some p) →
      (n :: ns).length ≤ host.patience := by
    intro ns hns
    rw [harranged.parent?_eq] at hns
    have hlength := length_le_of_chain harranged.acyclic (fun _ _ hstep => hstep.2.1) hsize hns
    rw [← hv] at hlength
    exact Nat.le_trans hlength hpatience
  have hquiet : ∀ a, v.listenersOf a e.kind = [] := by
    rw [← hv]
    exact hunheard
  rcases host.climb_of_unheard (e := { e with target := some n }) hlimit hquiet with ⟨e', hclimb⟩
  rw [← hv] at hclimb
  refine ⟨{ e' with current := none }, ?_⟩
  rw [Host.dispatch, Run.bind_of_eq_some (Run.pinned_eq_some_iff.mpr ⟨_, hclimb, rfl⟩)]
  rfl

theorem Arranged.isForest (h : w.Arranged w.Lives) : w.IsForest where
  listed c p _ hp := by
    rw [h.listed p hp c]
    simp only [h.parent?_eq_some_iff, Beneath, hp, and_true]
  acyclic := by
    rw [h.parent?_eq]
    exact h.acyclic
  lineage n hn a := h.mem_lineage_iff hn.1
  dispatch n hn := h.dispatch hn
  reading n hn := by
    have htree := h.isSome_tree? hn
    refine ⟨?_, by rw [textContent?, Option.isSome_map]; exact htree⟩
    rw [outerHtml?, written?, Option.isSome_map, trees?]
    refine isSome_gather? fun m hm => ?_
    rw [List.mem_singleton.mp hm, Option.isSome_map]
    exact htree

end World

namespace ViewCommand

variable {ν τ : Type}

/-- After any run of commands the nodes that are there form a forest. -/
theorem forest_of_runAll {memory : τ} {commands : List ViewCommand} {w : ClientWorld ν τ}
    (hrun : runAll commands (World.start ν memory) = some w) : w.IsForest :=
  (runAll_arranged (arranged_start memory) hrun).isForest

/-- Two items are planted and put into a list, the later one first. Then a text takes the place
    of the other item, beneath which it stood, and the list is put beneath itself. -/
def rearranged : List ViewCommand :=
  [.create (.element "ul"), .plant "<li>a</li><li>b</li>", .append ⟨0⟩ ⟨3⟩, .append ⟨0⟩ ⟨1⟩,
    .replaceChildren ⟨0⟩ [⟨2⟩, ⟨3⟩], .release (.mk 1), .append ⟨3⟩ ⟨0⟩, .setHtml ⟨3⟩ "<b>c</b>"]

theorem isSome_rearranged : (runAll rearranged (World.start Unit ())).isSome = true := by
  decide +kernel

/-- The world afterwards. -/
def rearrangedWorld : ClientWorld Unit Unit :=
  (runAll rearranged (World.start Unit ())).get isSome_rearranged

theorem forest_of_runAll_rearranged :
    runAll rearranged (World.start Unit ()) = some rearrangedWorld ∧
      (rearrangedWorld.node ⟨0⟩).children = [⟨2⟩, ⟨3⟩] ∧
      rearrangedWorld.parent? ⟨2⟩ = some ⟨0⟩ ∧ rearrangedWorld.IsForest := by
  have hrun : runAll rearranged (World.start Unit ()) = some rearrangedWorld :=
    (Option.some_get isSome_rearranged).symm
  have hchildren : (rearrangedWorld.node ⟨0⟩).children = [⟨2⟩, ⟨3⟩] := by decide +kernel
  have hparent : rearrangedWorld.parent? ⟨2⟩ = some ⟨0⟩ := by decide +kernel
  exact ⟨hrun, hchildren, hparent, forest_of_runAll hrun⟩

end ViewCommand

end LiveTemplate
