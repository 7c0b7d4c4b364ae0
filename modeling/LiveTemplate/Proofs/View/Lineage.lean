import LiveTemplate.Proofs.World.Liveness
import LiveTemplate.View.Content
import Mathlib.Data.List.Chain
import Mathlib.Logic.Relation

/-!
# Above and Beneath

The view as it is stored, and walks through it that come to an end.

A parent link and a child list say the same thing twice, but a link counts only as
long as the parent is there, and nobody takes back what is stored about nodes that are
gone. So being well arranged is a matter of a set of nodes: each of them lists a node
exactly once if that node's link leads to it, and does not list it otherwise, and the
links that lead to nodes of the set never come back to where they started. Whoever
belongs to a smaller set has nothing more to prove.

Links that never come back pass through different nodes, and there are only so many of
them. This is why the walks upward and downward are long enough with as many steps as
there are nodes.

## Main definitions

* `World.Lives`: Being there.
* `World.Beneath`: A link to a node of a set.
* `World.Arranged`: Links and child lists agree, and links do not form circles.

## Theorems

* `acyclic_of_edges`: More edges that close no circle.
* `length_le_of_chain`: A way without return is no longer than there are nodes.
* `mem_lineage_iff`: The walk upward comes upon all that is above.
* `isSome_tree?`: Reading a node comes to an end.
-/

namespace LiveTemplate

open Relation (TransGen ReflTransGen)

section Ways

variable {α : Type} {r r' : α → α → Prop}

/-- After more edges to one place there are the ways from before and those through that
    place. -/
theorem reflTransGen_of_edges {S : α → Prop} {p : α} (hedge : ∀ a b, r' a b → r a b ∨ S a ∧ b = p)
    (hfree : ∀ c, S c → ¬ReflTransGen r p c) {a b : α} (h : ReflTransGen r' a b) :
    ReflTransGen r a b ∨ (∃ c, S c ∧ ReflTransGen r a c) ∧ ReflTransGen r p b := by
  induction h with
  | refl => exact Or.inl .refl
  | @tail b d _ hstep ih =>
      rcases hedge b d hstep with hstep | ⟨hb, rfl⟩
      · rcases ih with hway | ⟨hto, hfrom⟩
        · exact Or.inl (hway.tail hstep)
        · exact Or.inr ⟨hto, hfrom.tail hstep⟩
      · rcases ih with hway | ⟨_, hfrom⟩
        · exact Or.inr ⟨⟨b, hb, hway⟩, .refl⟩
        · exact absurd hfrom (hfree b hb)

/-- More edges to one place close no circle if no way leads from there to where they start. -/
theorem acyclic_of_edges {S : α → Prop} {p : α} (hr : ∀ a, ¬TransGen r a a)
    (hedge : ∀ a b, r' a b → r a b ∨ S a ∧ b = p) (hfree : ∀ c, S c → ¬ReflTransGen r p c) (a : α) :
    ¬TransGen r' a a := by
  intro h
  rcases TransGen.tail'_iff.mp h with ⟨d, hway, hstep⟩
  rcases reflTransGen_of_edges hedge hfree hway with hway | ⟨⟨c, hc, hto⟩, hfrom⟩
  · rcases hedge d a hstep with hstep | ⟨hd, rfl⟩
    · exact hr a (.tail' hway hstep)
    · exact hfree d hd hway
  · rcases hedge d a hstep with hstep | ⟨hd, rfl⟩
    · exact hfree c hc ((hfrom.tail hstep).trans hto)
    · exact hfree d hd hfrom

/-- A way without return passes through different places. -/
theorem nodup_of_isChain (hr : ∀ a, ¬TransGen r a a) {as : List α} (h : as.IsChain r) :
    as.Nodup := by
  have hpairs : as.Pairwise (TransGen r) := List.isChain_iff_pairwise.mp (h.imp fun _ _ => .single)
  refine hpairs.imp ?_
  rintro a b hab rfl
  exact hr a hab

/-- If no way from a place is too long, the ways from the next one are shorter. -/
theorem length_le_of_step {limit : Nat} {a b : α}
    (hlimit : ∀ as : List α, (a :: as).IsChain r → (a :: as).length ≤ limit + 1) (hab : r a b)
    (as : List α) (h : (b :: as).IsChain r) : (b :: as).length ≤ limit := by
  have hlonger := hlimit (b :: as) (List.isChain_cons_cons.mpr ⟨hab, h⟩)
  rw [List.length_cons] at hlonger
  exact Nat.le_of_succ_le_succ hlonger

end Ways

namespace World

variable {κ σ : Type}

/-- The link of a node leads to a node of the set. -/
def Beneath (w : World κ σ) (L : NodeId → Prop) (c p : NodeId) : Prop :=
  (w.node c).parent = some p ∧ L p

/-- Links and child lists agree as far as nodes of the set are concerned, and the links
    to such nodes do not form circles. -/
structure Arranged (w : World κ σ) (L : NodeId → Prop) : Prop where
  /-- A node is listed once by the node that its link leads to, and by no other one. -/
  listed : ∀ p, L p → ∀ c,
    (w.node p).children.count c = if (w.node c).parent = some p then 1 else 0
  /-- Links lead to nodes. -/
  linked : ∀ c p, (w.node c).parent = some p → p.index < w.nodes.size
  /-- No node is above itself. -/
  acyclic : ∀ c, ¬TransGen (w.Beneath L) c c

namespace Arranged

variable {w w' : World κ σ} {L L' : NodeId → Prop}

/-- Fewer nodes are as well arranged. -/
theorem mono (h : w.Arranged L) (hL : ∀ p, L' p → L p) : w.Arranged L' := by
  have hbeneath : w.Beneath L' ≤ w.Beneath L := fun _ p hstep => ⟨hstep.1, hL p hstep.2⟩
  exact ⟨fun p hp => h.listed p (hL p hp), h.linked,
    fun c hc => h.acyclic c (TransGen.mono hbeneath c c hc)⟩

/-- Only links and child lists matter. -/
theorem congr (h : w.Arranged L) (hsize : w'.nodes.size = w.nodes.size)
    (hparent : ∀ m, (w'.node m).parent = (w.node m).parent)
    (hchildren : ∀ m, (w'.node m).children = (w.node m).children) : w'.Arranged L := by
  have hbeneath : w'.Beneath L = w.Beneath L := by
    funext c p
    rw [Beneath, hparent, Beneath]
  refine ⟨?_, ?_, ?_⟩
  · intro p hp c
    rw [hchildren, hparent]
    exact h.listed p hp c
  · intro c p hcp
    rw [hparent] at hcp
    rw [hsize]
    exact h.linked c p hcp
  · rw [hbeneath]
    exact h.acyclic

/-- Only the nodes matter. -/
theorem of_nodes (h : w.Arranged L) (hnodes : w'.nodes = w.nodes) : w'.Arranged L := by
  have hnode : ∀ m, w'.node m = w.node m := fun m => by rw [node, hnodes, ← node]
  exact h.congr (congrArg Heap.size hnodes) (fun m => congrArg Node.parent (hnode m))
    fun m => congrArg Node.children (hnode m)

/-- Exactly the nodes with a link to it are listed by a node. -/
theorem mem_children_iff (h : w.Arranged L) {p : NodeId} (hp : L p) {c : NodeId} :
    c ∈ (w.node p).children ↔ (w.node c).parent = some p := by
  rw [← List.count_pos_iff, h.listed p hp c]
  split
  · next hparent => exact ⟨fun _ => hparent, fun _ => Nat.one_pos⟩
  · next hparent => exact ⟨fun hpos => absurd hpos (Nat.lt_irrefl 0), fun hc => absurd hc hparent⟩

end Arranged

/-- A node with a link is a node. -/
theorem lt_of_parent {w : World κ σ} {c p : NodeId} (h : (w.node c).parent = some p) :
    c.index < w.nodes.size := by
  by_contra hc
  rw [node, Heap.get?_eq_none (Nat.le_of_not_lt hc)] at h
  exact absurd h (by simp only [Option.getD_none, default, reduceCtorEq, not_false_eq_true])

/-- A way without return is no longer than there are nodes. -/
theorem length_le_of_chain {w : World κ σ} {r : NodeId → NodeId → Prop}
    (hr : ∀ a, ¬TransGen r a a)
    (hlt : ∀ a b, r a b → b.index < w.nodes.size) {n : NodeId} (hn : n.index < w.nodes.size)
    {ns : List NodeId} (h : (n :: ns).IsChain r) : (n :: ns).length ≤ w.nodes.size := by
  refine length_le_of_nodup (fun _ _ => NodeId.ext) (nodup_of_isChain hr h) ?_
  have hall : ∀ (ns : List NodeId) (n : NodeId), n.index < w.nodes.size → (n :: ns).IsChain r →
      ∀ m ∈ n :: ns, m.index < w.nodes.size := by
    intro ns
    induction ns with
    | nil =>
        intro n hn _ m hm
        rw [List.mem_singleton.mp hm]
        exact hn
    | cons a ns ih =>
        intro n hn hchain m hm
        rcases List.isChain_cons_cons.mp hchain with ⟨hna, hrest⟩
        rcases List.mem_cons.mp hm with rfl | hm
        · exact hn
        · exact ih a (hlt n a hna) hrest m hm
  exact hall ns n hn h

theorem isSome_gather? {α : Type} {f? : NodeId → Option (List α)} {ns : List NodeId}
    (h : ∀ n ∈ ns, (f? n).isSome = true) : (gather? f? ns).isSome = true := by
  induction ns with
  | nil => rfl
  | cons n ns ih =>
      rw [List.forall_mem_cons] at h
      rcases Option.isSome_iff_exists.mp h.1 with ⟨as, has⟩
      rcases Option.isSome_iff_exists.mp (ih h.2) with ⟨bs, hbs⟩
      simp only [gather?, has, hbs, Option.isSome_some]

/-- Reading a node comes to an end if no way downward is too long. -/
theorem isSome_treeWithin? {w : World κ σ} {L : NodeId → Prop}
    (hdown : ∀ p, L p → ∀ c ∈ (w.node p).children, L c) {limit : Nat} {n : NodeId} (hn : L n)
    (hlimit : ∀ ns : List NodeId,
      (n :: ns).IsChain (fun p c => L p ∧ c ∈ (w.node p).children) →
        (n :: ns).length ≤ limit) :
    (w.treeWithin? limit n).isSome = true := by
  induction limit generalizing n with
  | zero => exact absurd (hlimit [] (List.isChain_singleton n)) (by simp only [List.length_cons,
      Nat.le_zero_eq, Nat.succ_ne_zero, not_false_eq_true])
  | succ limit ih =>
      rw [treeWithin?]
      cases hkind : (w.node n).kind with
      | text content => rfl
      | comment content => rfl
      | element tag =>
          rw [Option.isSome_map]
          refine isSome_gather? fun c hc => ?_
          rw [Option.isSome_map]
          exact ih (hdown n hn c hc) (length_le_of_step hlimit ⟨hn, hc⟩)

variable [Client σ]

/-- The node is there. -/
def Lives (w : World κ σ) (n : NodeId) : Prop :=
  n.index < w.nodes.size ∧ w.alive (.node n) = true

/-- A node has a parent if its link leads to a node that is there. -/
theorem Arranged.parent?_eq_some_iff {w : World κ σ} {L : NodeId → Prop} (h : w.Arranged L)
    {c p : NodeId} : w.parent? c = some p ↔ w.Beneath w.Lives c p := by
  rw [parent?, Option.filter_eq_some_iff]
  constructor
  · rintro ⟨hparent, halive⟩
    exact ⟨hparent, h.linked c p hparent, halive⟩
  · rintro ⟨hparent, _, halive⟩
    exact ⟨hparent, halive⟩

/-- The walk upward comes upon all that is above if no way upward is too long. -/
theorem mem_lineageWithin_iff {w : World κ σ} {limit : Nat} {n a : NodeId}
    (hlimit : ∀ ns : List NodeId, (n :: ns).IsChain (fun c p => w.parent? c = some p) →
      (n :: ns).length ≤ limit) :
    a ∈ w.lineageWithin limit n ↔ ReflTransGen (fun c p => w.parent? c = some p) n a := by
  induction limit generalizing n with
  | zero => exact absurd (hlimit [] (List.isChain_singleton n)) (by simp only [List.length_cons,
      Nat.le_zero_eq, Nat.succ_ne_zero, not_false_eq_true])
  | succ limit ih =>
      rw [lineageWithin, List.mem_cons, Relation.ReflTransGen.cases_head_iff]
      cases hparent : w.parent? n with
      | none => simp only [List.not_mem_nil, or_false, reduceCtorEq, false_and, exists_false,
          eq_comm]
      | some p =>
          simp only [ih (length_le_of_step hlimit hparent), Option.some.injEq, exists_eq_left',
            eq_comm]

/-- Behind a node on the walk upward comes its parent, if no way upward is too long. -/
theorem parent?_of_lineageWithin {w : World κ σ} {limit : Nat} {n m : NodeId}
    {below above : List NodeId}
    (hlimit : ∀ ns : List NodeId, (n :: ns).IsChain (fun c p => w.parent? c = some p) →
      (n :: ns).length ≤ limit)
    (h : w.lineageWithin limit n = below ++ m :: above) : w.parent? m = above.head? := by
  induction limit generalizing n below with
  | zero => exact absurd (hlimit [] (List.isChain_singleton n)) (Nat.not_succ_le_zero 0)
  | succ limit ih =>
      rw [lineageWithin] at h
      cases hparent : w.parent? n with
      | none =>
          rw [hparent] at h
          rcases List.append_eq_cons_iff.mp h.symm with ⟨_, heq⟩ | ⟨_, _, heq⟩
          · cases heq
            exact hparent
          · cases List.append_eq_nil_iff.mp heq.symm |>.2
      | some p =>
          rw [hparent] at h
          have hshorter := length_le_of_step hlimit hparent
          rcases List.append_eq_cons_iff.mp h.symm with ⟨_, heq⟩ | ⟨below', _, heq⟩
          · cases heq
            have hpos : limit ≠ 0 := Nat.ne_of_gt (hshorter [] (List.isChain_singleton p))
            rcases Nat.exists_eq_succ_of_ne_zero hpos with ⟨limit, rfl⟩
            exact hparent
          · exact ih hshorter heq

/-- The walk upward starts at the node. -/
theorem exists_lineage {w : World κ σ} {n : NodeId} (hn : n.index < w.nodes.size) :
    ∃ above, w.lineage n = n :: above := by
  rcases Nat.exists_eq_succ_of_ne_zero (Nat.ne_zero_of_lt hn) with ⟨limit, hlimit⟩
  rw [lineage, hlimit]
  exact ⟨_, rfl⟩

namespace Arranged

variable {w : World κ σ}

theorem parent?_eq (h : w.Arranged w.Lives) :
    (fun c p => w.parent? c = some p) = w.Beneath w.Lives := by
  funext c p
  exact propext h.parent?_eq_some_iff

/-- The walk upward comes upon all that is above. -/
theorem mem_lineage_iff (h : w.Arranged w.Lives) {n a : NodeId} (hn : n.index < w.nodes.size) :
    a ∈ w.lineage n ↔ ReflTransGen (fun c p => w.parent? c = some p) n a := by
  refine mem_lineageWithin_iff fun ns hns => ?_
  rw [h.parent?_eq] at hns
  exact length_le_of_chain h.acyclic (fun _ _ hstep => hstep.2.1) hn hns

/-- Behind a node on the walk upward comes its parent. -/
theorem parent?_of_lineage (h : w.Arranged w.Lives) {n m : NodeId} {below above : List NodeId}
    (hn : n.index < w.nodes.size) (hway : w.lineage n = below ++ m :: above) :
    w.parent? m = above.head? := by
  refine parent?_of_lineageWithin (fun ns hns => ?_) hway
  rw [h.parent?_eq] at hns
  exact length_le_of_chain h.acyclic (fun _ _ hstep => hstep.2.1) hn hns

/-- What is above a node that is there is there, too. -/
theorem lives_of_mem_lineage (h : w.Arranged w.Lives) {n a : NodeId} (hn : w.Lives n)
    (ha : a ∈ w.lineage n) : w.Lives a := by
  rw [h.mem_lineage_iff hn.1, h.parent?_eq] at ha
  rcases ha.cases_tail with rfl | ⟨c, _, hstep⟩
  · exact hn
  · exact hstep.2

/-- What a node is not beneath is not above it. -/
theorem not_above (h : w.Arranged w.Lives) {n a : NodeId} (hn : n.index < w.nodes.size)
    (hnot : w.isBeneath n a = false) : ¬ReflTransGen (w.Beneath w.Lives) n a := by
  intro hway
  rw [← h.parent?_eq, ← h.mem_lineage_iff hn, ← List.contains_iff_mem, ← isBeneath, hnot] at hway
  exact absurd hway Bool.false_ne_true

/-- What a node that is there lists is there. -/
theorem lives_of_mem_children (h : w.Arranged w.Lives) {p c : NodeId} (hp : w.Lives p)
    (hc : c ∈ (w.node p).children) : w.Lives c := by
  refine ⟨lt_of_parent ((h.mem_children_iff hp).mp hc), ?_⟩
  refine alive_of_owned (mem_handles_node.mpr hp.1) hp.2 ?_
  exact List.mem_map_of_mem hc

/-- Reading a node comes to an end. -/
theorem isSome_tree? (h : w.Arranged w.Lives) {n : NodeId} (hn : w.Lives n) :
    (w.tree? n).isSome = true := by
  refine isSome_treeWithin? (fun p hp c hc => h.lives_of_mem_children hp hc) hn fun ns hns => ?_
  have hswap : ∀ p c, w.Lives p ∧ c ∈ (w.node p).children →
      Function.swap (w.Beneath w.Lives) p c :=
    fun p c hpc => ⟨(h.mem_children_iff hpc.1).mp hpc.2, hpc.1⟩
  refine length_le_of_chain (fun a ha => ?_) (fun a b hab => lt_of_parent hab.1) hn.1
    (hns.imp hswap)
  exact h.acyclic a (Relation.transGen_swap.mp ha)

end Arranged

end World

end LiveTemplate
