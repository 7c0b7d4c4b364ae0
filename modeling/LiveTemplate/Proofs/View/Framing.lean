import LiveTemplate.Proofs.Markup.Skeleton
import LiveTemplate.Proofs.View.Steadiness

/-!
# The Frame of a View

Updates that show values as texts leave elements and comments where they are.

What a text reads may change with every update, and beneath an element that shows a text
there may be one now and none later. All other nodes are the frame of the view. They keep
their kinds, their attributes and their places, as long as no watcher puts markup anywhere
and none puts its text where something else than texts stood when the view was complete.

Therefore what the view reads as has the same skeleton, whatever is shown in it.

## Main definitions

* `NodeKind.hollow`: The kind of a node without the content of a text.
* `World.Bare`: Nothing but texts stands beneath a node.
* `World.Framed`: The frame of the view is what it was.
* `Display.framed`: The display of a view that lasts and keeps its frame.

## Theorems

* `Framed.render`: Showing a value as a text keeps the frame.
* `StandFor.framed`: With the same frame a view has the same skeleton.
* `lawful_framed`: The display is lawful if the watchers show texts.
-/

namespace LiveTemplate

open Markup

/-- The kind of a node, without its content if it is a text. -/
def NodeKind.hollow : NodeKind → NodeKind
  | .text _ => .text ""
  | kind => kind

namespace NodeKind

variable {kind : NodeKind} {content tag : String}

theorem exists_text_of_hollow (h : kind.hollow = .text "") : ∃ content, kind = .text content := by
  cases kind with
  | text content => exact ⟨content, rfl⟩
  | comment content => exact absurd h nofun
  | element tag => exact absurd h nofun

theorem eq_comment_of_hollow (h : kind.hollow = .comment content) : kind = .comment content := by
  cases kind with
  | text content => exact absurd h nofun
  | comment content => exact h
  | element tag => exact absurd h nofun

theorem eq_element_of_hollow (h : kind.hollow = .element tag) : kind = .element tag := by
  cases kind with
  | text content => exact absurd h nofun
  | comment content => exact absurd h nofun
  | element tag => exact h

end NodeKind

namespace World

section Frame

variable {κ σ : Type} {v w w' : World κ σ} {ok : NodeId → Prop} {ns : List NodeId}
  {ts : List Tree}

/-- All of these nodes are there, and they are texts. -/
def AreTexts (w : World κ σ) (ns : List NodeId) : Prop :=
  ∀ n ∈ ns, n.index < w.nodes.size ∧ (w.node n).kind.hollow = .text ""

/-- Nothing is left of texts in a skeleton. -/
theorem AreTexts.skeletonAll_eq (h : w.AreTexts ns) (hstand : w.StandFor ok ns ts) :
    Tree.skeletonAll ts = [] := by
  induction hstand with
  | nil => rfl
  | text hok hlt hkind hns ih => exact ih (List.forall_mem_cons.mp h).2
  | comment hok hlt hkind hns ih =>
      have hhollow := (List.forall_mem_cons.mp h).1.2
      rw [hkind] at hhollow
      exact absurd hhollow nofun
  | element hok hlt hkind hbehind hchildren hns ihc ih =>
      have hhollow := (List.forall_mem_cons.mp h).1.2
      rw [hkind] at hhollow
      exact absurd hhollow nofun

theorem AreTexts.exists_standFor (h : w.AreTexts ns) :
    ∃ ts, w.StandFor (fun _ => True) ns ts := by
  induction ns with
  | nil => exact ⟨[], .nil⟩
  | cons n ns ih =>
      rcases List.forall_mem_cons.mp h with ⟨⟨hlt, hhollow⟩, hns⟩
      rcases NodeKind.exists_text_of_hollow hhollow with ⟨content, hkind⟩
      rcases ih hns with ⟨ts, hstand⟩
      exact ⟨.text content :: ts, .text trivial hlt hkind hstand⟩

/-- Nodes that stand for a forest of texts are texts. -/
theorem StandFor.areTexts (h : w.StandFor ok ns ts) (htexts : ∀ t ∈ ts, t.IsText) :
    w.AreTexts ns := by
  induction h with
  | nil => exact fun n hn => absurd hn List.not_mem_nil
  | text hok hlt hkind hns ih =>
      refine List.forall_mem_cons.mpr ⟨⟨hlt, ?_⟩, ih (List.forall_mem_cons.mp htexts).2⟩
      rw [hkind, NodeKind.hollow]
  | comment hok hlt hkind hns ih =>
      rcases (List.forall_mem_cons.mp htexts).1 with ⟨content, hcontent⟩
      exact absurd hcontent nofun
  | element hok hlt hkind hbehind hchildren hns ihc ih =>
      rcases (List.forall_mem_cons.mp htexts).1 with ⟨content, hcontent⟩
      exact absurd hcontent nofun

/-- Nothing but texts stands beneath the node. -/
def Bare (w : World κ σ) (n : NodeId) : Prop :=
  w.AreTexts (w.node n).children

/-- Texts stay texts. -/
theorem Bare.mono {n : NodeId} (h : w.Bare n) (hgrown : w.nodes.size ≤ w'.nodes.size)
    (hsame : (w'.node n).children = (w.node n).children)
    (hhollow : ∀ m : NodeId, m.index < w.nodes.size →
      (w'.node m).kind.hollow = (w.node m).kind.hollow) : w'.Bare n := by
  rw [Bare, hsame]
  intro c hc
  rcases h c hc with ⟨hlt, htext⟩
  exact ⟨Nat.lt_of_lt_of_le hlt hgrown, (hhollow c hlt).trans htext⟩

/-- The nodes are what they were, apart from the contents of texts, and from texts beneath nodes
    where nothing else stood before. -/
structure Framed (v w : World κ σ) : Prop where
  /-- There may be more nodes. -/
  grown : v.nodes.size ≤ w.nodes.size
  /-- They have their attributes. -/
  attributes : ∀ n : NodeId, n.index < v.nodes.size →
    (w.node n).attributes = (v.node n).attributes
  /-- They are the elements and comments that they were, and texts are texts. -/
  kind : ∀ n : NodeId, n.index < v.nodes.size →
    (w.node n).kind.hollow = (v.node n).kind.hollow
  /-- They have their children, or texts that have been put there later instead of texts. -/
  children : ∀ n : NodeId, n.index < v.nodes.size →
    (w.node n).children = (v.node n).children ∨
      v.Bare n ∧ w.Bare n ∧ ∀ c ∈ (w.node n).children, n.index < c.index

theorem Framed.refl (v : World κ σ) : v.Framed v :=
  ⟨Nat.le_refl _, fun _ _ => rfl, fun _ _ => rfl, fun _ _ => Or.inl rfl⟩

/-- Nodes with the same frame have the same skeleton. -/
theorem StandFor.framed (h : v.StandFor ok ns ts) (hframed : v.Framed w) :
    ∃ us, w.StandFor (fun _ => True) ns us ∧ Tree.skeletonAll us = Tree.skeletonAll ts := by
  induction h with
  | nil => exact ⟨[], .nil, rfl⟩
  | @text n content ns ts hok hlt hkind hns ih =>
      have hhollow := hframed.kind n hlt
      rw [hkind] at hhollow
      rcases NodeKind.exists_text_of_hollow hhollow with ⟨content', hcontent⟩
      rcases ih with ⟨us, hstand, hskeleton⟩
      exact ⟨.text content' :: us, .text trivial (Nat.lt_of_lt_of_le hlt hframed.grown) hcontent
        hstand, hskeleton⟩
  | @comment n content ns ts hok hlt hkind hns ih =>
      have hhollow := hframed.kind n hlt
      rw [hkind] at hhollow
      rcases ih with ⟨us, hstand, hskeleton⟩
      refine ⟨.comment content :: us, .comment trivial (Nat.lt_of_lt_of_le hlt hframed.grown)
        (NodeKind.eq_comment_of_hollow hhollow) hstand, ?_⟩
      rw [Tree.skeletonAll, Tree.skeletonAll, hskeleton]
  | @element n tag children ns ts hok hlt hkind hbehind hchildren hns ihc ih =>
      have hhollow := hframed.kind n hlt
      rw [hkind] at hhollow
      have hbeneath : ∃ cs, w.StandFor (fun _ => True) (w.node n).children cs ∧
          Tree.skeletonAll cs = Tree.skeletonAll children ∧
          ∀ c ∈ (w.node n).children, n.index < c.index := by
        rcases hframed.children n hlt with hsame | ⟨hbefore, hafter, hbehind'⟩
        · rw [hsame]
          rcases ihc with ⟨cs, hstand, hskeleton⟩
          exact ⟨cs, hstand, hskeleton, hbehind⟩
        · rcases hafter.exists_standFor with ⟨cs, hstand⟩
          exact ⟨cs, hstand, (hafter.skeletonAll_eq hstand).trans
            (hbefore.skeletonAll_eq hchildren).symm, hbehind'⟩
      rcases hbeneath with ⟨cs, hstand, hskeleton, hbehind'⟩
      rcases ih with ⟨us, hstand', hskeleton'⟩
      refine ⟨.element tag (v.node n).attributes cs :: us, .element_of_node trivial
        (Nat.lt_of_lt_of_le hlt hframed.grown) (NodeKind.eq_element_of_hollow hhollow)
        (hframed.attributes n hlt) rfl hbehind' hstand hstand', ?_⟩
      rw [Tree.skeletonAll, Tree.skeletonAll, Tree.skeleton, Tree.skeleton, hskeleton, hskeleton']

/-- So an element with the same frame reads as an element with the same skeleton. -/
theorem StandFor.exists_tree? {n : NodeId} {t : Tree} (h : v.StandFor ok [n] [t])
    (hframed : v.Framed w) :
    ∃ u, w.trees? [n] = some [u] ∧ w.tree? n = some u ∧ u.skeleton = t.skeleton := by
  rcases h.framed hframed with ⟨us, hstand, hskeleton⟩
  obtain ⟨u, rfl⟩ : ∃ u, us = [u] := by
    cases hstand with
    | text hok hlt hkind hns =>
        cases hns
        exact ⟨_, rfl⟩
    | comment hok hlt hkind hns =>
        cases hns
        exact ⟨_, rfl⟩
    | element hok hlt hkind hbehind hchildren hns =>
        cases hns
        exact ⟨_, rfl⟩
  rw [Tree.skeletonAll_singleton, Tree.skeletonAll_singleton] at hskeleton
  exact ⟨u, hstand.trees?_eq, hstand.tree?_eq, hskeleton⟩

end Frame

section Render

variable {ν τ : Type} {v w w' : ClientWorld ν τ} {r : Rendering}

theorem Framed.of_sameView (h : v.Framed w) (hview : w.SameView w') : v.Framed w' := by
  have hsize : w'.nodes.size = w.nodes.size := congrArg Heap.size hview.nodes
  refine ⟨Nat.le_trans h.grown (Nat.le_of_eq hsize.symm), fun n hn => ?_, fun n hn => ?_,
    fun n hn => ?_⟩
  · rw [hview.node]
    exact h.attributes n hn
  · rw [hview.node]
    exact h.kind n hn
  · refine (h.children n hn).imp (fun hsame => ?_) fun hbare => ⟨hbare.1, ?_, ?_⟩
    · rw [hview.node, hsame]
    · exact hbare.2.1.mono (Nat.le_of_eq hsize.symm) (by rw [hview.node])
        fun m _ => by rw [hview.node]
    · rw [hview.node]
      exact hbare.2.2

/-- Showing a value keeps elements and comments, and texts are texts. -/
theorem hollow_render (hlt : r.target.index < w.nodes.size)
    (hfits : r.Fits (w.node r.target).kind) (shown : String) {n : NodeId}
    (hn : n.index < w.nodes.size) :
    ((w.render r shown).node n).kind.hollow = (w.node n).kind.hollow := by
  have hredrawn := redrawn_render hlt hfits shown
  by_cases hne : n = r.target
  · subst hne
    by_cases hown : r.aspect = .own
    · cases r with
      | interpolated target i =>
          have hshown : ((w.render (.interpolated target i) shown).node target).kind =
              .text (i.render shown) := own_render hlt hfits shown
          rcases hfits with ⟨content, hcontent, _⟩ | ⟨_, _, hnot⟩
          · rw [hcontent, Rendering.target, hshown]
            rfl
          · exact absurd rfl hnot
      | _ => exact absurd hown (by simp only [Rendering.aspect, reduceCtorEq, not_false_eq_true])
    · rw [hredrawn.own hown]
  · rw [Node.kind_of_loose (hredrawn.others n hn hne)]

/-- What a rendering puts beneath its node is no more than a text, and nothing but texts has stood
    there in the view that was complete. -/
def ShowsText (v : ClientWorld ν τ) (r : Rendering) : Prop :=
  r.aspect = .beneath → ∃ n, r = .text n ∧ v.Bare n

/-- Showing a value as a text keeps the frame. -/
theorem Framed.render (h : v.Framed w) (hlt : r.target.index < w.nodes.size)
    (hfits : r.Fits (w.node r.target).kind) (htext : v.ShowsText r) (shown : String) :
    v.Framed (w.render r shown) := by
  have hredrawn := redrawn_render hlt hfits shown
  have hhollow := fun (n : NodeId) (hn : n.index < w.nodes.size) => hollow_render hlt hfits shown hn
  have hbefore : ∀ n : NodeId, n.index < v.nodes.size → n.index < w.nodes.size :=
    fun n hn => Nat.lt_of_lt_of_le hn h.grown
  refine ⟨Nat.le_trans h.grown hredrawn.grown, fun n hn => ?_, fun n hn =>
    (hhollow n (hbefore n hn)).trans (h.kind n hn), fun n hn => ?_⟩
  · rw [← h.attributes n hn]
    by_cases hne : n = r.target
    · rw [hne]
      exact hredrawn.self.1
    · exact Node.attributes_of_loose (hredrawn.others n (hbefore n hn) hne)
  · by_cases hnew : n = r.target ∧ r.aspect = .beneath
    · rcases hnew with ⟨rfl, hbeneath⟩
      rcases htext hbeneath with ⟨n, rfl, hbare⟩
      have hstand := (beneath_render hbeneath hlt hfits shown).1
      refine Or.inr ⟨hbare, hstand.areTexts fun t ht => ?_, fun c hc =>
        Nat.lt_of_lt_of_le hlt (hstand.forall_ok c hc).1⟩
      rw [Rendering.forest] at ht
      split at ht
      · exact absurd ht List.not_mem_nil
      · exact ⟨shown, List.mem_singleton.mp ht⟩
    · have hsame : ((w.render r shown).node n).children = (w.node n).children := by
        by_cases hne : n = r.target
        · subst hne
          exact hredrawn.beneath fun hbeneath => hnew ⟨rfl, hbeneath⟩
        · exact Node.children_of_loose (hredrawn.others n (hbefore n hn) hne)
      refine (h.children n hn).imp hsame.trans fun hbare =>
        ⟨hbare.1, hbare.2.1.mono hredrawn.grown hsame hhollow, ?_⟩
      rw [hsame]
      exact hbare.2.2

end Render

end World

namespace Display

variable {ν τ : Type}

/-- The display of a view that is complete and keeps its frame. -/
def framed (v : ClientWorld ν τ) (first : SubscriberId → Rendering → Prop) : Display ν τ :=
  { lasting v first with sound := fun w => v.Lasts w ∧ v.Framed w }

/-- Showing one value leaves the others shown, and the frame what it was, if all watchers show
    texts. -/
theorem lawful_framed {v : ClientWorld ν τ} (first : SubscriberId → Rendering → Prop)
    (htext : ∀ s r, v.Renders s r → v.ShowsText r) : (framed v first).Lawful :=
  (lawful_lasting v first).restrict (fun hview h => h.of_sameView hview)
    fun {w s wt r} shown hlasts h hs heffect => by
      rcases hlasts.placed s r ⟨wt, hs, heffect⟩ with ⟨hlt, hfits⟩
      exact h.render hlt hfits (htext s r ⟨wt, (hlasts.renderers heffect).mp hs, heffect⟩) shown

end Display

end LiveTemplate
