import LiveTemplate.Proofs.Reaction.Program
import LiveTemplate.Proofs.View.Planting
import LiveTemplate.Reaction.Update

/-!
# What Changes of the View Leave Alone

Changes of the view change nodes, and nothing else.

Moving nodes, planting markup and showing values all come down to new nodes and
changed nodes. Things that are held on to during a move are let go of afterwards, so
data, watchers and what operations hold on to are the same before and after.

## Theorems

* `onlyNodes_replaceChildren`: New children change nodes only.
* `onlyNodes_render`: Showing a value changes nodes only.
* `sameListeners_render`: Showing a value is not noticed by anybody who listens.
-/

namespace LiveTemplate

open Markup

namespace World

variable {κ σ : Type} [Client σ]

theorem onlyNodes_detach (w : World κ σ) (n : NodeId) : w.OnlyNodes (w.detach n) := by
  unfold detach
  split
  · exact (OnlyNodes.updateNode w _ _).trans (OnlyNodes.updateNode _ _ _)
  · exact OnlyNodes.updateNode w _ _

theorem onlyNodes_adopt (parent : NodeId) (w : World κ σ) (n : NodeId) :
    w.OnlyNodes (adopt parent w n) :=
  (w.onlyNodes_detach n).trans (OnlyNodes.updateNode _ _ _)

/-- New children change nodes only. -/
theorem onlyNodes_replaceChildren (w : World κ σ) (n : NodeId) (children : List NodeId) :
    w.OnlyNodes (w.replaceChildren n children) := by
  have hparents : ∀ (v : World κ σ) (c : NodeId), v.OnlyNodes (v.setParent c none) :=
    fun v c => OnlyNodes.updateNode v c _
  have hadopted : ∀ (v : World κ σ) (c : NodeId), v.OnlyNodes (adopt n v c) :=
    fun v c => v.onlyNodes_adopt n c
  have hlisted : ∀ (v : World κ σ) (cs : List NodeId), v.OnlyNodes (v.setChildren n cs) :=
    fun v cs => OnlyNodes.updateNode v n _
  refine OnlyNodes.holding fun v => ?_
  exact (((hlisted v []).trans (OnlyNodes.foldl hparents _ _)).trans
    (OnlyNodes.foldl hadopted _ _)).trans (hlisted _ children)

theorem onlyNodes_setText (w : World κ σ) (n : NodeId) (content : String) :
    w.OnlyNodes (w.setText n content) := by
  unfold setText
  split
  · exact OnlyNodes.updateNode w n _
  · exact OnlyNodes.updateNode w n _
  · split
    · exact w.onlyNodes_replaceChildren n []
    · exact (OnlyNodes.addNode w _).trans (onlyNodes_replaceChildren _ n _)

/-- Taking note of diagnostics changes the client only. -/
theorem noticeAll_frame (ds : List Diagnostic) (w : World κ σ) :
    (w.noticeAll ds).objects = w.objects ∧ (w.noticeAll ds).subscribers = w.subscribers ∧
      (w.noticeAll ds).pins = w.pins := by
  induction ds generalizing w with
  | nil => exact ⟨rfl, rfl, rfl⟩
  | cons d ds ih => exact ih (w.notice d)

/-- Showing a value changes nodes only, apart from the diagnostics of which the client takes
    note. -/
theorem exists_onlyNodes_render (w : World κ σ) (r : Rendering) (shown : String) :
    ∃ ds, (w.noticeAll ds).OnlyNodes (w.render r shown) := by
  cases r with
  | interpolated target i => exact ⟨[], w.onlyNodes_setText target _⟩
  | text target => exact ⟨[], w.onlyNodes_setText target shown⟩
  | field target => exact ⟨[], OnlyNodes.updateNode w target _⟩
  | markup target =>
      rw [render, setHtml]
      split
      · let fragment := Fragment.parse shown
        have hplanted := (planted_plantForest fragment.forest
          ((w.noticeAll (fragment.strays.map .strayClosing)).notice
            (.markupRead fragment.forest.length))).rest
        refine ⟨fragment.strays.map .strayClosing ++ [.markupRead fragment.forest.length], ?_⟩
        rw [noticeAll, List.foldl_append]
        exact hplanted.trans (onlyNodes_replaceChildren _ target _)
      · exact ⟨[], w.onlyNodes_setText target shown⟩

end World

namespace World

variable {ν τ : Type}

/-- The journal takes no note of diagnostics. -/
theorem noticeAll_eq (ds : List Diagnostic) (w : ClientWorld ν τ) : w.noticeAll ds = w := by
  induction ds generalizing w with
  | nil => rfl
  | cons d ds ih => exact ih w

theorem plantMarkup_eq (markup : String) (w : ClientWorld ν τ) :
    w.plantMarkup markup = plantForest (parse markup) w := by
  rw [plantMarkup, noticeAll_eq]
  rfl

/-- Showing a value changes nodes only. -/
theorem onlyNodes_render (w : ClientWorld ν τ) (r : Rendering) (text : String) :
    w.OnlyNodes (w.render r text) := by
  rcases w.exists_onlyNodes_render r text with ⟨ds, honly⟩
  rwa [noticeAll_eq] at honly

theorem subscriber?_render (w : ClientWorld ν τ) (r : Rendering) (text : String)
    (s : SubscriberId) : (w.render r text).subscriber? s = w.subscriber? s :=
  subscriber?_of_subscribers (w.onlyNodes_render r text).subscribers s

/-! ### Listeners -/

/-- Every node is there still and has the listeners that it had. -/
structure SameListeners {κ σ : Type} (w w' : World κ σ) : Prop where
  /-- There may be more nodes. -/
  grown : w.nodes.size ≤ w'.nodes.size
  /-- Nobody has begun to listen to one. -/
  listeners : ∀ m, (w'.node m).listeners = (w.node m).listeners

namespace SameListeners

variable {κ σ : Type} {w w₁ w₂ : World κ σ}

theorem refl (w : World κ σ) : w.SameListeners w :=
  ⟨Nat.le_refl _, fun _ => rfl⟩

theorem trans (h₁ : w.SameListeners w₁) (h₂ : w₁.SameListeners w₂) : w.SameListeners w₂ :=
  ⟨Nat.le_trans h₁.grown h₂.grown, fun m => (h₂.listeners m).trans (h₁.listeners m)⟩

theorem updateNode (w : World κ σ) (n : NodeId) {change : Node κ → Node κ}
    (h : ∀ node, (change node).listeners = node.listeners) :
    w.SameListeners (w.updateNode n change) where
  grown := Nat.le_of_eq (size_nodes_updateNode w n change).symm
  listeners m := node_updateNode_congr Node.listeners h w n m

/-- A new node is like one that there is not: nobody listens to it. -/
theorem addNode (w : World κ σ) {node : Node κ} (h : node.listeners = []) :
    w.SameListeners (w.addNode node).2 := by
  refine ⟨?_, fun m => ?_⟩
  · rw [size_nodes_addNode]
    exact Nat.le_succ _
  rw [node_addNode]
  split
  · next hindex =>
      have hnone : w.nodes.get? m.index = none := Heap.get?_eq_none (Nat.le_of_eq hindex.symm)
      rw [h, World.node, hnone]
      rfl
  · rfl

theorem foldl {α : Type} {step : World κ σ → α → World κ σ}
    (h : ∀ (w : World κ σ) a, w.SameListeners (step w a)) (as : List α) (w : World κ σ) :
    w.SameListeners (as.foldl step w) := by
  induction as generalizing w with
  | nil => exact .refl w
  | cons a as ih => exact (h w a).trans (ih _)

theorem holding {handles : List Handle} {change : World κ σ → World κ σ}
    (h : ∀ w : World κ σ, w.SameListeners (change w)) :
    w.SameListeners (w.holding handles change) :=
  have hheld := h { w with pins := handles ++ w.pins }
  ⟨hheld.grown, hheld.listeners⟩

theorem setParent (w : World κ σ) (n : NodeId) (parent : Option NodeId) :
    w.SameListeners (w.setParent n parent) :=
  updateNode w n fun _ => rfl

theorem detach [Client σ] (w : World κ σ) (n : NodeId) : w.SameListeners (w.detach n) := by
  unfold World.detach
  split
  · next p _ =>
      have hleft : w.SameListeners (w.updateNode p fun node =>
          { node with children := node.children.filter (· != n) }) := updateNode w p fun _ => rfl
      exact hleft.trans (setParent _ n none)
  · exact setParent w n none

theorem replaceChildren [Client σ] (w : World κ σ) (n : NodeId) (children : List NodeId) :
    w.SameListeners (w.replaceChildren n children) := by
  have hparents : ∀ (v : World κ σ) (c : NodeId), v.SameListeners (v.setParent c none) :=
    fun v c => setParent v c none
  have hadopted : ∀ (v : World κ σ) (c : NodeId), v.SameListeners (adopt n v c) :=
    fun v c => (detach v c).trans (setParent _ c (some n))
  have hlisted : ∀ (v : World κ σ) (cs : List NodeId), v.SameListeners (v.setChildren n cs) :=
    fun v cs => updateNode v n fun _ => rfl
  unfold World.replaceChildren
  refine holding fun v => ?_
  exact (((hlisted v []).trans (foldl hparents _ _)).trans (foldl hadopted _ _)).trans
    (hlisted _ children)

end SameListeners

mutual

theorem sameListeners_plantUnder {κ σ : Type} (parent : Option NodeId) (t : Tree) (w : World κ σ) :
    w.SameListeners (plantUnder parent t w).2 :=
  match t with
  | .text _ => .addNode w rfl
  | .comment _ => .addNode w rfl
  | .element _ _ children =>
    ((SameListeners.addNode w rfl).trans (sameListeners_plantAllUnder _ children _)).trans
      (.updateNode _ _ fun _ => rfl)

theorem sameListeners_plantAllUnder {κ σ : Type} (parent : Option NodeId) (ts : List Tree)
    (w : World κ σ) : w.SameListeners (plantAllUnder parent ts w).2 :=
  match ts with
  | [] => .refl w
  | t :: ts => (sameListeners_plantUnder parent t w).trans (sameListeners_plantAllUnder parent ts _)

end

theorem sameListeners_setText (w : ClientWorld ν τ) (n : NodeId) (content : String) :
    w.SameListeners (w.setText n content) := by
  unfold setText
  split
  · exact .updateNode w n fun _ => rfl
  · exact .updateNode w n fun _ => rfl
  · split
    · exact .replaceChildren w n []
    · exact (SameListeners.addNode w rfl).trans (.replaceChildren _ n _)

/-- Showing a value is not noticed by anybody who listens. -/
theorem sameListeners_render (w : ClientWorld ν τ) (r : Rendering) (shown : String) :
    w.SameListeners (w.render r shown) := by
  cases r with
  | interpolated target i => exact sameListeners_setText w target _
  | text target => exact sameListeners_setText w target shown
  | field target => exact .updateNode w target fun _ => rfl
  | markup target =>
      rw [render, setHtml]
      split
      · rw [plantMarkup_eq]
        exact (sameListeners_plantAllUnder none _ w).trans (.replaceChildren _ target _)
      · exact sameListeners_setText w target shown

end World

end LiveTemplate
