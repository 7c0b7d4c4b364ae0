import LiveTemplate.Proofs.View.Lasting

/-!
# What Updates Leave Alone in the View

Updates change nodes only where watchers show something.

A watcher changes one aspect of one node, so whatever aspect no watcher changes stays
what it was when the view was complete. In a view that lasts there are no new watchers,
so this holds for good, whatever happens to the data.

## Main definitions

* `World.Idle`: No watcher changes an aspect of a node.
* `World.Steady`: The nodes are as they were, apart from what watchers change.
* `Display.steady`: The display of a view that lasts and is steady.

## Theorems

* `Lawful.restrict`: A display with one condition more is lawful if the condition is kept.
* `lawful_steady`: Showing a value keeps the view steady.
-/

namespace LiveTemplate

variable {ν τ : Type} {v w w' : ClientWorld ν τ}

namespace World

/-- No watcher changes this aspect of the node. -/
def Idle (w : ClientWorld ν τ) (n : NodeId) (a : Aspect) : Prop :=
  ∀ s r, w.Renders s r → r.aspect = a → r.target ≠ n

theorem Quiet.idle {n : NodeId} (h : w.Quiet n) (a : Aspect) : w.Idle n a :=
  fun s r hs _ => h s r hs

/-- The nodes are as they were, apart from what watchers change. -/
structure Steady (v w : ClientWorld ν τ) : Prop where
  /-- There may be more nodes. -/
  grown : v.nodes.size ≤ w.nodes.size
  /-- They have their attributes. -/
  attributes : ∀ n : NodeId, n.index < v.nodes.size →
    (w.node n).attributes = (v.node n).attributes
  /-- They have their own content, if no watcher changes it. -/
  own : ∀ n : NodeId, n.index < v.nodes.size → v.Idle n .own → (w.node n).kind = (v.node n).kind
  /-- They have their children, if no watcher changes them. -/
  beneath : ∀ n : NodeId, n.index < v.nodes.size → v.Idle n .beneath →
    (w.node n).children = (v.node n).children
  /-- They hold what they held, if no watcher changes it. -/
  field : ∀ n : NodeId, n.index < v.nodes.size → v.Idle n .field →
    (w.node n).value = (v.node n).value

namespace Steady

theorem refl (v : ClientWorld ν τ) : v.Steady v :=
  ⟨Nat.le_refl _, fun _ _ => rfl, fun _ _ _ => rfl, fun _ _ _ => rfl, fun _ _ _ => rfl⟩

theorem of_sameView (h : v.Steady w) (hview : w.SameView w') : v.Steady w' := by
  have hsize : w'.nodes.size = w.nodes.size := congrArg Heap.size hview.nodes
  refine ⟨Nat.le_trans h.grown (Nat.le_of_eq hsize.symm), ?_, ?_, ?_, ?_⟩
  · intro n hn
    rw [hview.node]
    exact h.attributes n hn
  · intro n hn hidle
    rw [hview.node]
    exact h.own n hn hidle
  · intro n hn hidle
    rw [hview.node]
    exact h.beneath n hn hidle
  · intro n hn hidle
    rw [hview.node]
    exact h.field n hn hidle

/-- One aspect has changed that a watcher changes. -/
theorem redrawn {s : SubscriberId} {r : Rendering} (h : v.Steady w) (hs : v.Renders s r)
    (hredrawn : w.Redrawn w' r.target r.aspect) : v.Steady w' := by
  have hlt : ∀ n : NodeId, n.index < v.nodes.size → n.index < w.nodes.size :=
    fun n hn => Nat.lt_of_lt_of_le hn h.grown
  refine ⟨Nat.le_trans h.grown hredrawn.grown, ?_, ?_, ?_, ?_⟩
  · intro n hn
    rw [← h.attributes n hn]
    by_cases hne : n = r.target
    · rw [hne]
      exact hredrawn.self.1
    · exact Node.attributes_of_loose (hredrawn.others n (hlt n hn) hne)
  · intro n hn hidle
    rw [← h.own n hn hidle]
    by_cases hne : n = r.target
    · subst hne
      exact hredrawn.own fun ha => hidle s r hs ha rfl
    · exact Node.kind_of_loose (hredrawn.others n (hlt n hn) hne)
  · intro n hn hidle
    rw [← h.beneath n hn hidle]
    by_cases hne : n = r.target
    · subst hne
      exact hredrawn.beneath fun ha => hidle s r hs ha rfl
    · exact Node.children_of_loose (hredrawn.others n (hlt n hn) hne)
  · intro n hn hidle
    rw [← h.field n hn hidle]
    by_cases hne : n = r.target
    · subst hne
      exact hredrawn.field fun ha => hidle s r hs ha rfl
    · exact Node.value_of_loose (hredrawn.others n (hlt n hn) hne)

end Steady

end World

namespace Display

/-- The display of a view that is complete and steady. -/
def steady (v : ClientWorld ν τ) (first : SubscriberId → Rendering → Prop) : Display ν τ :=
  { lasting v first with sound := fun w => v.Lasts w ∧ v.Steady w }

/-- A condition that equal views share, and that is kept when a value is shown, may be asked of the
    view besides. -/
theorem Lawful.restrict {D : Display ν τ} (h : D.Lawful) {also : ClientWorld ν τ → Prop}
    (hview : ∀ {w w' : ClientWorld ν τ}, w.SameView w' → also w → also w')
    (hrender : ∀ {w : ClientWorld ν τ} {s wt r} shown, D.sound w → also w →
      w.subscriber? s = some (.watcher wt) → wt.effect = .render r → also (w.render r shown)) :
    ({ D with sound := fun w => D.sound w ∧ also w } : Display ν τ).Lawful where
  shows := h.shows
  sound hsame hsound := ⟨h.sound hsame hsound.1, hview hsame hsound.2⟩
  render_sound shown hsound hs heffect :=
    ⟨h.render_sound shown hsound.1 hs heffect, hrender shown hsound.1 hsound.2 hs heffect⟩
  render_shows hsound := h.render_shows hsound.1
  render_other shown hsound := h.render_other shown hsound.1

/-- Showing one value leaves the others shown, and all else what it was. -/
theorem lawful_steady (v : ClientWorld ν τ) (first : SubscriberId → Rendering → Prop) :
    (steady v first).Lawful :=
  (lawful_lasting v first).restrict (fun hview h => h.of_sameView hview)
    fun {w s wt r} shown hlasts h hs heffect => by
      rcases hlasts.placed s r ⟨wt, hs, heffect⟩ with ⟨hlt, hfits⟩
      exact h.redrawn ⟨wt, (hlasts.renderers heffect).mp hs, heffect⟩
        (World.redrawn_render hlt hfits shown)

end Display

end LiveTemplate
