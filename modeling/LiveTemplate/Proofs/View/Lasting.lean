import LiveTemplate.Proofs.View.Showing

/-!
# A View That Lasts

The display of the view, and why updates keep it.

A binding shows the plain values of its path as long as no other watcher gets in its
way. Once a template has been compiled, its bindings stay what they are: no watcher
that shows something is added, every one keeps a node of the right kind, and every
form field goes on listening for input. This is what the view needs to be like, and
showing a value of one of the bindings keeps it.

While a template is being compiled there are more and more bindings, and what is shown
must be plain to stay quiet. The display is the same in both phases, up to conditions.

## Main definitions

* `Display.view`: The display of the view.
* `World.Lasts`: The bindings are the ones that there were when the view was complete.
* `Display.lasting`: The display of a view that is complete.

## Theorems

* `ofView_view`: What bindings show is a matter of the view.
* `placed_render`: Showing a value keeps the kinds of nodes.
* `lawful_lasting`: Showing one value leaves the others shown.
-/

namespace LiveTemplate

variable {ν τ : Type} {v w w' : ClientWorld ν τ}

namespace World

namespace SameView

theorem renders_iff (h : w.SameView w') {s : SubscriberId} {r : Rendering} :
    w'.Renders s r ↔ w.Renders s r := by
  constructor
  · rintro ⟨wt, hs, heffect⟩
    exact ⟨wt, (h.renderers heffect).mp hs, heffect⟩
  · rintro ⟨wt, hs, heffect⟩
    exact ⟨wt, (h.renderers heffect).mpr hs, heffect⟩

theorem node (h : w.SameView w') (n : NodeId) : w'.node n = w.node n := by
  rw [World.node, h.nodes, ← World.node]

theorem quiet (h : w.SameView w') {n : NodeId} (hn : w.Quiet n) : w'.Quiet n :=
  fun s r hs => hn s r (h.renders_iff.mp hs)

theorem placed (h : w.SameView w') (hplaced : w.Placed) : w'.Placed := by
  intro s r hs
  rw [h.nodes, h.node]
  exact hplaced s r (h.renders_iff.mp hs)

end SameView

/-- Equal views show the same. -/
theorem Holds.of_sameView {first : Prop} {keeps : Node (Code ν) → Prop} {r : Rendering}
    {shown : String} (h : w.Holds first keeps r shown) (hview : w.SameView w') :
    w'.Holds first keeps r shown := by
  refine h.frame (Nat.le_of_eq (congrArg Heap.size hview.nodes).symm) ?_ ?_ ?_ ?_
  · exact fun _ => by rw [hview.node]
  · exact fun _ => by rw [hview.node]
  · exact fun _ => by rw [hview.node]
  · intro c _ _ hquiet hkeeps
    rw [hview.node]
    exact ⟨⟨hview.quiet hquiet, hkeeps⟩, rfl, rfl, rfl⟩

/-- With more watchers fewer are the only ones. -/
theorem Sole.of_renders {s : SubscriberId} {r : Rendering} (h : w'.Sole s r)
    (hmore : ∀ t r', w.Renders t r' → w'.Renders t r') : w.Sole s r :=
  fun t r' ht haspect htarget => h t r' (hmore t r' ht) haspect htarget

/-- A node is of the right kind for a rendering after another rendering there. -/
theorem fits_render {r r' : Rendering} (hlt : r.target.index < w.nodes.size)
    (hfits : r.Fits (w.node r.target).kind) (hfits' : r'.Fits (w.node r.target).kind)
    (shown : String) : r'.Fits ((w.render r shown).node r.target).kind := by
  by_cases hown : r.aspect = .own
  · -- The node is a text, before and after, so the other rendering is for texts, too.
    rcases hfits with ⟨content, hcontent, _⟩ | ⟨_, _, hnot⟩
    · cases r with
      | interpolated n i =>
          rcases hfits' with ⟨_, _, hown'⟩ | ⟨tag, htag, _⟩
          · exact Or.inl ⟨_, own_render hlt (Or.inl ⟨content, hcontent, rfl⟩) shown, hown'⟩
          · rw [hcontent] at htag
            exact absurd htag (by simp only [reduceCtorEq, not_false_eq_true])
      | _ => exact absurd hown (by simp only [Rendering.aspect, reduceCtorEq, not_false_eq_true])
    · exact absurd hown hnot
  · rw [(redrawn_render hlt hfits shown).own hown]
    exact hfits'

/-- Showing a value keeps nodes of the right kinds. -/
theorem placed_render {r : Rendering} (hplaced : w.Placed) (hlt : r.target.index < w.nodes.size)
    (hfits : r.Fits (w.node r.target).kind) (shown : String) : (w.render r shown).Placed := by
  have hredrawn := redrawn_render hlt hfits shown
  rintro s r' ⟨wt, hs, heffect⟩
  rw [subscriber?_render] at hs
  rcases hplaced s r' ⟨wt, hs, heffect⟩ with ⟨hlt', hfits'⟩
  refine ⟨Nat.lt_of_lt_of_le hlt' hredrawn.grown, ?_⟩
  by_cases htarget : r'.target = r.target
  · rw [htarget] at hfits' ⊢
    exact fits_render hlt hfits hfits' shown
  · rw [Node.kind_of_loose (hredrawn.others _ hlt' htarget)]
    exact hfits'

end World

namespace Display

/-- The display of the view. What has been put beneath a node first need be shown only under
    a condition, and its nodes may have to be like something. -/
def view (first : SubscriberId → Rendering → String → Prop) (keeps : Node (Code ν) → Prop)
    (sound : ClientWorld ν τ → Prop) : Display ν τ where
  shows w s r d := ∀ value, d = .plain value → w.Sole s r →
    w.Holds (first s r value.display) keeps r value.display
  sound := sound

/-- What bindings show is a matter of the view. -/
theorem ofView_view {first : SubscriberId → Rendering → String → Prop}
    {keeps : Node (Code ν) → Prop} {sound : ClientWorld ν τ → Prop}
    (hsound : ∀ {w w' : ClientWorld ν τ}, w.SameView w' → sound w → sound w') :
    (view first keeps sound).OfView where
  sound := hsound
  shows hview h value hvalue hsole :=
    (h value hvalue (hsole.of_renders fun _ _ => hview.renders_iff.mpr)).of_sameView hview

end Display

/-- The watchers that show something are the ones that there were, and they have what they
    need. -/
structure World.Lasts (v w : ClientWorld ν τ) : Prop where
  /-- They are the same watchers. -/
  renderers : ∀ {s wt r}, wt.effect = .render r →
    (w.subscriber? s = some (.watcher wt) ↔ v.subscriber? s = some (.watcher wt))
  /-- They have nodes of the right kinds. -/
  placed : w.Placed
  /-- What is entered into their form fields is written back. -/
  heard : ∀ {s wt n}, w.subscriber? s = some (.watcher wt) → wt.effect = .render (.field n) →
    ("input", Listener.writeBack wt.root wt.path) ∈ (w.node n).listeners

/-- In a view that lasts a watcher that was the only one still is. -/
theorem World.Lasts.sole (h : v.Lasts w) {s : SubscriberId} {r : Rendering} (hsole : v.Sole s r) :
    w.Sole s r :=
  hsole.of_renders fun _ _ ⟨wt, ht, heffect⟩ => ⟨wt, (h.renderers heffect).mp ht, heffect⟩

namespace Display

/-- The display of a view that is complete. -/
def lasting (v : ClientWorld ν τ) (first : SubscriberId → Rendering → Prop) : Display ν τ :=
  view (fun s r _ => first s r) (fun _ => True) (v.Lasts ·)

/-- Showing one value leaves the others shown. -/
theorem lawful_lasting (v : ClientWorld ν τ) (first : SubscriberId → Rendering → Prop) :
    (lasting v first).Lawful where
  toOfView := ofView_view fun {w w'} hview h =>
    ⟨fun heffect => (hview.renderers heffect).trans (h.renderers heffect), hview.placed h.placed,
      fun hs heffect => by
        rw [hview.node]
        exact h.heard ((hview.renderers heffect).mp hs) heffect⟩
  render_sound {w s wt r} shown h hs heffect := by
    rcases h.placed s r ⟨wt, hs, heffect⟩ with ⟨hlt, hfits⟩
    have hredrawn := World.redrawn_render hlt hfits shown
    refine ⟨?_, World.placed_render h.placed hlt hfits shown, ?_⟩
    · intro t wt' r' heffect'
      rw [World.subscriber?_render]
      exact h.renderers heffect'
    · intro t wt' n ht heffect'
      rw [World.subscriber?_render] at ht
      have hheard := h.heard ht heffect'
      by_cases hn : n = r.target
      · rw [hn, hredrawn.self.2, ← hn]
        exact hheard
      · have hnlt := (h.placed t (.field n) ⟨wt', ht, heffect'⟩).1
        rw [Node.listeners_of_loose (hredrawn.others n hnlt hn)]
        exact hheard
  render_shows {w s wt r d shown} h hs heffect hdisplay := by
    rcases h.placed s r ⟨wt, hs, heffect⟩ with ⟨hlt, hfits⟩
    intro value hvalue _
    have hshown : shown = value.display := by
      rw [hvalue] at hdisplay
      injection hdisplay with hdisplay
      exact hdisplay.symm
    rw [← hshown]
    refine World.holds_render h.placed hlt hfits fun _ hstand => ?_
    exact hstand.mono (Nat.le_refl _) fun c hc _ => ⟨⟨hc, trivial⟩, rfl, rfl, rfl⟩
  render_other {w s wt r t wt' r' d} shown h hs heffect hne ht heffect' hshows := by
    rcases h.placed s r ⟨wt, hs, heffect⟩ with ⟨hlt, hfits⟩
    have hrenders : ∀ t r', (w.render r shown).Renders t r' ↔ w.Renders t r' := by
      intro t r'
      rw [World.Renders, World.Renders, World.subscriber?_render]
    intro value hvalue hsole
    have hsole' : w.Sole t r' := hsole.of_renders fun t r' => (hrenders t r').mpr
    refine (hshows value hvalue hsole').of_redrawn (World.redrawn_render hlt hfits shown)
      (h.placed t r' ⟨wt', ht, heffect'⟩).1 ?_ ?_ ?_ ?_
    · -- The same aspect of the same node would mean the same watcher.
      intro htarget haspect
      exact hne (hsole' s r ⟨wt, hs, heffect⟩ haspect.symm htarget.symm).symm
    · exact fun hquiet _ => hquiet s r ⟨wt, hs, heffect⟩ rfl
    · exact fun c hquiet _ s' r'' hs' => hquiet s' r'' ((hrenders s' r'').mp hs')
    · exact fun _ _ _ _ => trivial

end Display

end LiveTemplate
