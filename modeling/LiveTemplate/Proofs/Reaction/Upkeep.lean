import LiveTemplate.Proofs.Reaction.Program
import LiveTemplate.Proofs.Store.Enlisting
import LiveTemplate.Proofs.View.Frame

/-!
# Upkeep

The invariant that keeps watchers up to date, and the elementary changes that keep it.

A watcher whose root is alive is registered with every field on the way to its value,
and it has shown the value. Both can fail for a while. A write leaves behind every
watcher that goes through the field, and it is the turn of each of them later, perhaps
inside the turn of another one, so the watchers whose turn is still to come are
exempt: they are listed as pending. A form field into which something has been entered
shows another value than its watcher, which is registered all the same; such watchers
are listed as stale.

The point of `Kept.write` is that nobody else is left behind: a watcher that goes
through the field is registered there, so it is in the registry that is about to be
notified, and a watcher that does not go through it leads where it led.

What it means for a rendering to show a value is a parameter, and so is what else the
view needs for this.

## Main definitions

* `Display`: What renderings have shown.
* `Display.IsShown`: What a watcher has shown.
* `Kept`: The invariant.

## Theorems

* `Kept.of_change`: Changes that leave values and the view alone.
* `Kept.pins`, `Kept.extend`: Holding on to what is alive, and new objects.
* `Kept.write`: A write leaves only the watchers of the field behind.
* `Kept.read`: After reading a watcher is registered.
* `Kept.settle`: A watcher that has read and shown its value is not pending.
-/

namespace LiveTemplate

variable {ν τ : Type}

namespace World

theorem client_depend (w : ClientWorld ν τ) (reader : Option SubscriberId) (o : ObjectId)
    (key : String) : (w.depend reader o key).client = w.client := by
  rcases w.depend_eq reader o key with heq | ⟨s, heq⟩
  · rw [heq]
  · rw [heq]
    rfl

/-- Registering somebody is not remembered. -/
theorem client_dependAll (reader : Option SubscriberId) (fields : List (ObjectId × String))
    (w : ClientWorld ν τ) : (w.dependAll reader fields).client = w.client := by
  induction fields generalizing w with
  | nil => rfl
  | cons field fields ih =>
      rw [dependAll, List.foldl_cons, ← dependAll, ih, client_depend]

/-- What is alive after a write was alive before it, as long as the value was held. -/
theorem alive_of_write {w : ClientWorld ν τ} {o a : ObjectId} {key : String} {d : Data}
    (ha : a.index < w.objects.size)
    (halive : (w.updateProperty o key fun p => { p with value := d }).alive (.object a) = true) :
    World.alive { w with pins := d.owned ++ w.pins } (.object a) = true := by
  refine alive_object_of_change ?_ ?_ ?_ ha halive
  · exact Nat.le_of_eq (size_objects_updateProperty w o key _).symm
  · intro x _ hrooted
    rcases rooted_eq_true_iff.mp hrooted with hpin | hheld
    · exact alive_of_mem_pins (List.mem_append_right _ hpin)
    · exact alive_of_mem_held hheld
  · rintro b x _ ⟨entry, hentry, hx⟩
    rw [object_updateProperty] at hentry
    split at hentry
    · rcases Table.mem_update hentry with hentry | ⟨old, _, rfl⟩
      · exact Or.inl ⟨entry, hentry, hx⟩
      · -- The field that was written holds what the write holds.
        refine Or.inr (alive_of_mem_pins ?_)
        dsimp only at hx
        rw [hx]
        exact List.mem_append_left _ List.mem_cons_self
    · exact Or.inl ⟨entry, hentry, hx⟩

end World

/-- What it means for a rendering to show a value. -/
structure Display (ν τ : Type) where
  /-- The rendering of the watcher shows the value. -/
  shows : ClientWorld ν τ → SubscriberId → Rendering → Data → Prop
  /-- What the view needs to be like for that. -/
  sound : ClientWorld ν τ → Prop

/-- The watcher has shown the value, in the view or to its callback. -/
def Display.IsShown (D : Display ν τ) (w : ClientWorld ν τ) (s : SubscriberId)
    (effect : Effect (Code ν)) (value : Data) : Prop :=
  match effect with
  | .call _ => w.client.shown s = some value
  | .render r => D.shows w s r value

/-- The same nodes, and the same watchers that show something there. -/
structure World.SameView (w w' : ClientWorld ν τ) : Prop where
  /-- The nodes are the same. -/
  nodes : w'.nodes = w.nodes
  /-- The watchers that show something are the same. -/
  renderers : ∀ {s wt r}, wt.effect = .render r →
    (w'.subscriber? s = some (.watcher wt) ↔ w.subscriber? s = some (.watcher wt))

theorem World.SameView.of_subscribers {w w' : ClientWorld ν τ} (hnodes : w'.nodes = w.nodes)
    (hsubscribers : w'.subscribers = w.subscribers) : w.SameView w' where
  nodes := hnodes
  renderers {s wt r} _ := by rw [World.subscriber?_of_subscribers hsubscribers]

/-- A watcher with a callback shows nothing in the view. -/
theorem World.SameView.addWatcher (w : ClientWorld ν τ) (root : ObjectId) (path : String)
    (c : Code ν) : w.SameView (w.addSubscriber (.watcher ⟨root, path, .call c⟩)).2 := by
  refine ⟨rfl, fun {s wt r} hr => ?_⟩
  rw [World.subscriber?_addSubscriber]
  split
  · next hindex =>
      rw [World.subscriber?_eq_none hindex]
      constructor
      · intro hs
        injection hs with hs
        injection hs with hs
        rw [← hs] at hr
        exact absurd hr (by simp only [reduceCtorEq, not_false_eq_true])
      · exact fun hs => absurd hs (by simp only [reduceCtorEq, not_false_eq_true])
  · rfl

/-- What renderings have shown is a matter of the view. -/
structure Display.OfView (D : Display ν τ) : Prop where
  /-- Equal views show the same. -/
  shows : ∀ {w w' : ClientWorld ν τ} {s r d}, w.SameView w' → D.shows w s r d → D.shows w' s r d
  /-- Equal views are as they need to be if one of them is. -/
  sound : ∀ {w w' : ClientWorld ν τ}, w.SameView w' → D.sound w → D.sound w'

/-- Showing the value of one watcher does not disturb the others. -/
structure Display.Lawful (D : Display ν τ) : Prop extends D.OfView where
  /-- The view stays as it needs to be. -/
  render_sound : ∀ {w : ClientWorld ν τ} {s wt r} text, D.sound w →
    w.subscriber? s = some (.watcher wt) → wt.effect = .render r → D.sound (w.render r text)
  /-- What has been rendered is shown. -/
  render_shows : ∀ {w : ClientWorld ν τ} {s wt r d text}, D.sound w →
    w.subscriber? s = some (.watcher wt) → wt.effect = .render r → w.display? d = some text →
    D.shows (w.render r text) s r d
  /-- Other renderings show what they showed. -/
  render_other : ∀ {w : ClientWorld ν τ} {s wt r t wt' r' d} text, D.sound w →
    w.subscriber? s = some (.watcher wt) → wt.effect = .render r → t ≠ s →
    w.subscriber? t = some (.watcher wt') → wt'.effect = .render r' → D.shows w t r' d →
    D.shows (w.render r text) t r' d

/-- A value that has been shown is shown afterwards, maybe in another sense. -/
theorem Display.IsShown.imp {D D' : Display ν τ} {w w' : ClientWorld ν τ} {s : SubscriberId}
    {effect : Effect (Code ν)} {d : Data} (h : D.IsShown w s effect d)
    (hshown : w'.client.shown s = w.client.shown s)
    (hrender : ∀ r, effect = .render r → D.shows w s r d → D'.shows w' s r d) :
    D'.IsShown w' s effect d := by
  cases effect with
  | call callback => exact hshown.trans h
  | render r => exact hrender r rfl h

theorem Display.OfView.isShown {D : Display ν τ} (hD : D.OfView) {w w' : ClientWorld ν τ}
    {s : SubscriberId} {effect : Effect (Code ν)} {d : Data} (hview : w.SameView w')
    (hshown : w'.client.shown s = w.client.shown s) (h : D.IsShown w s effect d) :
    D.IsShown w' s effect d :=
  h.imp hshown fun _ _ => hD.shows hview

/-- Every watcher whose root is alive is registered on its way and has shown its value,
    apart from the pending ones, which need be neither, and the stale ones, which need not
    have shown it. -/
structure Kept (D : Display ν τ) (pending stale : List SubscriberId) (w : ClientWorld ν τ) :
    Prop where
  /-- Properties hold objects that exist. -/
  closed : w.ClosedUnder fun o => o.index < w.objects.size
  /-- Watchers start from objects that exist. -/
  ranged : ∀ s wt, w.subscriber? s = some (.watcher wt) → wt.root.index < w.objects.size
  /-- A callback knows its watcher. -/
  tagged : ∀ s wt c, w.subscriber? s = some (.watcher wt) → wt.effect = .call c →
    ∃ name, c = .watching s name
  /-- Watchers are registered on their ways. -/
  registered : ∀ s wt, w.subscriber? s = some (.watcher wt) → s ∉ pending →
    w.alive (.object wt.root) = true → w.RegisteredAt s (w.pathFields wt.root wt.path)
  /-- Registries list exactly those who are registered. -/
  orderly : w.Orderly
  /-- Watchers have shown their values. -/
  shown : ∀ s wt v, w.subscriber? s = some (.watcher wt) → s ∉ pending → s ∉ stale →
    w.alive (.object wt.root) = true → w.pathValue? wt.root wt.path = some v →
    D.IsShown w s wt.effect v
  /-- The view is as it needs to be. -/
  sound : D.sound w

namespace Kept

variable {D : Display ν τ} {P P' Q Q' : List SubscriberId} {w w' : ClientWorld ν τ}

/-- More watchers may be pending or stale than are. -/
theorem mono (h : Kept D P Q w) (hP : P ⊆ P') (hQ : Q ⊆ Q') : Kept D P' Q' w where
  closed := h.closed
  ranged := h.ranged
  tagged := h.tagged
  registered s wt hs hsP := h.registered s wt hs fun hmem => hsP (hP hmem)
  orderly := h.orderly
  shown s wt v hs hsP hsQ :=
    h.shown s wt v hs (fun hmem => hsP (hP hmem)) fun hmem => hsQ (hQ hmem)
  sound := h.sound

/-- What is no watcher, or a watcher whose root is gone, need not be pending. -/
theorem drop {s : SubscriberId} (h : Kept D (s :: P) Q w)
    (hs : ∀ wt, w.subscriber? s = some (.watcher wt) → ¬w.alive (.object wt.root) = true) :
    Kept D P Q w where
  closed := h.closed
  ranged := h.ranged
  tagged := h.tagged
  registered t wt ht htP halive := by
    refine h.registered t wt ht ?_ halive
    rw [List.mem_cons, not_or]
    refine ⟨?_, htP⟩
    rintro rfl
    exact hs wt ht halive
  orderly := h.orderly
  shown t wt v ht htP htQ halive := by
    refine h.shown t wt v ht ?_ htQ halive
    rw [List.mem_cons, not_or]
    refine ⟨?_, htP⟩
    rintro rfl
    exact hs wt ht halive
  sound := h.sound

/-- The way of a watcher goes through objects that exist. -/
theorem root_lt (h : Kept D P Q w) {s : SubscriberId} {wt : Watcher (Code ν)}
    (hs : w.subscriber? s = some (.watcher wt)) :
    ∀ o, Data.object wt.root = .object o → o.index < w.objects.size := by
  intro o ho
  injection ho with ho
  rw [← ho]
  exact h.ranged s wt hs

/-- From one world to another in which all values are the same and nothing is revived.
    Watchers that are new there are pending. -/
theorem transfer (h : Kept D P Q w) (hgrown : w.objects.size ≤ w'.objects.size)
    (hclosed : w'.ClosedUnder fun o => o.index < w'.objects.size)
    (hvalues : World.SameValues (fun o => o.index < w.objects.size) w w')
    (henlists : w.Enlists w')
    (halive : ∀ o : ObjectId, o.index < w.objects.size → w'.alive (.object o) = true →
      w.alive (.object o) = true)
    (hsubscriber : ∀ s wt, w'.subscriber? s = some (.watcher wt) →
      w.subscriber? s = some (.watcher wt) ∧ (s ∉ P' → s ∉ P) ∨
        s ∈ P' ∧ wt.root.index < w.objects.size ∧
          ∀ c, wt.effect = .call c → ∃ name, c = .watching s name)
    (hshown : ∀ s wt d, w.subscriber? s = some (.watcher wt) → s ∉ P → s ∉ Q →
      D.IsShown w s wt.effect d → D.IsShown w' s wt.effect d) (hsound : D.sound w') :
    Kept D P' Q w' := by
  refine ⟨hclosed, ?_, ?_, ?_, henlists.orderly h.orderly, ?_, hsound⟩
  · intro s wt hs
    rcases hsubscriber s wt hs with ⟨hs, _⟩ | ⟨_, hroot, _⟩
    · exact Nat.lt_of_lt_of_le (h.ranged s wt hs) hgrown
    · exact Nat.lt_of_lt_of_le hroot hgrown
  · intro s wt c hs hc
    rcases hsubscriber s wt hs with ⟨hs, _⟩ | ⟨_, _, htagged⟩
    · exact h.tagged s wt c hs hc
    · exact htagged c hc
  · intro s wt hs hsP hroot field hfield
    rcases hsubscriber s wt hs with ⟨hs, hP⟩ | ⟨hmem, _⟩
    · rw [World.pathFields, World.trail_congr hvalues h.closed _ (h.root_lt hs),
        ← World.pathFields] at hfield
      have hroot := halive wt.root (h.ranged s wt hs) hroot
      exact henlists.isRegistered (h.registered s wt hs (hP hsP) hroot field hfield)
    · exact absurd hmem hsP
  · intro s wt v hs hsP hsQ hroot hv
    rcases hsubscriber s wt hs with ⟨hs, hP⟩ | ⟨hmem, _⟩
    · rw [World.pathValue?, World.follow_congr hvalues h.closed _ (h.root_lt hs),
        ← World.pathValue?] at hv
      have hroot := halive wt.root (h.ranged s wt hs) hroot
      exact hshown s wt v hs (hP hsP) hsQ (h.shown s wt v hs (hP hsP) hsQ hroot hv)
    · exact absurd hmem hsP

/-- A change that leaves the watchers and all values alone and revives nothing. -/
theorem of_change (h : Kept D P Q w) (hsubscribers : w'.subscribers = w.subscribers)
    (hgrown : w.objects.size ≤ w'.objects.size)
    (hclosed : w'.ClosedUnder fun o => o.index < w'.objects.size)
    (hvalues : World.SameValues (fun o => o.index < w.objects.size) w w')
    (henlists : w.Enlists w')
    (halive : ∀ o : ObjectId, o.index < w.objects.size → w'.alive (.object o) = true →
      w.alive (.object o) = true)
    (hshown : ∀ s wt d, w.subscriber? s = some (.watcher wt) → s ∉ P → s ∉ Q →
      D.IsShown w s wt.effect d → D.IsShown w' s wt.effect d) (hsound : D.sound w') :
    Kept D P Q w' := by
  refine h.transfer hgrown hclosed hvalues henlists halive ?_ hshown hsound
  intro s wt hs
  rw [World.subscriber?_of_subscribers hsubscribers] at hs
  exact Or.inl ⟨hs, id⟩

/-- From one world to another that has the same objects. -/
theorem transfer_of_objects (h : Kept D P Q w) (hobjects : w'.objects = w.objects)
    (hregistries : w'.registries = w.registries)
    (hrooted : ∀ o : ObjectId, o.index < w.objects.size → w'.rooted (.object o) = true →
      w.alive (.object o) = true)
    (hsubscriber : ∀ s wt, w'.subscriber? s = some (.watcher wt) →
      w.subscriber? s = some (.watcher wt) ∧ (s ∉ P' → s ∉ P) ∨
        s ∈ P' ∧ wt.root.index < w.objects.size ∧
          ∀ c, wt.effect = .call c → ∃ name, c = .watching s name)
    (hshown : ∀ s wt d, w.subscriber? s = some (.watcher wt) → s ∉ P → s ∉ Q →
      D.IsShown w s wt.effect d → D.IsShown w' s wt.effect d) (hsound : D.sound w') :
    Kept D P' Q w' := by
  have hproperty := World.property?_of_objects hobjects
  refine h.transfer (Nat.le_of_eq (congrArg Heap.size hobjects).symm) ?_ ?_
    (.of_same hobjects hregistries)
    (fun o ho => World.alive_object_of_objects hobjects hrooted ho) hsubscriber hshown hsound
  · intro o ho key p x hp hx
    rw [hobjects] at ho ⊢
    rw [hproperty] at hp
    exact h.closed o ho key p x hp hx
  · intro o _ key
    rw [hproperty]

/-- A change of what is held on to, or shown, that revives nothing. -/
theorem of_objects (h : Kept D P Q w) (hobjects : w'.objects = w.objects)
    (hregistries : w'.registries = w.registries) (hsubscribers : w'.subscribers = w.subscribers)
    (hrooted : ∀ o : ObjectId, o.index < w.objects.size → w'.rooted (.object o) = true →
      w.alive (.object o) = true)
    (hshown : ∀ s wt d, w.subscriber? s = some (.watcher wt) → s ∉ P → s ∉ Q →
      D.IsShown w s wt.effect d → D.IsShown w' s wt.effect d) (hsound : D.sound w') :
    Kept D P Q w' := by
  refine h.transfer_of_objects hobjects hregistries hrooted ?_ hshown hsound
  intro s wt hs
  rw [World.subscriber?_of_subscribers hsubscribers] at hs
  exact Or.inl ⟨hs, id⟩

/-- Operations may hold on to other things, as long as the objects among them are alive. -/
theorem pins (h : Kept D P Q w) (hD : D.OfView) {handles : List Handle}
    (halive : ∀ o, .object o ∈ handles → w.alive (.object o) = true) :
    Kept D P Q { w with pins := handles } := by
  have hview : w.SameView { w with pins := handles } := .of_subscribers rfl rfl
  refine h.of_objects rfl rfl rfl ?_ (fun s wt d _ _ _ hd => hD.isShown hview rfl hd)
    (hD.sound hview h.sound)
  intro o _ hrooted
  rcases World.rooted_eq_true_iff.mp hrooted with hpin | hheld
  · exact halive o hpin
  · exact World.alive_of_mem_held hheld

/-- New objects that hold each other, some of which may be held on to. -/
theorem extend (h : Kept D P Q w) (hD : D.OfView) (hext : w.Extends w') {v : ClientWorld ν τ}
    (hobjects : v.objects = w'.objects) (hregistries : v.registries = w.registries)
    (hnodes : v.nodes = w.nodes) (hsubscribers : v.subscribers = w.subscribers)
    (hshown : v.client.shown = w.client.shown)
    (hrooted : ∀ o : ObjectId, o.index < w.objects.size → v.rooted (.object o) = true →
      w.alive (.object o) = true) : Kept D P Q v := by
  have hobject : ∀ o, v.object o = w'.object o := by
    intro o
    rw [World.object, hobjects, ← World.object]
  have hkept : ∀ o : ObjectId, o.index < w.objects.size → ∀ key,
      v.property? o key = w.property? o key := by
    intro o ho key
    rw [World.property?, hobject, hext.kept o ho, ← World.property?]
  have hview : w.SameView v := .of_subscribers hnodes hsubscribers
  refine h.of_change hsubscribers ?_ ?_ ?_ ?_ ?_
    (fun s wt d _ _ _ hd => hD.isShown hview (congrFun hshown s) hd) (hD.sound hview h.sound)
  · rw [hobjects]
    exact hext.grown
  · intro o _ key p x hp hx
    rw [hobjects]
    by_cases hold : o.index < w.objects.size
    · rw [hkept o hold] at hp
      exact Nat.lt_of_lt_of_le (h.closed o hold key p x hp hx) hext.grown
    · have hpoints : w'.PointsTo o x := by
        rw [World.PointsTo, ← hobject]
        exact World.pointsTo_of_property? hp hx
      exact (hext.apart o x (Nat.le_of_not_lt hold) hpoints).2
  · intro o ho key
    rw [hkept o ho]
  · exact (World.Enlists.of_extends hext).trans
      (.of_same hobjects (hregistries.trans hext.registries.symm))
  · intro o ho halive
    refine World.alive_object_of_change ?_ hrooted ?_ ho halive
    · rw [hobjects]
      exact hext.grown
    · intro a x hx hpoint
      rw [World.PointsTo, hobject] at hpoint
      by_cases hold : a.index < w.objects.size
      · rw [hext.kept a hold] at hpoint
        exact Or.inl hpoint
      · exact absurd hx (Nat.not_lt_of_le (hext.apart a x (Nat.le_of_not_lt hold) hpoint).1)

/-- A watcher that is registered on its way and has shown its value need not be pending. -/
theorem settle {s : SubscriberId} (h : Kept D (s :: P) Q w)
    (hs : ∀ wt, w.subscriber? s = some (.watcher wt) →
      w.RegisteredAt s (w.pathFields wt.root wt.path) ∧
        ∀ v, w.pathValue? wt.root wt.path = some v → D.IsShown w s wt.effect v) :
    Kept D P Q w where
  closed := h.closed
  ranged := h.ranged
  tagged := h.tagged
  registered t wt ht htP halive := by
    by_cases hts : t = s
    · subst hts
      exact (hs wt ht).1
    · refine h.registered t wt ht ?_ halive
      rw [List.mem_cons, not_or]
      exact ⟨hts, htP⟩
  orderly := h.orderly
  shown t wt v ht htP htQ halive hv := by
    by_cases hts : t = s
    · subst hts
      exact (hs wt ht).2 v hv
    · refine h.shown t wt v ht ?_ htQ halive hv
      rw [List.mem_cons, not_or]
      exact ⟨hts, htP⟩
  sound := h.sound

/-- A write leaves behind the watchers that are registered with the field, and no others.
    The value may be held by nothing else than the write. -/
theorem write {d : Data} {o : ObjectId} {key : String} {p : Property}
    (h : Kept D P Q { w with pins := d.owned ++ w.pins }) (hD : D.OfView)
    (hd : ∀ x, d = .object x → x.index < w.objects.size) (hp : w.property? o key = some p) :
    Kept D (p.registry.subscribers ++ P) (Q.filter fun s => !p.registry.contains s)
      (w.updateProperty o key fun p => { p with value := d }) := by
  have hproperty : ∀ a k, (w.updateProperty o key fun p => { p with value := d }).property? a k =
      if o = a ∧ key = k then (w.property? a k).map fun p => { p with value := d }
      else w.property? a k := fun a k => World.property?_updateProperty w o key _ a k
  have hway := World.path_pins w (d.owned ++ w.pins)
  have hview : World.SameView { w with pins := d.owned ++ w.pins }
      (w.updateProperty o key fun p => { p with value := d }) := .of_subscribers rfl rfl
  -- A watcher that goes through the field is registered there.
  have hoff : ∀ s wt, w.subscriber? s = some (.watcher wt) →
      s ∉ p.registry.subscribers ++ P →
      World.alive { w with pins := d.owned ++ w.pins } (.object wt.root) = true →
      (o, key) ∉ w.pathFields wt.root wt.path := by
    intro s wt hs hsP hroot hmem
    rw [List.mem_append, not_or] at hsP
    rw [← (hway wt.root wt.path).2] at hmem
    rcases h.registered s wt hs hsP.2 hroot (o, key) hmem with ⟨q, hq, hcontains⟩
    have hq' : w.property? o key = some q := hq
    rw [hp] at hq'
    injection hq' with hq'
    rw [← hq', (h.orderly.property hp).contains_iff] at hcontains
    exact hsP.1 hcontains
  refine ⟨?_, ?_, h.tagged, ?_, (World.Enlists.write w o key d).orderly h.orderly, ?_, ?_⟩
  · intro a ha k q x hq hx
    rw [World.size_objects_updateProperty] at ha ⊢
    rw [hproperty] at hq
    split at hq
    · rw [Option.map_eq_some_iff] at hq
      rcases hq with ⟨q', _, rfl⟩
      exact hd x hx
    · exact h.closed a ha k q x hq hx
  · intro s wt hs
    rw [World.size_objects_updateProperty]
    exact h.ranged s wt hs
  · intro s wt hs hsP hroot field hfield
    have hroot := World.alive_of_write (w := w) (h.ranged s wt hs) hroot
    rw [World.pathFields, World.trail_updateProperty _ (hoff s wt hs hsP hroot),
      ← World.pathFields, ← (hway wt.root wt.path).2] at hfield
    have hbefore : w.IsRegistered s field :=
      h.registered s wt hs (fun hmem => hsP (List.mem_append_right _ hmem)) hroot field hfield
    exact hbefore.write o key d
  · intro s wt v hs hsP hsQ hroot hv
    have hroot := World.alive_of_write (w := w) (h.ranged s wt hs) hroot
    rw [World.pathValue?, World.follow_updateProperty _ (hoff s wt hs hsP hroot),
      ← World.pathValue?, ← (hway wt.root wt.path).1] at hv
    have hQ : s ∉ Q := by
      intro hmem
      refine hsQ (List.mem_filter.mpr ⟨hmem, ?_⟩)
      rw [Bool.not_eq_true', Bool.eq_false_iff, ne_eq, (h.orderly.property hp).contains_iff]
      exact fun hmem => hsP (List.mem_append_left _ hmem)
    have hshown := h.shown s wt v hs (fun hmem => hsP (List.mem_append_right _ hmem)) hQ hroot hv
    exact hD.isShown hview rfl hshown
  · exact hD.sound hview h.sound

/-- Registering somebody with a field. -/
theorem depend (h : Kept D P Q w) (hD : D.OfView) (reader : Option SubscriberId)
    (o : ObjectId) (key : String) : Kept D P Q (w.depend reader o key) := by
  rcases w.depend_frame reader o key with ⟨hnodes, hsubscribers, hpins, hsize⟩
  have hvalues := World.sameValues_depend (fun _ => True) w reader o key
  have hclient : (w.depend reader o key).client = w.client := w.client_depend reader o key
  have hview : w.SameView (w.depend reader o key) := .of_subscribers hnodes hsubscribers
  refine h.of_change hsubscribers (Nat.le_of_eq hsize.symm) ?_ (fun a _ => hvalues a trivial)
    (.depend w reader o key) ?_
    (fun s wt d _ _ _ hd => hD.isShown hview (congrFun (congrArg Journal.shown hclient) s) hd)
    (hD.sound hview h.sound)
  · intro a ha k q x hq hx
    have hsame := hvalues a trivial k
    rw [hq, Option.map_some, eq_comm, Option.map_eq_some_iff] at hsame
    rcases hsame with ⟨q', hq', hvalue⟩
    rw [hsize] at ha ⊢
    exact h.closed a ha k q' x hq' (hvalue.trans hx)
  · intro a ha hnow
    refine World.alive_object_of_change (Nat.le_of_eq hsize.symm) ?_ ?_ ha hnow
    · intro x _ hrooted
      rw [World.rooted, hpins, hclient, ← World.rooted] at hrooted
      exact World.alive_of_rooted hrooted
    · exact fun b x _ hpoints => Or.inl (World.pointsTo_of_depend hpoints)

/-- Registering somebody with several fields. -/
theorem dependAll (h : Kept D P Q w) (hD : D.OfView) (reader : Option SubscriberId)
    (fields : List (ObjectId × String)) : Kept D P Q (w.dependAll reader fields) := by
  induction fields generalizing w with
  | nil => exact h
  | cons field fields ih => exact ih (h.depend hD reader field.1 field.2)

/-- After a tracked read the reader is registered with its way, which has not changed. -/
theorem read (h : Kept D P Q w) (hD : D.OfView) (s : SubscriberId) (root : ObjectId)
    (path : String) {v : ClientWorld ν τ} {result : Except BindingError Data}
    (hread : w.readPath (some s) root path = (result, v)) :
    Kept D P Q v ∧ v.RegisteredAt s (v.pathFields root path) ∧
      v.pathValue? root path = result.toOption ∧ v.subscribers = w.subscribers ∧
      v.pins = w.pins := by
  have hspec := w.readPath_spec (some s) root path
  rw [hread] at hspec
  rcases hspec with ⟨rfl, hvalue⟩
  have hsame := World.sameValues_dependAll (fun _ => True) (some s) (w.pathFields root path) w
  have hway := World.path_congr hsame root path
  have hframe := World.dependAll_frame (some s) (w.pathFields root path) w
  refine ⟨h.dependAll hD (some s) _, ?_, ?_, hframe.2.1, hframe.2.2.1⟩
  · rw [hway.2]
    exact World.registeredAt_dependAll s fun field hfield =>
      World.exists_property?_of_mem_trail hfield
  · rw [hway.1, hvalue]

/-- A new watcher with a callback of its own is pending. -/
theorem addWatcher (h : Kept D P Q w) (hD : D.OfView) {root : ObjectId}
    (hroot : root.index < w.objects.size) (path : String) (name : ν) :
    Kept D (⟨w.subscribers.size⟩ :: P) Q (w.addSubscriber
      (.watcher ⟨root, path, .call (.watching ⟨w.subscribers.size⟩ name)⟩)).2 := by
  generalize hv : (w.addSubscriber
    (.watcher ⟨root, path, .call (.watching ⟨w.subscribers.size⟩ name)⟩)).2 = v
  have hobjects : v.objects = w.objects := by rw [← hv]; rfl
  have hregistries : v.registries = w.registries := by rw [← hv]; rfl
  have hclient : v.client = w.client := by rw [← hv]; rfl
  have hsubscriber : ∀ s, v.subscriber? s =
      if s.index = w.subscribers.size then
        some (.watcher ⟨root, path, .call (.watching ⟨w.subscribers.size⟩ name)⟩)
      else w.subscriber? s := by
    intro s
    rw [← hv]
    exact World.subscriber?_addSubscriber w _ s
  have hview : w.SameView v := by
    rw [← hv]
    exact .addWatcher w root path _
  refine h.transfer_of_objects hobjects hregistries ?_ ?_
    (fun s wt d _ _ _ hd => hD.isShown hview (congrFun (congrArg Journal.shown hclient) s) hd)
    (hD.sound hview h.sound)
  · intro o _ hrooted
    rw [← hv] at hrooted
    exact World.alive_of_rooted hrooted
  · intro s wt hs
    rw [hsubscriber] at hs
    split at hs
    · next hindex =>
        injection hs with hs
        injection hs with hs
        have hnew : s = ⟨w.subscribers.size⟩ := by cases s; cases hindex; rfl
        rw [hnew, ← hs]
        refine Or.inr ⟨List.mem_cons_self, hroot, fun c hc => ?_⟩
        injection hc with hc
        exact ⟨name, hc.symm⟩
    · exact Or.inl ⟨hs, fun hsP hmem => hsP (List.mem_cons_of_mem _ hmem)⟩

/-- Writing down what a pending watcher has read. -/
theorem record {s : SubscriberId} (h : Kept D (s :: P) Q w) (hD : D.OfView) (value : Data) :
    Kept D (s :: P) Q (w.record s value) := by
  have hview : w.SameView (w.record s value) := .of_subscribers rfl rfl
  refine h.of_objects rfl rfl rfl (fun o _ hrooted => World.alive_of_rooted hrooted) ?_
    (hD.sound hview h.sound)
  intro t wt d _ htP _ hd
  have hts : t ≠ s := fun heq => htP (heq ▸ List.mem_cons_self)
  have hsame : (w.record s value).client.shown t = w.client.shown t := if_neg hts
  exact hD.isShown hview hsame hd

/-- Showing the value of a pending watcher in the view. -/
theorem render {s : SubscriberId} {wt : Watcher (Code ν)} {r : Rendering}
    (h : Kept D (s :: P) Q w) (hD : D.Lawful) (hs : w.subscriber? s = some (.watcher wt))
    (hr : wt.effect = .render r) (text : String) : Kept D (s :: P) Q (w.render r text) := by
  have hrest := w.onlyNodes_render r text
  refine h.of_objects hrest.objects hrest.registries hrest.subscribers ?_ ?_
    (hD.render_sound text h.sound hs hr)
  · intro o _ hrooted
    rw [World.rooted, hrest.pins, hrest.client, ← World.rooted] at hrooted
    exact World.alive_of_rooted hrooted
  · intro t wt' d ht htP _ hd
    have hts : t ≠ s := fun heq => htP (heq ▸ List.mem_cons_self)
    refine hd.imp (congrFun (congrArg Journal.shown hrest.client) t) fun r' heffect hshows => ?_
    exact hD.render_other text h.sound hs hr hts ht heffect hshows

end Kept

end LiveTemplate
