import LiveTemplate.Proofs.Binding.Working
import LiveTemplate.Proofs.Reaction.Observing
import LiveTemplate.Proofs.Reaction.Outcomes
import LiveTemplate.Proofs.View.Lasting

/-!
# Binding One Value

What binding a value to a node does to the world.

A binding shows the value and adds one watcher, which is registered on its way and has
shown its value. Nothing is written, so all values are the same before and after. The
bindings that were there go on showing what they show: another aspect of the same
node, another node, or the same aspect, in which case there are two watchers for it
now and nothing is claimed about either.

What was beneath the node and is quiet stays so, because the node itself asks for a
value and is not plain.

The data of a template need not be held by anybody while the template is compiled. It
will be held afterwards, so the invariant is stated as if it was held already.

## Main definitions

* `Display.growing`: The display of a view that is being compiled.
* `Template.held`: The world as if the data was held.
* `Template.Bound`: A binding has been added.
* `Template.Attached`: A binding has been added, and everybody is up to date.

## Theorems

* `bindValue_run_iff`: A value is shown and watched, if the path can be followed.
* `bound_bindValue`, `attached_bindValue`: What binding a value does.
-/

namespace LiveTemplate

open Markup

variable {ν τ : Type} {w w' : ClientWorld ν τ}

/-- The display of a view that is being compiled. What has been put beneath a node is shown
    if it is plain. -/
def Display.growing (ν τ : Type) (markers : Markers) : Display ν τ :=
  view (fun _ r shown => Tree.PlainAll markers (r.forest shown)) (Node.IsPlain markers)
    World.Placed

theorem Display.ofView_growing (markers : Markers) : (growing ν τ markers).OfView :=
  ofView_view fun hview hplaced => hview.placed hplaced

namespace Template

/-- The world as if the data of the template was held. -/
def held (t : Template (Code ν)) (w : ClientWorld ν τ) : ClientWorld ν τ :=
  { w with pins := .object t.data :: w.pins }

/-- A binding has been added, and its value has been shown. -/
structure Bound (t : Template (Code ν)) (key : String) (r : Rendering)
    (w w' : ClientWorld ν τ) : Prop where
  /-- Nothing has been written. -/
  unwritten : w.Unwritten w'
  /-- One aspect of the node has changed. -/
  redrawn : w.Redrawn w' r.target r.aspect
  /-- There is one subscriber more. -/
  subscribers : ∀ s subscriber, w'.subscriber? s = some subscriber ↔
    w.subscriber? s = some subscriber ∨
      s = ⟨w.subscribers.size⟩ ∧ subscriber = .watcher ⟨t.data, key, .render r⟩
  /-- What has been put beneath the node fills the new places. -/
  spans : r.aspect = .beneath →
    w'.Spans w.nodes.size (w'.node r.target).children w'.nodes.size
  /-- The value is in the view. -/
  bears : ∃ value shown, w.getPath t.data key = .ok value ∧ w.display? value = some shown ∧
    w'.Bears (fun c => w.nodes.size ≤ c.index ∧ w'.IsLeaf c) r shown

/-- There is one watcher more that shows something. -/
theorem Bound.renderers {t : Template (Code ν)} {key : String} {r : Rendering}
    (h : t.Bound key r w w') {s : SubscriberId} {wt : Watcher (Code ν)} :
    w'.subscriber? s = some (.watcher wt) ↔ w.subscriber? s = some (.watcher wt) ∨
      s = ⟨w.subscribers.size⟩ ∧ wt = ⟨t.data, key, .render r⟩ := by
  rw [h.subscribers, Subscriber.watcher.injEq]

/-- A binding has been added, and everybody is up to date. -/
structure Attached (t : Template (Code ν)) (key : String) (r : Rendering)
    (w w' : ClientWorld ν τ) : Prop extends t.Bound key r w w' where
  /-- Everybody is up to date. -/
  kept : Kept (Display.growing ν τ t.markers) [] [] (t.held w')

/-- A watcher has been added that shows something at a node. -/
theorem subscribers_addSubscriber (w : ClientWorld ν τ) (wt : Watcher (Code ν)) {s : SubscriberId}
    {subscriber : Subscriber (Code ν)} :
    (w.addSubscriber (.watcher wt)).2.subscriber? s = some subscriber ↔
      w.subscriber? s = some subscriber ∨
        s = ⟨w.subscribers.size⟩ ∧ subscriber = .watcher wt := by
  rw [World.subscriber?_addSubscriber]
  split
  · next hindex =>
      have hs : s = ⟨w.subscribers.size⟩ := by cases s; cases hindex; rfl
      rw [World.subscriber?_eq_none hindex]
      simp only [Option.some.injEq, reduceCtorEq, hs, true_and, false_or]
      exact eq_comm
  · next hindex =>
      constructor
      · exact Or.inl
      · rintro (hs | ⟨rfl, _⟩)
        · exact hs
        · exact absurd rfl hindex

/-- The world after a value has been shown, with one watcher more. -/
def attach (t : Template (Code ν)) (key : String) (r : Rendering) (shown : String)
    (w : ClientWorld ν τ) : ClientWorld ν τ :=
  ((w.render r shown).addSubscriber (.watcher ⟨t.data, key, .render r⟩)).2

/-- A text is shown for the value at a path, and a new watcher is registered with each property
    on the path. -/
def bindPath (t : Template (Code ν)) (key : String) (r : Rendering) (shown : String)
    (w : ClientWorld ν τ) : ClientWorld ν τ :=
  (t.attach key r shown w).dependAll (some ⟨w.subscribers.size⟩) (w.pathFields t.data key)

section Attach

variable {t : Template (Code ν)} {key shown : String} {r : Rendering}

theorem subscribers_attach {s : SubscriberId} {subscriber : Subscriber (Code ν)} :
    (t.attach key r shown w).subscriber? s = some subscriber ↔
      w.subscriber? s = some subscriber ∨
        s = ⟨w.subscribers.size⟩ ∧ subscriber = .watcher ⟨t.data, key, .render r⟩ := by
  have hsubscribers := (w.onlyNodes_render r shown).subscribers
  rw [attach, subscribers_addSubscriber, World.subscriber?_render, hsubscribers]

theorem subscriber?_attach {s : SubscriberId} {wt : Watcher (Code ν)} :
    (t.attach key r shown w).subscriber? s = some (.watcher wt) ↔
      w.subscriber? s = some (.watcher wt) ∨
        s = ⟨w.subscribers.size⟩ ∧ wt = ⟨t.data, key, .render r⟩ := by
  rw [subscribers_attach, Subscriber.watcher.injEq]

theorem renders_attach {s : SubscriberId} {r' : Rendering} :
    (t.attach key r shown w).Renders s r' ↔
      w.Renders s r' ∨ s = ⟨w.subscribers.size⟩ ∧ r' = r := by
  constructor
  · rintro ⟨wt, hs, heffect⟩
    rcases subscriber?_attach.mp hs with hold | ⟨hnew, rfl⟩
    · exact Or.inl ⟨wt, hold, heffect⟩
    · injection heffect with heffect
      exact Or.inr ⟨hnew, heffect.symm⟩
  · rintro (⟨wt, hs, heffect⟩ | ⟨hs, rfl⟩)
    · exact ⟨wt, subscriber?_attach.mpr (Or.inl hs), heffect⟩
    · exact ⟨⟨t.data, key, .render r'⟩, subscriber?_attach.mpr (Or.inr ⟨hs, rfl⟩), rfl⟩

theorem redrawn_attach (hlt : r.target.index < w.nodes.size)
    (hfits : r.Fits (w.node r.target).kind) :
    w.Redrawn (t.attach key r shown w) r.target r.aspect := by
  exact (World.redrawn_render hlt hfits shown).of_nodes rfl rfl

theorem placed_attach (hplaced : w.Placed) (hlt : r.target.index < w.nodes.size)
    (hfits : r.Fits (w.node r.target).kind) : (t.attach key r shown w).Placed := by
  intro s r' hs
  rcases renders_attach.mp hs with ⟨wt, hs, heffect⟩ | ⟨_, rfl⟩
  · refine World.placed_render hplaced hlt hfits shown s r' ⟨wt, ?_, heffect⟩
    rwa [World.subscriber?_render]
  · exact ⟨Nat.lt_of_lt_of_le hlt (World.redrawn_render hlt hfits shown).grown,
      World.fits_render hlt hfits hfits shown⟩

/-- Quiet and plain nodes are quiet after something has been shown at a node that is not
    plain. -/
theorem quiet_attach (hnot : ¬(w.node r.target).IsPlain t.markers) {c : NodeId}
    (hc : w.Quiet c) (hplain : (w.node c).IsPlain t.markers) :
    (t.attach key r shown w).Quiet c := by
  intro s r' hs htarget
  rcases renders_attach.mp hs with hs | ⟨_, rfl⟩
  · exact hc s r' hs htarget
  · rw [htarget] at hnot
    exact hnot hplain

/-- With one binding more everybody is up to date, apart from its own watcher. -/
theorem kept_attach (h : Kept (Display.growing ν τ t.markers) [] [] (t.held w))
    (hdata : t.data.index < w.objects.size) (hlt : r.target.index < w.nodes.size)
    (hfits : r.Fits (w.node r.target).kind) (hnot : ¬(w.node r.target).IsPlain t.markers) :
    Kept (Display.growing ν τ t.markers) [⟨w.subscribers.size⟩] []
      (t.held (t.attach key r shown w)) := by
  have hrest := w.onlyNodes_render r shown
  have hobjects : (t.held (t.attach key r shown w)).objects = w.objects := hrest.objects
  have hredrawn : (t.held w).Redrawn (t.held (t.attach key r shown w)) r.target r.aspect :=
    (World.redrawn_render hlt hfits shown).of_nodes rfl rfl
  refine h.transfer_of_objects hobjects hrest.registries ?_ ?_ ?_ ?_
  · intro x _ hrooted
    have hpins : (w.render r shown).pins = w.pins := hrest.pins
    have hclient : (w.render r shown).client = w.client := hrest.client
    refine World.alive_of_rooted ?_
    rw [World.rooted_eq_true_iff] at hrooted ⊢
    simp only [held, attach, World.addSubscriber, hpins, hclient] at hrooted ⊢
    exact hrooted
  · intro s wt hs
    rcases subscriber?_attach.mp hs with hs | ⟨rfl, rfl⟩
    · exact Or.inl ⟨hs, fun _ hmem => absurd hmem List.not_mem_nil⟩
    · refine Or.inr ⟨List.mem_cons_self, hdata, fun c hc => ?_⟩
      exact absurd hc (by simp only [reduceCtorEq, not_false_eq_true])
  · intro s wt d hs _ _ hd
    have hclient : (w.render r shown).client = w.client := hrest.client
    refine hd.imp (congrFun (congrArg Journal.shown hclient) s) fun r' heffect hshows => ?_
    intro value hvalue hsole
    have hsole' : (t.held w).Sole s r' :=
      hsole.of_renders fun s r' hs => renders_attach.mpr (Or.inl hs)
    refine (hshows value hvalue hsole').of_redrawn hredrawn
      (h.sound s r' ⟨wt, hs, heffect⟩).1 ?_ (fun _ => hnot)
      (fun c hc hplain => quiet_attach hnot hc hplain) ?_
    · -- A second watcher for the same aspect of the node leaves nothing to show.
      intro htarget haspect
      have hnew := hsole ⟨w.subscribers.size⟩ r (renders_attach.mpr (Or.inr ⟨rfl, rfl⟩))
        haspect.symm htarget.symm
      have hslt : s.index < w.subscribers.size := World.lt_of_subscriber? hs
      rw [← hnew] at hslt
      exact Nat.lt_irrefl _ hslt
    · intro c hclt hne hplain
      have hloose := hredrawn.others c hclt hne
      exact (Node.isPlain_congr (Node.kind_of_loose hloose)
        (Node.attributes_of_loose hloose)).mpr hplain
  · exact placed_attach h.sound hlt hfits

/-- The new binding shows its value. -/
theorem holds_attach (hplaced : w.Placed) (hlt : r.target.index < w.nodes.size)
    (hfits : r.Fits (w.node r.target).kind) :
    (t.attach key r shown w).Holds (Tree.PlainAll t.markers (r.forest shown))
      (Node.IsPlain t.markers) r shown := by
  have hholds : (w.render r shown).Holds (Tree.PlainAll t.markers (r.forest shown))
      (Node.IsPlain t.markers) r shown :=
    World.holds_render hplaced hlt hfits fun hplain hstand => hstand.plain hplain
  have hsize : (w.render r shown).nodes.size ≤ (t.attach key r shown w).nodes.size :=
    Nat.le_refl _
  refine hholds.frame hsize (fun _ => rfl) (fun _ => rfl) (fun _ => rfl) ?_
  intro c _ hbehind hquiet hplain
  refine ⟨⟨?_, hplain⟩, rfl, rfl, rfl⟩
  intro s r' hs htarget
  rcases renders_attach.mp hs with ⟨wt, hs, heffect⟩ | ⟨_, rfl⟩
  · refine hquiet s r' ⟨wt, ?_, heffect⟩ htarget
    rwa [World.subscriber?_render]
  · rw [htarget] at hbehind
    exact Nat.lt_irrefl _ hbehind

end Attach

/-- On a path that can be followed the new watcher reads a value, and is registered on its way. -/
theorem exists_read_attach {t : Template (Code ν)} {key : String} {value : Data}
    (hvalue : w.getPath t.data key = .ok value) (r : Rendering) (shown : String) :
    ∃ value', (t.attach key r shown w).readPath (some ⟨w.subscribers.size⟩) t.data key =
      (.ok value', t.bindPath key r shown w) := by
  have hobjects : (t.attach key r shown w).objects = w.objects :=
    (w.onlyNodes_render r shown).objects
  have hpath := World.path_of_objects hobjects t.data key
  have hspec := (t.attach key r shown w).readPath_spec (some ⟨w.subscribers.size⟩) t.data key
  rw [hpath.1, hpath.2, (w.getPath_eq_ok_iff t.data key value).mp hvalue] at hspec
  rcases hread : (t.attach key r shown w).readPath (some ⟨w.subscribers.size⟩) t.data key
    with ⟨e | value', u⟩
  · rw [hread] at hspec
    exact absurd hspec.2 (by simp only [Except.toOption, reduceCtorEq, not_false_eq_true])
  · rw [hread] at hspec
    exact ⟨value', Prod.ext rfl hspec.1⟩

/-- So the watcher can be created. -/
theorem watch_render {t : Template (Code ν)} {key : String} {value : Data}
    (hvalue : w.getPath t.data key = .ok value) (r : Rendering) (shown : String) :
    ∃ s, World.watch (w.render r shown) t.data key (.render r) =
      (.ok s, t.bindPath key r shown w) := by
  have hsize : (w.render r shown).subscribers.size = w.subscribers.size :=
    congrArg Heap.size (w.onlyNodes_render r shown).subscribers
  have hadded : (w.render r shown).addSubscriber (.watcher ⟨t.data, key, .render r⟩) =
      (⟨w.subscribers.size⟩, t.attach key r shown w) := by
    rw [← hsize]
    rfl
  rcases exists_read_attach hvalue r shown with ⟨value', hread⟩
  refine ⟨⟨w.subscribers.size⟩, ?_⟩
  rw [World.watch, hadded]
  dsimp only
  rw [hread]
  rfl

/-- What is done for a value: it is shown and watched, if the path can be followed. -/
theorem bindValue_run_iff {t : Template (Code ν)} {description key : String} {r : Rendering}
    {result : Except CompileError Unit} :
    (t.bindValue description key r).run w = some (result, w') ↔
      (∃ e, w.getPath t.data key = .error e ∧ result = .error (.binding description e) ∧ w' = w) ∨
        ∃ value shown, w.getPath t.data key = .ok value ∧ w.display? value = some shown ∧
          result = .ok () ∧ w' = t.bindPath key r shown w := by
  rw [bindValue, get_bind_run]
  cases hvalue : w.getPath t.data key with
  | error e =>
      simp only [throw_run_eq_some_cases, reduceCtorEq, false_and, exists_false, or_false,
        Except.error.injEq, exists_eq_left']
  | ok value =>
      simp only [bind_run_eq_some_cases, step_run_eq_some_cases, Run.render_eq_some_iff,
        Run.apply_eq_some_iff, reduceCtorEq, false_and, exists_false, false_or, Except.ok.injEq,
        and_false]
      constructor
      · rintro ⟨_, _, ⟨_, ⟨shown, hshown, rfl⟩, _⟩, watched, v, ⟨_, hwatch, rfl⟩, hrest⟩
        rcases watch_render hvalue r shown with ⟨s, hs⟩
        rw [hs, Prod.mk.injEq] at hwatch
        rcases hwatch with ⟨rfl, rfl⟩
        rcases pure_run_eq_some_cases.mp hrest with ⟨rfl, rfl⟩
        exact ⟨value, shown, rfl, hshown, rfl, rfl⟩
      · rintro ⟨_, shown, rfl, hshown, rfl, rfl⟩
        rcases watch_render hvalue r shown with ⟨s, hs⟩
        exact ⟨(), _, ⟨(), ⟨shown, hshown, rfl⟩, trivial⟩, _, _, ⟨_, hs, rfl⟩,
          pure_run_eq_some_cases.mpr ⟨rfl, rfl⟩⟩

/-- Binding a value shows it, adds a watcher and lets the watcher read. -/
theorem bindValue_run {t : Template (Code ν)} {description key : String} {r : Rendering}
    {u : Unit} (hrun : (t.bindValue description key r).run w = some (.ok u, w')) :
    ∃ value shown value', w.getPath t.data key = .ok value ∧ w.display? value = some shown ∧
      (t.attach key r shown w).readPath (some ⟨w.subscribers.size⟩) t.data key =
        (.ok value', w') := by
  rcases bindValue_run_iff.mp hrun with ⟨_, _, herror, _⟩ | ⟨value, shown, hvalue, hshown, _, rfl⟩
  · exact absurd herror nofun
  · rcases exists_read_attach hvalue r shown with ⟨value', hread⟩
    exact ⟨value, shown, value', hvalue, hshown, hread⟩

section Read

variable {t : Template (Code ν)} {key shown : String} {r : Rendering} {value value' : Data}

/-- Once the new watcher has read its value everybody is up to date. -/
theorem kept_of_read (h : Kept (Display.growing ν τ t.markers) [] [] (t.held w))
    (hdata : t.data.index < w.objects.size) (hlt : r.target.index < w.nodes.size)
    (hfits : r.Fits (w.node r.target).kind) (hnot : ¬(w.node r.target).IsPlain t.markers)
    (hvalue : w.getPath t.data key = .ok value) (hshown : w.display? value = some shown)
    (hread : (t.attach key r shown w).readPath (some ⟨w.subscribers.size⟩) t.data key =
      (.ok value', w')) : Kept (Display.growing ν τ t.markers) [] [] (t.held w') := by
  have hkept : Kept (Display.growing ν τ t.markers) [⟨w.subscribers.size⟩] []
      (t.held (t.attach key r shown w)) := kept_attach h hdata hlt hfits hnot
  have hframe := (t.attach key r shown w).readPath_frame (some ⟨w.subscribers.size⟩) t.data key
  have hsame := (t.attach key r shown w).pathValue?_readPath (some ⟨w.subscribers.size⟩)
    t.data key
  rw [hread] at hframe hsame
  rcases hframe with ⟨hnodes, hsubscribers, hpins, _⟩
  -- Reading is the same whether the data is held or not.
  have hheld : (t.held (t.attach key r shown w)).readPath (some ⟨w.subscribers.size⟩) t.data key =
      (((t.held (t.attach key r shown w)).readPath (some ⟨w.subscribers.size⟩) t.data key).1,
        t.held w') := by
    refine Prod.ext rfl ?_
    dsimp only
    rw [held, World.readPath_pins, hread]
    exact congrArg (fun pins => { w' with pins := .object t.data :: pins }) hpins.symm
  have hread' := hkept.read (Display.ofView_growing t.markers) ⟨w.subscribers.size⟩ t.data key hheld
  have hpath : (t.held w').pathValue? t.data key = some value := by
    have hobjects : (t.attach key r shown w).objects = w.objects :=
      (w.onlyNodes_render r shown).objects
    rw [held, (w'.path_pins _ t.data key).1, hsame, (World.path_of_objects hobjects t.data key).1]
    exact (w.getPath_eq_ok_iff t.data key value).mp hvalue
  refine hread'.1.settle fun wt hs => ?_
  have hwt : wt = ⟨t.data, key, .render r⟩ := by
    have hs : w'.subscriber? ⟨w.subscribers.size⟩ = some (.watcher wt) := hs
    rw [World.subscriber?_of_subscribers hsubscribers] at hs
    rcases subscriber?_attach.mp hs with hold | ⟨_, hwt⟩
    · exact absurd (World.lt_of_subscriber? hold) (Nat.lt_irrefl _)
    · exact hwt
  rw [hwt]
  refine ⟨hread'.2.1, fun d hd plain hplain _ => ?_⟩
  have hdisplay : shown = plain.display := by
    rw [hpath, hplain] at hd
    injection hd with hd
    rw [hd] at hshown
    injection hshown with hshown
    exact hshown.symm
  have hview : (t.attach key r shown w).SameView (t.held w') := by
    refine ⟨hnodes, fun _ => ?_⟩
    rw [← World.subscriber?_of_subscribers hsubscribers]
    rfl
  have hholds : (t.attach key r shown w).Holds (Tree.PlainAll t.markers (r.forest shown))
      (Node.IsPlain t.markers) r shown := holds_attach h.sound hlt hfits
  rw [← hdisplay]
  exact hholds.of_sameView hview

/-- What binding a value does, whatever else there is. -/
theorem bound_bindValue {description : String} {u : Unit} (hlt : r.target.index < w.nodes.size)
    (hfits : r.Fits (w.node r.target).kind)
    (hrun : (t.bindValue description key r).run w = some (.ok u, w')) : t.Bound key r w w' := by
  rcases bindValue_run hrun with ⟨value, shown, value', hvalue, hshown, hread⟩
  have hframe := (t.attach key r shown w).readPath_frame (some ⟨w.subscribers.size⟩) t.data key
  have hunwritten :=
    (t.attach key r shown w).unwritten_readPath (some ⟨w.subscribers.size⟩) t.data key
  rw [hread] at hframe hunwritten
  rcases hframe with ⟨hnodes, hsubscribers, _, _⟩
  have hnode : ∀ n, w'.node n = (w.render r shown).node n := fun n => by
    rw [World.node, hnodes]
    rfl
  have hsize : w'.nodes.size = (w.render r shown).nodes.size := congrArg Heap.size hnodes
  have hobjects : (t.attach key r shown w).objects = w.objects :=
    (w.onlyNodes_render r shown).objects
  refine ⟨(World.Unwritten.of_objects hobjects).trans hunwritten,
    (redrawn_attach hlt hfits).of_nodes rfl hnodes, fun s subscriber => ?_, fun hr => ?_,
    value, shown, hvalue, hshown, ?_⟩
  · rw [World.subscriber?_of_subscribers hsubscribers]
    exact subscribers_attach
  · have hspans := (World.beneath_render hr hlt hfits shown).2
    rw [hnode, hsize]
    exact hspans.congr (Nat.le_of_eq hsize.symm) fun n _ _ => by rw [hnode]
  · refine (World.bears_render hlt hfits shown).frame (Nat.le_of_eq hsize.symm) ?_ ?_ ?_ ?_
    · exact fun _ => by rw [hnode]
    · exact fun _ => by rw [hnode]
    · exact fun _ => by rw [hnode]
    · rintro c ⟨hc, hleaf⟩ _
      rw [World.IsLeaf, hnode]
      exact ⟨⟨hc, hleaf⟩, rfl, rfl, rfl⟩

/-- What binding a value does. -/
theorem attached_bindValue {description : String} {u : Unit}
    (h : Kept (Display.growing ν τ t.markers) [] [] (t.held w))
    (hdata : t.data.index < w.objects.size) (hlt : r.target.index < w.nodes.size)
    (hfits : r.Fits (w.node r.target).kind) (hnot : ¬(w.node r.target).IsPlain t.markers)
    (hrun : (t.bindValue description key r).run w = some (.ok u, w')) :
    t.Attached key r w w' := by
  rcases bindValue_run hrun with ⟨value, shown, value', hvalue, hshown, hread⟩
  exact ⟨bound_bindValue hlt hfits hrun,
    kept_of_read h hdata hlt hfits hnot hvalue hshown hread⟩

end Read

end Template

end LiveTemplate
