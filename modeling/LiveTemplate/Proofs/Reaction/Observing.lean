import LiveTemplate.Proofs.Reaction.Running
import LiveTemplate.Proofs.Store.Writing
import LiveTemplate.Proofs.View.Frame

/-!
# Updates That Only Look

Notifying subscribers that write nothing comes to an end and changes no data.

Most of what an update does is beyond the data: it registers watchers, calls the
client and draws the view. If the client writes nothing, either, then the objects keep
their values through all of it. The one thing that an update can fail at by itself is
drawing a value without plain form. So the data that is drawn has to stand for
something plain, wherever it is; objects in a circle do not.

A run is quiet if it comes to an end like this. Quiet runs compose, and going through
the update one part after the other shows that each of them is quiet.

## Main definitions

* `World.Unwritten`: The objects have their values.
* `World.Staffed`: All subscribers are of some kind, and what they draw can be drawn.
* `World.Mirrors`: An object stands for a plain value, as a tree.
* `Host.Observes`: Subscribers of some kind write nothing.
* `Run.Quiet`: A run that comes to an end and writes nothing.

## Theorems

* `quiet_notify`: Notifying subscribers that write nothing.
-/

namespace LiveTemplate

variable {κ σ : Type}

/-- What the subscriber calls, if it does. -/
def Subscriber.callback? : Subscriber κ → Option κ
  | watcher ⟨_, _, .call c⟩ => some c
  | watcher ⟨_, _, .render _⟩ => none
  | probe c => some c

namespace World

variable {w w' : World κ σ}

/-- Nothing has been written: there may be more objects, and those that were there have their
    values. -/
structure Unwritten (w w' : World κ σ) : Prop where
  /-- There may be more objects. -/
  grown : w.objects.size ≤ w'.objects.size
  /-- Those that were there have their values. -/
  values : ∀ o : ObjectId, o.index < w.objects.size → w'.values o = w.values o

namespace Unwritten

theorem refl (w : World κ σ) : w.Unwritten w :=
  ⟨Nat.le_refl _, fun _ _ => rfl⟩

theorem trans {w₁ w₂ w₃ : World κ σ} (h₁ : w₁.Unwritten w₂) (h₂ : w₂.Unwritten w₃) :
    w₁.Unwritten w₃ := by
  refine ⟨Nat.le_trans h₁.grown h₂.grown, fun o ho => ?_⟩
  rw [h₂.values o (Nat.lt_of_lt_of_le ho h₁.grown), h₁.values o ho]

theorem of_objects (h : w'.objects = w.objects) : w.Unwritten w' := by
  refine ⟨Nat.le_of_eq (congrArg Heap.size h).symm, fun o _ => ?_⟩
  exact values_of_object (by rw [object, h, ← object])

theorem of_extends (h : w.Extends w') : w.Unwritten w' :=
  ⟨h.grown, fun o ho => values_of_object (h.kept o ho)⟩

end Unwritten

/-- The same values have the same plain forms as members. -/
theorem members?_congr {form? form?' : Data → Option Json} (hform : ∀ d, form?' d = form? d)
    {ps ps' : Properties}
    (h : Table.mapValues Property.value ps' = Table.mapValues Property.value ps) :
    members? form?' ps' = members? form? ps := by
  induction ps generalizing ps' with
  | nil =>
      rw [List.map_eq_nil_iff.mp h]
      rfl
  | cons entry ps ih =>
      cases ps' with
      | nil => exact absurd h (by simp only [Table.mapValues, List.map_nil, List.map_cons,
          reduceCtorEq, not_false_eq_true])
      | cons entry' ps' =>
          simp only [Table.mapValues, List.map_cons, List.cons.injEq, Prod.mk.injEq] at h
          rw [members?, members?, hform, h.1.1, h.1.2, ih h.2]

/-- Where nothing has been written and no object has been added, values look the same. -/
theorem Unwritten.display?_eq (h : w.Unwritten w') (hsize : w'.objects.size = w.objects.size)
    (d : Data) : w'.display? d = w.display? d := by
  have hvalues : ∀ o, w'.values o = w.values o := by
    intro o
    by_cases ho : o.index < w.objects.size
    · exact h.values o ho
    · have hgone : ∀ {v : World κ σ}, v.objects.size ≤ o.index → v.values o = [] := by
        intro v hv
        rw [World.values, World.object, Heap.get?_eq_none hv]
        rfl
      rw [hgone (Nat.le_of_not_lt ho), hgone (hsize ▸ Nat.le_of_not_lt ho)]
  have hsnapshot : ∀ depth d, w'.snapshotWithin? depth d = w.snapshotWithin? depth d := by
    intro depth
    induction depth with
    | zero =>
        intro d
        cases d with
        | plain value => rfl
        | object o => rfl
    | succ depth ih =>
        intro d
        cases d with
        | plain value => rfl
        | object o =>
            rw [snapshotWithin?, snapshotWithin?, members?_congr ih (hvalues o)]
  rw [display?, display?, snapshot?, snapshot?, hsize, hsnapshot]

theorem Stands.of_unwritten {d : Data} {j : Json} {ids : List ObjectId} (h : w.Stands d j ids)
    (hunwritten : w.Unwritten w') : w'.Stands d j ids :=
  Denotes.congr h hunwritten.grown fun o ho => hunwritten.values o (Denotes.lt_size h o ho)

/-- Every subscriber is of this kind, and the data that is drawn stands for something. -/
structure Staffed (w : World κ σ) (kind : Subscriber κ → Prop) : Prop where
  /-- Every subscriber is of the kind. -/
  kinds : ∀ s subscriber, w.subscriber? s = some subscriber → kind subscriber
  /-- The object from which a watcher draws stands for something. -/
  grounded : ∀ s o path r, w.subscriber? s = some (.watcher ⟨o, path, .render r⟩) →
    ∃ j ids, w.Stands (.object o) j ids

theorem Staffed.of_unwritten {kind : Subscriber κ → Prop} (h : w.Staffed kind)
    (hunwritten : w.Unwritten w') (hsame : w'.subscribers = w.subscribers) :
    w'.Staffed kind := by
  have hsubscriber := fun s => subscriber?_of_subscribers (s := s) hsame
  refine ⟨fun s subscriber hs => ?_, fun s o path r hs => ?_⟩
  · rw [hsubscriber] at hs
    exact h.kinds s subscriber hs
  · rw [hsubscriber] at hs
    rcases h.grounded s o path r hs with ⟨j, ids, hstands⟩
    exact ⟨j, ids, hstands.of_unwritten hunwritten⟩

theorem Staffed.of_objects {kind : Subscriber κ → Prop} (h : w.Staffed kind)
    (hobjects : w'.objects = w.objects) (hsame : w'.subscribers = w.subscribers) :
    w'.Staffed kind :=
  h.of_unwritten (.of_objects hobjects) hsame

section Parts

variable [Client σ]

/-- Registering a reader writes nothing. -/
theorem unwritten_depend (w : World κ σ) (reader : Option SubscriberId) (o : ObjectId)
    (key : String) : w.Unwritten (w.depend reader o key) := by
  rcases w.depend_eq reader o key with heq | ⟨s, heq⟩
  · rw [heq]
    exact .refl w
  · rw [heq]
    refine ⟨Nat.le_of_eq (size_objects_updateProperty w o key _).symm, fun a _ => ?_⟩
    have hvalue : ∀ p : Property, ({ p with registry := p.registry.add s } : Property).value =
        p.value := fun _ => rfl
    exact w.values_updateProperty_of_same o key hvalue a

theorem unwritten_dependAll (reader : Option SubscriberId) (fields : List (ObjectId × String))
    (w : World κ σ) : w.Unwritten (w.dependAll reader fields) := by
  induction fields generalizing w with
  | nil => exact .refl w
  | cons field fields ih =>
      exact (unwritten_depend w reader field.1 field.2).trans (ih (w.depend reader field.1 field.2))

/-- A read writes nothing. -/
theorem unwritten_readPath (w : World κ σ) (reader : Option SubscriberId) (root : ObjectId)
    (path : String) : w.Unwritten (w.readPath reader root path).2 := by
  rw [(w.readPath_spec reader root path).1]
  exact unwritten_dependAll reader _ w

/-- Creating a watcher is adding a subscriber that reads its path. -/
theorem watch_parts (w : World κ σ) (root : ObjectId) (path : String) (effect : Effect κ) :
    let added := (w.addSubscriber (.watcher ⟨root, path, effect⟩)).2
    let read := (added.readPath (some ⟨w.subscribers.size⟩) root path).2
    (w.watch root path effect).2 = read ∨
      (w.watch root path effect).2 = read.notice (.watcherCreated path) := by
  have hid : (w.addSubscriber (.watcher ⟨root, path, effect⟩)).1 = ⟨w.subscribers.size⟩ := rfl
  rw [World.watch]
  generalize w.addSubscriber (.watcher ⟨root, path, effect⟩) = added at hid
  rcases added with ⟨s, v⟩
  subst hid
  dsimp only
  generalize v.readPath (some ⟨w.subscribers.size⟩) root path = result
  rcases result with ⟨e | d, u⟩
  · exact Or.inl rfl
  · exact Or.inr rfl

/-- A new watcher that draws only what stands for something writes nothing. -/
theorem Staffed.watch {kind : Subscriber κ → Prop} (h : w.Staffed kind) {root : ObjectId}
    {path : String} {effect : Effect κ} (hkind : kind (.watcher ⟨root, path, effect⟩))
    (hgrounded : ∀ r, effect = .render r → ∃ j ids, w.Stands (.object root) j ids) :
    w.Unwritten (w.watch root path effect).2 ∧ (w.watch root path effect).2.Staffed kind := by
  have hadded := w.subscriber?_addSubscriber (.watcher ⟨root, path, effect⟩)
  have hobjects : (w.addSubscriber (.watcher ⟨root, path, effect⟩)).2.objects = w.objects := rfl
  have hparts := w.watch_parts root path effect
  generalize (w.addSubscriber (.watcher ⟨root, path, effect⟩)).2 = v at hadded hobjects hparts
  have hv' : w.Unwritten v := .of_objects hobjects
  have hstaffed : v.Staffed kind := by
    refine ⟨fun t subscriber ht => ?_, fun t o p r ht => ?_⟩
    · rw [hadded] at ht
      split at ht
      · injection ht with ht
        exact ht ▸ hkind
      · exact h.kinds t subscriber ht
    · rw [hadded] at ht
      split at ht
      · injection ht with ht
        injection ht with ht
        injection ht with hroot _ heffect
        rcases hgrounded r heffect with ⟨j, ids, hstands⟩
        exact ⟨j, ids, hroot ▸ hstands.of_unwritten hv'⟩
      · rcases h.grounded t o p r ht with ⟨j, ids, hstands⟩
        exact ⟨j, ids, hstands.of_unwritten hv'⟩
  have hread := v.unwritten_readPath (some ⟨w.subscribers.size⟩) root path
  have hafter := hstaffed.of_unwritten hread (v.readPath_frame _ root path).2.1
  rcases hparts with heq | heq
  · rw [heq]
    exact ⟨hv'.trans hread, hafter⟩
  · rw [heq]
    exact ⟨(hv'.trans hread).trans (.of_objects rfl), hafter.of_objects rfl rfl⟩

/-- The object stands for the plain value, as a tree, and the subscribers are of some kind. -/
structure Mirrors (w : World κ σ) (kind : Subscriber κ → Prop) (root : ObjectId) (j : Json) :
    Prop where
  /-- The object stands for the value. -/
  tree : ∃ ids, w.Stands (.object root) j ids ∧ ids.Nodup
  /-- The subscribers are of the kind. -/
  staffed : w.Staffed kind

/-- Showing a text changes nothing but nodes and what the client takes note of. -/
theorem rest_render (w : World κ σ) (r : Rendering) (shown : String) :
    (w.render r shown).objects = w.objects ∧ (w.render r shown).subscribers = w.subscribers ∧
      (w.render r shown).pins = w.pins := by
  rcases w.exists_onlyNodes_render r shown with ⟨ds, honly⟩
  rcases w.noticeAll_frame ds with ⟨hobjects, hsubscribers, hpins⟩
  exact ⟨honly.objects.trans hobjects, honly.subscribers.trans hsubscribers,
    honly.pins.trans hpins⟩

namespace Mirrors

variable {kind : Subscriber κ → Prop} {root : ObjectId} {j : Json}

omit [Client σ] in
theorem of_unwritten (h : w.Mirrors kind root j) (hunwritten : w.Unwritten w')
    (hstaffed : w'.Staffed kind) : w'.Mirrors kind root j := by
  rcases h.tree with ⟨ids, hstands, hnodup⟩
  exact ⟨⟨ids, hstands.of_unwritten hunwritten, hnodup⟩, hstaffed⟩

omit [Client σ] in
/-- A way from the object leads to something exactly if there is a value on that way, and then
    to what stands for it. -/
theorem follow_at? (h : w.Mirrors kind root j) (segments : List String) :
    (w.follow segments (.object root) = none ∧ j.at? segments = none) ∨
      ∃ d v within, w.follow segments (.object root) = some d ∧ j.at? segments = some v ∧
        w.Stands d v within ∧ within.Nodup := by
  rcases h.tree with ⟨ids, hstands, hnodup⟩
  rcases hstands.follow_at? segments with hnone | ⟨d, v, within, hd, hv, hwithin, hsub⟩
  · exact Or.inl hnone
  · exact Or.inr ⟨d, v, within, hd, hv, hwithin, hnodup.sublist hsub⟩

end Mirrors

end Parts

end World

/-- Subscribers of this kind write nothing when they call the client, and each call comes to
    an end. -/
def Host.Observes (host : Host κ σ) (kind : Subscriber κ → Prop) : Prop :=
  ∀ subscriber c, kind subscriber → subscriber.callback? = some c →
    ∀ (signal : Signal) (w : World κ σ), w.Staffed kind →
      ∃ flags w', host.call c signal w = some (flags, w') ∧ w.Unwritten w' ∧ w'.Staffed kind

namespace Run

variable {α β : Type} {kind : Subscriber κ → Prop} {w : World κ σ}

/-- The run comes to an end, and nothing has been written. -/
def Quiet (run : Run κ σ α) (kind : Subscriber κ → Prop) (w : World κ σ) : Prop :=
  ∃ a w', run w = some (a, w') ∧ w.Unwritten w' ∧ w'.Staffed kind

theorem Quiet.bind {run : Run κ σ α} {next : α → Run κ σ β} (h : run.Quiet kind w)
    (hnext : ∀ a w', run w = some (a, w') → w.Unwritten w' → w'.Staffed kind →
      (next a).Quiet kind w') : (run >>= next).Quiet kind w := by
  rcases h with ⟨a, v, hrun, hunwritten, hstaffed⟩
  rcases hnext a v hrun hunwritten hstaffed with ⟨b, w', hrest, hunwritten', hstaffed'⟩
  exact ⟨b, w', by rw [bind_of_eq_some hrun, hrest], hunwritten.trans hunwritten', hstaffed'⟩

theorem quiet_pure (a : α) (h : w.Staffed kind) : (pure a : Run κ σ α).Quiet kind w :=
  ⟨a, w, rfl, .refl w, h⟩

/-- Looking at the world. -/
theorem Quiet.look {next : World κ σ → Run κ σ β} (h : (next w).Quiet kind w) :
    (get >>= next).Quiet kind w := by
  rcases h with ⟨b, w', hrest, hunwritten, hstaffed⟩
  exact ⟨b, w', by rw [bind_of_eq_some (get_eq w), hrest], hunwritten, hstaffed⟩

theorem quiet_change {f : World κ σ → World κ σ} (hunwritten : w.Unwritten (f w))
    (hstaffed : (f w).Staffed kind) : (change f).Quiet kind w :=
  ⟨(), f w, rfl, hunwritten, hstaffed⟩

theorem quiet_apply {f : World κ σ → α × World κ σ} (hunwritten : w.Unwritten (f w).2)
    (hstaffed : (f w).2.Staffed kind) : (apply f).Quiet kind w :=
  ⟨(f w).1, (f w).2, rfl, hunwritten, hstaffed⟩

theorem quiet_notice [Client σ] (d : Diagnostic) (h : w.Staffed kind) :
    (notice d : Run κ σ Unit).Quiet kind w :=
  quiet_change (.of_objects rfl) (h.of_objects rfl rfl)

/-- With things held on to. -/
theorem Quiet.pinned {run : Run κ σ α} {handles : List Handle}
    (h : run.Quiet kind { w with pins := handles ++ w.pins }) :
    (pinned handles run).Quiet kind w := by
  rcases h with ⟨a, v, hrun, hunwritten, hstaffed⟩
  have hbefore : w.Unwritten { w with pins := handles ++ w.pins } := .of_objects rfl
  have hafter : v.Unwritten { v with pins := w.pins } := .of_objects rfl
  exact ⟨a, { v with pins := w.pins }, pinned_eq_some_iff.mpr ⟨v, hrun, rfl⟩,
    (hbefore.trans hunwritten).trans hafter, hstaffed.of_objects rfl rfl⟩

end Run

namespace Host

variable [Client σ] {host : Host κ σ} {kind : Subscriber κ → Prop} {w : World κ σ}

/-- Passing on a value, or drawing it if it stands for a plain value. -/
theorem quiet_perform (hhost : host.Observes kind) (hstaffed : w.Staffed kind)
    {watcher : Watcher κ} (hwatcher : kind (.watcher watcher)) {value : Data}
    (hshown : ∀ r, watcher.effect = .render r → ∃ v, w.snapshot? value = some v) :
    (host.perform watcher.effect value).Quiet kind w := by
  rcases watcher with ⟨root, path, effect⟩
  cases effect with
  | render r =>
      rcases hshown r rfl with ⟨v, hv⟩
      have hdisplay : Run.display value w = some (v.display, w) := by
        rw [Run.display, Run.bind_of_eq_some (Run.get_eq w), Run.ofOption, World.display?, hv]
        rfl
      unfold perform Run.render
      have hrest := w.rest_render r v.display
      refine Run.Quiet.bind ⟨_, _, hdisplay, .refl w, hstaffed⟩ fun shown w' hrun _ _ => ?_
      rw [hdisplay, Option.some.injEq, Prod.mk.injEq] at hrun
      rcases hrun with ⟨rfl, rfl⟩
      exact Run.quiet_change (.of_objects hrest.1) (hstaffed.of_objects hrest.1 hrest.2.1)
  | call c =>
      rcases hhost (.watcher ⟨root, path, .call c⟩) c hwatcher rfl (.changed value) w hstaffed with
        ⟨flags, w', hcall, hunwritten, hstaffed'⟩
      unfold perform
      exact Run.Quiet.bind ⟨flags, w', hcall, hunwritten, hstaffed'⟩
        fun _ v _ _ hv => Run.quiet_pure () hv

/-- Updating a watcher. -/
theorem quiet_refreshWatcher (hhost : host.Observes kind) (h : w.Staffed kind)
    {s : SubscriberId} {watcher : Watcher κ} (hs : w.subscriber? s = some (.watcher watcher)) :
    (host.refreshWatcher s watcher).Quiet kind w := by
  have hgrounded : ∀ r, watcher.effect = .render r →
      ∃ j ids, w.Stands (.object watcher.root) j ids := by
    intro r hr
    rcases watcher with ⟨o, path, effect⟩
    cases hr
    exact h.grounded s o path r hs
  unfold refreshWatcher
  refine Run.Quiet.look ?_
  by_cases halive : w.alive (.object watcher.root) = true
  · rw [if_pos halive]
    refine Run.Quiet.pinned ?_
    have hpinned : w.Unwritten { w with pins := [.object watcher.root] ++ w.pins } :=
      .of_objects rfl
    have hstaffed : World.Staffed { w with pins := [.object watcher.root] ++ w.pins } kind :=
      h.of_objects rfl rfl
    generalize ({ w with pins := [.object watcher.root] ++ w.pins } : World κ σ) = v
      at hpinned hstaffed
    have hread := v.unwritten_readPath (some s) watcher.root watcher.path
    have hframe := v.readPath_frame (some s) watcher.root watcher.path
    have hfound := (v.readPath_spec (some s) watcher.root watcher.path).2
    have hafter := hstaffed.of_unwritten hread hframe.2.1
    refine Run.Quiet.bind (Run.quiet_apply hread hafter) fun result v' hrun _ _ => ?_
    rw [Run.apply, Option.some.injEq] at hrun
    rw [hrun] at hread hafter hfound
    cases result with
    | error e => exact Run.quiet_notice _ hafter
    | ok value =>
        refine Run.Quiet.bind (Run.quiet_notice _ hafter) fun _ u hnotice hunwritten hu => ?_
        refine Run.Quiet.pinned ?_
        have hheld : World.Staffed { u with pins := value.owned ++ u.pins } kind :=
          hu.of_objects rfl rfl
        refine quiet_perform hhost hheld (h.kinds s _ hs) fun r hr => ?_
        -- What is drawn is found on a way from the object, so it stands for a plain value.
        rcases hgrounded r hr with ⟨j, ids, hstands⟩
        have hvalue : v.follow (segmentsOfPath watcher.path) (.object watcher.root) =
            some value := hfound.symm
        rcases (hstands.of_unwritten hpinned).follow_at? (segmentsOfPath watcher.path) with
          ⟨hnone, _⟩ | ⟨d, j', within, hd, _, hwithin, _⟩
        · rw [hnone] at hvalue
          exact absurd hvalue.symm (Option.some_ne_none value)
        · rw [hd, Option.some.injEq] at hvalue
          subst hvalue
          have hunwritten : v.Unwritten { u with pins := d.owned ++ u.pins } :=
            (hread.trans hunwritten).trans (.of_objects rfl)
          exact ⟨j', (hwithin.of_unwritten hunwritten).snapshot?_eq⟩
  · rw [if_neg halive]
    exact Run.quiet_pure () h

/-- Updating a subscriber. -/
theorem quiet_refresh (hhost : host.Observes kind) (h : w.Staffed kind) (s : SubscriberId) :
    (host.refresh s).Quiet kind w := by
  unfold refresh
  refine Run.Quiet.look ?_
  cases hs : w.subscriber? s with
  | none => exact Run.quiet_pure () h
  | some subscriber =>
      cases subscriber with
      | watcher watcher => exact quiet_refreshWatcher hhost h hs
      | probe c =>
          rcases hhost (.probe c) c (h.kinds s _ hs) rfl .updated w h with
            ⟨flags, w', hcall, hunwritten, hstaffed⟩
          exact Run.Quiet.bind ⟨flags, w', hcall, hunwritten, hstaffed⟩
            fun _ v _ _ hv => Run.quiet_pure () hv

/-- Updating several subscribers. -/
theorem quiet_refreshAll (hhost : host.Observes kind) (h : w.Staffed kind)
    (subscribers : List SubscriberId) : (host.refreshAll subscribers).Quiet kind w := by
  induction subscribers generalizing w with
  | nil => exact Run.quiet_pure () h
  | cons s rest ih =>
      have hpinned : World.Staffed { w with pins := (s :: rest).map .subscriber ++ w.pins } kind :=
        h.of_objects rfl rfl
      refine Run.Quiet.bind (quiet_refresh hhost hpinned s).pinned ?_
      exact fun _ w' _ _ hstaffed => ih hstaffed

/-- Notifying subscribers that write nothing. -/
theorem quiet_notify (hhost : host.Observes kind) (h : w.Staffed kind) (registry : Registry) :
    (host.notify registry).Quiet kind w := by
  unfold notify
  refine Run.Quiet.bind (Run.quiet_notice _ h) fun _ w' _ _ hstaffed => ?_
  exact quiet_refreshAll hhost hstaffed registry.subscribers

end Host

end LiveTemplate
