import LiveTemplate.Proofs.Reaction.Attending
import LiveTemplate.Proofs.Reaction.Outcomes
import LiveTemplate.Proofs.Reaction.UpToDate

/-!
# Firing

Watchers fire exactly when they must.

A client that counts the calls of its watchers' callbacks can say when a watcher has
fired. If no subscriber writes, then a write to a path calls a callback only on the way
through the registry of the field that is written. Each watcher registered there reads
its path anew and calls its callback once, if the path still leads somewhere. Those
are the watchers whose path begins with the path that is written, and nobody else.

What a subscriber may do instead of writing is a list of steps: looking at the data
with or without being registered, observing other data, creating watchers and probes,
and changing the view or the client's own state. Notifying a registry by hand is not
among them, because that says that something has been written.

## Main definitions

* `World.Glance`: A step that writes nothing.
* `World.Passes`: What the world is after such steps.
* `Host.Logs`: The client counts the calls, and no subscriber writes.
* `World.answer?`: The callback that updating a subscriber calls.
* `Session`: Writes to an object, and anything that writes nothing in between.

## Theorems

* `refresh_passes`: Updating a subscriber calls its callback once.
* `count_refreshAll`: A callback is called once for its watcher.
* `count_of_setPath`: Watchers fire exactly when they must.
-/

namespace LiveTemplate

variable {κ σ : Type} {calls : σ → List κ} {kind : Subscriber κ → Prop}

namespace World

/-- A step that writes nothing. It leaves the count of the calls alone. -/
inductive Glance [Client σ] (calls : σ → List κ) (kind : Subscriber κ → Prop) :
    World κ σ → World κ σ → Prop
  /-- The client remembers something, or holds on to something. -/
  | remember {w : World κ σ} {x : σ} (h : calls x = calls w.client) :
      Glance calls kind w { w with client := x }
  /-- Data is observed. -/
  | observe (w : World κ σ) (value : Json) : Glance calls kind w (observeValue value w).2
  /-- A watcher is created. -/
  | watch (w : World κ σ) {o : ObjectId} {path : String} {effect : Effect κ}
      (h : kind (.watcher ⟨o, path, effect⟩)) : Glance calls kind w (w.watch o path effect).2
  /-- A probe is created. -/
  | subscribe (w : World κ σ) {c : κ} (h : kind (.probe c)) :
      Glance calls kind w (w.addSubscriber (.probe c)).2
  /-- A probe reads a path. -/
  | read {w : World κ σ} {s : SubscriberId} {c : κ} (h : w.subscriber? s = some (.probe c))
      (o : ObjectId) (path : String) : Glance calls kind w (w.readPath (some s) o path).2
  /-- The view changes. -/
  | draw (w : World κ σ) (nodes : Heap (Node κ)) : Glance calls kind w { w with nodes := nodes }
  /-- Registries that belong to no property change. -/
  | register (w : World κ σ) (registries : Heap Registry) :
      Glance calls kind w { w with registries := registries }

/-- Every subscriber is of this kind. -/
def OfKind (w : World κ σ) (kind : Subscriber κ → Prop) : Prop :=
  ∀ s subscriber, w.subscriber? s = some subscriber → kind subscriber

theorem OfKind.of_subscribers {w w' : World κ σ} (h : w.OfKind kind)
    (hsame : w'.subscribers = w.subscribers) : w'.OfKind kind := by
  intro s subscriber hs
  rw [subscriber?_of_subscribers hsame] at hs
  exact h s subscriber hs

theorem OfKind.addSubscriber {w : World κ σ} (h : w.OfKind kind) {subscriber : Subscriber κ}
    (hkind : kind subscriber) : (w.addSubscriber subscriber).2.OfKind kind := by
  intro s other hs
  rw [subscriber?_addSubscriber] at hs
  split at hs
  · injection hs with hs
    exact hs ▸ hkind
  · exact h s other hs

/-- Nothing has been written, and whoever attended to an object does so. -/
structure Passes (kind : Subscriber κ → Prop) (w w' : World κ σ) : Prop where
  /-- Nothing has been written. -/
  unwritten : w.Unwritten w'
  /-- The subscribers that were there are there. -/
  retains : w.Retains w'
  /-- What is held on to is held on to. -/
  pins : w'.pins = w.pins
  /-- New subscribers are of the kind, too. -/
  kinds : w.OfKind kind → w'.OfKind kind
  /-- Nobody falls behind. -/
  attends : ∀ root late, w.Attends root late → w'.Attends root late

namespace Passes

variable {w w' : World κ σ}

theorem refl (w : World κ σ) : w.Passes kind w :=
  ⟨.refl w, fun _ _ hs => hs, rfl, id, fun _ _ h => h⟩

theorem trans {w₁ w₂ w₃ : World κ σ} (h₁ : w₁.Passes kind w₂) (h₂ : w₂.Passes kind w₃) :
    w₁.Passes kind w₃ :=
  ⟨h₁.unwritten.trans h₂.unwritten, h₁.retains.trans h₂.retains, h₂.pins.trans h₁.pins,
    fun h => h₂.kinds (h₁.kinds h),
    fun root late h => h₂.attends root late (h₁.attends root late h)⟩

/-- What is beside the data and the subscribers may change. -/
theorem of_objects (hobjects : w'.objects = w.objects) (hsame : w'.subscribers = w.subscribers)
    (hpins : w'.pins = w.pins) : w.Passes kind w' := by
  refine ⟨.of_objects hobjects, .of_subscribers hsame, hpins, ?_, ?_⟩
  · exact fun h => h.of_subscribers hsame
  · exact fun root late h => h.of_objects hobjects hsame

/-- What is held on to meanwhile does not matter. -/
theorem unpin {pins : List Handle} {v : World κ σ}
    (h : Passes kind { w with pins := pins } v) : w.Passes kind { v with pins := w.pins } := by
  have hbefore : w.Unwritten { w with pins := pins } := .of_objects rfl
  have hafter : v.Unwritten { v with pins := w.pins } := .of_objects rfl
  exact ⟨(hbefore.trans h.unwritten).trans hafter, h.retains, rfl, h.kinds,
    fun root late hw => (h.attends root late (hw.of_objects rfl rfl)).of_objects rfl rfl⟩

/-- The path leads where it led. -/
theorem pathValue? (h : w.Passes kind w') {root : ObjectId} {late : List SubscriberId}
    (hattends : w.Attends root late) (path : String) :
    w'.pathValue? root path = w.pathValue? root path := by
  rcases hattends.tree with ⟨j, ids, hstands, _⟩
  exact (hstands.way_of_unwritten h.unwritten (segmentsOfPath path)).1

end Passes

variable [Client σ] {w w' : World κ σ}

theorem calls_dependAll (hnotice : ∀ d x, calls (Client.notice d x) = calls x)
    (reader : Option SubscriberId) (fields : List (ObjectId × String)) (w : World κ σ) :
    calls (w.dependAll reader fields).client = calls w.client := by
  induction fields generalizing w with
  | nil => rfl
  | cons field fields ih =>
      rw [dependAll, List.foldl_cons, ← dependAll, ih]
      rcases w.depend_eq reader field.1 field.2 with heq | ⟨s, heq⟩
      · rw [heq]
      · rw [heq]
        exact hnotice _ _

theorem calls_readPath (hnotice : ∀ d x, calls (Client.notice d x) = calls x) (w : World κ σ)
    (reader : Option SubscriberId) (o : ObjectId) (path : String) :
    calls (w.readPath reader o path).2.client = calls w.client := by
  rw [(w.readPath_spec reader o path).1]
  exact calls_dependAll hnotice reader _ w

theorem calls_noticeAll (hnotice : ∀ d x, calls (Client.notice d x) = calls x)
    (ds : List Diagnostic) (w : World κ σ) :
    calls (w.noticeAll ds).client = calls w.client := by
  induction ds generalizing w with
  | nil => rfl
  | cons d ds ih => exact (ih (w.notice d)).trans (hnotice d w.client)

/-- A read by somebody who may read. -/
theorem passes_readPath (w : World κ σ) (s : SubscriberId) (o : ObjectId) (path : String)
    (hread : ∀ root late, w.Attends root late →
      (w.readPath (some s) o path).2.Attends root late) :
    w.Passes kind (w.readPath (some s) o path).2 := by
  have hframe := w.readPath_frame (some s) o path
  refine ⟨w.unwritten_readPath (some s) o path, .of_subscribers hframe.2.1, hframe.2.2.1, ?_, hread⟩
  exact fun h => h.of_subscribers hframe.2.1

/-- Creating a watcher writes nothing and calls nobody. -/
theorem passes_watch (hnotice : ∀ d x, calls (Client.notice d x) = calls x) (w : World κ σ)
    {o : ObjectId} {path : String} {effect : Effect κ} (hkind : kind (.watcher ⟨o, path, effect⟩)) :
    w.Passes kind (w.watch o path effect).2 ∧
      calls (w.watch o path effect).2.client = calls w.client := by
  have hattends : ∀ root late, w.Attends root late →
      (w.watch o path effect).2.Attends root late := fun root late h => h.watch o path effect
  have hadded : w.Unwritten (w.addSubscriber (.watcher ⟨o, path, effect⟩)).2 := .of_objects rfl
  have hretains := w.retains_addSubscriber (.watcher ⟨o, path, effect⟩)
  have hkinds : w.OfKind kind → (w.addSubscriber (.watcher ⟨o, path, effect⟩)).2.OfKind kind :=
    fun h => h.addSubscriber hkind
  have hpins : (w.addSubscriber (.watcher ⟨o, path, effect⟩)).2.pins = w.pins := rfl
  have hclient : (w.addSubscriber (.watcher ⟨o, path, effect⟩)).2.client = w.client := rfl
  have hparts := w.watch_parts o path effect
  generalize (w.addSubscriber (.watcher ⟨o, path, effect⟩)).2 = v
    at hadded hretains hkinds hpins hclient hparts
  have hread := v.unwritten_readPath (some ⟨w.subscribers.size⟩) o path
  have hframe := v.readPath_frame (some ⟨w.subscribers.size⟩) o path
  have hcalls := calls_readPath hnotice v (some ⟨w.subscribers.size⟩) o path
  rw [hclient] at hcalls
  have hunwritten := hadded.trans hread
  have hkept : w.Retains (v.readPath (some ⟨w.subscribers.size⟩) o path).2 :=
    hretains.trans (.of_subscribers hframe.2.1)
  have hheld := hframe.2.2.1.trans hpins
  have hsame : w.OfKind kind →
      (v.readPath (some ⟨w.subscribers.size⟩) o path).2.OfKind kind :=
    fun h => (hkinds h).of_subscribers hframe.2.1
  rcases hparts with heq | heq
  · rw [heq] at hattends ⊢
    exact ⟨⟨hunwritten, hkept, hheld, hsame, hattends⟩, hcalls⟩
  · rw [heq] at hattends ⊢
    exact ⟨⟨hunwritten.trans (.of_objects rfl), hkept, hheld, hsame, hattends⟩,
      (hnotice _ _).trans hcalls⟩

/-- A step that writes nothing. -/
theorem Glance.passes (hnotice : ∀ d x, calls (Client.notice d x) = calls x)
    (h : Glance calls kind w w') : w.Passes kind w' ∧ calls w'.client = calls w.client := by
  cases h with
  | remember hcalls => exact ⟨.of_objects rfl rfl rfl, hcalls⟩
  | observe value =>
      have hextends := (w.extends_observeValue value).1
      refine ⟨⟨.of_extends hextends, .of_subscribers hextends.subscribers, hextends.pins, ?_, ?_⟩,
        by rw [hextends.client]⟩
      · exact fun h => h.of_subscribers hextends.subscribers
      · exact fun root late h => h.grown hextends.grown hextends.kept hextends.subscribers
  | watch hkind => exact passes_watch hnotice w hkind
  | subscribe hkind =>
      refine ⟨⟨.of_objects rfl, w.retains_addSubscriber _, rfl, fun h => h.addSubscriber hkind, ?_⟩,
        rfl⟩
      intro root late h
      refine (h.addSubscriber _).settle fun path effect hs => ?_
      rw [subscriber?_addSubscriber, if_pos rfl] at hs
      exact nomatch hs
  | read hs o path =>
      exact ⟨w.passes_readPath _ o path fun root late h => h.readPath_probe hs o path,
        calls_readPath hnotice w _ o path⟩
  | draw nodes => exact ⟨.of_objects rfl rfl rfl, rfl⟩
  | register registries => exact ⟨.of_objects rfl rfl rfl, rfl⟩

/-- Several steps. -/
theorem passes_of_glances (hnotice : ∀ d x, calls (Client.notice d x) = calls x)
    (h : Relation.ReflTransGen (Glance calls kind) w w') :
    w.Passes kind w' ∧ calls w'.client = calls w.client := by
  induction h with
  | refl => exact ⟨.refl w, rfl⟩
  | tail _ hstep ih =>
      have hlast := hstep.passes hnotice
      exact ⟨ih.1.trans hlast.1, hlast.2.trans ih.2⟩

/-- Showing a text writes nothing and calls nobody. -/
theorem passes_render (hnotice : ∀ d x, calls (Client.notice d x) = calls x) (w : World κ σ)
    (r : Rendering) (shown : String) :
    w.Passes kind (w.render r shown) ∧ calls (w.render r shown).client = calls w.client := by
  rcases w.rest_render r shown with ⟨hobjects, hsubscribers, hpins⟩
  rcases w.exists_onlyNodes_render r shown with ⟨ds, honly⟩
  exact ⟨.of_objects hobjects hsubscribers hpins,
    (congrArg calls honly.client).trans (calls_noticeAll hnotice ds w)⟩

/-- The callback that updating a subscriber calls: the one of a watcher whose object is there and
    whose path leads somewhere. -/
def answer? (w : World κ σ) (s : SubscriberId) : Option κ :=
  match w.subscriber? s with
  | some (.watcher ⟨o, path, .call c⟩) =>
    if w.alive (.object o) = true ∧ (w.pathValue? o path).isSome = true then some c else none
  | _ => none

theorem answer?_eq {s : SubscriberId} {wt : Watcher κ} (hs : w.subscriber? s = some (.watcher wt)) :
    (w.answer? s).toList =
      if w.alive (.object wt.root) = true ∧ (w.pathValue? wt.root wt.path).isSome = true then
        match wt.effect with
        | .call c => [c]
        | .render _ => []
      else [] := by
  rcases wt with ⟨o, path, effect⟩
  cases effect with
  | render r => simp only [answer?, hs, Option.toList_none, ite_self]
  | call c =>
      simp only [answer?, hs]
      split
      · rfl
      · rfl

theorem exists_of_answer? {s : SubscriberId} {c : κ} (h : w.answer? s = some c) :
    ∃ o path, w.subscriber? s = some (.watcher ⟨o, path, .call c⟩) := by
  unfold answer? at h
  split at h
  · next o path c' hs =>
      split at h
      · injection h with h
        subst h
        exact ⟨o, path, hs⟩
      · exact nomatch h
  · exact nomatch h

end World

namespace World

variable {w w' : World κ σ}

/-- What a write to the object has done, where the segments lead to what has been written. -/
structure Fires [DecidableEq κ] (calls : σ → List κ) (kind : Subscriber κ → Prop)
    (root : ObjectId) (segments : List String) (result : Except BindingError Bool)
    (w w' : World κ σ) : Prop where
  /-- Everybody is where they have to be. -/
  attends : w'.Attends root []
  /-- The subscribers are of the kind. -/
  kinds : w'.OfKind kind
  /-- A write that changes nothing calls nobody. -/
  silent : result ≠ .ok true → calls w'.client = calls w.client
  /-- A watcher with a callback of its own calls it once if it has to, and else not at all. -/
  count : result = .ok true → ∀ s path c,
    w.subscriber? s = some (.watcher ⟨root, path, .call c⟩) →
    (∀ t o p, w.subscriber? t = some (.watcher ⟨o, p, .call c⟩) → t = s) →
      (calls w'.client).count c = (calls w.client).count c +
        if segments <+: segmentsOfPath path ∧ (w'.pathValue? root path).isSome = true then 1 else 0

namespace Fires

variable [DecidableEq κ] {root : ObjectId} {segments : List String}
  {result : Except BindingError Bool}

/-- Nothing has happened. -/
theorem refused (h : w.Attends root []) (hkinds : w.OfKind kind) (hresult : result ≠ .ok true) :
    Fires calls kind root segments result w w :=
  ⟨h, hkinds, fun _ => rfl, fun hok => absurd hok hresult⟩

/-- What is held on to meanwhile does not matter. -/
theorem unpin {pins : List Handle} {v : World κ σ}
    (h : Fires calls kind root segments result { w with pins := pins } v) :
    Fires calls kind root segments result w { v with pins := w.pins } := by
  refine ⟨h.attends.of_objects rfl rfl, h.kinds, h.silent, fun hok s path c hs hown => ?_⟩
  rw [(v.path_pins w.pins root path).1]
  exact h.count hok s path c hs hown

end Fires

end World

variable [Client σ]

/-- The client counts the calls of the callbacks of watchers, and no subscriber of the kind writes
    anything when it is called. -/
structure Host.Logs (host : Host κ σ) (calls : σ → List κ) (kind : Subscriber κ → Prop) : Prop where
  /-- Diagnostics are not calls. -/
  notice : ∀ d x, calls (Client.notice d x) = calls x
  /-- A call of a watcher's callback is counted. -/
  changed : ∀ {o path c value w flags w'}, kind (.watcher ⟨o, path, .call c⟩) →
    host.call c (.changed value) w = some (flags, w') →
      ∃ x, calls x = calls w.client ++ [c] ∧
        Relation.ReflTransGen (World.Glance calls kind) { w with client := x } w'
  /-- A probe only looks. -/
  updated : ∀ {c w flags w'}, kind (.probe c) → host.call c .updated w = some (flags, w') →
    Relation.ReflTransGen (World.Glance calls kind) w w'

namespace Host.Logs

variable {host : Host κ σ} {w w' : World κ σ} {u : Unit}

/-- Acting on a value calls the callback, if there is one. -/
theorem perform_passes (hhost : host.Logs calls kind) {wt : Watcher κ}
    (hkind : kind (.watcher wt)) {value : Data}
    (hrun : host.perform wt.effect value w = some (u, w')) :
    w.Passes kind w' ∧ calls w'.client =
      calls w.client ++ match wt.effect with
        | .call c => [c]
        | .render _ => [] := by
  rcases wt with ⟨o, path, effect⟩
  cases effect with
  | render r =>
      rcases Host.perform_render_iff.mp hrun with ⟨shown, _, rfl⟩
      rw [List.append_nil]
      exact World.passes_render hhost.notice w r shown
  | call c =>
      rcases Host.perform_call_iff.mp hrun with ⟨flags, hcall⟩
      rcases hhost.changed hkind hcall with ⟨x, hx, hglances⟩
      have hremembered : w.Passes kind { w with client := x } := .of_objects rfl rfl rfl
      have hpassed := World.passes_of_glances hhost.notice hglances
      exact ⟨hremembered.trans hpassed.1, hpassed.2.trans hx⟩

/-- Following its path anew, whatever is held on to meanwhile, registers a watcher where it
    belongs and calls nobody. -/
theorem read_passes (hhost : host.Logs calls kind) {s : SubscriberId} {wt : Watcher κ}
    (hs : w.subscriber? s = some (.watcher wt)) {pins : List Handle}
    {found : Except BindingError Data} {v : World κ σ}
    (hread : World.readPath { w with pins := pins } (some s) wt.root wt.path = (found, v)) :
    World.Passes kind { w with pins := pins } v ∧ calls v.client = calls w.client ∧
      found.toOption = w.pathValue? wt.root wt.path ∧
      ∀ root late, w.Attends root (s :: late) → v.Attends root late := by
  have hheld : World.subscriber? { w with pins := pins } s = some (.watcher wt) := hs
  have hstart : ∀ root late, w.Attends root late →
      World.Attends { w with pins := pins } root late := fun _ _ h => h.of_objects rfl rfl
  have hclient : World.client { w with pins := pins } = w.client := rfl
  rw [← (w.path_pins pins wt.root wt.path).1, ← hclient]
  generalize ({ w with pins := pins } : World κ σ) = w₁ at hread hheld hstart
  have hpasses : w₁.Passes kind (w₁.readPath (some s) wt.root wt.path).2 :=
    w₁.passes_readPath s wt.root wt.path fun _ _ h => h.readPath_watcher hheld
  have hcalls := World.calls_readPath hhost.notice w₁ (some s) wt.root wt.path
  have hfound := (w₁.readPath_spec (some s) wt.root wt.path).2
  have hsettled := fun root late (h : w.Attends root (s :: late)) =>
    (hstart root _ h).settle_readPath hheld
  rw [hread] at hpasses hcalls hfound hsettled
  exact ⟨hpasses, hcalls, hfound, hsettled⟩

/-- Updating a watcher calls its callback once if its path leads somewhere. -/
theorem refreshWatcher_passes (hhost : host.Logs calls kind) {s : SubscriberId} {wt : Watcher κ}
    (hs : w.subscriber? s = some (.watcher wt)) (hkind : kind (.watcher wt))
    (hrun : host.refreshWatcher s wt w = some (u, w')) :
    w.Passes kind w' ∧ calls w'.client = calls w.client ++ (w.answer? s).toList ∧
      ∀ root late, .object root ∈ w.pins → w.Attends root (s :: late) → w'.Attends root late := by
  rw [World.answer?_eq hs]
  rcases Host.refreshWatcher_cases hrun with ⟨hgone, rfl⟩ |
    ⟨halive, ⟨e, v, hread, rfl⟩ | ⟨d, v, v', hread, hperform, rfl⟩⟩
  · have hdead : ¬w'.alive (.object wt.root) = true := Bool.eq_false_iff.mp hgone
    rw [if_neg fun h => hdead h.1, List.append_nil]
    refine ⟨.refl w', rfl, fun root late hpin h => h.settle fun path effect hs' => ?_⟩
    rw [hs, Option.some.injEq, Subscriber.watcher.injEq] at hs'
    subst hs'
    exact absurd (World.alive_of_mem_pins hpin) hdead
  · rcases hhost.read_passes hs hread with ⟨hpasses, hcalls, hnone, hsettled⟩
    have hnoticed : v.Passes kind (v.notice (.watcherUnresolved e)) := .of_objects rfl rfl rfl
    rw [← hnone, Except.toOption, Option.isSome_none, if_neg fun h => Bool.false_ne_true h.2,
      List.append_nil]
    exact ⟨(hpasses.trans hnoticed).unpin, (hhost.notice _ _).trans hcalls,
      fun root late _ h => (hsettled root late h).of_objects rfl rfl⟩
  · rcases hhost.read_passes hs hread with ⟨hpasses, hcalls, hsome, hsettled⟩
    rcases hhost.perform_passes hkind hperform with ⟨hperformed, hcalled⟩
    have hnoticed : v.Passes kind (v.notice (.watcherUpdated wt.path)) := .of_objects rfl rfl rfl
    have hafter := hnoticed.trans (hperformed.unpin (w := v.notice (.watcherUpdated wt.path)))
    rw [← hsome, Except.toOption, Option.isSome_some, if_pos ⟨halive, rfl⟩]
    refine ⟨(hpasses.trans hafter).unpin, ?_, fun root late _ h => ?_⟩
    · rw [hcalled]
      exact congrArg (· ++ _) ((hhost.notice _ _).trans hcalls)
    · exact (hafter.attends root late (hsettled root late h)).of_objects rfl rfl

/-- Updating a subscriber calls its callback once if that is due. -/
theorem refresh_passes (hhost : host.Logs calls kind) (hkinds : w.OfKind kind) {s : SubscriberId}
    (hrun : host.refresh s w = some (u, w')) :
    w.Passes kind w' ∧ calls w'.client = calls w.client ++ (w.answer? s).toList ∧
      ∀ root late, .object root ∈ w.pins → w.Attends root (s :: late) → w'.Attends root late := by
  rcases Host.refresh_cases hrun with ⟨hs, rfl⟩ | ⟨wt, hs, hrun⟩ | ⟨c, flags, hs, hcall⟩
  · refine ⟨.refl w', ?_, fun root late _ h => h.settle fun path effect hs' => ?_⟩
    · rw [World.answer?, hs, Option.toList_none, List.append_nil]
    · cases hs.symm.trans hs'
  · exact hhost.refreshWatcher_passes hs (hkinds s _ hs) hrun
  · rcases World.passes_of_glances hhost.notice (hhost.updated (hkinds s _ hs) hcall) with
      ⟨hpassed, hcalled⟩
    refine ⟨hpassed, ?_, fun root late _ h => (hpassed.attends _ _ h).settle ?_⟩
    · rw [World.answer?, hs, Option.toList_none, List.append_nil, hcalled]
    · intro path effect hs'
      cases (hpassed.retains s _ hs).symm.trans hs'

/-- Updating subscribers brings all of them up to date. -/
theorem refreshAll_passes (hhost : host.Logs calls kind) (hkinds : w.OfKind kind)
    {late : List SubscriberId} (hrun : host.refreshAll late w = some (u, w')) :
    w.Passes kind w' ∧
      ∀ root, .object root ∈ w.pins → w.Attends root late → w'.Attends root [] := by
  induction late generalizing w with
  | nil =>
      rw [Host.refreshAll_nil_iff] at hrun
      subst hrun
      exact ⟨.refl w, fun root _ h => h⟩
  | cons s rest ih =>
      rcases Host.refreshAll_cons_iff.mp hrun with ⟨v, hfirst, hrest⟩
      rcases hhost.refresh_passes (w := { w with pins := (s :: rest).map .subscriber ++ w.pins })
        hkinds hfirst with ⟨hpassed, _, hsettled⟩
      have hturn := hpassed.unpin
      rcases ih (hturn.kinds hkinds) hrest with ⟨hothers, hall⟩
      refine ⟨hturn.trans hothers, fun root hpin h => hall root hpin ?_⟩
      exact (hsettled root rest (List.mem_append_right _ hpin) (h.of_objects rfl rfl)).of_objects
        rfl rfl

/-- When subscribers are updated, the callback of a watcher among them is called once if its path
    leads somewhere, and no other watcher's callback is called. -/
theorem count_refreshAll [DecidableEq κ] (hhost : host.Logs calls kind) (hkinds : w.OfKind kind)
    {root : ObjectId} {wait : List SubscriberId} (hattends : w.Attends root wait)
    (hpin : .object root ∈ w.pins) {s : SubscriberId} {path : String} {c : κ}
    (hs : w.subscriber? s = some (.watcher ⟨root, path, .call c⟩)) {late : List SubscriberId}
    (hnodup : late.Nodup) (hthere : ∀ t ∈ late, ∃ subscriber, w.subscriber? t = some subscriber)
    (hown : ∀ t ∈ late, ∀ o p, w.subscriber? t = some (.watcher ⟨o, p, .call c⟩) → t = s)
    (hrun : host.refreshAll late w = some (u, w')) :
    (calls w'.client).count c = (calls w.client).count c +
      if s ∈ late ∧ (w.pathValue? root path).isSome = true then 1 else 0 := by
  induction late generalizing w with
  | nil =>
      rw [Host.refreshAll_nil_iff] at hrun
      subst hrun
      rw [if_neg fun h => List.not_mem_nil h.1, Nat.add_zero]
  | cons t rest ih =>
      rcases Host.refreshAll_cons_iff.mp hrun with ⟨v, hfirst, hrest⟩
      rcases hhost.refresh_passes (w := { w with pins := (t :: rest).map .subscriber ++ w.pins })
        hkinds hfirst with ⟨hpassed, hcalled, _⟩
      have hturn := hpassed.unpin
      rw [List.nodup_cons] at hnodup
      rw [List.forall_mem_cons] at hthere hown
      have hothers := ih (hturn.kinds hkinds) (hturn.attends root wait hattends) hpin
        (hturn.retains s _ hs) hnodup.2
        (fun t' ht' => (hthere.2 t' ht').imp fun sub hsub => hturn.retains t' sub hsub)
        (fun t' ht' o p hsub => by
          rcases hthere.2 t' ht' with ⟨sub, hold⟩
          rw [hturn.retains t' sub hold] at hsub
          exact hown.2 t' ht' o p (hold.trans hsub)) hrest
      rw [hturn.pathValue? hattends] at hothers
      rw [hothers]
      change (calls v.client).count c + _ = _
      rw [hcalled, List.count_append, Nat.add_assoc]
      refine congrArg ((calls w.client).count c + ·) ?_
      by_cases hts : t = s
      · subst hts
        have halive : World.alive { w with pins := (t :: rest).map .subscriber ++ w.pins }
            (.object root) = true := World.alive_of_mem_pins (List.mem_append_right _ hpin)
        have hanswer := World.answer?_eq
          (w := { w with pins := (t :: rest).map .subscriber ++ w.pins }) hs
        rw [(w.path_pins _ root path).1] at hanswer
        have hlast : ¬(t ∈ rest ∧ (w.pathValue? root path).isSome = true) :=
          fun h => hnodup.1 h.1
        rw [hanswer, if_neg hlast, Nat.add_zero]
        by_cases hvalue : (w.pathValue? root path).isSome = true
        · rw [if_pos ⟨halive, hvalue⟩, if_pos ⟨List.mem_cons_self, hvalue⟩]
          exact List.count_singleton_self
        · rw [if_neg fun h => hvalue h.2, if_neg fun h => hvalue h.2]
          rfl
      · have hnone : ((World.answer? { w with pins := (t :: rest).map .subscriber ++ w.pins }
            t).toList).count c = 0 := by
          rw [List.count_eq_zero, Option.mem_toList]
          intro hanswer
          rcases World.exists_of_answer? hanswer with ⟨o, p, hsub⟩
          exact hts (hown.1 o p hsub)
        rw [hnone, Nat.zero_add]
        have hmem : s ∈ t :: rest ↔ s ∈ rest :=
          ⟨fun h => (List.mem_cons.mp h).resolve_left (Ne.symm hts), List.mem_cons_of_mem t⟩
        simp only [hmem]

/-- A write to a field calls those who have the way to it as the beginning of theirs. -/
theorem setProperty_fires [DecidableEq κ] (hhost : host.Logs calls kind) {root : ObjectId}
    (h : w.Attends root []) (hkinds : w.OfKind kind) (hpin : .object root ∈ w.pins)
    {init : List String} {key : String} {o : ObjectId} (hkey : key.isEmpty = false)
    (hfollow : w.follow init (.object root) = some (.object o)) {d : Data}
    (hwrite : ∀ p, w.property? o key = some p →
      (w.updateProperty o key fun p => { p with value := d }).Attends root p.registry.subscribers)
    {result : Except BindingError Bool} (hrun : host.setProperty o key d w = some (result, w')) :
    World.Fires calls kind root (init ++ [key]) result w w' := by
  rcases Host.setProperty_cases hrun with ⟨_, rfl, rfl⟩ |
    ⟨p, hp, ⟨_, rfl, rfl⟩ | ⟨_, rfl, hnotify⟩⟩
  · exact .refused h hkinds (by rintro ⟨⟩)
  · exact .refused h hkinds (by rintro ⟨⟩)
  · rw [Host.notify_iff_refreshAll] at hnotify
    have hwritten := hwrite p hp
    have hproper := h.proper init o key p hfollow hp
    let noticed := (w.updateProperty o key fun p => { p with value := d }).notice
      (.notified p.registry.subscribers.length)
    have hnoticed : noticed.Attends root p.registry.subscribers := hwritten.of_objects rfl rfl
    have hsame : noticed.OfKind kind := hkinds.of_subscribers rfl
    rcases hhost.refreshAll_passes hsame hnotify with ⟨hpassed, hsettled⟩
    refine ⟨hsettled root hpin hnoticed, hpassed.kinds hsame, fun hno => absurd rfl hno,
      fun _ s path c hs hown => ?_⟩
    have hs' : noticed.subscriber? s = some (.watcher ⟨root, path, .call c⟩) := hs
    have hcount := hhost.count_refreshAll hsame hnoticed hpin hs' hproper.coherent.nodup
      (fun t ht => (hproper.entered t ht).imp fun sub hsub => hsub.1)
      (fun t _ o p hsub => hown t o p hsub) hnotify
    rw [← hpassed.pathValue? hnoticed] at hcount
    simp only [h.contains_iff_prefix hkey hfollow hp hs] at hcount
    rw [hcount]
    exact congrArg (List.count c · + _) (hhost.notice _ _)

/-- A write to a path calls those who have the path as the beginning of theirs. -/
theorem setPath_fires [DecidableEq κ] (hhost : host.Logs calls kind) {root : ObjectId}
    (h : w.Attends root []) (hkinds : w.OfKind kind) (hpin : .object root ∈ w.pins) {path : String}
    {d : Data}
    (hwrite : ∀ init o key p, w.follow init (.object root) = some (.object o) →
      w.property? o key = some p →
      (w.updateProperty o key fun p => { p with value := d }).Attends root p.registry.subscribers)
    {result : Except BindingError Bool} (hrun : host.setPath root path d w = some (result, w')) :
    World.Fires calls kind root (segmentsOfPath path) result w w' := by
  rcases Host.setPath_cases hrun with ⟨e, _, rfl, rfl⟩ |
    ⟨o, key, answer, v, hresolve, hset, rfl, rfl⟩
  · exact .refused h hkinds (by rintro ⟨⟩)
  · rcases w.resolve_cases root path with ⟨e, hresolve', _⟩ |
      ⟨init, key', o', hsegments, hresolve', hkey, hfollow⟩
    · cases hresolve.symm.trans hresolve'
    · cases hresolve.symm.trans hresolve'
      have hway : World.follow { w with pins := [.object o] ++ w.pins } init (.object root) =
          some (.object o) := by
        have hvalues : World.SameValues (fun _ => True) w
            { w with pins := [.object o] ++ w.pins } := fun _ _ _ => rfl
        rw [← hfollow]
        exact World.follow_congr hvalues w.closedUnder_true init fun _ _ => trivial
      have hfires := (hhost.setProperty_fires (w := { w with pins := [.object o] ++ w.pins })
        (h.of_objects rfl rfl) hkinds (List.mem_append_right _ hpin) hkey hway
        (fun p hp => (hwrite init o key p hfollow hp).of_objects rfl rfl) hset).unpin
      rw [← hsegments] at hfires
      cases answer with
      | ok changed => exact hfires
      | error e =>
          have hsilent := hfires.silent (by rintro ⟨⟩)
          exact ⟨hfires.attends, hfires.kinds, fun _ => hsilent, by rintro ⟨⟩⟩

/-- A write of a value that is observed for it. -/
theorem write_fires [DecidableEq κ] (hhost : host.Logs calls kind) {root : ObjectId}
    (h : w.Attends root []) (hkinds : w.OfKind kind) {path : String} {value : Json}
    {result : Except BindingError Bool}
    (hrun : Run.pinned [.object root] (host.setPath root path (World.observeValue value w).1)
      (World.observeValue value w).2 = some (result, w')) :
    World.Fires calls kind root (segmentsOfPath path) result w w' := by
  have hglance : World.Glance calls kind w (World.observeValue value w).2 := .observe w value
  have hobserved := hglance.passes hhost.notice
  have hsubscribers := (World.extends_observeValue value w).1.subscribers
  rcases World.stands_observeValue value w with ⟨fresh, hd, hfresh, hnew⟩
  have hblank : ∀ a ∈ fresh, ∀ k q,
      (World.observeValue value w).2.property? a k = some q → q.registry = {} :=
    fun a ha k q => (World.extends_observeValue value w).1.blank a k q (hnew a ha)
  rcases h.tree with ⟨j, ids, hstands, _⟩
  have hbefore := hstands.of_unwritten hobserved.1.unwritten
  have hapart : ∀ a ∈ fresh, a ∉ ids := fun a ha hmem =>
    Nat.not_lt_of_le (hnew a ha) (World.Denotes.lt_size hstands a hmem)
  generalize (World.observeValue value w).1 = d at hrun hd
  generalize (World.observeValue value w).2 = v at hrun hobserved hsubscribers hd hblank hbefore
  rcases Run.pinned_eq_some_iff.mp hrun with ⟨v', hinner, rfl⟩
  have hattends := hobserved.1.attends root [] h
  have hfires := (hhost.setPath_fires (w := { v with pins := [.object root] ++ v.pins })
    (hattends.of_objects rfl rfl) (hobserved.1.kinds hkinds)
    (List.mem_append_left _ List.mem_cons_self) (fun init o key p hfollow hp => by
      have hway : v.follow init (.object root) = some (.object o) := by
        have hvalues : World.SameValues (fun _ => True) v
            { v with pins := [.object root] ++ v.pins } := fun _ _ _ => rfl
        rw [← hfollow]
        exact (World.follow_congr hvalues v.closedUnder_true init fun _ _ => trivial).symm
      have hwritten := hattends.write hway hp hd hfresh (fun j' ids' hstands' => by
        rw [(World.Denotes.functional hstands' hbefore).2]
        exact hapart) hblank
      exact hwritten.of_objects rfl rfl) hinner).unpin
  refine ⟨hfires.attends, hfires.kinds, fun hno => (hfires.silent hno).trans hobserved.2,
    fun hok s p c hs hown => ?_⟩
  rw [← hobserved.2]
  refine hfires.count hok s p c (hobserved.1.retains s _ hs) fun t o q ht => hown t o q ?_
  rw [← ht, World.subscriber?_of_subscribers hsubscribers]

end Host.Logs

/-- What happens to an object: writes of plain values to its paths, and anything that writes
    nothing in between. -/
inductive Session (host : Host κ σ) (calls : σ → List κ) (kind : Subscriber κ → Prop)
    (root : ObjectId) : World κ σ → World κ σ → Prop
  /-- Nothing has happened. -/
  | start (w : World κ σ) : Session host calls kind root w w
  /-- Something that writes nothing. -/
  | glance {w v w' : World κ σ} (h : Session host calls kind root w v)
      (hstep : World.Glance calls kind v w') : Session host calls kind root w w'
  /-- A write to a path, during which the object is held on to. -/
  | write {w v w' : World κ σ} {path : String} {value : Json} {result : Except BindingError Bool}
      (h : Session host calls kind root w v)
      (hrun : Run.pinned [.object root] (host.setPath root path (World.observeValue value v).1)
        (World.observeValue value v).2 = some (result, w')) : Session host calls kind root w w'

namespace Session

variable [DecidableEq κ] {host : Host κ σ} {root : ObjectId}

/-- All the time everybody is where they have to be. -/
theorem attends (hhost : host.Logs calls kind) {w w' : World κ σ} (hw : w.Attends root [])
    (hkinds : w.OfKind kind) (h : Session host calls kind root w w') :
    w'.Attends root [] ∧ w'.OfKind kind := by
  induction h with
  | start => exact ⟨hw, hkinds⟩
  | glance _ hstep ih =>
      have hpassed := (hstep.passes hhost.notice).1
      exact ⟨hpassed.attends root [] ih.1, hpassed.kinds ih.2⟩
  | write _ hrun ih =>
      have hfires := hhost.write_fires ih.1 ih.2 hrun
      exact ⟨hfires.attends, hfires.kinds⟩

/-- Watchers fire exactly when they must. A write that changes something calls the callback of a
    watcher once if the path that is written is the beginning of the watcher's path and that path
    leads somewhere afterwards, and it does not call it otherwise. A write that changes nothing
    calls nobody. -/
theorem count_of_setPath (hhost : host.Logs calls kind) {w₀ w₁ : World κ σ}
    (hkinds : w₀.OfKind kind)
    (hthere : ∀ s wt, w₀.subscriber? s = some (.watcher wt) → wt.root.index < w₀.objects.size)
    {members : Table Json} (hroot : World.observeValue (.object members) w₀ = (.object root, w₁))
    {w : World κ σ} (hsession : Session host calls kind root w₁ w)
    {path : String} {value : Json} {result : Except BindingError Bool} {w' : World κ σ}
    (hrun : Run.pinned [.object root] (host.setPath root path (World.observeValue value w).1)
      (World.observeValue value w).2 = some (result, w')) :
    (result ≠ .ok true → calls w'.client = calls w.client) ∧
    (result = .ok true → ∀ s watched c,
      w.subscriber? s = some (.watcher ⟨root, watched, .call c⟩) →
      (∀ t o p, w.subscriber? t = some (.watcher ⟨o, p, .call c⟩) → t = s) →
        ((segmentsOfPath path <+: segmentsOfPath watched ∧ ∃ d, w'.getPath root watched = .ok d) →
          (calls w'.client).count c = (calls w.client).count c + 1) ∧
        (¬(segmentsOfPath path <+: segmentsOfPath watched ∧
            ∃ d, w'.getPath root watched = .ok d) →
          (calls w'.client).count c = (calls w.client).count c)) := by
  have hsubscribers := (World.extends_observeValue (.object members) w₀).1.subscribers
  rw [hroot] at hsubscribers
  rcases attends hhost (World.attends_observed hroot hthere) (hkinds.of_subscribers hsubscribers)
    hsession with ⟨hattends, hkinds'⟩
  have hfires := hhost.write_fires hattends hkinds' hrun
  refine ⟨hfires.silent, fun hok s watched c hs hown => ?_⟩
  have hcount := hfires.count hok s watched c hs hown
  have hresolves : (∃ d, w'.getPath root watched = .ok d) ↔
      (w'.pathValue? root watched).isSome = true := by
    simp only [World.getPath_eq_ok_iff, Option.isSome_iff_exists]
  rw [hresolves]
  constructor
  · intro hmust
    rw [hcount, if_pos hmust]
  · intro hnot
    rw [hcount, if_neg hnot, Nat.add_zero]

/-- A host that writes down whose callback is called. -/
def logger : Host Nat (Journal (List Nat)) where
  call c signal := do
    match signal with
    | .changed _ =>
      Run.change fun w =>
        { w with client := { w.client with memory := w.client.memory ++ [c] } }
    | _ => pure ()
    pure {}
  patience := 0

theorem logs_logger : logger.Logs Journal.memory fun _ => True where
  notice _ _ := rfl
  changed := by
    intro o path c value w flags w' _ hrun
    simp only [logger, Run.bind_eq_some_iff, Run.change_eq_some_iff, Run.pure_eq_some_iff] at hrun
    rcases hrun with ⟨_, _, rfl, _, rfl⟩
    exact ⟨_, rfl, .refl⟩
  updated := by
    intro c w flags w' _ hrun
    simp only [logger, Run.pure_eq_some_iff] at hrun
    rcases hrun with ⟨_, _, ⟨_, rfl⟩, _, rfl⟩
    exact .refl

/-- A world in which nothing has been called. -/
def unlogged : World Nat (Journal (List Nat)) where
  client := { memory := [] }

/-- An object with a text inside another one. -/
def letter : World Nat (Journal (List Nat)) :=
  (World.observeValue (.object [("inner", .object [("text", .string "a")])]) unlogged).2

/-- The text is watched, and so is the object that it is in. -/
def watched : World Nat (Journal (List Nat)) :=
  (((letter.watch ⟨1⟩ "inner.text" (.call 0)).2).watch ⟨1⟩ "inner" (.call 1)).2

theorem subscriber?_watched_zero :
    watched.subscriber? ⟨0⟩ = some (.watcher ⟨⟨1⟩, "inner.text", .call 0⟩) := by
  decide +kernel

theorem subscriber?_watched_one :
    watched.subscriber? ⟨1⟩ = some (.watcher ⟨⟨1⟩, "inner", .call 1⟩) := by
  decide +kernel

/-- Each watcher has a callback of its own. -/
theorem index_of_watched {t : SubscriberId} {o : ObjectId} {p : String} {c : Nat}
    (ht : watched.subscriber? t = some (.watcher ⟨o, p, .call c⟩)) : t.index = c := by
  rcases t with ⟨i⟩
  rcases i with _ | _ | i
  · rw [subscriber?_watched_zero] at ht
    injection ht with ht
    injection ht with ht
    injection ht with _ _ ht
    injection ht
  · rw [subscriber?_watched_one] at ht
    injection ht with ht
    injection ht with ht
    injection ht with _ _ ht
    injection ht
  · have hsize : watched.subscribers.size = 2 := by decide +kernel
    have hle : watched.subscribers.size ≤ i + 2 := by
      rw [hsize]
      exact Nat.le_add_left 2 i
    rw [World.subscriber?, Heap.get?_eq_none hle] at ht
    cases ht

/-- The text is written. -/
def edit : Option (Except BindingError Bool × World Nat (Journal (List Nat))) :=
  Run.pinned [.object ⟨1⟩] (logger.setPath ⟨1⟩ "inner.text"
    (World.observeValue (.string "b") watched).1) (World.observeValue (.string "b") watched).2

theorem isSome_edit : edit.isSome = true := by
  decide +kernel

theorem count_of_setPath_edited :
    (edit.get isSome_edit).1 = .ok true ∧
      (edit.get isSome_edit).2.client.memory.count 0 = watched.client.memory.count 0 + 1 ∧
      (edit.get isSome_edit).2.client.memory.count 1 = watched.client.memory.count 1 := by
  have hthere : ∀ s wt, unlogged.subscriber? s = some (.watcher wt) →
      wt.root.index < unlogged.objects.size := fun _ _ hs => nomatch hs
  have hroot : World.observeValue (.object [("inner", .object [("text", .string "a")])]) unlogged =
      (.object ⟨1⟩, letter) := rfl
  have hsession : Session logger Journal.memory (fun _ => True) ⟨1⟩ letter watched :=
    .glance (.glance (.start letter) (.watch _ trivial)) (.watch _ trivial)
  have hrun : Run.pinned [.object ⟨1⟩] (logger.setPath ⟨1⟩ "inner.text"
      (World.observeValue (.string "b") watched).1) (World.observeValue (.string "b") watched).2 =
        some ((edit.get isSome_edit).1, (edit.get isSome_edit).2) := by
    rw [Prod.mk.eta, Option.some_get, edit]
  have hok : (edit.get isSome_edit).1 = .ok true := by decide +kernel
  have hfires := (count_of_setPath logs_logger (fun _ _ _ => trivial) hthere hroot hsession
    hrun).2 hok
  have hvalue : (edit.get isSome_edit).2.getPath ⟨1⟩ "inner.text" = .ok (.plain (.string "b")) := by
    decide +kernel
  have hfirst := hfires ⟨0⟩ "inner.text" 0 subscriber?_watched_zero
    fun t o p ht => SubscriberId.ext (index_of_watched ht)
  have hsecond := hfires ⟨1⟩ "inner" 1 subscriber?_watched_one
    fun t o p ht => SubscriberId.ext (index_of_watched ht)
  have hapart : ¬segmentsOfPath "inner.text" <+: segmentsOfPath "inner" := by decide +kernel
  exact ⟨hok, hfirst.1 ⟨List.prefix_rfl, _, hvalue⟩, hsecond.2 fun h => hapart h.1⟩

end Session

end LiveTemplate
