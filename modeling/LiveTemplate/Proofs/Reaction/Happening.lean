import LiveTemplate.Proofs.Reaction.Outcomes
import LiveTemplate.Proofs.Store.Trail
import LiveTemplate.Proofs.Reaction.Program
import LiveTemplate.Proofs.Reaction.Observing
import LiveTemplate.Proofs.Reaction.UpToDate
import LiveTemplate.Proofs.Reaction.Dispatching
import Mathlib.Logic.Relation

/-!
# What Can Happen

Whatever an operation does to the world, as a course of small events.

Writing a value, updating watchers, dispatching an event and running a client's program
call each other to any depth, and callbacks run programs in turn. But all that they do
to the world comes down to a few kinds of events: a watcher follows its path and shows
what is there, a value is written into a property, a form field is filled in, and the
client observes and watches data and remembers things. So what no event changes no
operation changes, however deep it goes, and nobody has to go through the operations
again to see that.

Not every client does everything. What it remembers, what it watches and which of the
values that are there already it writes somewhere else are left open, and each statement
about all operations can ask for what it needs.

## Main definitions

* `Licence`: What a client may do.
* `World.Happens`: An event.
* `World.Course`: A course of events.
* `Host.Heeds`: A host whose callbacks do what the client may do.
* `Program.Within`: A program that does what the client may do.

## Theorems

* `Host.Heeds.notify`, `Host.Heeds.setPath`, `Host.Heeds.dispatch`: Operations are courses of
  events.
* `Program.course_of_run`, `Program.heeds_host`: So are programs, and callbacks that run them.
-/

namespace LiveTemplate

open Relation (ReflTransGen)

variable {ν τ : Type}

/-- What a client may do. -/
structure Licence (τ : Type) where
  /-- How its memory may change. -/
  keeps : τ → τ → Prop
  /-- On which objects it may create watchers. -/
  watches : ObjectId → Prop
  /-- Which values may be written that are there already. -/
  shares : Data → Prop

namespace World

/-- Something that happens to the world. -/
inductive Happens (l : Licence τ) : ClientWorld ν τ → ClientWorld ν τ → Prop
  /-- Other things are held on to by operations. -/
  | pin (w : ClientWorld ν τ) (pins : List Handle) : Happens l w { w with pins := pins }
  /-- Something is written down in the journal, and the memory stays as it is. -/
  | note (w : ClientWorld ν τ) {j : Journal τ} (h : j.memory = w.client.memory) :
      Happens l w { w with client := j }
  /-- The client remembers something. -/
  | remember {w : ClientWorld ν τ} {change : τ → τ}
      (h : l.keeps w.client.memory (change w.client.memory)) :
      Happens l w (w.write fun j => { j with memory := change j.memory })
  /-- Data is observed. -/
  | observe (w : ClientWorld ν τ) (value : Json) : Happens l w (observeValue value w).2
  /-- A watcher with a callback is created. -/
  | watch {w : ClientWorld ν τ} {root : ObjectId} (path : String) (name : ν)
      (h : l.watches root) (hroot : root.index < w.objects.size) :
      Happens l w (w.watch root path (.call (.watching ⟨w.subscribers.size⟩ name))).2
  /-- A watcher follows its path. -/
  | follow {w : ClientWorld ν τ} {s : SubscriberId} {wt : Watcher (Code ν)}
      (hs : w.subscriber? s = some (.watcher wt)) :
      Happens l w (w.readPath (some s) wt.root wt.path).2
  /-- A value is observed and written into a property. -/
  | assign {w : ClientWorld ν τ} {o : ObjectId} {key : String} {p : Property} (value : Json)
      (hp : (observeValue value w).2.property? o key = some p) :
      Happens l w ((observeValue value w).2.updateProperty o key fun p =>
        { p with value := (observeValue value w).1 })
  /-- A value that is there already is written into a property. -/
  | share {w : ClientWorld ν τ} {o : ObjectId} {key : String} {p : Property} {d : Data}
      (h : l.shares d) (hd : ∀ x, d = .object x → x.index < w.objects.size)
      (hp : w.property? o key = some p) :
      Happens l w (w.updateProperty o key fun p => { p with value := d })
  /-- A watcher shows something. -/
  | show {w : ClientWorld ν τ} {s : SubscriberId} {wt : Watcher (Code ν)} {r : Rendering}
      (hs : w.subscriber? s = some (.watcher wt)) (heffect : wt.effect = .render r)
      (shown : String) : Happens l w (w.render r shown)
  /-- Text is entered into a form field. -/
  | enter (w : ClientWorld ν τ) (n : NodeId) (text : String) : Happens l w (w.setValue n text)

/-- A course of events. -/
abbrev Course (l : Licence τ) : ClientWorld ν τ → ClientWorld ν τ → Prop :=
  ReflTransGen (Happens l)

variable {l : Licence τ} {w v w' : ClientWorld ν τ} {d : Data} {value : Json}

/-- What holds is kept by a course of events if each event keeps it. -/
theorem Course.keeps (inv : ClientWorld ν τ → Prop)
    (hkeeps : ∀ {w w' : ClientWorld ν τ}, inv w → w.Happens l w' → inv w')
    (h : w.Course l w') (hw : inv w) : inv w' := by
  induction h with
  | refl => exact hw
  | tail _ hstep ih => exact hkeeps ih hstep

theorem pointsTo_of_dependAll {reader : Option SubscriberId} {fields : List (ObjectId × String)}
    {o x : ObjectId} (h : (w.dependAll reader fields).PointsTo o x) : w.PointsTo o x := by
  induction fields generalizing w with
  | nil => exact h
  | cons field rest ih => exact pointsTo_of_depend (ih h)

theorem pointsTo_of_updateProperty {o a x : ObjectId} {key : String}
    (h : (w.updateProperty o key fun p => { p with value := d }).PointsTo a x) :
    w.PointsTo a x ∨ a = o ∧ d = .object x := by
  rcases h with ⟨entry, hentry, hvalue⟩
  rw [object_updateProperty] at hentry
  split at hentry
  · next heq =>
      rcases Table.mem_update hentry with hold | ⟨old, hold, rfl⟩
      · exact .inl ⟨entry, hold, hvalue⟩
      · exact .inr ⟨heq.symm, hvalue⟩
  · exact .inl ⟨entry, hentry, hvalue⟩

/-- A new watcher is there, and is registered on its way. -/
theorem watch_eq (w : ClientWorld ν τ) (root : ObjectId) (path : String)
    (effect : Effect (Code ν)) :
    (w.watch root path effect).2 =
      (w.addSubscriber (.watcher ⟨root, path, effect⟩)).2.dependAll (some ⟨w.subscribers.size⟩)
        (w.pathFields root path) := by
  have hread := ((w.addSubscriber (.watcher ⟨root, path, effect⟩)).2.readPath_spec
    (some ⟨w.subscribers.size⟩) root path).1
  have hobjects : (w.addSubscriber (.watcher ⟨root, path, effect⟩)).2.objects = w.objects := rfl
  rw [(path_of_objects hobjects root path).2] at hread
  rcases w.watch_parts root path effect with h | h
  · exact h.trans hread
  · exact h.trans hread

namespace Happens

/-- Objects do not go away. -/
theorem grown (h : w.Happens l w') : w.objects.size ≤ w'.objects.size := by
  cases h with
  | observe value => exact (extends_observeValue value w).1.grown
  | @watch root path name _ _ =>
      rw [watch_eq, (dependAll_frame (some ⟨w.subscribers.size⟩) (w.pathFields root path) _).2.2.2]
      exact Nat.le_refl _
  | @follow s wt hs =>
      exact Nat.le_of_eq (w.readPath_frame (some s) wt.root wt.path).2.2.2.symm
  | assign value _ =>
      rw [size_objects_updateProperty]
      exact (extends_observeValue value w).1.grown
  | share _ _ _ => exact Nat.le_of_eq (size_objects_updateProperty _ _ _ _).symm
  | «show» _ _ shown =>
      exact Nat.le_of_eq (congrArg Heap.size (w.onlyNodes_render _ _).objects).symm
  | pin | note | remember | enter => exact Nat.le_refl _

/-- Whatever holds an object after an event did so before, unless the object is new or one that
    the client may write somewhere. -/
theorem pointsTo (h : w.Happens l w') {o x : ObjectId} (hx : w'.PointsTo o x) :
    w.PointsTo o x ∨ (w.objects.size ≤ x.index ∧ x.index < w'.objects.size) ∨
      l.shares (.object x) ∧ x.index < w.objects.size := by
  -- Observing something adds objects that hold each other.
  have hobserve : ∀ value, (observeValue value w).2.PointsTo o x → w.PointsTo o x ∨
      w.objects.size ≤ x.index ∧ x.index < (observeValue value w).2.objects.size := by
    intro value hpoints
    have hextends := (extends_observeValue value w).1
    by_cases ho : o.index < w.objects.size
    · exact .inl (by rwa [PointsTo, hextends.kept o ho] at hpoints)
    · exact .inr (hextends.apart o x (Nat.le_of_not_lt ho) hpoints)
  cases h with
  | observe value =>
      rcases hobserve value hx with hbefore | hnew
      · exact .inl hbefore
      · exact .inr (.inl hnew)
  | watch path name _ _ =>
      rw [watch_eq] at hx
      have hadded := pointsTo_of_dependAll hx
      exact .inl hadded
  | @follow s wt hs =>
      rw [(w.readPath_spec (some s) wt.root wt.path).1] at hx
      exact .inl (pointsTo_of_dependAll hx)
  | @assign o' key p value _ =>
      rw [size_objects_updateProperty]
      rcases pointsTo_of_updateProperty hx with hpoints | ⟨_, hd⟩
      · rcases hobserve value hpoints with hbefore | hnew
        · exact .inl hbefore
        · exact .inr (.inl hnew)
      · exact .inr (.inl ((extends_observeValue value w).2 x hd))
  | share hshares hlt _ =>
      rcases pointsTo_of_updateProperty hx with hpoints | ⟨_, rfl⟩
      · exact .inl hpoints
      · exact .inr (.inr ⟨hshares, hlt x rfl⟩)
  | «show» _ _ shown =>
      exact .inl ((pointsTo_of_objects (w.onlyNodes_render _ _).objects o x).mp hx)
  | pin | note | remember | enter => exact .inl hx

/-- Nobody new is there after an event, unless it is a watcher of the client's. -/
theorem joined (h : w.Happens l w') :
    w'.subscribers = w.subscribers ∨ ∃ root path name, l.watches root ∧
      root.index < w.objects.size ∧ w'.subscribers =
        w.subscribers.add (.watcher ⟨root, path, .call (.watching ⟨w.subscribers.size⟩ name)⟩) := by
  cases h with
  | observe value => exact .inl (extends_observeValue value w).1.subscribers
  | @watch root path name hwatches hroot =>
      refine .inr ⟨root, path, name, hwatches, hroot, ?_⟩
      rw [watch_eq, (dependAll_frame (some ⟨w.subscribers.size⟩) (w.pathFields root path) _).2.1]
      rfl
  | @follow s wt hs => exact .inl (w.readPath_frame (some s) wt.root wt.path).2.1
  | assign value _ => exact .inl (extends_observeValue value w).1.subscribers
  | «show» _ _ shown => exact .inl (w.onlyNodes_render _ _).subscribers
  | pin | note | remember | share | enter => exact .inl rfl

/-- An event is not noticed by anybody who listens. -/
theorem sameListeners (h : w.Happens l w') : w.SameListeners w' := by
  have hnodes : ∀ {v : ClientWorld ν τ}, v.nodes = w.nodes → w.SameListeners v := fun hv =>
    ⟨Nat.le_of_eq (congrArg Heap.size hv.symm), fun m => by rw [node, hv, ← node]⟩
  cases h with
  | observe value => exact hnodes (extends_observeValue value w).1.nodes
  | @watch root path name _ _ =>
      rw [watch_eq]
      exact hnodes (dependAll_frame (some ⟨w.subscribers.size⟩) (w.pathFields root path) _).1
  | @follow s wt hs => exact hnodes (w.readPath_frame (some s) wt.root wt.path).1
  | assign value _ => exact hnodes (extends_observeValue value w).1.nodes
  | «show» _ _ shown => exact w.sameListeners_render _ _
  | enter n text => exact .updateNode w n fun _ => rfl
  | pin | note | remember | share => exact hnodes rfl

end Happens

/-- All objects that are mentioned are there. -/
structure Whole (w : ClientWorld ν τ) : Prop where
  /-- Objects hold objects that are there. -/
  closed : ∀ o x, w.PointsTo o x → x.index < w.objects.size
  /-- Watchers start from objects that are there. -/
  ranged : ∀ s wt, w.subscriber? s = some (.watcher wt) → wt.root.index < w.objects.size

/-- In the beginning nothing is mentioned. -/
theorem whole_start (memory : τ) : (start ν memory).Whole where
  closed _ _ h := absurd (lt_of_pointsTo h) (Nat.not_lt_zero _)
  ranged s wt h := absurd h (by rw [subscriber?_start memory s]; exact nofun)

/-- Events mention what is there. -/
theorem Happens.whole (h : w.Happens l w') (hw : w.Whole) : w'.Whole where
  closed o x hx := by
    rcases h.pointsTo hx with hbefore | hnew | hshared
    · exact Nat.lt_of_lt_of_le (hw.closed o x hbefore) h.grown
    · exact hnew.2
    · exact Nat.lt_of_lt_of_le hshared.2 h.grown
  ranged s wt hs := by
    refine Nat.lt_of_lt_of_le ?_ h.grown
    rcases h.joined with hsame | ⟨root, path, name, _, hroot, hadded⟩
    · exact hw.ranged s wt (by rwa [subscriber?_of_subscribers hsame] at hs)
    · rw [subscriber?, hadded, Heap.get?_add] at hs
      split at hs
      · injection hs with hs
        injection hs with hs
        rw [← hs]
        exact hroot
      · exact hw.ranged s wt hs

/-- What is held on to meanwhile does not matter. -/
theorem Course.unpin {pins : List Handle} (h : World.Course l { w with pins := pins } v) :
    w.Course l { v with pins := w.pins } :=
  ((ReflTransGen.single (.pin w pins)).trans h).tail (.pin v w.pins)

/-- Nothing has been written, or the value has been written into a property, and then other
    things have happened. -/
def Written (l : Licence τ) (d : Data) (w w' : ClientWorld ν τ) : Prop :=
  w' = w ∨ ∃ o key p, w.property? o key = some p ∧
    (w.updateProperty o key fun p => { p with value := d }).Course l w'

/-- What is held on to meanwhile does not matter. -/
theorem Written.unpin {pins : List Handle} (h : Written l d { w with pins := pins } v) :
    w.Written l d { v with pins := w.pins } := by
  rcases h with rfl | ⟨o, key, p, hp, hcourse⟩
  · exact .inl rfl
  · exact .inr ⟨o, key, p, hp, hcourse.unpin (w := w.updateProperty o key _)⟩

/-- A value that has been observed to be written. -/
theorem Written.course (h : (observeValue value w).2.Written l (observeValue value w).1 w') :
    w.Course l w' := by
  rcases h with rfl | ⟨o, key, p, hp, hcourse⟩
  · exact .single (.observe w value)
  · exact ReflTransGen.head (.assign value hp) hcourse

/-- A value that is there already. -/
theorem Written.course_of_shares (h : w.Written l d w') (hshares : l.shares d)
    (hd : ∀ x, d = .object x → x.index < w.objects.size) : w.Course l w' := by
  rcases h with rfl | ⟨o, key, p, hp, hcourse⟩
  · exact .refl
  · exact ReflTransGen.head (.share hshares hd hp) hcourse

end World

/-! ### Operations -/

/-- A run is a course of events if it is one while things are held on to. -/
theorem Run.course_of_pinned {l : Licence τ} {α : Type} {run : Run (Code ν) (Journal τ) α}
    {handles : List Handle} {a : α} {w w' : ClientWorld ν τ}
    (hrun : Run.pinned handles run w = some (a, w'))
    (h : ∀ {v v' : ClientWorld ν τ}, v.subscribers = w.subscribers → v.objects = w.objects →
      run v = some (a, v') → v.Course l v') : w.Course l w' := by
  rcases Run.pinned_eq_some_iff.mp hrun with ⟨v, hv, rfl⟩
  exact (h (v := { w with pins := handles ++ w.pins }) rfl rfl hv).unpin

/-- The signal is not that of a method that is called. -/
def Signal.IsNews : Signal → Prop
  | invoked _ _ => False
  | _ => True

/-- Callbacks do what the client may do when they hear such a signal. -/
def Host.Heeds (host : Host (Code ν) (Journal τ)) (l : Licence τ) (heard : Signal → Prop) : Prop :=
  ∀ c signal w flags w', heard signal → host.call c signal w = some (flags, w') →
    w.Course l w'

namespace Host.Heeds

variable {l : Licence τ} {heard : Signal → Prop} {host : Host (Code ν) (Journal τ)}
  {w w' : ClientWorld ν τ} {u : Unit} {d : Data} {e e' : Event}

theorem call (hhost : host.Heeds l heard) {c : Code ν} {signal : Signal} {flags : EventFlags}
    (hheard : heard signal) (hcall : host.call c signal w = some (flags, w')) : w.Course l w' :=
  hhost c signal w flags w' hheard hcall

/-- Acting on a value. -/
theorem perform (hhost : host.Heeds l heard) (hheard : ∀ signal, signal.IsNews → heard signal)
    {s : SubscriberId} {wt : Watcher (Code ν)} (hs : w.subscriber? s = some (.watcher wt))
    (hrun : host.perform wt.effect d w = some (u, w')) : w.Course l w' := by
  cases heffect : wt.effect with
  | render r =>
      rw [heffect, Host.perform_render_iff] at hrun
      rcases hrun with ⟨shown, _, rfl⟩
      exact .single (.show hs heffect shown)
  | call c =>
      rw [heffect, Host.perform_call_iff] at hrun
      rcases hrun with ⟨flags, hcall⟩
      exact hhost.call (hheard (.changed d) trivial) hcall

/-- Updating a watcher. -/
theorem refreshWatcher (hhost : host.Heeds l heard)
    (hheard : ∀ signal, signal.IsNews → heard signal) {s : SubscriberId} {wt : Watcher (Code ν)}
    (hs : w.subscriber? s = some (.watcher wt))
    (hrun : host.refreshWatcher s wt w = some (u, w')) : w.Course l w' := by
  have hfollowed : ∀ {pins found v}, World.readPath { w with pins := pins } (some s) wt.root
      wt.path = (found, v) → World.Course l { w with pins := pins } v ∧
        v.subscriber? s = some (.watcher wt) := by
    intro pins found v hread
    have hheld : World.subscriber? { w with pins := pins } s = some (.watcher wt) := hs
    generalize ({ w with pins := pins } : ClientWorld ν τ) = w₁ at hread hheld
    have hfollow : w₁.Happens l (w₁.readPath (some s) wt.root wt.path).2 := .follow hheld
    have hkept := (w₁.readPath_frame (some s) wt.root wt.path).2.1
    rw [hread] at hfollow hkept
    exact ⟨.single hfollow, (World.subscriber?_of_subscribers hkept s).trans hheld⟩
  rcases Host.refreshWatcher_cases hrun with ⟨_, rfl⟩ |
    ⟨_, ⟨e, v, hread, rfl⟩ | ⟨d, v, v', hread, hperform, rfl⟩⟩
  · exact .refl
  · exact World.Course.unpin ((hfollowed hread).1.tail (.note v rfl))
  · rcases hfollowed hread with ⟨hcourse, hs'⟩
    have hperformed := hhost.perform (w := { v.notice (.watcherUpdated wt.path) with
      pins := d.owned ++ v.pins }) hheard hs' hperform
    have hacted : (v.notice (.watcherUpdated wt.path)).Course l { v' with pins := v.pins } :=
      World.Course.unpin hperformed
    exact World.Course.unpin (v := { v' with pins := v.pins })
      ((hcourse.tail (.note v rfl)).trans hacted)

/-- Updating a subscriber. -/
theorem refresh (hhost : host.Heeds l heard) (hheard : ∀ signal, signal.IsNews → heard signal)
    {s : SubscriberId} (hrun : host.refresh s w = some (u, w')) : w.Course l w' := by
  rcases Host.refresh_cases hrun with ⟨_, rfl⟩ | ⟨wt, hs, hrun⟩ | ⟨c, flags, _, hcall⟩
  · exact .refl
  · exact hhost.refreshWatcher hheard hs hrun
  · exact hhost.call (hheard .updated trivial) hcall

/-- Updating subscribers one after the other. -/
theorem refreshAll (hhost : host.Heeds l heard) (hheard : ∀ signal, signal.IsNews → heard signal)
    {late : List SubscriberId} (hrun : host.refreshAll late w = some (u, w')) :
    w.Course l w' := by
  induction late generalizing w with
  | nil =>
      rw [Host.refreshAll_nil_iff] at hrun
      subst hrun
      exact .refl
  | cons s rest ih =>
      rcases Host.refreshAll_cons_iff.mp hrun with ⟨v, hfirst, hrest⟩
      have hturn : w.Course l { v with pins := w.pins } :=
        World.Course.unpin (hhost.refresh hheard hfirst)
      exact hturn.trans (ih hrest)

/-- Updating the subscribers of a registry. -/
theorem notify (hhost : host.Heeds l heard) (hheard : ∀ signal, signal.IsNews → heard signal)
    {registry : Registry} (hrun : host.notify registry w = some (u, w')) : w.Course l w' := by
  rw [Host.notify_iff_refreshAll] at hrun
  exact ReflTransGen.head (.note w rfl) (hhost.refreshAll hheard hrun)

/-- Writing a value into a property. -/
theorem setProperty (hhost : host.Heeds l heard) (hheard : ∀ signal, signal.IsNews → heard signal)
    {o : ObjectId} {key : String} {result : Except BindingError Bool}
    (hrun : host.setProperty o key d w = some (result, w')) : w.Written l d w' := by
  rcases Host.setProperty_cases hrun with ⟨_, _, rfl⟩ | ⟨p, hp, ⟨_, _, rfl⟩ | ⟨_, _, hnotify⟩⟩
  · exact .inl rfl
  · exact .inl rfl
  · exact .inr ⟨o, key, p, hp, hhost.notify hheard hnotify⟩

/-- Writing a value at the end of a path. -/
theorem setPath (hhost : host.Heeds l heard) (hheard : ∀ signal, signal.IsNews → heard signal)
    {root : ObjectId} {path : String} {result : Except BindingError Bool}
    (hrun : host.setPath root path d w = some (result, w')) : w.Written l d w' := by
  rcases Host.setPath_cases hrun with ⟨_, _, _, rfl⟩ | ⟨o, key, answer, v, _, hset, _, rfl⟩
  · exact .inl rfl
  · exact (hhost.setProperty hheard hset).unpin (w := w)

/-- Writing text at the end of a path. -/
theorem setPath_text (hhost : host.Heeds l heard)
    (hheard : ∀ signal, signal.IsNews → heard signal) {root : ObjectId} {path text : String}
    {result : Except BindingError Bool}
    (hrun : host.setPath root path (.plain (.string text)) w = some (result, w')) :
    w.Course l w' := by
  have hwritten : (World.observeValue (.string text) w).2.Written l
      (World.observeValue (.string text) w).1 w' := hhost.setPath hheard hrun
  exact hwritten.course

/-- What the listener of a form field does. -/
theorem writeBack (hhost : host.Heeds l heard)
    (hheard : ∀ signal, signal.IsNews → heard signal) {data : ObjectId} {path : String}
    (hrun : host.runListener (.writeBack data path) e w = some (e', w')) :
    e' = e ∧ w.Course l w' := by
  rcases Serves.writeBack_cases hrun with ⟨rfl, ⟨rfl, _⟩ | ⟨n, result, v, _, _, hset, rfl⟩⟩
  · exact ⟨rfl, .refl⟩
  · exact ⟨rfl, (hhost.setPath_text hheard hset).unpin (w := w)⟩

variable (hhost : host.Heeds l fun _ => True)
include hhost

/-- Running a listener. -/
theorem runListener {listener : Listener (Code ν)}
    (hrun : host.runListener listener e w = some (e', w')) : w.Course l w' := by
  cases listener with
  | callback callback =>
      rcases Host.runListener_callback_iff.mp hrun with ⟨flags, hcall, rfl⟩
      exact hhost.call trivial hcall
  | handle data method modifiers =>
      rcases Host.runListener_handle_cases hrun with ⟨_, ⟨_, rfl⟩ | ⟨_, flags, v, hcall, rfl⟩⟩
      · exact .refl
      · exact World.Course.unpin (hhost.call trivial hcall)
  | writeBack data path => exact (hhost.writeBack (fun _ _ => trivial) hrun).2

/-- Running listeners one after the other. -/
theorem runListeners {listeners : List (Listener (Code ν))}
    (hrun : host.runListeners listeners e w = some (e', w')) : w.Course l w' := by
  induction listeners generalizing w e with
  | nil =>
      rcases Host.runListeners_nil_iff.mp hrun with ⟨_, rfl⟩
      exact .refl
  | cons listener rest ih =>
      rcases Host.runListeners_cons_iff.mp hrun with ⟨e₁, v, hfirst, hrest⟩
      exact (hhost.runListener hfirst).trans (ih hrest)

/-- An event on its way up. -/
theorem climb {limit : Nat} {n : NodeId} (hrun : host.climb limit n e w = some (e', w')) :
    w.Course l w' := by
  induction limit generalizing n w e with
  | zero => exact (Host.climb_zero_eq_some_iff.mp hrun).elim
  | succ limit ih =>
      rcases Host.climb_cases hrun with ⟨e₁, v, hhere, hrun⟩
      have hturn : w.Course l { v with pins := w.pins } :=
        World.Course.unpin (hhost.runListeners hhere)
      rcases hrun with ⟨_, _, rfl⟩ | ⟨_, _, _, rfl⟩ | ⟨_, p, _, hrun⟩
      · exact hturn
      · exact hturn
      · exact hturn.trans (ih hrun)

/-- Dispatching an event. -/
theorem dispatch {n : NodeId} (hrun : host.dispatch n e w = some (e', w')) : w.Course l w' := by
  rcases Host.dispatch_eq_some_iff.mp hrun with ⟨e₁, v, hclimb, _, rfl⟩
  exact World.Course.unpin (hhost.climb hclimb)

/-- Entering text into a form field. -/
theorem input {n : NodeId} {text : String} (hrun : host.input n text w = some (e', w')) :
    w.Course l w' := by
  rw [Host.input_eq_some_iff] at hrun
  exact ReflTransGen.head (.enter w n text) (hhost.dispatch hrun)

end Host.Heeds

/-! ### Programs -/

/-- A value that the client may write. -/
def Source.Within (l : Licence τ) : Source → Prop
  | literal _ => True
  | shared d => l.shares d
  | given o => l.shares (.object o)

/-- A step that the client may take. -/
def Command.Within (l : Licence τ) : Command ν τ → Prop
  | remember change => ∀ m, l.keeps m (change m)
  | set _ _ source => source.Within l
  | setPath _ _ source => source.Within l
  | watch root _ _ => l.watches root
  | _ => True

/-- A program whose steps are steps that the client may take. -/
def Program.Within (l : Licence τ) : Program ν τ → Prop
  | done => True
  | ask command next => command.Within l ∧ ∀ answer, (next answer).Within l

section Programs

variable {l : Licence τ} {heard : Signal → Prop} {host : Host (Code ν) (Journal τ)}
  {w v w' : ClientWorld ν τ} {d : Data}

/-- Obtaining a value, and then writing it. -/
theorem Source.course_of_obtain {source : Source} (hsource : source.Within l)
    (hobtain : source.obtain w = some (d, v)) (h : v.Written l d w') : w.Course l w' := by
  rcases Source.obtain_cases hobtain with ⟨value, _, hobserve⟩ | ⟨value, rfl, rfl, rfl⟩ |
    ⟨o, rfl, hlt, _, ⟨rfl, rfl⟩ | ⟨rfl, rfl⟩⟩
  · have hd : (World.observeValue value.plain w).1 = d := by rw [hobserve]
    have hv : (World.observeValue value.plain w).2 = v := by rw [hobserve]
    subst hd hv
    exact h.course
  · exact h.course_of_shares hsource (by rintro x ⟨⟩)
  · exact h.course_of_shares hsource (by rintro x ⟨⟩; exact hlt)
  · refine ReflTransGen.head
      (.note w (j := { w.client with held := w.client.held.erase (.object o) }) rfl) ?_
    exact h.course_of_shares hsource (by rintro x ⟨⟩; exact hlt)

/-- A step of a program. -/
theorem Command.course_of_run (hhost : host.Heeds l heard)
    (hheard : ∀ signal, signal.IsNews → heard signal) {c : Command ν τ} (hc : c.Within l)
    {a : c.Response} (hrun : c.run host w = some (a, w')) : w.Course l w' := by
  cases c with
  | look =>
      rw [Command.run, Run.get_eq_some_iff] at hrun
      rcases hrun with ⟨_, rfl⟩
      exact .refl
  | remember change =>
      rw [Command.run, Run.change_eq_some_iff] at hrun
      subst hrun
      exact .single (.remember (hc _))
  | observe value =>
      rcases Command.run_observe_iff.mp hrun with ⟨v, hobserve, rfl⟩
      rw [World.observeRoot_eq, Prod.mk.injEq] at hobserve
      rcases hobserve with ⟨rfl, rfl⟩
      exact (ReflTransGen.single (.observe w value)).tail
        (.note _ (j := { (World.observeValue value w).2.client with held := _ }) rfl)
  | hold o =>
      rcases Command.run_hold_iff.mp hrun with ⟨_, rfl⟩
      exact .single (.note w (j := { w.client with held := _ }) rfl)
  | release o =>
      rw [Command.run, Run.change_eq_some_iff] at hrun
      subst hrun
      exact .single (.note w (j := { w.client with held := _ }) rfl)
  | set o key source =>
      rcases Command.run_set_iff.mp hrun with ⟨d, v, hobtain, _, hset⟩
      rcases Run.pinned_eq_some_iff.mp hset with ⟨v', hinner, rfl⟩
      exact Source.course_of_obtain hc hobtain
        (World.Written.unpin (w := v) (hhost.setProperty hheard hinner))
  | setPath root path source =>
      rcases Command.run_setPath_iff.mp hrun with ⟨d, v, hobtain, _, hset⟩
      rcases Run.pinned_eq_some_iff.mp hset with ⟨v', hinner, rfl⟩
      exact Source.course_of_obtain hc hobtain
        (World.Written.unpin (w := v) (hhost.setPath hheard hinner))
  | watch root path name =>
      rcases Command.run_watch_iff.mp hrun with ⟨⟨hlt, _⟩, hwatch⟩
      -- What the watcher has read first is written down if there is something.
      have hwatched : w.Happens l
          (w.watch root path (.call (.watching ⟨w.subscribers.size⟩ name))).2 :=
        .watch path name hc hlt
      simp only [World.watchAs] at hwatch
      split at hwatch
      · next value result v _ hv =>
          rw [hv] at hwatched
          rw [← (Prod.mk.inj hwatch).2]
          exact (ReflTransGen.single hwatched).tail
            (.note v (j := { v.client with shown := _ }) rfl)
      · next e result v _ hv =>
          rw [hv] at hwatched
          rw [← (Prod.mk.inj hwatch).2]
          exact .single hwatched
  | notify o key =>
      rcases Command.run_notify_cases hrun with ⟨_, ⟨_, rfl⟩ | ⟨p, _, hpinned⟩⟩
      · exact .refl
      · exact Run.course_of_pinned hpinned fun _ _ hnotify => hhost.notify hheard hnotify

namespace Program

/-- A program is a course of events. -/
theorem course_of_run (hhost : host.Heeds l heard)
    (hheard : ∀ signal, signal.IsNews → heard signal) {p : Program ν τ} (hp : p.Within l) {u : Unit}
    (hrun : p.run host w = some (u, w')) : w.Course l w' := by
  induction p generalizing w with
  | done =>
      rw [Program.run, Run.pure_eq_some_iff] at hrun
      rcases hrun with ⟨_, rfl⟩
      exact .refl
  | ask command next ih =>
      simp only [Program.run, Run.bind_eq_some_iff] at hrun
      rcases hrun with ⟨answer, v, hcommand, hnext⟩
      exact (Command.course_of_run hhost hheard hp.1 hcommand).trans (ih answer (hp.2 answer) hnext)

/-- Callbacks that run programs are courses of events, however deep they call each other. -/
theorem heeds_host {code : ν → Signal → Program ν τ}
    (hheard : ∀ signal, signal.IsNews → heard signal)
    (hcode : ∀ name signal, heard signal → (code name signal).Within l) (patience depth : Nat) :
    ((behaviour code).host patience depth).Heeds l heard := by
  induction depth with
  | zero =>
      intro c signal w flags w' _ hrun
      exact absurd hrun (by simp only [Behaviour.host, Run.stuck_eq_some_iff, not_false_eq_true])
  | succ depth ih =>
      intro c signal w flags w' hsignal hrun
      simp only [Behaviour.host, behaviour, Run.bind_eq_some_iff, Run.pure_eq_some_iff] at hrun
      rcases hrun with ⟨_, v, hnote, _, v', hprogram, _, rfl⟩
      have hnoted : w.Course l v := by
        unfold takeNote at hnote
        split at hnote
        · rw [Run.change_eq_some_iff] at hnote
          subst hnote
          exact .single (.note w (j := { w.client with shown := _ }) rfl)
        · rw [Run.pure_eq_some_iff] at hnote
          rcases hnote with ⟨_, rfl⟩
          exact .refl
      exact hnoted.trans (course_of_run ih hheard (hcode _ _ hsignal) hprogram)

end Program

end Programs

end LiveTemplate
