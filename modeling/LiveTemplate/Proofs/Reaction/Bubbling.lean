import LiveTemplate.Proofs.Reaction.Outcomes
import LiveTemplate.Proofs.View.Linking
import LiveTemplate.Proofs.View.Placing

/-!
# Events on Their Way Up

Who hears of an event, in which order, and what they are told.

An event starts at its target and goes from each node to the parent of the node, until one of
the listeners at a node has stopped it. Those hear of it at a node who listen there for its kind
when it comes, each of them once and in the order in which they have begun to listen. Stopping
the event makes a difference to the nodes further up only: the other listeners at the node have
their turns all the same.

Listeners change the world while the event is under way, and may have others listen. Whoever
begins to listen at a node that the event has come to waits for the next event; whoever begins to
listen further up has a turn when the event comes there. So what an event does cannot be read off
the world before it, and is described by its course instead: a list of visits, each with the turns
that listeners have there, in which every turn takes place in the world that the one before has
left.

There is such a course whenever listeners come to an end and leave the way up as it is. What they
need for that, and what else they change, is up to them: it is enough that some condition on the
world says so, and that they keep it. Callbacks that only have callbacks listen have such a
condition in every view.

## Main definitions

* `Turn`, `Visit`: A listener's turn, and an event's visit to a node.
* `Host.Turns`, `Host.Visits`: What happens at a node, and on the way.
* `Visit.Along`: How far an event goes.
* `Host.KeepsWay`: Listeners come to an end and leave the way up as it is.
* `Host.Dispatched`: What dispatching an event does.
* `Host.OnlyListens`: Callbacks that only have callbacks listen.

## Theorems

* `Host.runListeners_eq_some_iff`: Running listeners is giving each of them its turn.
* `Host.Visits.seen`, `Host.Visits.kept`: What listeners are told, and what they cannot take back.
* `Host.KeepsWay.exists_dispatched`: An event comes to an end, and this is what it has done.
* `Host.OnlyListens.keepsWay`: Listening leaves the way up as it is.
-/

namespace LiveTemplate

variable {κ σ : Type}

/-! ### What is seen on the way -/

/-- All that the one has raised the other has raised, too. -/
structure EventFlags.Within (a b : EventFlags) : Prop where
  /-- Who has been stopped stays so. -/
  stopped : a.stopped = true → b.stopped = true
  /-- So does who has been prevented. -/
  prevented : a.prevented = true → b.prevented = true

namespace EventFlags.Within

variable {a b c : EventFlags}

theorem refl (a : EventFlags) : a.Within a :=
  ⟨id, id⟩

theorem trans (h : a.Within b) (h' : b.Within c) : a.Within c :=
  ⟨h'.stopped ∘ h.stopped, h'.prevented ∘ h.prevented⟩

theorem union (a b : EventFlags) : a.Within (a.union b) := by
  refine ⟨fun h => ?_, fun h => ?_⟩
  · rw [EventFlags.union, h, Bool.true_or]
  · rw [EventFlags.union, h, Bool.true_or]

/-- Two growing lists of flags are one if the first ends where the second starts. -/
theorem pairwise_append {as bs : List EventFlags} (has : (as ++ [a]).Pairwise Within)
    (hbs : (a :: bs).Pairwise Within) : (as ++ bs).Pairwise Within := by
  rw [List.pairwise_append] at has ⊢
  rw [List.pairwise_cons] at hbs
  refine ⟨has.1, hbs.2, fun b hb c hc => ?_⟩
  exact (has.2.2 b hb a (List.mem_singleton.mpr rfl)).trans (hbs.1 c hc)

end EventFlags.Within

/-- A listener has its turn. -/
structure Turn (κ : Type) where
  /-- The listener. -/
  listener : Listener κ
  /-- The event as the listener gets it. -/
  event : Event

/-- An event comes by a node. -/
structure Visit (κ : Type) where
  /-- The node. -/
  node : NodeId
  /-- The turns of the listeners there. -/
  turns : List (Turn κ)
  /-- What has been asked of the event when it leaves. -/
  flags : EventFlags

/-- An event goes from one node on its way to the next one as long as it has not been stopped. -/
inductive Visit.Along : List NodeId → List (Visit κ) → Prop
  /-- The event goes no further. -/
  | last {n : NodeId} {turns : List (Turn κ)} {flags : EventFlags} {above : List NodeId}
      (hend : flags.stopped = true ∨ above = []) : Along (n :: above) [⟨n, turns, flags⟩]
  /-- The event goes on. -/
  | next {n : NodeId} {turns : List (Turn κ)} {flags : EventFlags} {above : List NodeId}
      {visits : List (Visit κ)} (hgoing : flags.stopped = false) (hrest : Along above visits) :
      Along (n :: above) (⟨n, turns, flags⟩ :: visits)

variable [Client σ]

namespace Host

variable {host : Host κ σ} {e e' : Event} {w w' : World κ σ}

/-- Listeners have their turns one after the other. Each gets the event as the one before has
    left it. -/
inductive Turns (host : Host κ σ) :
    List (Turn κ) → Event → World κ σ → Event → World κ σ → Prop
  /-- There are none. -/
  | nil (e : Event) (w : World κ σ) : Turns host [] e w e w
  /-- One has its turn, and then the others. -/
  | cons {listener : Listener κ} {turns : List (Turn κ)} {e e₁ e' : Event} {w w₁ w' : World κ σ}
      (hrun : host.runListener listener e w = some (e₁, w₁))
      (hrest : Turns host turns e₁ w₁ e' w') : Turns host (⟨listener, e⟩ :: turns) e w e' w'

/-- An event comes by nodes one after the other. Those have their turn at a node who are its
    listeners when the event comes. -/
inductive Visits (host : Host κ σ) :
    List (Visit κ) → Event → World κ σ → Event → World κ σ → Prop
  /-- It comes by no node. -/
  | nil (e : Event) (w : World κ σ) : Visits host [] e w e w
  /-- It comes by a node, and then by others. -/
  | cons {n : NodeId} {turns : List (Turn κ)} {visits : List (Visit κ)} {e e₁ e' : Event}
      {w w₁ w' : World κ σ} (hhere : turns.map (·.listener) = w.listenersOf n e.kind)
      (hturns : host.Turns turns { e with current := some n }
        { w with pins := .node n :: w.pins } e₁ w₁)
      (hrest : Visits host visits e₁ { w₁ with pins := w.pins } e' w') :
      Visits host (⟨n, turns, e₁.flags⟩ :: visits) e w e' w'

/-- A listener does nothing to an event but raise flags. -/
theorem exists_raise {listener : Listener κ}
    (hrun : host.runListener listener e w = some (e', w')) : ∃ flags, e' = e.raise flags := by
  have hnone : e = e.raise {} := by
    rw [Event.raise, EventFlags.union, Bool.or_false, Bool.or_false]
  cases listener with
  | callback callback =>
      rcases runListener_callback_iff.mp hrun with ⟨flags, _, he⟩
      exact ⟨flags, he⟩
  | handle data method modifiers => exact ⟨modifiers.flags, (runListener_handle_cases hrun).1⟩
  | writeBack data path => exact ⟨{}, (runListener_writeBack_cases hrun).1.trans hnone⟩

/-- Running listeners is giving each of them its turn. -/
theorem runListeners_eq_some_iff {listeners : List (Listener κ)} :
    host.runListeners listeners e w = some (e', w') ↔
      ∃ turns : List (Turn κ), turns.map (·.listener) = listeners ∧
        host.Turns turns e w e' w' := by
  induction listeners generalizing e w with
  | nil =>
      rw [runListeners_nil_iff]
      constructor
      · rintro ⟨rfl, rfl⟩
        exact ⟨[], rfl, .nil e w⟩
      · rintro ⟨turns, hnone, hturns⟩
        rw [List.map_eq_nil_iff] at hnone
        subst hnone
        cases hturns
        exact ⟨rfl, rfl⟩
  | cons listener listeners ih =>
      rw [runListeners_cons_iff]
      constructor
      · rintro ⟨e₁, v, hrun, hrest⟩
        rcases ih.mp hrest with ⟨turns, rfl, hturns⟩
        exact ⟨⟨listener, e⟩ :: turns, rfl, .cons hrun hturns⟩
      · rintro ⟨turns, hlisteners, hturns⟩
        cases hturns with
        | nil => cases hlisteners
        | cons hrun hrest =>
            cases hlisteners
            exact ⟨_, _, hrun, ih.mpr ⟨_, rfl, hrest⟩⟩

/-- Each listener at a node gets the same event, but for flags. -/
theorem Turns.seen {turns : List (Turn κ)} (h : host.Turns turns e w e' w') :
    e' = { e with flags := e'.flags } ∧
      ∀ turn ∈ turns, turn.event = { e with flags := turn.event.flags } := by
  induction h with
  | nil e w => exact ⟨rfl, fun turn hturn => absurd hturn List.not_mem_nil⟩
  | cons hrun _ ih =>
      rcases exists_raise hrun with ⟨flags, rfl⟩
      exact ⟨ih.1, List.forall_mem_cons.mpr ⟨rfl, ih.2⟩⟩

/-- What has been asked of the event before a turn is asked of it after the turn, too. -/
theorem Turns.kept {turns : List (Turn κ)} (h : host.Turns turns e w e' w') :
    (e.flags :: (turns.map (·.event.flags) ++ [e'.flags])).Pairwise EventFlags.Within := by
  induction h with
  | nil e w => exact List.pairwise_pair.mpr (.refl e.flags)
  | @cons listener turns e e₁ e' w w₁ w' hrun _ ih =>
      rcases exists_raise hrun with ⟨flags, rfl⟩
      have hraised : ([e.flags] ++ [(e.raise flags).flags]).Pairwise EventFlags.Within :=
        List.pairwise_pair.mpr (.union e.flags flags)
      have hlater : ([e.flags] ++ (turns.map (·.event.flags) ++ [e'.flags])).Pairwise
          EventFlags.Within := EventFlags.Within.pairwise_append hraised ih
      -- The listener gets the event with the flags that it had before.
      refine List.pairwise_cons.mpr ⟨List.forall_mem_cons.mpr ⟨.refl e.flags, ?_⟩, hlater⟩
      exact (List.pairwise_cons.mp hlater).1

/-- Wherever an event comes, it is the same event, but for flags and where it is. -/
theorem Visits.seen {visits : List (Visit κ)} (h : host.Visits visits e w e' w') :
    e' = { e with current := e'.current, flags := e'.flags } ∧
      ∀ visit ∈ visits, ∀ turn ∈ visit.turns,
        turn.event = { e with current := some visit.node, flags := turn.event.flags } := by
  induction h with
  | nil e w => exact ⟨rfl, fun visit hvisit => absurd hvisit List.not_mem_nil⟩
  | cons _ hturns _ ih =>
      -- The rest of the way starts with the event as it has left this node.
      rcases hturns.seen with ⟨hleft, hseen⟩
      rw [hleft] at ih
      exact ⟨ih.1, List.forall_mem_cons.mpr ⟨hseen, ih.2⟩⟩

/-- What has been asked of the event is never taken back on its way. -/
theorem Visits.kept {visits : List (Visit κ)} (h : host.Visits visits e w e' w') :
    (e.flags :: ((visits.flatMap (·.turns)).map (·.event.flags) ++ [e'.flags])).Pairwise
      EventFlags.Within := by
  induction h with
  | nil e w => exact List.pairwise_pair.mpr (.refl e.flags)
  | cons _ hturns _ ih =>
      rw [List.flatMap_cons, List.map_append, List.append_assoc, ← List.cons_append]
      exact EventFlags.Within.pairwise_append hturns.kept ih

end Host

/-! ### Where the event goes -/

namespace Host

variable {host : Host κ σ} {w v w' : World κ σ} {e e' : Event} {kind : String} {n m : NodeId}
  {below above : List NodeId} {flags : EventFlags} {Q : World κ σ → Prop}

/-- Listeners to a kind of event on the way up from a node come to an end and leave the way as it
    is, if a condition says of the world what they rely on and keep. -/
structure KeepsWay (host : Host κ σ) (w : World κ σ) (n : NodeId) (kind : String)
    (Q : World κ σ → Prop) : Prop where
  /-- The condition is met at first. -/
  start : Q w
  /-- It is met, too, while nodes on the way are held on to. -/
  pinned : ∀ v, Q v → ∀ ns, ns ⊆ w.lineage n → Q { v with pins := ns.map .node ++ w.pins }
  /-- Where it is met, the nodes on the way have the parents that they had. -/
  parent : ∀ v, Q v → ∀ m ∈ w.lineage n, v.parent? m = w.parent? m
  /-- Where it is met, a listener comes to an end, and the condition is met then. -/
  ends : ∀ u v, Q u → Q v → ∀ m ∈ w.lineage n, ∀ listener ∈ u.listenersOf m kind, ∀ flags,
    ∃ e' v', host.runListener listener ⟨kind, some n, some m, flags⟩ v = some (e', v') ∧ Q v'

namespace KeepsWay

/-- The listeners at a node come to an end. -/
theorem exists_runListeners (h : host.KeepsWay w n kind Q) (hm : m ∈ w.lineage n)
    {listeners : List (Listener κ)}
    (hlisteners : ∃ u, Q u ∧ ∀ listener ∈ listeners, listener ∈ u.listenersOf m kind) (hv : Q v)
    (flags : EventFlags) : ∃ flags' v',
      host.runListeners listeners ⟨kind, some n, some m, flags⟩ v =
        some (⟨kind, some n, some m, flags'⟩, v') ∧ Q v' := by
  rcases hlisteners with ⟨u, hu, hlisteners⟩
  induction listeners generalizing v flags with
  | nil => exact ⟨flags, v, rfl, hv⟩
  | cons listener listeners ih =>
      rw [List.forall_mem_cons] at hlisteners
      rcases h.ends u v hu hv m hm listener hlisteners.1 flags with ⟨e₁, v₁, hrun, hv₁⟩
      rcases exists_raise hrun with ⟨asked, rfl⟩
      rcases ih hv₁ (flags.union asked) hlisteners.2 with ⟨flags', v', hrest, hv'⟩
      refine ⟨flags', v', ?_, hv'⟩
      rw [runListeners, Run.bind_of_eq_some hrun]
      exact hrest

/-- An event comes to a node on its way up. When it leaves, the way is as it was. -/
theorem exists_visit (h : host.KeepsWay w n kind Q) (hself : n ∈ w.lineage n)
    (hm : m ∈ w.lineage n) (hv : Q v) (hpins : v.pins = .node n :: w.pins) (flags : EventFlags) :
    ∃ turns flags' v',
      host.runListeners (v.listenersOf m kind) ⟨kind, some n, some m, flags⟩
        { v with pins := .node m :: v.pins } = some (⟨kind, some n, some m, flags'⟩, v') ∧
      (∀ visits e' w' current,
        host.Visits visits ⟨kind, some n, some m, flags'⟩ { v' with pins := v.pins } e' w' →
        host.Visits (⟨m, turns, flags'⟩ :: visits) ⟨kind, some n, current, flags⟩ v e' w') ∧
      Q { v' with pins := v.pins } := by
  -- While the listeners run, the node is held on to besides the target.
  have hhere : Q { v with pins := .node m :: v.pins } := by
    rw [hpins]
    exact h.pinned v hv [m, n]
      (List.forall_mem_cons.mpr ⟨hm, List.forall_mem_singleton.mpr hself⟩)
  rcases h.exists_runListeners hm ⟨v, hv, fun _ => id⟩ hhere flags with ⟨flags', v', hrun, hv'⟩
  rcases runListeners_eq_some_iff.mp hrun with ⟨turns, hlisteners, hturns⟩
  refine ⟨turns, flags', v', hrun, fun _ _ _ _ hrest => .cons hlisteners hturns hrest, ?_⟩
  rw [hpins]
  exact h.pinned v' hv' [n] (List.forall_mem_singleton.mpr hself)

/-- An event comes to an end on its way up, and it has gone that way as long as it had not been
    stopped. -/
theorem exists_visits (h : host.KeepsWay w n kind Q)
    (hparent : ∀ below m above, w.lineage n = below ++ m :: above → w.parent? m = above.head?)
    {limit : Nat} (hway : w.lineage n = below ++ m :: above) (hlimit : above.length < limit)
    (hself : n ∈ w.lineage n) (hv : Q v) (hpins : v.pins = .node n :: w.pins)
    (flags : EventFlags) (current : Option NodeId) :
    ∃ visits e' w', host.climb limit m ⟨kind, some n, current, flags⟩ v = some (e', w') ∧
      host.Visits visits ⟨kind, some n, current, flags⟩ v e' w' ∧
        Visit.Along (m :: above) visits := by
  -- The event is somewhere on the way, and as many nodes as are left above it may be reached.
  induction limit generalizing m below above v flags current with
  | zero => exact absurd hlimit (Nat.not_lt_zero above.length)
  | succ limit ih =>
      have hm : m ∈ w.lineage n := hway ▸ List.mem_append_right below List.mem_cons_self
      rcases h.exists_visit hself hm hv hpins flags with ⟨turns, flags', v', hrun, hvisit, hleft⟩
      have hnext : World.parent? { v' with pins := v.pins } m = above.head? :=
        (h.parent _ hleft m hm).trans (hparent below m above hway)
      -- Where the event goes from here is a matter of the flags alone, since the way is known.
      rw [climb_of_runListeners hrun, hnext]
      cases hstopped : flags'.stopped with
      | true => exact ⟨_, _, _, rfl, hvisit [] _ _ _ (.nil _ _), .last (.inl hstopped)⟩
      | false =>
          cases above with
          | nil => exact ⟨_, _, _, rfl, hvisit [] _ _ _ (.nil _ _), .last (.inr rfl)⟩
          | cons p above =>
              rcases ih (List.append_cons .. ▸ hway) (Nat.lt_of_succ_lt_succ hlimit) hleft hpins
                flags' (some m) with ⟨visits, e', w', hclimb, hvisits, halong⟩
              exact ⟨_, e', w', hclimb, hvisit visits e' w' current hvisits,
                .next hstopped halong⟩

end KeepsWay

/-- What dispatching an event at a node does. -/
structure Dispatched (host : Host κ σ) (n : NodeId) (e : Event) (w : World κ σ)
    (visits : List (Visit κ)) (e' : Event) (w' : World κ σ) : Prop where
  /-- The event comes by nodes, while its target is held on to. -/
  ran : ∃ e₁ v, host.Visits visits { e with target := some n }
    { w with pins := .node n :: w.pins } e₁ v ∧
      e' = { e₁ with current := none } ∧ w' = { v with pins := w.pins }
  /-- These are its target and the nodes above it, up to the first one where it is stopped. -/
  along : Visit.Along (w.lineage n) visits
  /-- Listeners are told where the event comes from and where it is. -/
  seen : ∀ visit ∈ visits, ∀ turn ∈ visit.turns,
    turn.event = ⟨e.kind, some n, some visit.node, turn.event.flags⟩
  /-- What has been asked of the event is never taken back. -/
  kept : (e.flags :: ((visits.flatMap (·.turns)).map (·.event.flags) ++ [e'.flags])).Pairwise
    EventFlags.Within
  /-- In the end the event is nowhere. -/
  answer : e' = ⟨e.kind, some n, none, e'.flags⟩

/-- Dispatching an event comes to an end, and it has reached the nodes on its way up to the first
    one where it has been stopped, and there everybody who had listened when it came. -/
theorem KeepsWay.exists_dispatched (h : host.KeepsWay w n e.kind Q) (hw : w.Arranged w.Lives)
    (hn : n.index < w.nodes.size) (hpatience : (w.lineage n).length ≤ host.patience) :
    ∃ visits e' w', host.dispatch n e w = some (e', w') ∧
      host.Dispatched n e w visits e' w' := by
  rcases World.exists_lineage hn with ⟨above, hway⟩
  have hfirst : w.lineage n = [] ++ n :: above := hway
  have hself : n ∈ w.lineage n := hway ▸ List.mem_cons_self
  have hstart : Q { w with pins := .node n :: w.pins } :=
    h.pinned w h.start [n] (List.forall_mem_singleton.mpr hself)
  have hlimit : above.length < host.patience := by
    rwa [hway] at hpatience
  rcases h.exists_visits (fun _ _ _ => hw.parent?_of_lineage hn) hfirst hlimit hself hstart rfl
    e.flags e.current with ⟨visits, e₁, v, hclimb, hvisits, halong⟩
  have hpinned : Run.pinned [.node n] (host.climb host.patience n { e with target := some n }) w =
      some (e₁, { v with pins := w.pins }) :=
    Run.pinned_eq_some_iff.mpr ⟨v, hclimb, rfl⟩
  refine ⟨visits, { e₁ with current := none }, { v with pins := w.pins }, ?_, ?_⟩
  · rw [dispatch, Run.bind_of_eq_some hpinned]
    rfl
  · rcases hvisits.seen with ⟨hleft, hseen⟩
    exact {
      ran := ⟨e₁, v, hvisits, rfl, rfl⟩
      along := hway ▸ halong
      seen := hseen
      kept := hvisits.kept
      answer := by rw [hleft] }

end Host

/-! ### Callbacks that only listen -/

namespace World

/-- Nobody listens but callbacks. -/
def OnlyCallbacks (w : World κ σ) : Prop :=
  ∀ m, ∀ entry ∈ (w.node m).listeners, ∃ callback, entry.2 = .callback callback

omit [Client σ] in
/-- One more callback may listen. -/
theorem OnlyCallbacks.listen {w : World κ σ} (h : w.OnlyCallbacks) (n : NodeId) (kind : String)
    (callback : κ) : (w.listen n kind (.callback callback)).OnlyCallbacks := by
  intro m entry hentry
  rw [World.listen, node_updateNode] at hentry
  split at hentry
  · rcases List.mem_append.mp hentry with hentry | hentry
    · exact h m entry hentry
    · rw [List.mem_singleton.mp hentry]
      exact ⟨callback, rfl⟩
  · exact h m entry hentry

omit [Client σ] in
/-- Who hears of an event is a callback. -/
theorem OnlyCallbacks.exists_callback {w : World κ σ} (h : w.OnlyCallbacks) {n : NodeId}
    {kind : String} {listener : Listener κ} (hlistener : listener ∈ w.listenersOf n kind) :
    ∃ callback, listener = .callback callback := by
  rw [listenersOf, List.mem_map] at hlistener
  rcases hlistener with ⟨entry, hentry, rfl⟩
  exact h n entry (List.mem_of_mem_filter hentry)

omit [Client σ] in
/-- Nobody needs to listen at all. -/
theorem OnlyCallbacks.of_isEmpty {w : World κ σ}
    (h : ∀ i < w.nodes.size, (w.node ⟨i⟩).listeners.isEmpty = true) : w.OnlyCallbacks := by
  intro m entry hentry
  by_cases hm : m.index < w.nodes.size
  · rw [List.isEmpty_iff.mp (h m.index hm)] at hentry
    exact absurd hentry List.not_mem_nil
  · rw [node_of_size_le (Nat.le_of_not_lt hm)] at hentry
    exact absurd hentry List.not_mem_nil

/-- The view has changed in who listens and in what has been entered at most, and nodes on the way
    up from a node are held on to. -/
structure Overheard (w : World κ σ) (n : NodeId) (v : World κ σ) : Prop where
  /-- Objects, registries, subscribers and the client are as they were. -/
  rest : v.objects = w.objects ∧ v.registries = w.registries ∧ v.subscribers = w.subscribers ∧
    v.client = w.client
  /-- Nodes are as they were. -/
  shape : w.SameShape v
  /-- Nodes on the way up are held on to. -/
  pins : ∃ ns, ns ⊆ w.lineage n ∧ v.pins = ns.map .node ++ w.pins
  /-- Nobody listens but callbacks. -/
  callbacks : v.OnlyCallbacks

namespace Overheard

variable {w v : World κ σ} {n : NodeId}

/-- The same nodes are there. -/
theorem alive_iff (h : w.Overheard n v) (hw : w.Arranged w.Lives) (hn : w.Lives n) {p : NodeId}
    (hp : p.index < w.nodes.size) : v.alive (.node p) = true ↔ w.alive (.node p) = true := by
  rcases h.pins with ⟨ns, hns, hpins⟩
  rcases h.rest with ⟨hobjects, hregistries, hsubscribers, hclient⟩
  constructor
  · -- What is held on to besides is above a node that is there, so it is there anyway.
    refine alive_of_nodes hobjects hregistries hsubscribers h.shape.size.ge (fun x _ hx => ?_)
      (fun q c _ hc => .inl ((h.shape.place q).1 ▸ hc)) (mem_handles_node.mpr hp)
    rw [rooted_eq_true_iff, hpins, hclient, List.mem_append] at hx
    rcases hx with (hx | hx) | hx
    · rcases List.mem_map.mp hx with ⟨m, hm, rfl⟩
      exact (hw.lives_of_mem_lineage hn (hns hm)).2
    · exact alive_of_mem_pins hx
    · exact alive_of_mem_held hx
  · refine alive_of_nodes hobjects.symm hregistries.symm hsubscribers.symm h.shape.size.le
      (fun x _ hx => ?_) (fun q c _ hc => .inl ((h.shape.place q).1 ▸ hc))
      (mem_handles_node.mpr (h.shape.size.ge.trans_lt' hp))
    rw [rooted_eq_true_iff] at hx
    rcases hx with hx | hx
    · exact alive_of_mem_pins (hpins ▸ List.mem_append_right _ hx)
    · exact alive_of_mem_held (hclient ▸ hx)

/-- Nodes have the parents that they had. -/
theorem parent?_eq (h : w.Overheard n v) (hw : w.Arranged w.Lives) (hn : w.Lives n) (m : NodeId) :
    v.parent? m = w.parent? m := by
  rw [parent?, parent?, (h.shape.place m).2]
  cases hlink : (w.node m).parent with
  | none => rfl
  | some p =>
      have halive := Bool.eq_iff_iff.mpr (h.alive_iff hw hn (hw.linked m p hlink))
      rw [Option.filter_some, Option.filter_some, halive]

end Overheard

end World

namespace Host

variable {host : Host κ σ} {w : World κ σ} {n : NodeId}

/-- When an event reaches callbacks they come to an end, and have done nothing to the world but
    have callbacks listen. -/
def OnlyListens (host : Host κ σ) : Prop :=
  ∀ callback e v, ∃ flags v', host.call callback (.reached e) v = some (flags, v') ∧
    v.OnlyNodes v' ∧ v.SameShape v' ∧ (v.OnlyCallbacks → v'.OnlyCallbacks)

/-- Callbacks that only listen come to an end and leave the way up as it is, in every view. -/
theorem OnlyListens.keepsWay (hhost : host.OnlyListens) (hw : w.Arranged w.Lives) (hn : w.Lives n)
    (hcallbacks : w.OnlyCallbacks) (kind : String) : host.KeepsWay w n kind (w.Overheard n) where
  start := ⟨⟨rfl, rfl, rfl, rfl⟩, .of_nodes rfl, ⟨[], List.nil_subset _, rfl⟩, hcallbacks⟩
  pinned v hv ns hns :=
    ⟨hv.rest, ⟨hv.shape.size, hv.shape.content, hv.shape.place⟩, ⟨ns, hns, rfl⟩, hv.callbacks⟩
  parent v hv m _ := hv.parent?_eq hw hn m
  ends u v hu hv m _ listener hlistener flags := by
    rcases hu.callbacks.exists_callback hlistener with ⟨callback, rfl⟩
    rcases hv.rest with ⟨hobjects, hregistries, hsubscribers, hclient⟩
    rcases hhost callback ⟨kind, some n, some m, flags⟩ v with
      ⟨asked, v', hcall, honly, hshape, hkept⟩
    rw [runListener, Run.bind_of_eq_some hcall]
    refine ⟨_, v', rfl, ?_, hv.shape.trans hshape, ?_, hkept hv.callbacks⟩
    · exact ⟨honly.objects.trans hobjects, honly.registries.trans hregistries,
        honly.subscribers.trans hsubscribers, honly.client.trans hclient⟩
    · rw [honly.pins]
      exact hv.pins

end Host

open World ViewCommand

/-- A host whose callbacks, at the first item of a list, have themselves listen there and at the
    list, and elsewhere stop the event. -/
def spreading : Host (Code Unit) (Journal Unit) where
  call callback
    | .reached e =>
      if e.current = some ⟨1⟩ then do
        Run.change fun w =>
          (w.listen ⟨1⟩ e.kind (.callback callback)).listen ⟨0⟩ e.kind (.callback callback)
        pure { prevented := true }
      else pure { stopped := true }
    | _ => pure {}
  patience := 2

theorem spreading_onlyListens : spreading.OnlyListens := by
  intro callback e v
  by_cases hitem : e.current = some ⟨1⟩
  · refine ⟨{ prevented := true },
      (v.listen ⟨1⟩ e.kind (.callback callback)).listen ⟨0⟩ e.kind (.callback callback), ?_, rfl,
      (SameShape.listen v _ _ _).trans (SameShape.listen _ _ _ _),
      fun hv => (hv.listen ⟨1⟩ e.kind callback).listen ⟨0⟩ e.kind callback⟩
    simp only [spreading, hitem, if_true]
    rfl
  · refine ⟨{ stopped := true }, v, ?_, rfl, .of_nodes rfl, id⟩
    simp only [spreading, hitem, if_false]
    rfl

/-- A list with a callback that listens at its first item. -/
def overheardListing : ClientWorld Unit Unit :=
  listingWorld.listen ⟨1⟩ "click" (.callback (.method ()))

theorem callbacks_listing : listingWorld.OnlyCallbacks :=
  .of_isEmpty (by decide +kernel)

/-- The callback at the item has its turn once, although it has itself listen there. So it has at
    the list, which the event has not reached by then. -/
theorem exists_dispatched_listing :
    overheardListing.Arranged overheardListing.Lives ∧
      (overheardListing.lineage ⟨1⟩).length ≤ spreading.patience ∧
      ∃ visits e' w', spreading.dispatch ⟨1⟩ { kind := "click" } overheardListing = some (e', w') ∧
        spreading.Dispatched ⟨1⟩ { kind := "click" } overheardListing visits e' w' ∧
        e'.flags = ⟨true, true⟩ ∧ (w'.listenersOf ⟨1⟩ "click").length = 2 ∧
        (w'.listenersOf ⟨0⟩ "click").length = 1 := by
  have harranged : overheardListing.Arranged overheardListing.Lives := by
    have hlisting : listingWorld.Arranged listingWorld.Lives :=
      runAll_arranged (arranged_start ()) (Option.some_get isSome_listing).symm
    exact hlisting.updateContent ⟨1⟩ (fun _ => rfl) fun _ => rfl
  have hcallbacks : overheardListing.OnlyCallbacks :=
    callbacks_listing.listen ⟨1⟩ "click" (Code.method ())
  have hitem : overheardListing.Lives ⟨1⟩ := ⟨by decide +kernel, by decide +kernel⟩
  have hpatience : (overheardListing.lineage ⟨1⟩).length ≤ spreading.patience := by
    decide +kernel
  have hkeeps := spreading_onlyListens.keepsWay harranged hitem hcallbacks "click"
  rcases hkeeps.exists_dispatched (e := { kind := "click" }) harranged
    hitem.1 hpatience with ⟨visits, e', w', hrun, hdispatched⟩
  have hend : (spreading.dispatch ⟨1⟩ { kind := "click" } overheardListing).map
      (fun r => (r.1.flags, (r.2.listenersOf ⟨1⟩ "click").length,
        (r.2.listenersOf ⟨0⟩ "click").length)) = some (⟨true, true⟩, 2, 1) := by
    decide +kernel
  rw [hrun, Option.map_some, Option.some.injEq, Prod.mk.injEq, Prod.mk.injEq] at hend
  exact ⟨harranged, hpatience, visits, e', w', hrun, hdispatched, hend⟩

end LiveTemplate
