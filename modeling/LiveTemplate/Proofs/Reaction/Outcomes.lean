import LiveTemplate.Proofs.Reaction.Running
import LiveTemplate.Proofs.Store.Trail
import LiveTemplate.Reaction.Dispatch

/-!
# Taking Operations Apart

What the operations of a host have done, if they have come to an end.

Everything that is shown about updates, writes and events goes through the same cases: the
object of a watcher may be gone, a path may lead nowhere, a value may be there already, an
event may have been stopped. The cases stand here, once for each operation, with all that the
operation has looked at and the world in which each part of it has run. So whoever shows that
an operation keeps something has to look at the parts only, and not at how the operation puts
them together.

An operation that holds on to something runs its part in a world with more pins, and lets go of
them afterwards. That is written out, since what is held on to decides what is alive.

## Theorems

* `Run.render_eq_some_iff`: Showing a value.
* `Host.refreshWatcher_cases`, `Host.refresh_cases`: Updating a watcher or another subscriber.
* `Host.refreshAll_cons_iff`, `Host.notify_iff_refreshAll`: Updating several of them.
* `Host.setProperty_cases`, `Host.setPath_cases`: Writing a value.
* `Host.runListener_callback_iff`, `Host.runListener_handle_cases`,
  `Host.runListener_writeBack_cases`: What the three kinds of listeners do.
* `Host.climb_cases`, `Host.dispatch_eq_some_iff`, `Host.input_eq_some_iff`: An event on its way.
-/

namespace LiveTemplate

variable {κ σ : Type} [Client σ] {w w' : World κ σ} {u : Unit}

/-- A value is shown if it has a plain form. -/
theorem Run.render_eq_some_iff {r : Rendering} {value : Data} :
    Run.render r value w = some (u, w') ↔
      ∃ shown, w.display? value = some shown ∧ w' = w.render r shown := by
  simp only [Run.render, Run.display, Run.bind_eq_some_iff, Run.get_eq_some_iff,
    Run.ofOption_eq_some_iff, Run.change_eq_some_iff]
  constructor
  · rintro ⟨shown, _, ⟨_, _, ⟨rfl, rfl⟩, hshown, rfl⟩, rfl⟩
    exact ⟨shown, hshown, rfl⟩
  · rintro ⟨shown, hshown, rfl⟩
    exact ⟨shown, w, ⟨w, w, ⟨rfl, rfl⟩, hshown, rfl⟩, rfl⟩

namespace Host

variable {host : Host κ σ} {s : SubscriberId} {d : Data} {o root : ObjectId} {key path : String}
  {result : Except BindingError Bool} {e e' : Event} {n : NodeId}

/-! ### Updates -/

/-- Acting on a value by showing it. -/
theorem perform_render_iff {r : Rendering} :
    host.perform (.render r) d w = some (u, w') ↔
      ∃ shown, w.display? d = some shown ∧ w' = w.render r shown :=
  Run.render_eq_some_iff

/-- Acting on a value by calling somebody. -/
theorem perform_call_iff {c : κ} :
    host.perform (.call c) d w = some (u, w') ↔
      ∃ flags, host.call c (.changed d) w = some (flags, w') := by
  simp only [perform, Run.bind_eq_some_iff, Run.pure_eq_some_iff]
  constructor
  · rintro ⟨flags, v, hcall, _, rfl⟩
    exact ⟨flags, hcall⟩
  · rintro ⟨flags, hcall⟩
    exact ⟨flags, w', hcall, trivial, rfl⟩

/-- Updating a watcher. Its object is gone, or its path leads nowhere, or it acts on the value
    that it finds, which is held on to meanwhile. -/
theorem refreshWatcher_cases {wt : Watcher κ}
    (hrun : host.refreshWatcher s wt w = some (u, w')) :
    w.alive (.object wt.root) = false ∧ w' = w ∨
      w.alive (.object wt.root) = true ∧
        ((∃ error v, World.readPath { w with pins := [.object wt.root] ++ w.pins } (some s) wt.root
            wt.path = (.error error, v) ∧
          w' = { v.notice (.watcherUnresolved error) with pins := w.pins }) ∨
        ∃ value v v', World.readPath { w with pins := [.object wt.root] ++ w.pins } (some s)
            wt.root wt.path = (.ok value, v) ∧
          host.perform wt.effect value { v.notice (.watcherUpdated wt.path) with
            pins := value.owned ++ v.pins } = some ((), v') ∧
          w' = { v' with pins := w.pins }) := by
  simp only [refreshWatcher, Run.bind_eq_some_iff, Run.get_eq_some_iff] at hrun
  rcases hrun with ⟨_, _, ⟨rfl, rfl⟩, hrun⟩
  split at hrun
  · next halive =>
      simp only [Run.pinned_eq_some_iff, Run.bind_eq_some_iff, Run.apply_eq_some_iff] at hrun
      rcases hrun with ⟨_, ⟨found, v, hread, hrun⟩, rfl⟩
      refine .inr ⟨halive, ?_⟩
      cases found with
      | error error =>
          simp only [Run.notice, Run.change_eq_some_iff] at hrun
          subst hrun
          exact .inl ⟨error, v, hread, rfl⟩
      | ok value =>
          simp only [Run.notice, Run.bind_eq_some_iff, Run.change_eq_some_iff,
            Run.pinned_eq_some_iff] at hrun
          rcases hrun with ⟨_, _, rfl, v', hperform, rfl⟩
          exact .inr ⟨value, v, v', hread, hperform, rfl⟩
  · next halive =>
      rw [Run.pure_eq_some_iff] at hrun
      exact .inl ⟨Bool.eq_false_iff.mpr halive, hrun.2.symm⟩

/-- Updating a subscriber: nobody, a watcher, or a callback. -/
theorem refresh_cases (hrun : host.refresh s w = some (u, w')) :
    w.subscriber? s = none ∧ w' = w ∨
      (∃ wt, w.subscriber? s = some (.watcher wt) ∧
        host.refreshWatcher s wt w = some ((), w')) ∨
      ∃ c flags, w.subscriber? s = some (.probe c) ∧
        host.call c .updated w = some (flags, w') := by
  simp only [refresh, Run.bind_eq_some_iff, Run.get_eq_some_iff] at hrun
  rcases hrun with ⟨_, _, ⟨rfl, rfl⟩, hrun⟩
  cases hs : w.subscriber? s with
  | none =>
      rw [hs, Run.pure_eq_some_iff] at hrun
      exact .inl ⟨rfl, hrun.2.symm⟩
  | some subscriber =>
      rw [hs] at hrun
      cases subscriber with
      | watcher wt => exact .inr (.inl ⟨wt, rfl, hrun⟩)
      | probe c =>
          simp only [Run.bind_eq_some_iff, Run.pure_eq_some_iff] at hrun
          rcases hrun with ⟨flags, v, hcall, _, rfl⟩
          exact .inr (.inr ⟨c, flags, rfl, hcall⟩)

theorem refreshAll_nil_iff : host.refreshAll [] w = some (u, w') ↔ w = w' := by
  rw [refreshAll, Run.pure_eq_some_iff]
  exact and_iff_right rfl

/-- Updating several subscribers: the first one's turn, while all of them are held on to, and
    then the others'. -/
theorem refreshAll_cons_iff {rest : List SubscriberId} :
    host.refreshAll (s :: rest) w = some (u, w') ↔
      ∃ v, host.refresh s { w with pins := (s :: rest).map .subscriber ++ w.pins } =
          some ((), v) ∧
        host.refreshAll rest { v with pins := w.pins } = some (u, w') := by
  simp only [refreshAll, Run.bind_eq_some_iff, Run.pinned_eq_some_iff]
  constructor
  · rintro ⟨_, _, ⟨v, hfirst, rfl⟩, hrest⟩
    exact ⟨v, hfirst, hrest⟩
  · rintro ⟨v, hfirst, hrest⟩
    exact ⟨(), _, ⟨v, hfirst, rfl⟩, hrest⟩

/-- Updating the subscribers of a registry. -/
theorem notify_iff_refreshAll {registry : Registry} :
    host.notify registry w = some (u, w') ↔
      host.refreshAll registry.subscribers (w.notice (.notified registry.subscribers.length)) =
        some (u, w') := by
  simp only [notify, Run.notice, Run.bind_eq_some_iff, Run.change_eq_some_iff]
  constructor
  · rintro ⟨_, _, rfl, hrun⟩
    exact hrun
  · intro hrun
    exact ⟨(), _, rfl, hrun⟩

/-! ### Writes -/

/-- Writing a property: there is none, or the value is there already, or it is written and the
    subscribers of the property are updated. -/
theorem setProperty_cases (hrun : host.setProperty o key d w = some (result, w')) :
    w.property? o key = none ∧ result = .error (.unobserved key) ∧ w' = w ∨
      ∃ p, w.property? o key = some p ∧
        (p.value.same d = true ∧ result = .ok false ∧ w' = w ∨
          p.value.same d = false ∧ result = .ok true ∧
            host.notify p.registry (w.updateProperty o key fun p => { p with value := d }) =
              some ((), w')) := by
  simp only [setProperty, Run.bind_eq_some_iff, Run.get_eq_some_iff] at hrun
  rcases hrun with ⟨_, _, ⟨rfl, rfl⟩, hrun⟩
  cases hp : w.property? o key with
  | none =>
      rw [hp, Run.pure_eq_some_iff] at hrun
      exact .inl ⟨rfl, hrun.1.symm, hrun.2.symm⟩
  | some p =>
      rw [hp] at hrun
      dsimp only at hrun
      refine .inr ⟨p, rfl, ?_⟩
      split at hrun
      · next hsame =>
          rw [Run.pure_eq_some_iff] at hrun
          exact .inl ⟨hsame, hrun.1.symm, hrun.2.symm⟩
      · next hother =>
          simp only [Run.bind_eq_some_iff, Run.change_eq_some_iff, Run.pure_eq_some_iff] at hrun
          rcases hrun with ⟨_, _, rfl, _, v, hnotify, rfl, rfl⟩
          exact .inr ⟨Bool.eq_false_iff.mpr hother, rfl, hnotify⟩

/-- Writing at the end of a path: the path leads nowhere, or the value is written into the
    property to which it leads. That one is looked for untracked, so the write begins in the
    same world. -/
theorem setPath_cases (hrun : host.setPath root path d w = some (result, w')) :
    (∃ error, w.resolve none root path = (.error error, w) ∧ result = .error error ∧ w' = w) ∨
      ∃ o key answer v, w.resolve none root path = (.ok (o, key), w) ∧
        host.setProperty o key d { w with pins := [.object o] ++ w.pins } = some (answer, v) ∧
        result = answer.mapError (fun _ => .unobserved path) ∧ w' = { v with pins := w.pins } := by
  simp only [setPath, Run.bind_eq_some_iff, Run.apply_eq_some_iff] at hrun
  rcases hrun with ⟨resolved, v, hresolve, hrun⟩
  rcases w.resolve_none_spec root path with ⟨resolved', hresolve', _⟩
  rw [hresolve', Prod.mk.injEq] at hresolve
  rcases hresolve with ⟨rfl, rfl⟩
  cases resolved' with
  | error error =>
      rw [Run.pure_eq_some_iff] at hrun
      exact .inl ⟨error, hresolve', hrun.1.symm, hrun.2.symm⟩
  | ok field =>
      rcases field with ⟨o, key⟩
      simp only [Run.bind_eq_some_iff, Run.pinned_eq_some_iff] at hrun
      rcases hrun with ⟨answer, _, ⟨v, hset, rfl⟩, hrun⟩
      refine .inr ⟨o, key, answer, v, hresolve', hset, ?_⟩
      cases answer with
      | ok changed =>
          rw [Run.pure_eq_some_iff] at hrun
          exact ⟨hrun.1.symm, hrun.2.symm⟩
      | error error =>
          rw [Run.pure_eq_some_iff] at hrun
          exact ⟨hrun.1.symm, hrun.2.symm⟩

/-! ### Listeners -/

/-- Running a callback that listens. -/
theorem runListener_callback_iff {c : κ} :
    host.runListener (.callback c) e w = some (e', w') ↔
      ∃ flags, host.call c (.reached e) w = some (flags, w') ∧ e' = e.raise flags := by
  simp only [runListener, Run.bind_eq_some_iff, Run.pure_eq_some_iff]
  constructor
  · rintro ⟨flags, v, hcall, rfl, rfl⟩
    exact ⟨flags, hcall, rfl⟩
  · rintro ⟨flags, hcall, rfl⟩
    exact ⟨flags, w', hcall, rfl, rfl⟩

/-- Running a handler: it does to the event what its modifiers ask for, and calls its method if
    its data is alive. -/
theorem runListener_handle_cases {data : ObjectId} {method : κ} {modifiers : Modifiers}
    (hrun : host.runListener (.handle data method modifiers) e w = some (e', w')) :
    e' = e.raise modifiers.flags ∧
      (w.alive (.object data) = false ∧ w' = w ∨
        w.alive (.object data) = true ∧
          ∃ flags v, host.call method (.invoked data (some (e.raise modifiers.flags)))
              { w with pins := [.object data] ++ w.pins } = some (flags, v) ∧
            w' = { v with pins := w.pins }) := by
  simp only [runListener, Run.bind_eq_some_iff, Run.get_eq_some_iff] at hrun
  rcases hrun with ⟨_, _, ⟨rfl, rfl⟩, hrun⟩
  split at hrun
  · next halive =>
      simp only [Run.bind_eq_some_iff, Run.pinned_eq_some_iff, Run.pure_eq_some_iff] at hrun
      rcases hrun with ⟨_, _, ⟨_, ⟨flags, v, hcall, _, rfl⟩, rfl⟩, rfl, rfl⟩
      exact ⟨rfl, .inr ⟨halive, flags, v, hcall, rfl⟩⟩
  · next halive =>
      rw [Run.pure_eq_some_iff] at hrun
      exact ⟨hrun.1.symm, .inl ⟨Bool.eq_false_iff.mpr halive, hrun.2.symm⟩⟩

/-- What the listener of a form field does: nothing, or it writes what the field holds, and takes
    note of a write that fails. -/
theorem runListener_writeBack_cases {data : ObjectId}
    (hrun : host.runListener (.writeBack data path) e w = some (e', w')) :
    e' = e ∧ ((w' = w ∧ (w.alive (.object data) = true → e.current = none)) ∨
      ∃ n result v, e.current = some n ∧ w.alive (.object data) = true ∧
        host.setPath data path (.plain (.string (w.node n).value))
          { w with pins := .object data :: w.pins } = some (result, v) ∧
        (w' = { v with pins := w.pins } ∨ ∃ error, result = .error error ∧
          w' = { v.notice (.writeBackFailed error) with pins := w.pins })) := by
  simp only [runListener] at hrun
  cases hcurrent : e.current with
  | none =>
      rw [hcurrent, Run.pure_eq_some_iff] at hrun
      rcases hrun with ⟨rfl, rfl⟩
      exact ⟨rfl, .inl ⟨rfl, fun _ => rfl⟩⟩
  | some n =>
      rw [hcurrent] at hrun
      simp only [Run.bind_eq_some_iff, Run.get_eq_some_iff] at hrun
      rcases hrun with ⟨_, _, ⟨rfl, rfl⟩, hrun⟩
      split at hrun
      · next halive =>
          simp only [Run.bind_eq_some_iff, Run.pinned_eq_some_iff, Run.get_eq_some_iff,
            Run.pure_eq_some_iff] at hrun
          rcases hrun with ⟨_, _, ⟨_, ⟨_, _, ⟨rfl, rfl⟩, result, v, hset, hnote⟩, rfl⟩, rfl, rfl⟩
          refine ⟨rfl, .inr ⟨n, result, v, rfl, halive, hset, ?_⟩⟩
          cases result with
          | ok changed =>
              rw [Run.pure_eq_some_iff] at hnote
              rcases hnote with ⟨_, rfl⟩
              exact .inl rfl
          | error error =>
              simp only [Run.notice, Run.change_eq_some_iff] at hnote
              subst hnote
              exact .inr ⟨error, rfl, rfl⟩
      · next halive =>
          rw [Run.pure_eq_some_iff] at hrun
          rcases hrun with ⟨rfl, rfl⟩
          exact ⟨rfl, .inl ⟨rfl, fun h => absurd h halive⟩⟩

theorem runListeners_nil_iff : host.runListeners [] e w = some (e', w') ↔ e = e' ∧ w = w' := by
  rw [runListeners, Run.pure_eq_some_iff]

theorem runListeners_cons_iff {listener : Listener κ} {rest : List (Listener κ)} :
    host.runListeners (listener :: rest) e w = some (e', w') ↔
      ∃ e₁ v, host.runListener listener e w = some (e₁, v) ∧
        host.runListeners rest e₁ v = some (e', w') := by
  rw [runListeners, Run.bind_eq_some_iff]

/-! ### Events -/

theorem climb_zero_eq_some_iff : host.climb 0 n e w = some (e', w') ↔ False :=
  Run.stuck_eq_some_iff

/-- An event has come to a node. It goes no further if it has been stopped, or if there is nothing
    above the node. -/
theorem climb_cases {limit : Nat} (hrun : host.climb (limit + 1) n e w = some (e', w')) :
    ∃ e₁ v, host.runListeners (w.listenersOf n e.kind) { e with current := some n }
        { w with pins := [.node n] ++ w.pins } = some (e₁, v) ∧
      (e₁.flags.stopped = true ∧ e' = e₁ ∧ w' = { v with pins := w.pins } ∨
        e₁.flags.stopped = false ∧ World.parent? { v with pins := w.pins } n = none ∧ e' = e₁ ∧
          w' = { v with pins := w.pins } ∨
        e₁.flags.stopped = false ∧ ∃ p, World.parent? { v with pins := w.pins } n = some p ∧
          host.climb limit p e₁ { v with pins := w.pins } = some (e', w')) := by
  simp only [climb, Run.bind_eq_some_iff, Run.pinned_eq_some_iff, Run.get_eq_some_iff] at hrun
  rcases hrun with ⟨e₁, _, ⟨v, ⟨_, _, ⟨rfl, rfl⟩, hhere⟩, rfl⟩, hrun⟩
  refine ⟨e₁, v, hhere, ?_⟩
  split at hrun
  · next hstop =>
      rw [Run.pure_eq_some_iff] at hrun
      exact .inl ⟨hstop, hrun.1.symm, hrun.2.symm⟩
  · next hgo =>
      have hgo := Bool.eq_false_of_not_eq_true hgo
      simp only [Run.bind_eq_some_iff, Run.get_eq_some_iff] at hrun
      rcases hrun with ⟨_, _, ⟨rfl, rfl⟩, hrun⟩
      cases hparent : World.parent? { v with pins := w.pins } n with
      | none =>
          rw [hparent, Run.pure_eq_some_iff] at hrun
          exact .inr (.inl ⟨hgo, rfl, hrun.1.symm, hrun.2.symm⟩)
      | some p =>
          rw [hparent] at hrun
          exact .inr (.inr ⟨hgo, p, rfl, hrun⟩)

/-- Dispatching an event: its way up from the target, which is held on to meanwhile. -/
theorem dispatch_eq_some_iff :
    host.dispatch n e w = some (e', w') ↔
      ∃ e₁ v, host.climb host.patience n { e with target := some n }
          { w with pins := [.node n] ++ w.pins } = some (e₁, v) ∧
        e' = { e₁ with current := none } ∧ w' = { v with pins := w.pins } := by
  simp only [dispatch, Run.bind_eq_some_iff, Run.pinned_eq_some_iff, Run.pure_eq_some_iff]
  constructor
  · rintro ⟨e₁, _, ⟨v, hclimb, rfl⟩, rfl, rfl⟩
    exact ⟨e₁, v, hclimb, rfl, rfl⟩
  · rintro ⟨e₁, v, hclimb, rfl, rfl⟩
    exact ⟨e₁, _, ⟨v, hclimb, rfl⟩, rfl, rfl⟩

/-- Entering text: the field holds it, and then the event is dispatched. -/
theorem input_eq_some_iff {text : String} :
    host.input n text w = some (e', w') ↔
      host.dispatch n { kind := "input" } (w.setValue n text) = some (e', w') := by
  simp only [input, Run.bind_eq_some_iff, Run.change_eq_some_iff]
  constructor
  · rintro ⟨_, _, rfl, hrun⟩
    exact hrun
  · intro hrun
    exact ⟨(), _, rfl, hrun⟩

end Host

end LiveTemplate
