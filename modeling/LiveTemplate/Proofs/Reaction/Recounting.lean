import LiveTemplate.Proofs.Reaction.Happening

/-!
# Recounting a Run

What a client does with registries, told step by step.

A client may do more with registries than its commands say: it may keep registries of its
own, add subscribers to any registry at any time, and notify them. So may its callbacks,
and these may do it while a notification is under way. A run gives a result only in the
end, and none if it does not come to an end. So what happens in between has to be told by
a run that takes it down meanwhile, and what it has taken down is there even if nothing
comes of the run.

Such a run goes through the same steps as the run that it recounts. It has the same
outcome, which is how one can tell that it recounts that run.

## Main definitions

* `Deed`, `Routine`: What a client does with registries, and with everything else.
* `Moment`, `Entry`: What is taken down.
* `Recounted`: A run that takes down what happens.
* `Recounted.notify`, `Deed.recount`, `Routine.recount`: Runs that are recounted.
* `Routine.recountCall`: What callbacks do, recounted.

## Theorems

* `Recounted.outcome_notify`, `Deed.outcome_recount`: The outcome is that of the run.
* `Routine.outcome_recount`: So it is for everything that clients and callbacks do.
-/

namespace LiveTemplate

variable {ν τ α β : Type}

/-! ### Clients with registries -/

/-- What a client does in one step when it has registries at hand. -/
inductive Deed (ν τ : Type) where
  /-- A step that it can take without. -/
  | data (command : Command ν τ)
  /-- Creates a registry of its own. -/
  | create
  /-- Makes a callback a subscriber. -/
  | probe (name : ν)
  /-- Adds a subscriber to a registry. -/
  | add (place : Place) (s : SubscriberId)
  /-- Has a reader depend on a registry, if there is a reader. -/
  | depend (place : Place) (reader : Option SubscriberId)
  /-- Notifies the subscribers of a registry. -/
  | notify (place : Place)
  /-- Reads a path for a reader, if there is one. -/
  | read (root : ObjectId) (path : String) (reader : Option SubscriberId)

namespace Deed

/-- What the client gets to know. -/
abbrev Answer : Deed ν τ → Type
  | data command => command.Response
  | create => RegistryId
  | probe _ => SubscriberId
  | add _ _ => Bool
  | depend _ _ => Unit
  | notify _ => Unit
  | read _ _ _ => Except BindingError Data

/-- Takes the step. There is no such step with a registry that is not there. -/
def run (host : Host (Code ν) (Journal τ)) :
    (deed : Deed ν τ) → Run (Code ν) (Journal τ) deed.Answer
  | data command => command.run host
  | create => Run.apply World.addRegistry
  | probe name => Run.apply (·.addSubscriber (.probe (.method name)))
  | add place s => do
    let r ← Run.ofOption ((← get).registryAt? place)
    Run.change (·.enlist place s)
    pure !r.contains s
  | depend place reader => do
    let r ← Run.ofOption ((← get).registryAt? place)
    match reader with
    | none => pure ()
    | some s =>
      if r.contains s then pure ()
      else Run.change fun w => (w.enlist place s).notice .subscribed
  | notify place => do
    let r ← Run.ofOption ((← get).registryAt? place)
    Run.pinned [place.handle] (host.notify r)
  | read root path reader => Run.apply (·.readPath reader root path)

end Deed

/-- What a client does with registries: it ends, or takes a step and goes on with the
    answer. -/
inductive Routine (ν τ : Type) where
  /-- Nothing more to do. -/
  | done
  /-- A step, and how to go on. -/
  | act (deed : Deed ν τ) (next : deed.Answer → Routine ν τ)

namespace Routine

/-- Goes through a routine. -/
def run (host : Host (Code ν) (Journal τ)) : Routine ν τ → Run (Code ν) (Journal τ) Unit
  | done => pure ()
  | act deed next => do
    let answer ← deed.run host
    (next answer).run host

/-- Callbacks that go through routines, by their names. -/
def behaviour (code : ν → Signal → Routine ν τ) : Behaviour (Code ν) (Journal τ) :=
  fun host callback signal => do
    Program.takeNote callback signal
    (code callback.name signal).run host
    pure {}

end Routine

/-! ### Taking things down -/

/-- What is worth taking down. -/
inductive Moment where
  /-- A client turns to its next step. -/
  | pause
  /-- The subscribers of a registry are notified. -/
  | notify (place : Place) (registry : Registry)
  /-- One of them is updated. -/
  | update (s : SubscriberId)
  /-- Its update is over. -/
  | updated (s : SubscriberId)
  /-- The notification is over. -/
  | notified
  deriving DecidableEq

/-- What is taken down at a moment. -/
structure Entry (ν τ : Type) where
  /-- What happens. -/
  moment : Moment
  /-- The world as it is then. -/
  world : ClientWorld ν τ

/-- A run that takes down what happens, also if it does not come to an end. -/
def Recounted (ν τ α : Type) : Type :=
  ClientWorld ν τ → List (Entry ν τ) × Option (α × ClientWorld ν τ)

namespace Recounted

instance : Monad (Recounted ν τ) where
  pure a := fun w => ([], some (a, w))
  bind run next := fun w =>
    match run w with
    | (log, none) => (log, none)
    | (log, some (a, v)) => (log ++ (next a v).1, (next a v).2)

/-- What is taken down. -/
def log (run : Recounted ν τ α) (w : ClientWorld ν τ) : List (Entry ν τ) :=
  (run w).1

/-- The run without what is taken down. -/
def outcome (run : Recounted ν τ α) : Run (Code ν) (Journal τ) α :=
  fun w => (run w).2

/-- Nothing is taken down. -/
def lift (run : Run (Code ν) (Journal τ) α) : Recounted ν τ α :=
  fun w => ([], run w)

/-- Takes something down. -/
def mark (moment : Moment) : Recounted ν τ Unit :=
  fun w => ([⟨moment, w⟩], some ((), w))

/-- A run during which the handles are held on to. -/
def pinned (handles : List Handle) (run : Recounted ν τ α) : Recounted ν τ α := fun w =>
  ((run { w with pins := handles ++ w.pins }).1,
    (run { w with pins := handles ++ w.pins }).2.map fun (a, after) =>
      (a, { after with pins := w.pins }))

/-! Updates, as they are for a host, but for what is taken down. -/

variable (call : Code ν → Signal → Recounted ν τ EventFlags)

/-- Acts on a value. -/
def perform (effect : Effect (Code ν)) (value : Data) : Recounted ν τ Unit :=
  match effect with
  | .render rendering => lift (Run.render rendering value)
  | .call callback => do
    let _ ← call callback (.changed value)

/-- Updates a watcher. -/
def refreshWatcher (s : SubscriberId) (watcher : Watcher (Code ν)) : Recounted ν τ Unit := do
  if (← lift get).alive (.object watcher.root) then
    pinned [.object watcher.root] do
      match ← lift (Run.apply (·.readPath (some s) watcher.root watcher.path)) with
      | .ok value =>
        lift (Run.notice (.watcherUpdated watcher.path))
        pinned value.owned (perform call watcher.effect value)
      | .error e => lift (Run.notice (.watcherUnresolved e))

/-- Updates a subscriber. -/
def refresh (s : SubscriberId) : Recounted ν τ Unit := do
  match (← lift get).subscriber? s with
  | some (.watcher watcher) => refreshWatcher call s watcher
  | some (.probe callback) =>
    let _ ← call callback .updated
  | none => pure ()

/-- Updates subscribers one after the other. -/
def refreshAll : List SubscriberId → Recounted ν τ Unit
  | [] => pure ()
  | s :: rest => do
    mark (.update s)
    pinned ((s :: rest).map .subscriber) (refresh call s)
    mark (.updated s)
    refreshAll rest

/-- Updates the subscribers of a registry. -/
def notify (place : Place) (registry : Registry) : Recounted ν τ Unit := do
  mark (.notify place registry)
  lift (Run.notice (.notified registry.subscribers.length))
  refreshAll call registry.subscribers
  mark .notified

/-- Writes a value into a property: whether that changed it. -/
def setProperty (o : ObjectId) (key : String) (value : Data) :
    Recounted ν τ (Except BindingError Bool) := do
  match (← lift get).property? o key with
  | none => pure (.error (.unobserved key))
  | some p =>
    if p.value.same value then pure (.ok false)
    else
      lift (Run.change (·.updateProperty o key fun p => { p with value }))
      notify call (.field o key) p.registry
      pure (.ok true)

/-- Writes a value at the end of a path: whether that changed it. -/
def setPath (root : ObjectId) (path : String) (value : Data) :
    Recounted ν τ (Except BindingError Bool) := do
  match ← lift (Run.apply (·.resolve none root path)) with
  | .error e => pure (.error e)
  | .ok (o, key) =>
    match ← pinned [.object o] (setProperty call o key value) with
    | .ok changed => pure (.ok changed)
    | .error _ => pure (.error (.unobserved path))

/-! ### What comes of it -/

@[simp]
theorem outcome_pure (a : α) : (pure a : Recounted ν τ α).outcome = pure a :=
  rfl

@[simp]
theorem outcome_bind (run : Recounted ν τ α) (next : α → Recounted ν τ β) :
    (run >>= next).outcome = run.outcome >>= fun a => (next a).outcome := by
  funext w
  simp only [outcome, bind, StateT.bind]
  rcases run w with ⟨log, _ | ⟨a, v⟩⟩
  · rfl
  · rfl

@[simp]
theorem outcome_lift (run : Run (Code ν) (Journal τ) α) :
    (lift run : Recounted ν τ α).outcome = run :=
  rfl

@[simp]
theorem outcome_mark (moment : Moment) : (mark moment : Recounted ν τ Unit).outcome = pure () :=
  rfl

@[simp]
theorem outcome_pinned (handles : List Handle) (run : Recounted ν τ α) :
    (pinned handles run).outcome = Run.pinned handles run.outcome :=
  rfl

/-- Nothing more happens if the first part does not come to an end. -/
theorem bind_of_eq_none {run : Recounted ν τ α} (next : α → Recounted ν τ β)
    {w : ClientWorld ν τ} (h : run.outcome w = none) :
    (run >>= next).log w = run.log w ∧ (run >>= next).outcome w = none := by
  simp only [log, outcome, bind] at h ⊢
  generalize run w = told at h ⊢
  rcases told with ⟨log, _ | result⟩
  · exact ⟨rfl, rfl⟩
  · cases h

/-- What happens in the second part is taken down after what has happened in the first. -/
theorem bind_of_eq_some {run : Recounted ν τ α} (next : α → Recounted ν τ β)
    {w v : ClientWorld ν τ} {a : α} (h : run.outcome w = some (a, v)) :
    (run >>= next).log w = run.log w ++ (next a).log v ∧
      (run >>= next).outcome w = (next a).outcome v := by
  simp only [log, outcome, bind] at h ⊢
  generalize run w = told at h ⊢
  rcases told with ⟨log, _ | result⟩
  · cases h
  · cases h
    exact ⟨rfl, rfl⟩

/-- The callbacks of the host are recounted. -/
def Tells (call : Code ν → Signal → Recounted ν τ EventFlags)
    (host : Host (Code ν) (Journal τ)) : Prop :=
  ∀ callback signal, (call callback signal).outcome = host.call callback signal

variable {call : Code ν → Signal → Recounted ν τ EventFlags} {host : Host (Code ν) (Journal τ)}

section Updates

variable (h : Tells call host)
include h

theorem outcome_perform (effect : Effect (Code ν)) (value : Data) :
    (perform call effect value).outcome = host.perform effect value := by
  cases effect with
  | render rendering => rfl
  | call callback => simp only [perform, Host.perform, outcome_bind, outcome_pure, h callback]

theorem outcome_refreshWatcher (s : SubscriberId) (watcher : Watcher (Code ν)) :
    (refreshWatcher call s watcher).outcome = host.refreshWatcher s watcher := by
  simp only [refreshWatcher, Host.refreshWatcher, outcome_bind, outcome_lift]
  congr 1
  funext w
  split
  · simp only [outcome_pinned, outcome_bind, outcome_lift]
    congr 2
    funext result
    cases result with
    | error e => rfl
    | ok value =>
        simp only [outcome_bind, outcome_lift, outcome_pinned, outcome_perform h]
  · rfl

theorem outcome_refresh (s : SubscriberId) : (refresh call s).outcome = host.refresh s := by
  simp only [refresh, Host.refresh, outcome_bind, outcome_lift]
  congr 1
  funext w
  cases w.subscriber? s with
  | none => rfl
  | some subscriber =>
      cases subscriber with
      | watcher watcher => exact outcome_refreshWatcher h s watcher
      | probe callback => simp only [outcome_bind, outcome_pure, h callback]

theorem outcome_refreshAll (late : List SubscriberId) :
    (refreshAll call late).outcome = host.refreshAll late := by
  induction late with
  | nil => rfl
  | cons s rest ih =>
      simp only [refreshAll, Host.refreshAll, outcome_bind, outcome_mark, outcome_pinned,
        outcome_refresh h, ih, pure_bind]

/-- Notifying subscribers is what it is, recounted or not. -/
theorem outcome_notify (place : Place) (registry : Registry) :
    (notify call place registry).outcome = host.notify registry := by
  simp only [notify, Host.notify, outcome_bind, outcome_mark, outcome_lift,
    outcome_refreshAll h, pure_bind]
  congr 1
  funext _
  exact bind_pure _

theorem outcome_setProperty (o : ObjectId) (key : String) (value : Data) :
    (setProperty call o key value).outcome = host.setProperty o key value := by
  simp only [setProperty, Host.setProperty, outcome_bind, outcome_lift]
  congr 1
  funext w
  cases w.property? o key with
  | none => rfl
  | some p =>
      dsimp only
      split
      · rfl
      · simp only [outcome_bind, outcome_lift, outcome_notify h, outcome_pure]

theorem outcome_setPath (root : ObjectId) (path : String) (value : Data) :
    (setPath call root path value).outcome = host.setPath root path value := by
  simp only [setPath, Host.setPath, outcome_bind, outcome_lift]
  congr 1
  funext result
  cases result with
  | error e => rfl
  | ok field =>
      simp only [outcome_bind, outcome_pinned, outcome_setProperty h]
      congr 1
      funext written
      cases written with
      | error e => rfl
      | ok changed => rfl

end Updates

end Recounted

/-- A host that does not answer. -/
def Host.deaf (ν τ : Type) : Host (Code ν) (Journal τ) :=
  ⟨fun _ _ => Run.stuck, 0⟩

section Clients

open Recounted

variable (call : Code ν → Signal → Recounted ν τ EventFlags)

/-- Carries out a command. Most of them have nothing to do with callbacks. -/
def Command.recount : (c : Command ν τ) → Recounted ν τ c.Response
  | .set o key source => do
    let value ← lift source.obtain
    lift (Run.require o)
    pinned [.object o] (setProperty call o key value)
  | .setPath root path source => do
    let value ← lift source.obtain
    lift (Run.require root)
    pinned [.object root] (Recounted.setPath call root path value)
  | .notify o key => do
    lift (Run.require o)
    match (← lift get).property? o key with
    | none => pure ()
    | some p => pinned [.object o] (Recounted.notify call (.field o key) p.registry)
  | c => lift (c.run (.deaf ν τ))

/-- Takes a step. Most of them have nothing to do with callbacks. -/
def Deed.recount : (deed : Deed ν τ) → Recounted ν τ deed.Answer
  | .data command => command.recount call
  | .notify place => do
    let r ← lift do Run.ofOption ((← get).registryAt? place)
    pinned [place.handle] (Recounted.notify call place r)
  | deed => lift (deed.run (.deaf ν τ))

namespace Routine

/-- Goes through a routine. -/
def recount : Routine ν τ → Recounted ν τ Unit
  | done => mark .pause
  | act deed next => do
    mark .pause
    let answer ← deed.recount call
    (next answer).recount

/-- Callbacks that go through routines, for calls inside calls up to a depth. -/
def recountCall (code : ν → Signal → Routine ν τ) :
    (depth : Nat) → Code ν → Signal → Recounted ν τ EventFlags
  | 0, _, _ => lift Run.stuck
  | depth + 1, callback, signal => do
    lift (Program.takeNote callback signal)
    (code callback.name signal).recount (recountCall code depth)
    pure {}

end Routine

/-! ### What comes of what clients do -/

variable {call : Code ν → Signal → Recounted ν τ EventFlags} {host : Host (Code ν) (Journal τ)}

theorem Command.outcome_recount (h : Tells call host) (c : Command ν τ) :
    (c.recount call).outcome = c.run host := by
  cases c with
  | set o key source =>
      simp only [recount, run, outcome_bind, outcome_lift, outcome_pinned, outcome_setProperty h]
  | setPath root path source =>
      simp only [recount, run, outcome_bind, outcome_lift, outcome_pinned, outcome_setPath h]
  | notify o key =>
      simp only [recount, run, outcome_bind, outcome_lift]
      congr 1
      funext _
      congr 1
      funext w
      cases w.property? o key with
      | none => rfl
      | some p => simp only [outcome_pinned, outcome_notify h]
  | look | remember | observe | hold | release | watch => rfl

/-- A step is what it is, recounted or not. -/
theorem Deed.outcome_recount (h : Tells call host) (deed : Deed ν τ) :
    (deed.recount call).outcome = deed.run host := by
  cases deed with
  | data command => exact command.outcome_recount h
  | notify place =>
      simp only [recount, run, outcome_bind, outcome_lift, outcome_pinned, outcome_notify h,
        bind_assoc]
  | create | probe | add | depend | read => rfl

namespace Routine

theorem outcome_recount_of_tells (h : Tells call host) (p : Routine ν τ) :
    (p.recount call).outcome = p.run host := by
  induction p with
  | done => rfl
  | act deed next ih =>
      simp only [recount, run, outcome_bind, outcome_mark, deed.outcome_recount h, ih, pure_bind]

/-- Callbacks do what they do, recounted or not. -/
theorem tells_recountCall (code : ν → Signal → Routine ν τ) (patience depth : Nat) :
    Tells (recountCall code depth) ((behaviour code).host patience depth) := by
  induction depth with
  | zero => exact fun _ _ => rfl
  | succ depth ih =>
      intro callback signal
      simp only [recountCall, Behaviour.host, behaviour, outcome_bind, outcome_lift, outcome_pure,
        outcome_recount_of_tells ih]

/-- Clients do what they do, recounted or not, and so do their callbacks. -/
theorem outcome_recount (code : ν → Signal → Routine ν τ) (patience depth : Nat)
    (p : Routine ν τ) :
    (p.recount (recountCall code depth)).outcome = p.run ((behaviour code).host patience depth) :=
  outcome_recount_of_tells (tells_recountCall code patience depth) p

end Routine

end Clients

end LiveTemplate
