import LiveTemplate.Reaction.Host
import LiveTemplate.Store.Path
import LiveTemplate.View.Content

/-!
# Updates

Setting properties, and what follows from it.

A write that changes a property updates the property's subscribers, the ones
registered at that moment, one after the other; whatever one of them sets off is
over before the next one's turn. A watcher follows its path anew, registered with
every property on the way, and acts on the value there, unless the object from which
its path starts is gone. Writing what is there already does nothing.

## Main definitions

* `Host.refresh`, `Host.refreshAll`, `Host.notify`: Updating subscribers.
* `Host.setProperty`, `Host.setPath`: Writing a value.
* `World.render`, `Run.render`: Showing a value in the view.
* `World.watch`: A new watcher.
-/

namespace LiveTemplate

variable {κ σ : Type}

/-- What a value looks like, if it has a plain form. -/
def Run.display (d : Data) : Run κ σ String := do
  Run.ofOption ((← get).display? d)

variable [Client σ]

/-- Shows a text in the view. -/
def World.render (w : World κ σ) (rendering : Rendering) (shown : String) : World κ σ :=
  match rendering with
  | .interpolated target text => w.setText target (text.render shown)
  | .text target => w.setText target shown
  | .markup target => w.setHtml target shown
  | .field target => w.setValue target shown

/-- Shows a value in the view. -/
def Run.render (rendering : Rendering) (value : Data) : Run κ σ Unit := do
  let shown ← Run.display value
  Run.change (·.render rendering shown)

namespace Host

/-- Acts on a value. -/
def perform (host : Host κ σ) (effect : Effect κ) (value : Data) : Run κ σ Unit :=
  match effect with
  | .render rendering => Run.render rendering value
  | .call callback => do
    let _ ← host.call callback (.changed value)

/-- Updates a watcher. -/
def refreshWatcher (host : Host κ σ) (s : SubscriberId) (watcher : Watcher κ) : Run κ σ Unit := do
  if (← get).alive (.object watcher.root) then
    Run.pinned [.object watcher.root] do
      match ← Run.apply (·.readPath (some s) watcher.root watcher.path) with
      | .ok value =>
        Run.notice (.watcherUpdated watcher.path)
        Run.pinned value.owned (host.perform watcher.effect value)
      | .error e => Run.notice (.watcherUnresolved e)

/-- Updates a subscriber. -/
def refresh (host : Host κ σ) (s : SubscriberId) : Run κ σ Unit := do
  match (← get).subscriber? s with
  | some (.watcher watcher) => host.refreshWatcher s watcher
  | some (.probe callback) =>
    let _ ← host.call callback .updated
  | none => pure ()

/-- Updates subscribers one after the other. The ones whose turn is still to come are held
    on to. -/
def refreshAll (host : Host κ σ) : List SubscriberId → Run κ σ Unit
  | [] => pure ()
  | s :: rest => do
    Run.pinned ((s :: rest).map .subscriber) (host.refresh s)
    host.refreshAll rest

/-- Updates the subscribers of a registry. -/
def notify (host : Host κ σ) (registry : Registry) : Run κ σ Unit := do
  Run.notice (.notified registry.subscribers.length)
  host.refreshAll registry.subscribers

/-- Writes a value into a property: whether that changed it. -/
def setProperty (host : Host κ σ) (o : ObjectId) (key : String) (value : Data) :
    Run κ σ (Except BindingError Bool) := do
  match (← get).property? o key with
  | none => pure (.error (.unobserved key))
  | some p =>
    if p.value.same value then pure (.ok false)
    else
      Run.change (·.updateProperty o key fun p => { p with value })
      host.notify p.registry
      pure (.ok true)

/-- Writes a value at the end of a path: whether that changed it. -/
def setPath (host : Host κ σ) (root : ObjectId) (path : String) (value : Data) :
    Run κ σ (Except BindingError Bool) := do
  match ← Run.apply (·.resolve none root path) with
  | .error e => pure (.error e)
  | .ok (o, key) =>
    match ← Run.pinned [.object o] (host.setProperty o key value) with
    | .ok changed => pure (.ok changed)
    | .error _ => pure (.error (.unobserved path))

end Host

/-- The value that a watcher watches, unless its object is gone or its path cannot be
    followed. -/
def World.valueOf? (w : World κ σ) (watcher : Watcher κ) : Option Data :=
  if w.alive (.object watcher.root) then (w.getPath watcher.root watcher.path).toOption else none

/-- Creates a watcher on a path. If the path cannot be followed the watcher stays
    registered with the properties on the way that were read. -/
def World.watch (w : World κ σ) (root : ObjectId) (path : String) (effect : Effect κ) :
    Except BindingError SubscriberId × World κ σ :=
  let (s, w) := w.addSubscriber (.watcher ⟨root, path, effect⟩)
  match w.readPath (some s) root path with
  | (.error e, w) => (.error e, w)
  | (.ok _, w) => (.ok s, w.notice (.watcherCreated path))

end LiveTemplate
