import LiveTemplate.Reaction.Update

/-!
# Dispatching Events

An event starts at a node and goes up from there. At each node it runs the listeners
that are there for its kind when it arrives, all of them in order; if one of them has
stopped it by then, it goes no further.

## Main definitions

* `Host.runListener`, `Host.runListeners`: Running listeners at a node.
* `Host.climb`: An event's way from a node upward.
* `Host.dispatch`: An event from its target on.
* `Host.input`, `Host.click`: The two common events.
-/

namespace LiveTemplate

variable {κ σ : Type} [Client σ]

namespace Host

/-- Runs a listener at the event's current node. A listener whose data is gone does
    nothing to it. -/
def runListener (host : Host κ σ) (listener : Listener κ) (e : Event) : Run κ σ Event :=
  match listener with
  | .callback callback => do
    let flags ← host.call callback (.reached e)
    pure (e.raise flags)
  | .handle data method modifiers => do
    let e := e.raise modifiers.flags
    if (← get).alive (.object data) then
      Run.pinned [.object data] do
        let _ ← host.call method (.invoked data (some e))
    pure e
  | .writeBack data path => do
    match e.current with
    | none => pure e
    | some n =>
      if (← get).alive (.object data) then
        Run.pinned [.object data] do
          let entered := ((← get).node n).value
          match ← host.setPath data path (.plain (.string entered)) with
          | .ok _ => pure ()
          | .error error => Run.notice (.writeBackFailed error)
      pure e

/-- Runs listeners one after the other. -/
def runListeners (host : Host κ σ) : List (Listener κ) → Event → Run κ σ Event
  | [], e => pure e
  | listener :: rest, e => do
    let e ← host.runListener listener e
    host.runListeners rest e

/-- Runs the listeners at a node, then at the nodes above it until one has stopped the
    event. At most `limit` nodes are reached. -/
def climb (host : Host κ σ) : (limit : Nat) → NodeId → Event → Run κ σ Event
  | 0, _, _ => Run.stuck
  | limit + 1, n, e => do
    let e := { e with current := some n }
    let e ← Run.pinned [.node n] (do host.runListeners ((← get).listenersOf n e.kind) e)
    if e.flags.stopped then pure e
    else
      match (← get).parent? n with
      | some p => host.climb limit p e
      | none => pure e

/-- Dispatches an event at a node. -/
def dispatch (host : Host κ σ) (n : NodeId) (e : Event) : Run κ σ Event := do
  let e ← Run.pinned [.node n] (host.climb host.patience n { e with target := some n })
  pure { e with current := none }

/-- Enters text into a form field and tells the field's listeners. -/
def input (host : Host κ σ) (n : NodeId) (text : String) : Run κ σ Event := do
  Run.change (·.setValue n text)
  host.dispatch n { kind := "input" }

/-- Clicks on a node. -/
def click (host : Host κ σ) (n : NodeId) : Run κ σ Event :=
  host.dispatch n { kind := "click" }

end Host

end LiveTemplate
