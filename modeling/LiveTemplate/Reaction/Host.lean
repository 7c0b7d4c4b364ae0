import LiveTemplate.View.Event
import LiveTemplate.World.Liveness

/-!
# Hosts

The program that templates live in, as far as they call it.

Setting a property updates subscribers, dispatching an event runs listeners, and
either may call back into the host, which may set properties and dispatch events in
turn. The library's part of this is written for a host that is given: something that
answers each call with a change of the world. A host's own behaviour is a function of
such a host, the one that answers the calls inside its calls, so behaviour is tied
back to itself as many levels deep as one likes. A run that needs more levels than it
is given has no result, and neither has one that has to show a value without plain
form.

## Main definitions

* `Run`: A change of the world with a result, if it comes to an end.
* `Run.pinned`: A run during which things are held on to.
* `Signal`: What a callback is called with.
* `Host`: Something that answers callbacks.
* `Behaviour`, `Behaviour.host`: What callbacks do, and the host that does it.
-/

namespace LiveTemplate

/-- A change of the world with a result, if it comes to an end. -/
abbrev Run (κ σ : Type) := StateT (World κ σ) Option

namespace Run

variable {κ σ α : Type}

/-- A run that does not come to an end. -/
def stuck : Run κ σ α :=
  fun _ => none

/-- A result that may be missing, in which case the run does not come to an end. -/
def ofOption (a? : Option α) : Run κ σ α :=
  fun w => a?.map (·, w)

/-- A change of the world without result. -/
def change (f : World κ σ → World κ σ) : Run κ σ Unit :=
  fun w => some ((), f w)

/-- A change of the world with a result. -/
def apply (f : World κ σ → α × World κ σ) : Run κ σ α :=
  fun w => some (f w)

/-- Something read off the world. -/
def read (f : World κ σ → α) : Run κ σ α :=
  fun w => some (f w, w)

/-- A run during which the handles are held on to. -/
def pinned (handles : List Handle) (run : Run κ σ α) : Run κ σ α := fun w =>
  (run { w with pins := handles ++ w.pins }).map fun (a, after) =>
    (a, { after with pins := w.pins })

/-- Takes note of a diagnostic. -/
def notice [Client σ] (d : Diagnostic) : Run κ σ Unit :=
  change (·.notice d)

end Run

/-- What a callback is called with. -/
inductive Signal where
  /-- Something that the callback subscribed to has changed. -/
  | updated
  /-- The value that the callback watches has changed to this one. -/
  | changed (value : Data)
  /-- An event has reached the node at which the callback listens. -/
  | reached (event : Event)
  /-- The callback is called as a method on this data, perhaps because of an event. -/
  | invoked (data : ObjectId) (cause : Option Event)

/-- Something that answers callbacks. -/
structure Host (κ σ : Type) where
  /-- Calls a callback. The result is what it asks of the event, if there is one. -/
  call : κ → Signal → Run κ σ EventFlags
  /-- How many nodes an event may reach, and how deep a template may be. -/
  patience : Nat

/-- What callbacks do, given a host that answers the calls made meanwhile. -/
abbrev Behaviour (κ σ : Type) := Host κ σ → κ → Signal → Run κ σ EventFlags

/-- The host that behaves as described, for calls inside calls up to a depth. -/
def Behaviour.host {κ σ : Type} (b : Behaviour κ σ) (patience : Nat) : (depth : Nat) → Host κ σ
  | 0 => ⟨fun _ _ => Run.stuck, patience⟩
  | depth + 1 => ⟨fun callback => b (b.host patience depth) callback, patience⟩

end LiveTemplate
