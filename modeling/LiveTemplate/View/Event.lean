import LiveTemplate.World.Basic

/-!
# Events

An event on its way from a node up through the nodes above it. Flags that listeners
raise are never lowered again.

## Main definitions

* `EventFlags`: What listeners have asked for.
* `Event`: An event on its way.
-/

namespace LiveTemplate

/-- What listeners have asked of an event. -/
structure EventFlags where
  /-- Not to go further up. -/
  stopped : Bool := false
  /-- Not to do what the event would do by default. -/
  prevented : Bool := false
  deriving DecidableEq, Inhabited

/-- Both sets of flags together. -/
def EventFlags.union (a b : EventFlags) : EventFlags :=
  ⟨a.stopped || b.stopped, a.prevented || b.prevented⟩

/-- The flags of the first set that are not in the second. -/
def EventFlags.without (a b : EventFlags) : EventFlags :=
  ⟨a.stopped && !b.stopped, a.prevented && !b.prevented⟩

/-- The flags that modifiers raise. -/
def Modifiers.flags (m : Modifiers) : EventFlags :=
  ⟨m.stop, m.prevent⟩

/-- An event on its way up from its target. -/
structure Event where
  /-- What happened. -/
  kind : String
  /-- The node to which it happened. -/
  target : Option NodeId := none
  /-- The node whose listeners are running. -/
  current : Option NodeId := none
  /-- What listeners have asked for. -/
  flags : EventFlags := {}
  deriving DecidableEq

/-- The event with more flags raised. -/
def Event.raise (e : Event) (flags : EventFlags) : Event :=
  { e with flags := e.flags.union flags }

end LiveTemplate
