import LiveTemplate.World.Basic

/-!
# Liveness

What is still there.

Objects hold their values and the subscribers of their properties, registries hold
their subscribers, watchers hold the node that they act on, and nodes hold their
children. Something is alive as long as the client or an operation under way holds
on to it, or something alive does. Things that hold each other in a circle keep each
other alive, so life is not a matter of being reachable from outside: what is dead
is what loses its holders one after the other.

So each thing is alive at first, and it outlives one round more if something holds
it that outlives the round. There are only so many things, and after that many rounds
nothing can change any more. Whether a thing is alive then is found out by following
its holders backward, all of one round together, so that a thing that is held in many
ways is looked at once in each round.

## Main definitions

* `World.owned`, `World.holders`: What a thing holds on to, and what holds on to things.
* `World.outlive`: Being alive after a number of rounds.
* `World.alive`: Being alive.
* `World.parent?`: The parent of a node, as long as it is alive.
-/

namespace LiveTemplate

/-- The node at which a value is shown. -/
def Rendering.target : Rendering → NodeId
  | interpolated target _ => target
  | text target => target
  | markup target => target
  | field target => target

/-- What an effect holds on to. -/
def Effect.owned {κ : Type} : Effect κ → List Handle
  | render r => [.node r.target]
  | call _ => []

/-- What a value holds on to. -/
def Data.owned : Data → List Handle
  | plain _ => []
  | object o => [.object o]

/-- What a registry holds on to. -/
def Registry.owned (r : Registry) : List Handle :=
  r.subscribers.map .subscriber

/-- What a property holds on to. -/
def Property.owned (p : Property) : List Handle :=
  p.value.owned ++ p.registry.owned

/-- What a subscriber holds on to. -/
def Subscriber.owned {κ : Type} : Subscriber κ → List Handle
  | watcher w => w.effect.owned
  | probe _ => []

namespace World

variable {κ σ : Type}

/-- What a thing holds on to. -/
def owned (w : World κ σ) : Handle → List Handle
  | .object o => (w.object o).flatMap fun (_, p) => p.owned
  | .registry r => (w.registry r).owned
  | .subscriber s => ((w.subscriber? s).map Subscriber.owned).getD []
  | .node n => (w.node n).children.map .node

/-- All things in the world. -/
def handles (w : World κ σ) : List Handle :=
  (List.range w.objects.size).map (.object ⟨·⟩) ++
    (List.range w.registries.size).map (.registry ⟨·⟩) ++
    (List.range w.subscribers.size).map (.subscriber ⟨·⟩) ++
    (List.range w.nodes.size).map (.node ⟨·⟩)

variable [Client σ]

/-- The client or an operation under way holds on to the thing. -/
def rooted (w : World κ σ) (h : Handle) : Bool :=
  w.pins.contains h || (Client.held w.client).contains h

omit [Client σ] in
/-- What holds on to any of the things. -/
def holders (w : World κ σ) (hs : List Handle) : List Handle :=
  w.handles.filter fun g => (w.owned g).any hs.contains

/-- Any of the things is alive after `k` rounds in which everything without a living holder
    dies. -/
def outlive (w : World κ σ) : (k : Nat) → List Handle → Bool
  | _, [] => false
  | 0, _ => true
  | k + 1, hs => hs.any w.rooted || w.outlive k (w.holders hs)

/-- The thing is still there. -/
def alive (w : World κ σ) (h : Handle) : Bool :=
  w.outlive w.handles.length [h]

/-- The node beneath which a node stands, as long as that one is alive. -/
def parent? (w : World κ σ) (n : NodeId) : Option NodeId :=
  (w.node n).parent.filter fun p => w.alive (.node p)

end World

end LiveTemplate
