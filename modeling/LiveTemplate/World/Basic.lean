import LiveTemplate.Diagnostic
import LiveTemplate.Directive.Interpolation
import LiveTemplate.Json.Basic
import LiveTemplate.Markup.Tree
import LiveTemplate.World.Heap

/-!
# The World

Everything that templates are made of while they live: observed objects, registries
of subscribers, the subscribers themselves, and the nodes of the view.

Each of these has an identity, and what refers to it does so by its identity. Several
places can hold the same object or node, an object can hold itself, and replacing a
value does not touch the value that was there. Nothing is ever taken out of the
world; whether something still counts is a question of what holds on to it, which
`World.alive` answers.

The world is the client's world as well. It keeps the client's own state, which takes
note of diagnostics and holds on to whatever the client wants to keep. Where the
client supplies behaviour, the world stores a name for it of a type `κ` that the
client chooses.

## Main definitions

* `ObjectId`, `NodeId`, `SubscriberId`, `RegistryId`, `Handle`: Identities.
* `SubscriberSet`, `Registry`: Who is updated when something changes.
* `Data`, `Property`: The contents of observed objects.
* `Rendering`, `Effect`, `Watcher`, `Subscriber`: What is updated when a property changes.
* `Listener`, `Node`: The contents of the view.
* `Client`: What the world asks of a client's state.
* `World`: All of it.
-/

namespace LiveTemplate

/-- The identity of an observed object. -/
structure ObjectId where
  /-- Its place among the objects. -/
  index : Nat
  deriving DecidableEq

/-- The identity of a node of the view. -/
structure NodeId where
  /-- Its place among the nodes. -/
  index : Nat
  deriving DecidableEq

/-- The identity of a subscriber. Later subscribers have larger ones. -/
structure SubscriberId where
  /-- Its place among the subscribers. -/
  index : Nat
  deriving DecidableEq

/-- The subscriber's number. The first one has number one. -/
def SubscriberId.number (s : SubscriberId) : Nat :=
  s.index + 1

/-- The subscriber's number behind a hash. -/
def SubscriberId.label (s : SubscriberId) : String :=
  "#" ++ toString s.number

/-- The identity of a registry that belongs to no property. -/
structure RegistryId where
  /-- Its place among the registries. -/
  index : Nat
  deriving DecidableEq

/-- The identity of anything that can be held. -/
inductive Handle where
  /-- An observed object. -/
  | object (id : ObjectId)
  /-- A node of the view. -/
  | node (id : NodeId)
  /-- A subscriber. -/
  | subscriber (id : SubscriberId)
  /-- A registry of its own. -/
  | registry (id : RegistryId)
  deriving DecidableEq

/-- The value of an observed property. -/
inductive Data where
  /-- A scalar or an array. -/
  | plain (value : Json)
  /-- An observed object. -/
  | object (id : ObjectId)
  deriving DecidableEq, Inhabited

/-- A set of subscribers. Their places are numbers, so the bits of one number say who is in
    it. -/
structure SubscriberSet where
  /-- The bit at the place of a subscriber says whether it is in the set. -/
  bits : Nat := 0
  deriving DecidableEq, Inhabited

namespace SubscriberSet

/-- The subscriber is in the set. -/
def contains (members : SubscriberSet) (s : SubscriberId) : Bool :=
  members.bits.testBit s.index

/-- The set with one more subscriber in it. -/
def insert (members : SubscriberSet) (s : SubscriberId) : SubscriberSet :=
  ⟨members.bits ||| 1 <<< s.index⟩

end SubscriberSet

/-- The subscribers that are updated when something changes, in the order in which they
    came. They are kept a second time, in a set, so that looking somebody up does not take
    going through the list. -/
structure Registry where
  /-- The subscribers, first to last. -/
  subscribers : List SubscriberId := []
  /-- The subscribers as a set. -/
  members : SubscriberSet := {}
  deriving DecidableEq, Inhabited

namespace Registry

/-- The subscriber is registered. -/
def contains (r : Registry) (s : SubscriberId) : Bool :=
  r.members.contains s

/-- Registers a subscriber: in the set, and behind the others unless it has been in the set. -/
def add (r : Registry) (s : SubscriberId) : Registry where
  subscribers := if r.contains s then r.subscribers else r.subscribers ++ [s]
  members := r.members.insert s

end Registry

/-- A property of an observed object. -/
structure Property where
  /-- Its value. -/
  value : Data
  /-- Who is updated when the value changes. -/
  registry : Registry := {}
  deriving Inhabited

/-- The properties of an observed object. -/
abbrev Properties := Table Property

/-- A way of showing a value at a node. -/
inductive Rendering where
  /-- Inside the text of the node. -/
  | interpolated (target : NodeId) (text : Interpolation)
  /-- As the text of the node. -/
  | text (target : NodeId)
  /-- As the markup inside the node. -/
  | markup (target : NodeId)
  /-- As the form value of the node. -/
  | field (target : NodeId)
  deriving DecidableEq

/-- What a watcher does with a value. -/
inductive Effect (κ : Type) where
  /-- Shows it in the view. -/
  | render (rendering : Rendering)
  /-- Passes it to a callback of the client. -/
  | call (callback : κ)
  deriving DecidableEq

/-- Follows a path of an observed object and acts on the value there. -/
structure Watcher (κ : Type) where
  /-- The object from which the path starts. The watcher does not hold on to it. -/
  root : ObjectId
  /-- The path. -/
  path : String
  /-- What the watcher does with a new value. -/
  effect : Effect κ
  deriving DecidableEq

/-- Something that is updated when a property changes. -/
inductive Subscriber (κ : Type) where
  /-- A watcher. -/
  | watcher (w : Watcher κ)
  /-- A callback of the client. -/
  | probe (callback : κ)
  deriving DecidableEq

/-- What happens when an event reaches a node. Listeners do not hold on to data. -/
inductive Listener (κ : Type) where
  /-- The node's form value is stored under a path of the data. -/
  | writeBack (data : ObjectId) (path : String)
  /-- The modifiers act on the event, then a method gets the data. -/
  | handle (data : ObjectId) (method : κ) (modifiers : Modifiers)
  /-- A callback of the client gets the event. -/
  | callback (callback : κ)
  deriving DecidableEq

/-- What kind of node a node is, and its own content. -/
inductive NodeKind where
  /-- An element. -/
  | element (tag : String)
  /-- A text. -/
  | text (content : String)
  /-- A comment. -/
  | comment (content : String)
  deriving DecidableEq

/-- A node of the view. -/
structure Node (κ : Type) where
  /-- Its kind and content. -/
  kind : NodeKind
  /-- Its attributes. -/
  attributes : Markup.Attributes := []
  /-- What it holds as a form field. -/
  value : String := ""
  /-- The form value has been set, so attributes do not change it any more. -/
  edited : Bool := false
  /-- Its children in order. -/
  children : List NodeId := []
  /-- The node beneath which it stands. A node does not hold on to its parent. -/
  parent : Option NodeId := none
  /-- Its listeners with the kinds of events they listen to, in the order of their
      registration. -/
  listeners : List (String × Listener κ) := []

instance {κ : Type} : Inhabited (Node κ) := ⟨{ kind := .text "" }⟩

/-- What the world asks of a client's state. -/
class Client (σ : Type) where
  /-- What the client holds on to. -/
  held : σ → List Handle
  /-- Takes note of a diagnostic. -/
  notice : Diagnostic → σ → σ

/-- Everything that templates are made of. -/
structure World (κ σ : Type) where
  /-- Observed objects. -/
  objects : Heap Properties := {}
  /-- Registries that belong to no property. -/
  registries : Heap Registry := {}
  /-- Subscribers. -/
  subscribers : Heap (Subscriber κ) := {}
  /-- Nodes of the view. -/
  nodes : Heap (Node κ) := {}
  /-- What the operations under way hold on to. -/
  pins : List Handle := []
  /-- The client's own state. -/
  client : σ

namespace World

variable {κ σ : Type}

/-- The properties of an object. An identity that was never given out has none. -/
def object (w : World κ σ) (o : ObjectId) : Properties :=
  (w.objects.get? o.index).getD []

/-- A property of an object. -/
def property? (w : World κ σ) (o : ObjectId) (key : String) : Option Property :=
  Table.find? key (w.object o)

/-- A registry that belongs to no property. -/
def registry (w : World κ σ) (r : RegistryId) : Registry :=
  (w.registries.get? r.index).getD {}

/-- A subscriber. -/
def subscriber? (w : World κ σ) (s : SubscriberId) : Option (Subscriber κ) :=
  w.subscribers.get? s.index

/-- A node. -/
def node (w : World κ σ) (n : NodeId) : Node κ :=
  (w.nodes.get? n.index).getD default

/-- Changes a property of an object. -/
def updateProperty (w : World κ σ) (o : ObjectId) (key : String) (change : Property → Property) :
    World κ σ :=
  { w with objects := w.objects.update o.index (Table.update key change) }

/-- Changes a registry that belongs to no property. -/
def updateRegistry (w : World κ σ) (r : RegistryId) (change : Registry → Registry) : World κ σ :=
  { w with registries := w.registries.update r.index change }

/-- Changes a node. -/
def updateNode (w : World κ σ) (n : NodeId) (change : Node κ → Node κ) : World κ σ :=
  { w with nodes := w.nodes.update n.index change }

/-- A new object. -/
def addObject (w : World κ σ) (properties : Properties) : ObjectId × World κ σ :=
  (⟨w.objects.size⟩, { w with objects := w.objects.add properties })

/-- A new registry that belongs to no property. -/
def addRegistry (w : World κ σ) : RegistryId × World κ σ :=
  (⟨w.registries.size⟩, { w with registries := w.registries.add {} })

/-- A new subscriber. -/
def addSubscriber (w : World κ σ) (s : Subscriber κ) : SubscriberId × World κ σ :=
  (⟨w.subscribers.size⟩, { w with subscribers := w.subscribers.add s })

/-- A new node. -/
def addNode (w : World κ σ) (n : Node κ) : NodeId × World κ σ :=
  (⟨w.nodes.size⟩, { w with nodes := w.nodes.add n })

/-- A change during which the handles are held on to. -/
def holding (w : World κ σ) (handles : List Handle) (change : World κ σ → World κ σ) :
    World κ σ :=
  { change { w with pins := handles ++ w.pins } with pins := w.pins }

/-- Lets the client take note of a diagnostic. -/
def notice [Client σ] (w : World κ σ) (d : Diagnostic) : World κ σ :=
  { w with client := Client.notice d w.client }

/-- Lets the client take note of several diagnostics. -/
def noticeAll [Client σ] (w : World κ σ) (ds : List Diagnostic) : World κ σ :=
  ds.foldl notice w

end World

end LiveTemplate
