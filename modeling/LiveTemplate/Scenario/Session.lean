import LiveTemplate.Scenario.Reply

/-!
# Sessions

The state of a scenario under way: its names, its application, its callbacks and its
log.

Names for objects, nodes and so on live in tables of their own. A name holds on to
what it stands for, except for the ones given without holding; giving a name again
lets go of what it stood for.

## Main definitions

* `CallbackId`, `Callback`: A callback and how often it may still perform its steps.
* `Session`: The state of a scenario.
* `Context`: What a step can see besides: data inside a method, an event inside a
  listener.
* `Act`: A part of performing a step.
* `Act.object`, `Act.node` and others: What names stand for.
* `Act.viewData`, `Act.viewNode` and others: Things as replies show them.
-/

namespace LiveTemplate

namespace Scenario

/-- The identity of a callback. -/
structure CallbackId where
  /-- Its place among the callbacks. -/
  index : Nat
  deriving DecidableEq

/-- A callback under way. -/
structure Callback where
  /-- What it does. -/
  script : CallbackScript Step
  /-- How many more times it performs its steps. -/
  left : Nat

/-- The state of a scenario. -/
structure Session where
  /-- Names of objects. -/
  objects : Table ObjectId := []
  /-- Names of objects that are not held. -/
  weaks : Table ObjectId := []
  /-- Names of nodes. -/
  nodes : Table NodeId := []
  /-- Names of subscribers. -/
  subscribers : Table SubscriberId := []
  /-- Names of watchers. -/
  watchers : Table SubscriberId := []
  /-- Names of registries. -/
  registries : Table RegistryId := []
  /-- The application. -/
  app : Option (App CallbackId) := none
  /-- All callbacks. -/
  callbacks : Heap Callback := {}
  /-- The log, last entry first. -/
  log : List LogEntry := []
  /-- The library's diagnostics go into the log. -/
  tracing : Bool := false

/-- What a session holds on to. -/
def Session.held (s : Session) : List Handle :=
  s.objects.map (.object ·.2) ++ s.nodes.map (.node ·.2) ++ s.subscribers.map (.subscriber ·.2) ++
    s.watchers.map (.subscriber ·.2) ++ s.registries.map (.registry ·.2) ++
    (s.app.map App.pins).getD []

instance : Client Session where
  held := Session.held
  notice d s := if s.tracing then { s with log := .noted d :: s.log } else s

/-- What a step can see besides the session. -/
structure Context where
  /-- The data of the method that is running. -/
  data : Option ObjectId := none
  /-- The event of the listener that is running. -/
  event : Option Event := none

/-- A world with a session. -/
abbrev Stage := World CallbackId Session

/-- A part of performing a step. -/
abbrev Act := ExceptT Problem (Run CallbackId Session)

namespace Act

/-- A run as a part that does not fail. -/
def lift {α : Type} (r : Run CallbackId Session α) : Act α :=
  ExceptT.lift r

/-- Something read off the world. -/
def read {α : Type} (f : Stage → α) : Act α :=
  lift (Run.read f)

/-- The world as it is. -/
def world : Act Stage :=
  read fun w => w

/-- A change of the world. -/
def change (f : Stage → Stage) : Act Unit :=
  lift (Run.change f)

/-- A change of the world with a result. -/
def apply {α : Type} (f : Stage → α × Stage) : Act α :=
  lift (Run.apply f)

/-- A result that may be missing, in which case performing the step does not come to an
    end. -/
def ofOption {α : Type} (a? : Option α) : Act α :=
  lift (Run.ofOption a?)

/-- A change of the session. -/
def session (f : Session → Session) : Act Unit :=
  change fun w => { w with client := f w.client }

/-- Fails if there is an error, of which the problem is made. -/
def orFail {ε α : Type} (problem : ε → Problem) : Except ε α → Act α
  | .ok a => pure a
  | .error e => throw (problem e)

/-- What a name stands for. -/
def lookUp {α : Type} (kind : NameKind) (table : Session → Table α) (name : String) : Act α := do
  match Table.find? name (table (← read (·.client))) with
  | some a => pure a
  | none => throw (.unknownName kind name)

/-- The object that has been given a name. -/
def namedObject (name : String) : Act ObjectId :=
  lookUp .object Session.objects name

/-- How a step calls the data of the running method. -/
def methodData : String := "$data"

/-- The object that a step acts on: the data of the running method, or the object that has
    been given a name. -/
def object (c : Context) (name : String) : Act ObjectId :=
  if name = methodData then
    match c.data with
    | some o => pure o
    | none => throw (.unknownName .object name)
  else namedObject name

/-- The subscriber that a name stands for. -/
def subscriber (name : String) : Act SubscriberId :=
  lookUp .subscriber Session.subscribers name

/-- The registry that a name stands for. -/
def registry (name : String) : Act RegistryId :=
  lookUp .registry Session.registries name

/-- The subscriber that reads, if one is named. -/
def reader : Option String → Act (Option SubscriberId)
  | none => pure none
  | some name => return some (← subscriber name)

/-- The application. -/
def app : Act (App CallbackId) := do
  match (← read (·.client)).app with
  | some app => pure app
  | none => throw .noApp

/-- Names an object. -/
def nameObject (name : String) (o : ObjectId) : Act Unit :=
  session fun s => { s with objects := Table.insert name o s.objects }

/-- Names a node. -/
def nameNode (name : String) (n : NodeId) : Act Unit :=
  session fun s => { s with nodes := Table.insert name n s.nodes }

/-- A new callback. -/
def callback (script : CallbackScript Step) : Act CallbackId := do
  let s := (← read (·.client))
  session fun s => { s with callbacks := s.callbacks.add ⟨script, script.limit⟩ }
  pure ⟨s.callbacks.size⟩

/-- New callbacks with their names. -/
def callbacks (scripts : List (CallbackScript Step)) : Act (List (String × CallbackId)) :=
  scripts.mapM fun script => return (script.name, ← callback script)

/-- A value as replies show it. -/
def viewData (d : Data) : Act DataView := do
  let plain ← ofOption ((← world).snapshot? d)
  pure ⟨d.object?.isSome, plain⟩

/-- A registry as replies show it. -/
def viewRegistry (r : Registry) : Act RegistryView := do
  let s ← read (·.client)
  let known := s.subscribers.filter fun (_, id) => r.contains id
  pure ⟨r.subscribers.length, Table.keys known, r.describe⟩

end Act

/-- A node as replies show it. -/
def viewNode (w : Stage) (n : NodeId) : NodeView :=
  let node := w.node n
  match node.kind with
  | .element tag => .element tag (node.attributes.get? "id") node.children.length
  | .text content => .text content
  | .comment content => .comment content

/-- An event as replies show it. -/
def viewEvent (w : Stage) (e : Event) : EventView :=
  ⟨e.kind, e.target.map (viewNode w), e.current.map (viewNode w), e.flags⟩

/-- The node is an element with this identity attribute. -/
def hasId (w : Stage) (id : String) (n : NodeId) : Bool :=
  (w.node n).kind.isElement && (w.node n).attributes.get? "id" == some id

/-- The node is an element with this tag, in lower or upper case. -/
def hasTag (w : Stage) (tag : String) (n : NodeId) : Bool :=
  (w.node n).kind == NodeKind.ofTag tag

namespace Act

/-- The first node at or beneath a node that satisfies a test, and how many were tested. -/
def search (n : NodeId) (test : Stage → NodeId → Bool) : Act World.Finding := do
  let w ← world
  ofOption (w.find? (test w) n)

/-- The node to which a part of a reference leads. -/
def orMissing (shown : Json) : Option NodeId → Act NodeId
  | some n => pure n
  | none => throw (.noNode shown)

/-- The child at a place. -/
def childAt? (w : Stage) (n : NodeId) (place : Option Nat) : Option NodeId :=
  place.bind fun i => (w.node n).children[i]?

/-- The node that a reference names. -/
def node : NodeRef → Act NodeId
  | .named name => do
    match Table.find? name (← read (·.client)).nodes with
    | some n => pure n
    | none => throw (.noNode (.string name))
  | .inside base id tag places shown => do
    let n ← node base
    let n ←
      match id with
      | none => pure n
      | some id => do orMissing shown (← search n (hasId · id)).1
    let n ←
      match tag with
      | none => pure n
      | some tag => do orMissing shown (← search n (hasTag · tag)).1
    places.foldlM (fun n place => do orMissing shown (childAt? (← world) n place)) n
  | .none shown => throw (.noNode shown)

/-- The value to write into an object, or what stands for it. A path starts at the object
    that is written to, unless it starts at an object of another name. -/
def value (target : ObjectId) : Source → Act Data
  | .handle name => return .object (← namedObject name)
  | .path name path => do
    let o ←
      match name with
      | none => pure target
      | some name => if name = methodData then pure target else namedObject name
    orFail .binding ((← world).getPath o path)
  | .literal literal => apply (World.observeLiteral literal)

end Act

end Scenario

end LiveTemplate
