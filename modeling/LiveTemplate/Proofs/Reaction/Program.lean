import LiveTemplate.Reaction.Update

/-!
# Client Programs

What a client can do with observed data, as programs to reason about.

A client looks at the world, changes its own memory, observes data, holds on to
objects and lets go of them, writes properties and paths, creates watchers and
notifies the subscribers of a property. What it does next may depend on every answer,
and a callback is such a program, too. So a statement about all programs is one about
everything that a client may do short of touching the view, callbacks inside
callbacks included.

A client can only use objects that are there. Using an object that is gone is no
step that a program can take, so such a run has no result.

The journal is the client's state: its memory, the objects that it holds, and for each
of its watchers the value that the watcher read last. A watcher reads when it is
created and whenever it is updated, and passes on what it has read then.

## Main definitions

* `Code`: The name of a callback, with the watcher that it belongs to.
* `Journal`: The state of a client.
* `Source`, `Command`: What a client writes, and what it does.
* `Program`: A client program.
* `Program.behaviour`: Callbacks as programs.
* `Program.runAll`: Several programs, one after the other.
-/

namespace LiveTemplate

/-- The name of a callback. -/
inductive Code (ν : Type) where
  /-- A method. -/
  | method (name : ν)
  /-- The callback of a watcher. -/
  | watching (reader : SubscriberId) (name : ν)
  deriving DecidableEq

/-- What the callback is called. -/
def Code.name {ν : Type} : Code ν → ν
  | method name => name
  | watching _ name => name

/-- The state of a client. -/
structure Journal (τ : Type) where
  /-- Its memory. -/
  memory : τ
  /-- What it holds on to. -/
  held : List Handle := []
  /-- What each watcher has read last. -/
  shown : SubscriberId → Option Data := fun _ => none

instance {τ : Type} : Client (Journal τ) where
  held j := j.held
  notice _ j := j

/-- The world of a client with a journal. -/
abbrev ClientWorld (ν τ : Type) := World (Code ν) (Journal τ)

/-- Where a written value comes from. -/
inductive Source where
  /-- It is observed as it is written. -/
  | literal (value : Literal)
  /-- It is there already. -/
  | shared (value : Data)
  /-- It is an object that the client holds, and whose handle it gives away. -/
  | given (o : ObjectId)

/-- What a client does in one step. -/
inductive Command (ν τ : Type) where
  /-- Looks at the world. -/
  | look
  /-- Changes its memory. -/
  | remember (change : τ → τ)
  /-- Observes a value and holds on to the object. -/
  | observe (value : Json)
  /-- Holds on to an object. -/
  | hold (o : ObjectId)
  /-- Lets go of an object. -/
  | release (o : ObjectId)
  /-- Writes a property. -/
  | set (o : ObjectId) (key : String) (value : Source)
  /-- Writes at the end of a path. -/
  | setPath (root : ObjectId) (path : String) (value : Source)
  /-- Creates a watcher. -/
  | watch (root : ObjectId) (path : String) (name : ν)
  /-- Notifies the subscribers of a property. -/
  | notify (o : ObjectId) (key : String)

namespace World

variable {ν τ : Type}

/-- Changes the journal. -/
def write (w : ClientWorld ν τ) (change : Journal τ → Journal τ) : ClientWorld ν τ :=
  { w with client := change w.client }

/-- Writes down what a watcher has read. -/
def record (w : ClientWorld ν τ) (s : SubscriberId) (value : Data) : ClientWorld ν τ :=
  w.write fun j => { j with shown := fun t => if t = s then some value else j.shown t }

/-- Adds handles to the ones that the client holds. -/
def hold (w : ClientWorld ν τ) (handles : List Handle) : ClientWorld ν τ :=
  w.write fun j => { j with held := handles ++ j.held }

/-- Takes a handle from the ones that the client holds. -/
def release (w : ClientWorld ν τ) (h : Handle) : ClientWorld ν τ :=
  w.write fun j => { j with held := j.held.erase h }

/-- What a watcher that is created now reads first. -/
def firstRead (w : ClientWorld ν τ) (root : ObjectId) (path : String)
    (effect : Effect (Code ν)) : Except BindingError Data :=
  let (s, w) := w.addSubscriber (.watcher ⟨root, path, effect⟩)
  (w.readPath (some s) root path).1

/-- Creates a watcher with a callback of its own, and writes down what it has read. -/
def watchAs (w : ClientWorld ν τ) (root : ObjectId) (path : String) (name : ν) :
    Except BindingError SubscriberId × ClientWorld ν τ :=
  let s : SubscriberId := ⟨w.subscribers.size⟩
  let effect : Effect (Code ν) := .call (.watching s name)
  match w.firstRead root path effect, w.watch root path effect with
  | .ok value, (result, w) => (result, w.record s value)
  | .error _, (result, w) => (result, w)

end World

namespace Run

variable {ν τ : Type}

/-- Goes on only if an object is there. -/
def require (o : ObjectId) : Run (Code ν) (Journal τ) Unit := fun w =>
  if o.index < w.objects.size ∧ w.alive (.object o) = true then some ((), w) else none

end Run

/-- The value that is written. A handle that is given away is not held any more. -/
def Source.obtain {ν τ : Type} : Source → Run (Code ν) (Journal τ) Data
  | literal value => Run.apply (World.observeLiteral value)
  | shared (.plain value) => pure (.plain value)
  | shared (.object o) => do
    Run.require o
    pure (.object o)
  | given o => do
    Run.require o
    Run.change (·.release (.object o))
    pure (.object o)

namespace Command

variable {ν τ : Type}

/-- What the client gets to know. -/
abbrev Response : Command ν τ → Type
  | look => ClientWorld ν τ
  | remember _ => Unit
  | observe _ => Option ObjectId
  | hold _ => Unit
  | release _ => Unit
  | set _ _ _ => Except BindingError Bool
  | setPath _ _ _ => Except BindingError Bool
  | watch _ _ _ => Except BindingError SubscriberId
  | notify _ _ => Unit

/-- Carries out a command. An object is there as long as it is being used. -/
def run (host : Host (Code ν) (Journal τ)) :
    (c : Command ν τ) → Run (Code ν) (Journal τ) c.Response
  | look => get
  | remember change => Run.change (·.write fun j => { j with memory := change j.memory })
  | observe value => do
    let o? ← Run.apply (World.observeRoot value)
    Run.change (·.hold (o?.toList.map .object))
    pure o?
  | hold o => do
    Run.require o
    Run.change (·.hold [.object o])
  | release o => Run.change (·.release (.object o))
  | set o key source => do
    let value ← source.obtain
    Run.require o
    Run.pinned [.object o] (host.setProperty o key value)
  | setPath root path source => do
    let value ← source.obtain
    Run.require root
    Run.pinned [.object root] (host.setPath root path value)
  | watch root path name => do
    Run.require root
    Run.apply (·.watchAs root path name)
  | notify o key => do
    Run.require o
    match (← get).property? o key with
    | none => pure ()
    | some p => Run.pinned [.object o] (host.notify p.registry)

end Command

/-- A client program: it ends, or carries out a command and goes on with the answer. -/
inductive Program (ν τ : Type) where
  /-- Nothing more to do. -/
  | done
  /-- A command, and how to go on. -/
  | ask (command : Command ν τ) (next : command.Response → Program ν τ)

namespace Program

variable {ν τ : Type}

/-- Runs a program. -/
def run (host : Host (Code ν) (Journal τ)) : Program ν τ → Run (Code ν) (Journal τ) Unit
  | done => pure ()
  | ask command next => do
    let answer ← command.run host
    (next answer).run host

/-- Runs several programs, one after the other. -/
def runAll (host : Host (Code ν) (Journal τ)) : List (Program ν τ) → Run (Code ν) (Journal τ) Unit
  | [] => pure ()
  | p :: ps => do
    p.run host
    runAll host ps

/-- The journal takes note of a value that a watcher passes on to its callback. -/
def takeNote : Code ν → Signal → Run (Code ν) (Journal τ) Unit
  | .watching s _, .changed value => Run.change (·.record s value)
  | _, _ => pure ()

/-- Callbacks that run programs, by their names. -/
def behaviour (code : ν → Signal → Program ν τ) : Behaviour (Code ν) (Journal τ) :=
  fun host callback signal => do
    takeNote callback signal
    (code callback.name signal).run host
    pure {}

end Program

end LiveTemplate
