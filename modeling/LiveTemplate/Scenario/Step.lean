import LiveTemplate.Directive.Markers
import LiveTemplate.Store.Observe

/-!
# Steps

A scenario is a script that exercises the library: a list of steps, each of which
does one thing to named objects, nodes and subscribers, and callbacks that perform
steps themselves when they are called.

A callback that has been called a number of times performs nothing more. So only
finitely many calls of callbacks in a scenario perform steps, and `Step.weight`
bounds their number: it is how deep calls inside calls can go.

## Main definitions

* `NodeRef`, `Source`: How steps name nodes and values.
* `CallbackScript`: What a callback does when it is called.
* `DataStep`, `RegistryStep`, `ViewStep`, `EventStep`, `AppStep`: Steps without
  callbacks.
* `Step`: A step.
* `Step.weight`: The number of calls that a step can lead to.
-/

namespace LiveTemplate

namespace Scenario

/-- A way to name a node. Each way carries what it is called in errors. -/
inductive NodeRef where
  /-- By its name. -/
  | named (name : String)
  /-- As the element with an identity attribute, then the one with a tag, then the child at
      a place, and so on, as far as given, from another node. -/
  | inside (base : NodeRef) (id tag : Option String) (places : List (Option Nat)) (shown : Json)
  /-- In no way at all. -/
  | none (shown : Json)

/-- A value to be written. -/
inductive Source where
  /-- The object of that name. -/
  | handle (name : String)
  /-- The value at a path of the object of that name, or of the one written to. -/
  | path (object : Option String) (path : String)
  /-- A value that is given. -/
  | literal (value : Literal)

/-- What a callback does when it is called: it performs steps, at most a number of times,
    and perhaps only if it is shown a certain text. -/
structure CallbackScript (S : Type) where
  /-- The callback's name in the log. -/
  name : String
  /-- The steps. -/
  steps : List S := []
  /-- The text for which the steps are performed; without one, for any. -/
  condition : Option String := none
  /-- How many times the steps are performed. -/
  limit : Nat := 4

/-- Steps on observed data. -/
inductive DataStep where
  /-- Observes a value. -/
  | observe (name : String) (value : Json)
  /-- The value of a property. -/
  | get (object key : String)
  /-- The value of a property, with a subscriber registered. -/
  | read (object key : String) (reader : Option String)
  /-- The value at a path. -/
  | getPath (object path : String)
  /-- The value at a path, with a subscriber registered on the way. -/
  | readPath (object path : String) (reader : Option String)
  /-- Writes a property. -/
  | set (object key : String) (value : Source)
  /-- Writes at a path. -/
  | setPath (object path : String) (value : Source)
  /-- Reads a property and shows its registry. -/
  | field (object key : String) (reader : Option String)
  /-- Adds to an integer at a path. -/
  | add (object path : String) (amount : Int)
  /-- Adds text to what a path shows. -/
  | appendText (object path text : String)
  /-- Names the object at a path. -/
  | bind (name object path : String)
  /-- The keys of an object. -/
  | keys (object : String)
  /-- Whether an object has a key. -/
  | contains (object key : String)
  /-- The plain form of an object. -/
  | json (object : String)
  /-- Whether two names stand for one object. -/
  | same (object other : String)
  /-- Names an object without holding it. -/
  | weaken (name object : String)
  /-- Names an object that was named without holding it. -/
  | upgrade (weak : String) (name : Option String)
  /-- Drops the name of an object. -/
  | drop (object : String)
  /-- Describes an object. -/
  | describe (object : String)
  /-- Describes the value at a path. -/
  | describeValue (object path : String)
  /-- Describes a property. -/
  | describeField (object key : String)

/-- Steps on registries and subscribers. -/
inductive RegistryStep where
  /-- Compares the identities of two subscribers. -/
  | compare (a b : String)
  /-- Shows a reader. -/
  | context (reader : Option String)
  /-- Creates a registry. -/
  | create (name : String)
  /-- Registers a subscriber. -/
  | add (registry subscriber : String)
  /-- Registers a reader. -/
  | depend (registry : String) (reader : Option String)
  /-- Updates a registry's subscribers. -/
  | notify (registry : String)
  /-- Shows a registry. -/
  | state (registry : String)
  /-- Updates the subscribers of a property. -/
  | notifyProperty (object key : String)
  /-- Updates a subscriber. -/
  | refresh (subscriber : String)
  /-- Shows a watcher. -/
  | watcher (name : String)
  /-- Drops the name of a watcher. -/
  | drop (name : String)

/-- Steps on nodes. -/
inductive ViewStep where
  /-- Creates an element. -/
  | element (name tag : String)
  /-- Creates a text. -/
  | text (name content : String)
  /-- Creates a comment. -/
  | comment (name content : String)
  /-- Makes a node of a template. -/
  | template (name markup : String)
  /-- Names a node. -/
  | nameAs (name : String) (node : NodeRef)
  /-- Drops the name of a node. -/
  | drop (name : String)
  /-- Puts a node beneath another one. -/
  | append (parent child : NodeRef)
  /-- Takes a node away from its parent. -/
  | detach (node : NodeRef)
  /-- Gives a node other children. -/
  | replaceChildren (node : NodeRef) (children : List NodeRef)
  /-- Sets an attribute. -/
  | setAttribute (node : NodeRef) (name value : String)
  /-- Sets the form value. -/
  | setValue (node : NodeRef) (value : String)
  /-- Sets the text. -/
  | setText (node : NodeRef) (content : String)
  /-- Sets the markup inside. -/
  | setHtml (node : NodeRef) (markup : String)
  /-- Removes an attribute. -/
  | removeAttribute (node : NodeRef) (name : String)
  /-- The value of an attribute. -/
  | getAttribute (node : NodeRef) (name : String)
  /-- All attributes. -/
  | attributes (node : NodeRef)
  /-- The form value. -/
  | value (node : NodeRef)
  /-- The text. -/
  | textContent (node : NodeRef)
  /-- The markup inside. -/
  | inner (node : NodeRef)
  /-- The markup. -/
  | outer (node : NodeRef)
  /-- The outline. -/
  | outline (node : NodeRef)
  /-- The node and its surroundings. -/
  | inspect (node : NodeRef)
  /-- Whether two references name one node. -/
  | same (node other : NodeRef)
  /-- The element with an identity attribute. -/
  | findId (node : NodeRef) (id : String)
  /-- The element with a tag. -/
  | findTag (node : NodeRef) (tag : String)
  /-- The first node of a kind, with an attribute, that shows a text. -/
  | find (node : NodeRef) (kind attr text : Option String)
  /-- Describes a node. -/
  | describe (node : NodeRef)

/-- Steps on events. -/
inductive EventStep where
  /-- The number of listeners to a kind of event. -/
  | listeners (node : NodeRef) (kind : String)
  /-- Dispatches an event, perhaps stopped or prevented already. -/
  | dispatch (node : NodeRef) (kind : String) (stop prevent : Bool)
  /-- Enters text into a form field. -/
  | input (node : NodeRef) (text : String)
  /-- Clicks on a node. -/
  | click (node : NodeRef)
  /-- Stops the event that is being listened to. -/
  | stop
  /-- Prevents the default of the event that is being listened to. -/
  | prevent
  /-- Shows the event that is being listened to. -/
  | current

/-- Steps on the application. -/
inductive AppStep where
  /-- The value at a path of the application's data. -/
  | get (path : String)
  /-- Writes at a path of the application's data. -/
  | set (path : String) (value : Source)
  /-- Calls a method. -/
  | call (method : String)
  /-- The names of the methods. -/
  | methods
  /-- The markup and the data. -/
  | state
  /-- Drops the application. -/
  | drop
  /-- Describes the application. -/
  | describe

/-- Where the markers of an application come from. -/
inductive MarkerSource where
  /-- A TOML document. -/
  | toml (text : String)
  /-- The markers themselves. -/
  | markers (markers : Markers)

/-- A step of a scenario. -/
inductive Step where
  /-- A step on observed data. -/
  | data (step : DataStep)
  /-- A step on registries and subscribers. -/
  | registry (step : RegistryStep)
  /-- A step on nodes. -/
  | view (step : ViewStep)
  /-- A step on events. -/
  | event (step : EventStep)
  /-- A step on the application. -/
  | app (step : AppStep)
  /-- Creates a subscriber. -/
  | probe (callback : CallbackScript Step)
  /-- Creates a watcher on a path of an object. -/
  | watch (object path : String) (callback : CallbackScript Step)
  /-- Adds a listener to a node. -/
  | listen (node : NodeRef) (kind : String) (callback : CallbackScript Step)
  /-- Compiles a template against an object and methods. -/
  | compile (object : String) (node : NodeRef) (methods : List (CallbackScript Step))
      (markers : Markers)
  /-- Shows methods and asks for one of them. -/
  | methods (methods : List (CallbackScript Step)) (name : String)
  /-- Builds an application, with some methods named before and some after a whole set of
      methods is given. -/
  | build (data : Option Json) (template : Option String) (mount : Option NodeRef)
      (early : List (CallbackScript Step)) (methods : Option (List (CallbackScript Step)))
      (late : List (CallbackScript Step)) (markers : MarkerSource)
  /-- A step of an unknown kind. -/
  | unknown (name : String)

mutual

/-- How many calls that perform steps a step can lead to. -/
def Step.weight : Step → Nat
  | .probe callback => callbackWeight callback
  | .watch _ _ callback => callbackWeight callback
  | .listen _ _ callback => callbackWeight callback
  | .compile _ _ methods _ => callbacksWeight methods
  | .methods methods _ => callbacksWeight methods
  | .build _ _ _ early none late _ => callbacksWeight early + callbacksWeight late
  | .build _ _ _ early (some methods) late _ =>
    callbacksWeight early + callbacksWeight methods + callbacksWeight late
  | _ => 0

/-- How many calls that perform steps a callback can lead to. -/
def callbackWeight : CallbackScript Step → Nat
  | ⟨_, steps, _, limit⟩ => limit * (1 + stepsWeight steps)

/-- How many calls that perform steps a list of steps can lead to. -/
def stepsWeight : List Step → Nat
  | [] => 0
  | step :: steps => step.weight + stepsWeight steps

/-- How many calls that perform steps a list of callbacks can lead to. -/
def callbacksWeight : List (CallbackScript Step) → Nat
  | [] => 0
  | callback :: callbacks => callbackWeight callback + callbacksWeight callbacks

end

end Scenario

end LiveTemplate
