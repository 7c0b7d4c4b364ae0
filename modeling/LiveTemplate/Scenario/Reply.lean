import LiveTemplate.Binding.Description
import LiveTemplate.Scenario.Step

/-!
# Replies

What a step of a scenario answers, and the problems that keep it from answering.

## Main definitions

* `Problem`: Why a step failed.
* `DataView`, `RegistryView`, `NodeView`, `EventView`: Things as replies show them.
* `Reply`: What a step answers.
* `LogEntry`: What happens in between.
-/

namespace LiveTemplate

namespace Scenario

open Markup

/-- The kinds of names in a scenario. -/
inductive NameKind where
  /-- Objects. -/
  | object
  /-- Objects that are not held. -/
  | weak
  /-- Subscribers. -/
  | subscriber
  /-- Watchers. -/
  | watcher
  /-- Registries. -/
  | registry
  deriving DecidableEq

/-- The kind in a word. -/
def NameKind.word : NameKind → String
  | object => "object"
  | weak => "weak"
  | subscriber => "subscriber"
  | watcher => "watcher"
  | registry => "dep"

/-- Why a step failed. -/
inductive Problem where
  /-- A name stands for nothing. -/
  | unknownName (kind : NameKind) (name : String)
  /-- There is no event. -/
  | noEvent
  /-- A reference leads to no node. -/
  | noNode (shown : Json)
  /-- There is no application. -/
  | noApp
  /-- There is no such step. -/
  | unknownStep (name : String)
  /-- A path could not be followed. -/
  | binding (error : BindingError)
  /-- Markup is no template. -/
  | template (error : TemplateError)
  /-- A template could not be compiled. -/
  | compile (error : CompileError)
  /-- A configuration chooses no markers. -/
  | configuration (error : ConfigurationError)
  /-- An application could not be built. -/
  | app (error : AppError)

/-- A value as replies show it. -/
structure DataView where
  /-- It is an observed object. -/
  isObject : Bool
  /-- Its plain form. -/
  plain : Json

/-- A registry as replies show it. -/
structure RegistryView where
  /-- The number of subscribers. -/
  size : Nat
  /-- The names of the subscribers that have one. -/
  known : List String
  /-- The registry in one line. -/
  description : String

/-- A node as replies show it. -/
inductive NodeView where
  /-- An element: its tag, its identity attribute and the number of its children. -/
  | element (tag : String) (id : Option String) (children : Nat)
  /-- A text. -/
  | text (content : String)
  /-- A comment. -/
  | comment (content : String)

/-- An event as replies show it. -/
structure EventView where
  /-- What happened. -/
  kind : String
  /-- Where it happened. -/
  target : Option NodeView
  /-- Where listeners are running. -/
  current : Option NodeView
  /-- What listeners have asked for. -/
  flags : EventFlags

/-- A node and its surroundings as replies show them. -/
structure Inspection where
  /-- The node. -/
  node : NodeView
  /-- It is an element. -/
  isElement : Bool
  /-- It is a text. -/
  isText : Bool
  /-- The tag. -/
  tag : String
  /-- The parent. -/
  parent : Option NodeView
  /-- The children. -/
  children : List NodeView

/-- What a step answers. -/
inductive Reply where
  /-- That it is done. -/
  | done
  /-- Yes or no. -/
  | flag (b : Bool)
  /-- Several times yes or no. -/
  | flags (bs : List Bool)
  /-- A number. -/
  | count (n : Nat)
  /-- A text. -/
  | text (s : String)
  /-- A text, if there is one. -/
  | maybeText (s : Option String)
  /-- Several texts. -/
  | texts (ss : List String)
  /-- A value. -/
  | data (d : DataView)
  /-- A value and the registry of its property. -/
  | field (value : DataView) (registry : RegistryView)
  /-- The keys of an object. -/
  | keys (keys : List String)
  /-- A registry. -/
  | registry (r : RegistryView)
  /-- A reader: whether there is a subscriber to it, the subscriber's names, and the reader
      in one line. -/
  | context (tracking : Bool) (names : List String) (description : Option String)
  /-- A watcher: its path and the value there. -/
  | watcher (path : String) (value : Option DataView)
  /-- Attributes. -/
  | attributes (attributes : Attributes)
  /-- An outline. -/
  | outline (lines : List OutlineLine)
  /-- A node and its surroundings. -/
  | inspection (i : Inspection)
  /-- A node, if there is one. -/
  | maybeNode (n : Option NodeView)
  /-- A node, if there is one, and how many were looked at. -/
  | found (n : Option NodeView) (visited : Nat)
  /-- An event. -/
  | event (e : EventView)
  /-- An event before and after it is dispatched, and what listeners have asked for. -/
  | dispatched (before after : EventView) (added : EventFlags)
  /-- Methods, whether one is among them, and all in one line. -/
  | methods (names : List String) (contains : Bool) (description : String)
  /-- The markup of a new application. -/
  | built (html : String)
  /-- The markup and the data of an application. -/
  | state (html : String) (data : Json)
  /-- That it failed. -/
  | failed (problem : Problem)

/-- What happens while a step is performed. -/
inductive LogEntry where
  /-- A callback is called and shown a text. -/
  | called (name shown : String)
  /-- A callback has performed a step. -/
  | performed (name : String) (reply : Reply)
  /-- The library notes something. -/
  | noted (d : Diagnostic)

end Scenario

end LiveTemplate
