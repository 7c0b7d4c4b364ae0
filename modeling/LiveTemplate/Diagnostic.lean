import LiveTemplate.Directive.Basic
import LiveTemplate.Store.BindingError
import LiveTemplate.Text.Quoted

/-!
# Diagnostics

What the library notes about its own work. A diagnostic says what happened in terms
of the library's types; `Diagnostic.report` words it for a log, with a level and
named fields.

## Main definitions

* `NodeSummary`: A node of the view as diagnostics show it.
* `CompileStats`: What compiling a template amounted to.
* `Diagnostic`: Something worth noting.
* `Diagnostic.report`: A diagnostic as a line of a log.
-/

namespace LiveTemplate

open Text

/-- A node as diagnostics show it. -/
inductive NodeSummary where
  /-- An element with its tag and the number of its children. -/
  | element (tag : String) (children : Nat)
  /-- A text. -/
  | text (content : String)
  /-- A comment. -/
  | comment (content : String)
  deriving DecidableEq

/-- The summary in one line. -/
def NodeSummary.describe : NodeSummary → String
  | element tag children =>
    "Element \x7b tag: " ++ quoted tag ++ ", children: " ++ toString children ++ " \x7d"
  | text content => "Text(" ++ quoted content ++ ")"
  | comment content => "Comment(" ++ quoted content ++ ")"

/-- What compiling a template amounted to. -/
structure CompileStats where
  /-- Nodes visited. -/
  nodes : Nat := 0
  /-- Watchers created. -/
  watchers : Nat := 0
  /-- Event listeners added. -/
  listeners : Nat := 0
  /-- Directives without effect. -/
  ignored : Nat := 0
  deriving DecidableEq

/-- Something that the library notes about its work. -/
inductive Diagnostic where
  /-- A value that is no object was to be observed. -/
  | notObserved (kind : String)
  /-- A subscriber entered a registry. -/
  | subscribed
  /-- The subscribers of a registry are about to be updated. -/
  | notified (subscribers : Nat)
  /-- A watcher was created. -/
  | watcherCreated (path : String)
  /-- A watcher is about to pass on a value. -/
  | watcherUpdated (path : String)
  /-- A watcher's path cannot be followed any more. -/
  | watcherUnresolved (error : BindingError)
  /-- Markup was read. -/
  | markupRead (roots : Nat)
  /-- A closing tag closed nothing. -/
  | strayClosing (tag : String)
  /-- A node was not put beneath itself. -/
  | beneathItself (tag : String)
  /-- A template is about to be compiled. -/
  | compiling (root : String)
  /-- A node of a template is about to be compiled. -/
  | visiting (node : NodeSummary)
  /-- A comment was passed over. -/
  | commentSkipped
  /-- A value is bound to an element. -/
  | valueBound (name key : String)
  /-- A method is bound to an event. -/
  | eventBound (event method : String) (modifiers : Modifiers)
  /-- A directive of an unknown name has no effect. -/
  | unknownDirective (name directive : String)
  /-- An unknown directive has modifiers. -/
  | unknownModified (name : String)
  /-- An event modifier of an unknown name has no effect. -/
  | unknownModifier (event modifier : String)
  /-- An event directive without event has no effect. -/
  | eventUnnamed (name : String)
  /-- What was entered into a form field could not be stored. -/
  | writeBackFailed (error : BindingError)
  /-- A template was compiled. -/
  | compiled (stats : CompileStats)
  /-- An application is ready. -/
  | mounted (methods : Nat)
  deriving DecidableEq

/-- How much a diagnostic matters. -/
inductive Level where
  /-- A single step. -/
  | trace
  /-- A result. -/
  | debug
  /-- Something that is probably a mistake. -/
  | warn
  deriving DecidableEq

/-- The level's name in a log. -/
def Level.name : Level → String
  | trace => "TRACE"
  | debug => "DEBUG"
  | warn => "WARN"

/-- A line of a log. -/
structure Report where
  /-- How much it matters. -/
  level : Level
  /-- What happened. -/
  message : String
  /-- Particulars by name. -/
  fields : List (String × String) := []
  /-- The line opens a stretch of work instead of noting a moment in it. -/
  opensSpan : Bool := false

/-- Modifiers as a log shows them. -/
def Modifiers.describe (m : Modifiers) : String :=
  let names := (if m.stop then ["STOP"] else []) ++ (if m.prevent then ["PREVENT"] else [])
  "Modifiers(" ++ (if names.isEmpty then "0x0" else " | ".intercalate names) ++ ")"

/-- The diagnostic as a line of a log. -/
def Diagnostic.report : Diagnostic → Report
  | notObserved kind => ⟨.trace, "observe skipped non-object root", [("kind", kind)], false⟩
  | subscribed => ⟨.trace, "dep subscribed", [], false⟩
  | notified n => ⟨.trace, "dep notify", [("subscribers", toString n)], false⟩
  | watcherCreated path => ⟨.debug, "watcher created", [("path", path)], false⟩
  | watcherUpdated path => ⟨.trace, "watcher update", [("path", path)], false⟩
  | watcherUnresolved e =>
    ⟨.warn, "watcher path no longer resolves", [("error", e.message)], false⟩
  | markupRead n => ⟨.trace, "markup parsed", [("roots", toString n)], false⟩
  | strayClosing tag => ⟨.trace, "dropping stray closing tag", [("tag", tag)], false⟩
  | beneathItself tag =>
    ⟨.warn, "refusing to append a node beneath itself", [("tag", tag)], false⟩
  | compiling root => ⟨.debug, "compile", [("root", root)], true⟩
  | visiting node => ⟨.trace, "visit", [("node", node.describe)], false⟩
  | commentSkipped => ⟨.trace, "skipping comment", [], false⟩
  | valueBound name key =>
    ⟨.debug, "value binding created", [("attribute", name), ("key", key)], false⟩
  | eventBound event method modifiers =>
    ⟨.debug, "event binding created",
      [("event", event), ("method", method), ("modifiers", modifiers.describe)], false⟩
  | unknownDirective name directive =>
    ⟨.debug, "ignoring unknown directive", [("attribute", name), ("directive", directive)], false⟩
  | unknownModified name =>
    ⟨.trace, "modifiers on unknown directive", [("attribute", name)], false⟩
  | unknownModifier event modifier =>
    ⟨.debug, "ignoring unknown event modifier", [("event", event), ("modifier", modifier)], false⟩
  | eventUnnamed name =>
    ⟨.debug, "ignoring event directive without an event name", [("attribute", name)], false⟩
  | writeBackFailed e => ⟨.warn, "two-way binding write failed", [("error", e.message)], false⟩
  | compiled stats =>
    ⟨.debug, "template compiled",
      [("nodes", toString stats.nodes), ("watchers", toString stats.watchers),
        ("listeners", toString stats.listeners), ("ignored", toString stats.ignored)], false⟩
  | mounted methods => ⟨.debug, "app mounted", [("methods", toString methods)], false⟩

end LiveTemplate
