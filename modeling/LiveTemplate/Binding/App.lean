import LiveTemplate.Binding.Compile
import LiveTemplate.Directive.Configuration
import LiveTemplate.Markup.Template
import LiveTemplate.Reaction.Dispatch

/-!
# Applications

Observed data, a view and methods that belong together.

Building an application checks the markers, observes the data, makes the view and
compiles it, in this order, and fails at the first of these that fails. The view is a
template's root, or a node of the client's, or both, with the template appended to
the node.

## Main definitions

* `App`: An application.
* `Blueprint`: What an application is built from.
* `AppError`: Why there is no application.
* `Blueprint.view`, `Blueprint.compile`, `Blueprint.build`: Building.
* `Host.setData`, `Host.callMethod`: Writing a value and calling a method by name.
-/

namespace LiveTemplate

open Markup

/-- Observed data, a view and methods. -/
structure App (κ : Type) where
  /-- The data. -/
  data : ObjectId
  /-- The root of the view. -/
  root : NodeId
  /-- The methods by name. -/
  methods : Methods κ
  deriving DecidableEq

/-- What an application is built from. -/
structure Blueprint (κ : Type) where
  /-- The data as plain values. Without any the application has no properties. -/
  data : Option Json := none
  /-- The markup of a template. -/
  template : Option String := none
  /-- A node of the client's. -/
  mount : Option NodeId := none
  /-- The methods by name. -/
  methods : Methods κ := []
  /-- The marks of directives and expressions. -/
  markers : Markers := .standard

/-- Why an application could not be built. -/
inductive AppError where
  /-- The markers are unusable. -/
  | markers (fault : MarkerFault)
  /-- The data is no object. -/
  | dataNotObject
  /-- There is neither a template nor a node. -/
  | missingTemplate
  /-- The template's markup is no template. -/
  | template (error : TemplateError)
  /-- The template could not be compiled. -/
  | compile (error : CompileError)
  deriving DecidableEq

/-- The wording of the error. -/
def AppError.message : AppError → String
  | markers fault => fault.message
  | dataNotObject => "app data must be a JSON object"
  | missingTemplate => "app has neither a template nor a mount node"
  | template error => error.message
  | compile error => error.message

variable {κ σ : Type} [Client σ]

/-- A node for the root of a template. -/
def World.plantTemplate (w : World κ σ) (markup : String) :
    Except TemplateError NodeId × World κ σ :=
  let fragment := Fragment.parse markup
  let w := w.noticeAll (fragment.strays.map .strayClosing)
  let w := w.notice (.markupRead fragment.forest.length)
  match rootElement fragment.forest with
  | .error e => (.error e, w)
  | .ok t =>
    let (n, w) := plant t w
    (.ok n, w)

namespace Blueprint

/-- The root of the view, made from the template and the client's node. -/
def view (b : Blueprint κ) (w : World κ σ) : Except AppError NodeId × World κ σ :=
  match b.template, b.mount with
  | none, none => (.error .missingTemplate, w)
  | none, some mount => (.ok mount, w)
  | some markup, mount? =>
    match w.plantTemplate markup, mount? with
    | (.error e, w), _ => (.error (.template e), w)
    | (.ok n, w), none => (.ok n, w)
    | (.ok n, w), some mount => (.ok mount, w.append mount n)

/-- Compiles a view against data. -/
def compile (b : Blueprint κ) (depth : Nat) (data : ObjectId) (root : NodeId) :
    Run κ σ (Except AppError (App κ)) := do
  let template : Template κ := ⟨data, b.methods, b.markers⟩
  match ← (template.compile depth root).run with
  | .error e => pure (.error (.compile e))
  | .ok () =>
    Run.notice (.mounted b.methods.length)
    pure (.ok ⟨data, root, b.methods⟩)

/-- Builds an application whose view is at most `depth` levels deep. -/
def build (b : Blueprint κ) (depth : Nat) : Run κ σ (Except AppError (App κ)) := do
  match b.markers.fault? with
  | some fault => pure (.error (.markers fault))
  | none =>
    match ← Run.apply (World.observeRoot (b.data.getD (.object []))) with
    | none => pure (.error .dataNotObject)
    | some data =>
      match ← Run.apply b.view with
      | .error e => pure (.error e)
      | .ok root => b.compile depth data root

end Blueprint

/-- What an operation on an application holds on to. -/
def App.pins (app : App κ) : List Handle :=
  [.object app.data, .node app.root]

namespace Host

/-- Writes a value into the data of an application. -/
def setData (host : Host κ σ) (app : App κ) (path : String) (value : Data) :
    Run κ σ (Except BindingError Bool) :=
  Run.pinned app.pins (host.setPath app.data path value)

/-- Calls a method of an application by name: whether there is one. -/
def callMethod (host : Host κ σ) (app : App κ) (name : String) : Run κ σ Bool := do
  match Table.find? name app.methods with
  | none => pure false
  | some method =>
    Run.pinned app.pins do
      let _ ← host.call method (.invoked app.data none)
    pure true

end Host

end LiveTemplate
