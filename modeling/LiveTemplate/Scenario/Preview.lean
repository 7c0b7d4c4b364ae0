import LiveTemplate.Scenario.Reply

/-!
# Previews

Two short experiments: an application that is built and written to, and values that
are compared with each other. Nothing is held on to in between, and methods do
nothing.

## Main definitions

* `Preview`, `Preview.run`: An application before and after some writes.
* `compareAll`: Values as replies show them, each compared with all.
-/

namespace LiveTemplate

namespace Scenario

open Markup

/-- A client that holds on to nothing and takes note of nothing. -/
instance : Client Unit where
  held _ := []
  notice _ _ := ()

/-- Methods that do nothing. -/
def idle : Behaviour Unit Unit :=
  fun _ _ _ => pure {}

/-- An application and writes to it. -/
structure Preview where
  /-- The data. -/
  data : Option Json := none
  /-- The markup of the template. -/
  template : Option String := none
  /-- The names of the methods. -/
  methods : List String := []
  /-- The marks of directives and expressions. -/
  markers : Markers := .standard
  /-- Paths and the values that are written there, one after the other. -/
  writes : List (String × Literal) := []

/-- What a preview shows. -/
structure PreviewResult where
  /-- What each write changed, and the markup after it. -/
  writes : List (Except BindingError Bool × String)
  /-- The outline of the view in the end. -/
  outline : List OutlineLine
  /-- The data in the end. -/
  data : Json

namespace Preview

/-- Writes to an application, one value after the other. -/
def writeAll (host : Host Unit Unit) (app : App Unit) :
    List (String × Literal) → Run Unit Unit (List (Except BindingError Bool × String))
  | [] => pure []
  | (path, literal) :: rest => do
    let value ← Run.apply (World.observeLiteral literal)
    let changed ← host.setData app path value
    let html ← Run.ofOption ((← get).outerHtml? app.root)
    return (changed, html) :: (← writeAll host app rest)

/-- The deepest view of a preview. -/
def depth : Nat := 100000

/-- Builds the application and writes to it. -/
def perform (p : Preview) : Run Unit Unit (Except AppError PreviewResult) := do
  let methods := Table.ofList (p.methods.map (·, ()))
  match ← Blueprint.build ⟨p.data, p.template, none, methods, p.markers⟩ depth with
  | .error e => pure (.error e)
  | .ok app =>
    let writes ← writeAll (Behaviour.host idle depth 1) app p.writes
    let w ← get
    let outline ← Run.ofOption (w.outline? app.root)
    let data ← Run.ofOption (w.snapshot? (.object app.data))
    pure (.ok ⟨writes, outline, data⟩)

/-- What the preview shows, if everything comes to an end. -/
def run (p : Preview) : Option (Except AppError PreviewResult) :=
  (p.perform.run { client := () }).map (·.1)

end Preview

/-- Observes literals, first to last. -/
def observeAll : List Literal → World Unit Unit → List Data × World Unit Unit
  | [], w => ([], w)
  | literal :: rest, w =>
    let (d, w) := w.observeLiteral literal
    let (ds, w) := observeAll rest w
    (d :: ds, w)

/-- The literals as observed values, each with its comparisons to all of them. -/
def compareAll (literals : List Literal) : Option (List (DataView × List Bool)) :=
  let (ds, w) := observeAll literals { client := () }
  ds.mapM fun d => (w.snapshot? d).map fun plain =>
    (⟨d.object?.isSome, plain⟩, ds.map d.same)

end Scenario

end LiveTemplate
