import LiveTemplate.Scenario.DataSteps

/-!
# Steps on Applications

## Main definitions

* `AppStep.perform`: What a step on the application does and answers.
* `buildApp`: The step that builds an application.
-/

namespace LiveTemplate

namespace Scenario

open Act

/-- The name under which an application's data and its view's root are found. -/
def appName : String := "app"

/-- Performs a step on the application. -/
def AppStep.perform (host : Host CallbackId Session) : AppStep → Act Reply
  | .get path => do
    let app ← Act.app
    return .data (← viewData (← valueAt app.data path))
  | .set path source => do
    let app ← Act.app
    let d ← value app.data source
    let changed ← lift (host.setData app path d)
    return .flag (← orFail .binding changed)
  | .call method => do
    let app ← Act.app
    return .flag (← lift (host.callMethod app method))
  | .methods => do
    let app ← Act.app
    return .texts (Table.keys app.methods)
  | .state => do
    let app ← Act.app
    let w ← world
    return .state (← ofOption (w.outerHtml? app.root)) (← ofOption (w.snapshot? (.object app.data)))
  | .drop => do
    let there := (← read (·.client)).app.isSome
    session fun s => { s with objects := Table.erase appName s.objects, app := none }
    return .flag there
  | .describe => do
    let app ← Act.app
    return .text (← ofOption ((← world).describeApp? app))

/-- Makes an application the application of the session. -/
def adoptApp (app : App CallbackId) : Act Unit := do
  session fun s => { s with app := some app }
  nameObject appName app.data
  nameNode appName app.root

/-- The markers that a source gives. -/
def MarkerSource.get : MarkerSource → Except ConfigurationError Markers
  | toml text => Markers.ofToml text
  | markers m => .ok m

/-- Builds an application. A whole set of methods replaces the ones named before it. -/
def buildApp (host : Host CallbackId Session) (data : Option Json) (template : Option String)
    (mount : Option NodeRef) (early : List (CallbackScript Step))
    (methods : Option (List (CallbackScript Step))) (late : List (CallbackScript Step))
    (markers : MarkerSource) : Act Reply := do
  let mount ←
    match mount with
    | none => pure none
    | some ref => do pure (some (← node ref))
  let early ← callbacks early
  let whole ←
    match methods with
    | none => pure (Table.ofList early)
    | some scripts => do pure (Table.ofList (← callbacks scripts))
  let late ← callbacks late
  let markers ← orFail .configuration markers.get
  let blueprint : Blueprint CallbackId :=
    { data, template, mount, methods := Table.insertAll late whole, markers }
  let app ← orFail .app (← lift (blueprint.build host.patience))
  adoptApp app
  return .built (← ofOption ((← world).outerHtml? app.root))

end Scenario

end LiveTemplate
