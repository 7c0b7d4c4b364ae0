import LiveTemplate.Binding.App
import LiveTemplate.Json.Description

/-!
# Descriptions

Objects, properties, nodes and applications in one line each, for a reader who wants
to know what they hold.

## Main definitions

* `Registry.describe`, `World.describeObject`, `World.describeData`,
  `World.describeProperty`: Observed data.
* `describeMethods`, `World.describeApp?`: Methods and applications.
-/

namespace LiveTemplate

open Text

/-- A type's name and its fields between braces. -/
def describeRecord (name : String) (fields : List (String × String)) : String :=
  let shown := fields.map fun (field, value) => field ++ ": " ++ value
  name ++ " \x7b " ++ ", ".intercalate shown ++ " \x7d"

/-- Texts in quotes between brackets. -/
def describeTexts (texts : List String) : String :=
  "[" ++ ", ".intercalate (texts.map quoted) ++ "]"

/-- The registry in one line. -/
def Registry.describe (r : Registry) : String :=
  describeRecord "Dep" [("subscribers", toString r.subscribers.length)]

/-- A reader in one line, if there is no subscriber to it. -/
def describeReader : Option SubscriberId → Option String
  | none => some (describeRecord "EvalContext" [("active", "None")])
  | some _ => none

/-- Methods in one line. -/
def describeMethods {κ : Type} (methods : Methods κ) : String :=
  describeRecord "Methods" [("names", describeTexts (Table.keys methods))]

namespace World

variable {κ σ : Type}

/-- An object in one line. -/
def describeObject (w : World κ σ) (o : ObjectId) : String :=
  describeRecord "ReactiveObject" [("keys", describeTexts (Table.keys (w.object o)))]

/-- A value in one line. -/
def describeData (w : World κ σ) : Data → String
  | .plain value => "Value(" ++ value.describe ++ ")"
  | .object o => "Object(" ++ w.describeObject o ++ ")"

/-- A property in one line. -/
def describeProperty (w : World κ σ) (p : Property) : String :=
  describeRecord "ObservedValue"
    [("value", w.describeData p.value), ("dep", p.registry.describe)]

/-- An application in one line, if its data has a plain form. -/
def describeApp? (w : World κ σ) (app : App κ) : Option String :=
  (w.snapshot? (.object app.data)).map fun data =>
    describeRecord "App"
      [("data", data.describe), ("root", (w.node app.root).summary.describe),
        ("methods", describeMethods app.methods)]

end World

end LiveTemplate
