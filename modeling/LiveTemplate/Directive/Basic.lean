import LiveTemplate.Directive.Markers
import LiveTemplate.Text.Blank
import LiveTemplate.Text.Search

/-!
# Directives

What an attribute of a template asks for.

An attribute is a directive if its name starts with the event marker or with the
directive marker, tried in this order. Modifiers follow the name after dots. An
event directive is written `@event` or, in its long form, `v-on:event`; the other
directives show a value as text, as markup, or in a form field.

## Main definitions

* `Modifiers`: What an event directive does before its handler runs.
* `Directive.Kind`, `Directive`: What a directive does, and a directive.
* `Directive.Reading`: The parts of a directive's name.
* `Directive.parse`: The directive that an attribute is.
-/

namespace LiveTemplate

open Text

/-- What an event directive does to the event before its handler runs. -/
structure Modifiers where
  /-- Keep the event from reaching the ancestors. -/
  stop : Bool := false
  /-- Prevent the event's default. -/
  prevent : Bool := false
  deriving DecidableEq

namespace Modifiers

/-- Both sets of modifiers together. -/
def union (a b : Modifiers) : Modifiers :=
  ⟨a.stop || b.stop, a.prevent || b.prevent⟩

/-- The modifier that a token names. -/
def ofToken? (token : String) : Option Modifiers :=
  if token = "stop" then some { stop := true }
  else if token = "prevent" then some { prevent := true }
  else none

/-- All modifiers that the tokens name. -/
def ofTokens (tokens : List String) : Modifiers :=
  (tokens.filterMap ofToken?).foldl union {}

end Modifiers

namespace Directive

/-- What a directive does. -/
inductive Kind where
  /-- Show a value as the element's text. -/
  | text
  /-- Show a value as the element's markup. -/
  | html
  /-- Keep a value and the element's form value equal. -/
  | model
  /-- Call a method at an event. -/
  | on (event : String) (modifiers : Modifiers)
  /-- Nothing: no directive has this name. -/
  | unknown (name : String)
  deriving DecidableEq

/-- A directive's name taken apart. -/
inductive Reading where
  /-- An event directive: the event and the tokens after it. -/
  | event (name : String) (tokens : List String)
  /-- A directive that shows a value. -/
  | value (kind : Kind)
  /-- A directive that does not exist, and the tokens after its name. -/
  | unknown (name : String) (tokens : List String)
  deriving DecidableEq

namespace Reading

/-- An event directive from what follows its marker. -/
def ofEvent (s : List Char) : Reading :=
  let (name, tokens) := segments '.' s
  event (String.ofList name) (tokens.map String.ofList)

/-- A directive from what follows the directive marker. The long form of an event
    directive is recognised by the part before the first dot. -/
def ofLongName (markers : Markers) (s : List Char) : Reading :=
  let (head, tokens) := segments '.' s
  let name := String.ofList head
  if name = "text" then value .text
  else if name = "model" then value .model
  else if name = "html" then value .html
  else if name = markers.eventWord then ofEvent []
  else
    let word := markers.eventWord.toList ++ [':']
    match afterMarker? word head with
    | some _ => ofEvent (s.drop word.length)
    | none => unknown name (tokens.map String.ofList)

/-- The parts of an attribute name that is a directive. -/
def ofName? (markers : Markers) (name : String) : Option Reading :=
  match afterMarker? markers.event.toList name.toList with
  | some s => some (ofEvent s)
  | none => (afterMarker? markers.directive.toList name.toList).map (ofLongName markers)

/-- What the directive does. -/
def kind : Reading → Kind
  | event name tokens => .on name (Modifiers.ofTokens tokens)
  | value kind => kind
  | unknown name _ => .unknown name

/-- The tokens after an event's name that name no modifier. -/
def strangeTokens : Reading → List String
  | event _ tokens => tokens.filter fun token => (Modifiers.ofToken? token).isNone
  | _ => []

end Reading

end Directive

/-- A directive attribute. -/
structure Directive where
  /-- The name of the attribute as written. -/
  name : String
  /-- What the directive does. -/
  kind : Directive.Kind
  /-- The path of a value, or the name of a method. -/
  expression : String
  deriving DecidableEq

/-- The directive that an attribute is, if its name has one of the markers. -/
def Directive.parse (markers : Markers) (name value : String) : Option Directive :=
  (Reading.ofName? markers name).map fun r => ⟨name, r.kind, trimmed value⟩

end LiveTemplate
