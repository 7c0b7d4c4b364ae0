/-!
# Directive Markers

The marks by which a template's directives and expressions are told from plain
markup. There are five, and a template author may choose each of them.

Markers are usable when none is empty and the delimiters of an expression differ.
The first fault in the order of the fields is the one reported.

## Main definitions

* `MarkerField`, `MarkerField.key`: The markers and their names in a configuration.
* `Markers`: A choice of the five.
* `Markers.fault?`: What is wrong with a choice.
-/

namespace LiveTemplate

/-- The places that a choice of markers fills. -/
inductive MarkerField where
  /-- What the name of a directive attribute starts with. -/
  | directive
  /-- What the name of an event attribute starts with, in its short form. -/
  | event
  /-- What names an event attribute after the directive marker, in its long form. -/
  | eventWord
  /-- What an expression in a text starts with. -/
  | opening
  /-- What an expression in a text ends with. -/
  | closing
  deriving DecidableEq

namespace MarkerField

/-- All fields, in the order in which faults are looked for. -/
def all : List MarkerField :=
  [directive, event, eventWord, opening, closing]

/-- The field's name in a configuration. -/
def key : MarkerField → String
  | directive => "prefix"
  | event => "event_shorthand"
  | eventWord => "event_directive"
  | opening => "interpolation_open"
  | closing => "interpolation_close"

end MarkerField

/-- The marks of a template's directives and expressions. -/
structure Markers where
  /-- What the name of a directive attribute starts with. -/
  directive : String := "v-"
  /-- What the name of an event attribute starts with, in its short form. -/
  event : String := "@"
  /-- What names an event attribute after the directive marker, in its long form. -/
  eventWord : String := "on"
  /-- What an expression in a text starts with. -/
  opening : String := "\x7b\x7b"
  /-- What an expression in a text ends with. -/
  closing : String := "\x7d\x7d"
  deriving DecidableEq

/-- What makes a choice of markers unusable. -/
inductive MarkerFault where
  /-- A marker is empty. -/
  | empty (field : MarkerField)
  /-- An expression would end with what it starts with. -/
  | sameDelimiters (delimiter : String)
  deriving DecidableEq

/-- The wording of a fault. -/
def MarkerFault.message : MarkerFault → String
  | empty field => "directive syntax marker `" ++ field.key ++ "` must not be empty"
  | sameDelimiters delimiter =>
    "interpolation delimiters must differ, both are `" ++ delimiter ++ "`"

namespace Markers

/-- The markers of a template that chooses none. -/
def standard : Markers := {}

/-- The marker in a field. -/
def get (m : Markers) : MarkerField → String
  | .directive => m.directive
  | .event => m.event
  | .eventWord => m.eventWord
  | .opening => m.opening
  | .closing => m.closing

/-- Another marker in a field. -/
def set (m : Markers) (field : MarkerField) (marker : String) : Markers :=
  match field with
  | .directive => { m with directive := marker }
  | .event => { m with event := marker }
  | .eventWord => { m with eventWord := marker }
  | .opening => { m with opening := marker }
  | .closing => { m with closing := marker }

/-- The first fault of a choice of markers. -/
def fault? (m : Markers) : Option MarkerFault :=
  match MarkerField.all.find? fun field => (m.get field).isEmpty with
  | some field => some (.empty field)
  | none => if m.opening = m.closing then some (.sameDelimiters m.opening) else none

end Markers

end LiveTemplate
