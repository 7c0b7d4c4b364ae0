import LiveTemplate.Directive.Markers
import LiveTemplate.Toml.Reader

/-!
# Configured Markers

Markers chosen in a TOML document. A marker that the document does not name keeps
its default, one that it names must be a string there, and whatever else the
document holds is ignored.

## Main definitions

* `ConfigurationError`: Why a document chooses no usable markers.
* `Markers.ofToml`: The markers that a document chooses.
-/

namespace LiveTemplate

/-- Why a document chooses no usable markers. -/
inductive ConfigurationError where
  /-- The text is no TOML document, or a marker in it is no string. -/
  | malformed
  /-- The markers chosen are unusable. -/
  | fault (fault : MarkerFault)
  deriving DecidableEq

namespace Markers

/-- The markers named in a document, over the given ones. -/
def choose? (document : Toml.Members) : List MarkerField → Markers → Option Markers
  | [], m => some m
  | field :: fields, m =>
    match Table.find? field.key document with
    | none => choose? document fields m
    | some (.string marker) => choose? document fields (m.set field marker)
    | some _ => none

/-- The markers, if they are usable. -/
def checked (m : Markers) : Except MarkerFault Markers :=
  match m.fault? with
  | some fault => .error fault
  | none => .ok m

/-- The markers that a TOML document chooses. -/
def ofToml (text : String) : Except ConfigurationError Markers :=
  match (Toml.read? text).bind fun document => choose? document MarkerField.all standard with
  | none => .error .malformed
  | some m => m.checked.mapError .fault

end Markers

end LiveTemplate
