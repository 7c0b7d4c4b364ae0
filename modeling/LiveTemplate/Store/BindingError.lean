/-!
# Binding Errors

Why a path names no property of the observed data. Both errors carry the whole path,
whatever part of it is at fault.

## Main definitions

* `BindingError`: A missing property, or a value where an object is needed.
* `BindingError.path`, `BindingError.message`: The path at fault, and the wording.
-/

namespace LiveTemplate

/-- Why a path could not be followed. -/
inductive BindingError where
  /-- A property on the path does not exist, or a segment is empty. -/
  | unobserved (path : String)
  /-- A property in the middle of the path holds no object. -/
  | notAnObject (path segment : String)
  deriving DecidableEq

namespace BindingError

/-- The path that could not be followed. -/
def path : BindingError → String
  | unobserved path => path
  | notAnObject path _ => path

/-- The wording of the error. -/
def message : BindingError → String
  | unobserved path => "binding resolution failure: property `" ++ path ++ "` is not observed"
  | notAnObject path segment =>
    "binding resolution failure: `" ++ segment ++ "` in `" ++ path ++ "` is not an object"

end BindingError

end LiveTemplate
