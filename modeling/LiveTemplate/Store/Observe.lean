import LiveTemplate.Json.Printer
import LiveTemplate.World.Basic

/-!
# Observing Data

Plain data becomes observed data: every object in it, at any depth outside arrays,
gets an identity of its own, with a registry for each of its properties. Scalars and
arrays stay plain. The keys of an object are settled when it is observed.

Going back, a value's plain form is read off the objects as they are at the moment.
Objects can be made to hold each other in a circle, and then there is no plain form;
a value that goes deeper than there are objects is such a value.

## Main definitions

* `Literal`: A value that a program writes.
* `World.observeValue`, `World.observeRoot`: Observing a value, and an object.
* `World.snapshot?`: The plain form of a value.
* `World.display?`: What a view shows for a value.
* `Data.same`: Equality of values for writes.
-/

namespace LiveTemplate

namespace Data

/-- The two values count as one for writes. Plain values are compared by value and
    objects by identity. -/
def same : Data → Data → Bool
  | plain a, plain b => a.same b
  | object a, object b => a == b
  | _, _ => false

/-- The string that the value is. -/
def string? : Data → Option String
  | plain (.string s) => some s
  | _ => none

/-- The object that the value is. -/
def object? : Data → Option ObjectId
  | object o => some o
  | plain _ => none

end Data

/-- A value that a program writes. -/
inductive Literal where
  /-- A plain value, of which objects are observed. -/
  | json (value : Json)
  /-- The result of float arithmetic, if it is finite. -/
  | float (x : Option Binary64)

/-- The plain form of a literal. A float that is not finite counts as absent. -/
def Literal.plain : Literal → Json
  | json value => value
  | float (some x) => .number (.float x)
  | float none => .null

/-- The kind of a value in a word. -/
def Json.kindName : Json → String
  | null => "null"
  | bool _ => "bool"
  | number _ => "number"
  | string _ => "string"
  | array _ => "array"
  | object _ => "object"

namespace World

variable {κ σ : Type}

mutual

/-- Observes a value: an object becomes an observed one, and anything else stays. -/
def observeValue (value : Json) (w : World κ σ) : Data × World κ σ :=
  match value with
  | .object members =>
    let (properties, w) := observeMembers members w
    let (o, w) := w.addObject properties
    (.object o, w)
  | value => (.plain value, w)

/-- Observes the members of an object. -/
def observeMembers (members : List (String × Json)) (w : World κ σ) : Properties × World κ σ :=
  match members with
  | [] => ([], w)
  | (key, value) :: members =>
    let (data, w) := observeValue value w
    let (properties, w) := observeMembers members w
    ((key, { value := data }) :: properties, w)

end

/-- Observes a literal. -/
def observeLiteral (literal : Literal) (w : World κ σ) : Data × World κ σ :=
  observeValue literal.plain w

/-- Observes an object. There is nothing to observe in any other value. -/
def observeRoot [Client σ] (value : Json) (w : World κ σ) : Option ObjectId × World κ σ :=
  match observeValue value w with
  | (.object o, w) => (some o, w)
  | (.plain value, w) => (none, w.notice (.notObserved value.kindName))

/-- The members that properties have when `form?` gives the plain form of each value. -/
def members? (form? : Data → Option Json) : Properties → Option (List (String × Json))
  | [] => some []
  | (key, p) :: rest =>
    match form? p.value, members? form? rest with
    | some value, some members => some ((key, value) :: members)
    | _, _ => none

/-- The plain form of a value in which objects are at most `depth` deep. -/
def snapshotWithin? (w : World κ σ) : (depth : Nat) → Data → Option Json
  | _, .plain value => some value
  | 0, .object _ => none
  | depth + 1, .object o => (members? (w.snapshotWithin? depth) (w.object o)).map .object

/-- The plain form of a value, if it has one. -/
def snapshot? (w : World κ σ) (d : Data) : Option Json :=
  w.snapshotWithin? (w.objects.size + 1) d

/-- What a view shows for a value: a string as it is, and the text of anything else. -/
def display? (w : World κ σ) (d : Data) : Option String :=
  (w.snapshot? d).map Json.display

end World

end LiveTemplate
