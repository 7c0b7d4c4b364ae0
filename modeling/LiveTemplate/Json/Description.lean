import LiveTemplate.Json.Basic
import LiveTemplate.Text.Quoted

/-!
# Describing JSON

A value in the words of its types, as descriptions of data show it: `Number(1)`,
`String("x")`, `Array [Null]`.

## Main definitions

* `Json.describe`: The description of a value.
-/

namespace LiveTemplate

namespace Json

open Text

mutual

/-- The value in the words of its types. -/
def describe : Json → String
  | null => "Null"
  | bool true => "Bool(true)"
  | bool false => "Bool(false)"
  | number n => "Number(" ++ String.ofList n.text ++ ")"
  | string s => "String(" ++ quoted s ++ ")"
  | array items => "Array [" ++ describeItems items ++ "]"
  | object members => "Object \x7b" ++ describeMembers members ++ "\x7d"

/-- The items of an array with commas between them. -/
def describeItems : List Json → String
  | [] => ""
  | [item] => describe item
  | item :: items => describe item ++ ", " ++ describeItems items

/-- The members of an object with commas between them. -/
def describeMembers : List (String × Json) → String
  | [] => ""
  | [(key, value)] => quoted key ++ ": " ++ describe value
  | (key, value) :: members =>
    quoted key ++ ": " ++ describe value ++ ", " ++ describeMembers members

end

end Json

end LiveTemplate
