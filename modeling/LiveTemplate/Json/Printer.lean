import LiveTemplate.Json.Basic

/-!
# JSON Text

The text of a value: no spaces, members in order, and no escape in a string that
JSON does not ask for. A quote, a backslash and the five control characters with
letters of their own are escaped by those, and every other control character below
U+0020 by its number.

## Main definitions

* `Json.quote`: A string in quotes.
* `Json.write`, `Json.text`: The text of a value.
* `Json.display`: The text of a value as a reader sees it, where a string is bare.
-/

namespace LiveTemplate

namespace Json

/-- A digit of a hexadecimal number, in lower case. -/
def hexDigit (n : Nat) : Char :=
  (Nat.toDigits 16 (n % 16)).headD '0'

/-- How a character is written between quotes. -/
def quoteChar (c : Char) : List Char :=
  match c with
  | '"' => ['\\', '"']
  | '\\' => ['\\', '\\']
  | '\x08' => ['\\', 'b']
  | '\x0c' => ['\\', 'f']
  | '\n' => ['\\', 'n']
  | '\r' => ['\\', 'r']
  | '\t' => ['\\', 't']
  | c =>
    if c.toNat < 0x20 then "\\u00".toList ++ [hexDigit (c.toNat / 16), hexDigit c.toNat] else [c]

/-- The text in quotes. -/
def quote (s : List Char) : List Char :=
  '"' :: s.flatMap quoteChar ++ ['"']

mutual

/-- The characters of a value's text. -/
def write : Json → List Char
  | null => "null".toList
  | bool true => "true".toList
  | bool false => "false".toList
  | number n => n.text
  | string s => quote s.toList
  | array items => '[' :: writeItems items ++ [']']
  | object members => '\x7b' :: writeMembers members ++ ['\x7d']

/-- The items of an array with commas between them. -/
def writeItems : List Json → List Char
  | [] => []
  | [item] => write item
  | item :: items => write item ++ ',' :: writeItems items

/-- The members of an object with commas between them. -/
def writeMembers : List (String × Json) → List Char
  | [] => []
  | [(key, value)] => quote key.toList ++ ':' :: write value
  | (key, value) :: members =>
    quote key.toList ++ ':' :: write value ++ ',' :: writeMembers members

end

/-- The text of a value. -/
def text (j : Json) : String :=
  String.ofList j.write

/-- What a view shows for a value: a string as it is, and the text of anything else. -/
def display : Json → String
  | string s => s
  | j => j.text

end Json

end LiveTemplate
