import LiveTemplate.Json.Basic
import LiveTemplate.Text.Natural

/-!
# Reading JSON

The value that a JSON text writes.

An integer literal, one without fraction and exponent, is an integer if it fits into
64 bits with or without sign, and any other number is the nearest float. Negative
zero has no integer and is a float. Numbers too large for a float, strings with half
a surrogate pair and values nested 128 deep are not read.

The reader works through the text from left to right. Its fuel counts the values and
list positions still to be read; both take at least one character, so twice the
length of the text is always enough.

## Main definitions

* `Json.readNumber?`: The number at the start of a text.
* `Json.readString?`: The string whose opening quote has been read.
* `Json.read?`: The value of a whole text.
-/

namespace LiveTemplate

namespace Json

open Text

/-- Characters that JSON allows between tokens. -/
def isSpace (c : Char) : Bool :=
  c == ' ' || c == '\n' || c == '\t' || c == '\r'

/-- The text without leading space. -/
def skipSpace (s : List Char) : List Char :=
  s.dropWhile isSpace

/-- Integers that fit into 64 bits with or without sign. -/
def isWord (i : Int) : Bool :=
  -Int.pow 2 63 ≤ i && i < Int.pow 2 64

/-- The digits at the start of the text, and what follows. -/
def readDigits (s : List Char) : List Char × List Char :=
  (s.takeWhile Char.isDigit, s.dropWhile Char.isDigit)

/-- The fraction that may follow a number's integral part. The outer option is empty for
    a point without digits. -/
def readFraction? : List Char → Option (Option (List Char) × List Char)
  | '.' :: s =>
    let (digits, rest) := readDigits s
    if digits.isEmpty then none else some (some digits, rest)
  | s => some (none, s)

/-- The signed exponent that may follow a number's digits. The outer option is empty for
    an exponent without digits. -/
def readExponent? (s : List Char) : Option (Option Int × List Char) :=
  let signed (s : List Char) : Bool × List Char :=
    match s with
    | '-' :: s => (true, s)
    | '+' :: s => (false, s)
    | s => (false, s)
  match s with
  | c :: s =>
    if c = 'e' ∨ c = 'E' then
      let (negative, s) := signed s
      let (digits, rest) := readDigits s
      (natural? 10 digits).map fun n => (some (if negative then -(n : Int) else n), rest)
    else some (none, c :: s)
  | [] => some (none, [])

/-- The number at the start of the text, whose sign has been read. -/
def readNumber? (negative : Bool) (s : List Char) : Option (Number × List Char) := do
  let (whole, rest) := readDigits s
  let n ← natural? 10 whole
  -- A leading zero stands alone.
  if whole.length > 1 ∧ whole.head? = some '0' then none
  let (fraction, rest) ← readFraction? rest
  let (exponent, rest) ← readExponent? rest
  let i : Int := if negative then -(n : Int) else n
  if fraction = none ∧ exponent = none ∧ isWord i ∧ ¬(negative ∧ n = 0) then
    some (.int i, rest)
  else
    let places := fraction.getD []
    let digits ← natural? 10 (whole ++ places)
    let x ← Binary64.ofDecimal? negative digits (exponent.getD 0 - places.length)
    some (.float x, rest)

/-- The code unit of four hexadecimal digits. -/
def readUnit? : List Char → Option (Nat × List Char)
  | a :: b :: c :: d :: rest => (natural? 16 [a, b, c, d]).map (·, rest)
  | _ => none

/-- The character of an escape by number, whose `\u` has been read. A character beyond
    U+FFFF takes two escapes in a row. -/
def readEscape? (s : List Char) : Option (Char × List Char) := do
  let (unit, rest) ← readUnit? s
  if 0xD800 ≤ unit ∧ unit < 0xDC00 then
    match rest with
    | '\\' :: 'u' :: rest =>
      let (low, rest) ← readUnit? rest
      if 0xDC00 ≤ low ∧ low < 0xE000 then
        some (Char.ofNat (0x10000 + (unit - 0xD800) * 0x400 + (low - 0xDC00)), rest)
      else none
    | _ => none
  else if 0xDC00 ≤ unit ∧ unit < 0xE000 then none
  else some (Char.ofNat unit, rest)

/-- The character of a one-letter escape. -/
def letterEscape? : Char → Option Char
  | '"' => some '"'
  | '\\' => some '\\'
  | '/' => some '/'
  | 'b' => some '\x08'
  | 'f' => some '\x0c'
  | 'n' => some '\n'
  | 'r' => some '\r'
  | 't' => some '\t'
  | _ => none

/-- The rest of the string whose start, in reverse, is `done`. -/
def readStringFrom? : (fuel : Nat) → (done : List Char) → List Char → Option (String × List Char)
  | 0, _, _ => none
  | fuel + 1, done, s =>
    match s with
    | [] => none
    | '"' :: rest => some (String.ofList done.reverse, rest)
    | '\\' :: 'u' :: rest =>
      match readEscape? rest with
      | some (c, rest) => readStringFrom? fuel (c :: done) rest
      | none => none
    | '\\' :: e :: rest =>
      match letterEscape? e with
      | some c => readStringFrom? fuel (c :: done) rest
      | none => none
    | c :: rest => if c.toNat < 0x20 then none else readStringFrom? fuel (c :: done) rest

/-- The string whose opening quote has been read, and what follows its closing quote. -/
def readString? (s : List Char) : Option (String × List Char) :=
  readStringFrom? (s.length + 1) [] s

/-- The deepest nesting that is read. -/
def maxDepth : Nat := 127

mutual

/-- The value at the start of the text, inside at most `depth` more arrays and objects. -/
def readValue? : (fuel depth : Nat) → List Char → Option (Json × List Char)
  | 0, _, _ => none
  | fuel + 1, depth, s =>
    match skipSpace s with
    | 'n' :: 'u' :: 'l' :: 'l' :: rest => some (.null, rest)
    | 't' :: 'r' :: 'u' :: 'e' :: rest => some (.bool true, rest)
    | 'f' :: 'a' :: 'l' :: 's' :: 'e' :: rest => some (.bool false, rest)
    | '"' :: rest => (readString? rest).map fun (s, rest) => (.string s, rest)
    | '-' :: rest => (readNumber? true rest).map fun (n, rest) => (.number n, rest)
    | '[' :: rest =>
      match depth with
      | 0 => none
      | depth + 1 =>
        match skipSpace rest with
        | ']' :: rest => some (.array [], rest)
        | rest => (readItems? fuel depth rest).map fun (items, rest) => (.array items, rest)
    | '\x7b' :: rest =>
      match depth with
      | 0 => none
      | depth + 1 =>
        match skipSpace rest with
        | '\x7d' :: rest => some (.object [], rest)
        | rest =>
          (readMembers? fuel depth rest).map fun (members, rest) =>
            (.object (Table.ofList members), rest)
    | rest => (readNumber? false rest).map fun (n, rest) => (.number n, rest)

/-- The items up to the end of an array. -/
def readItems? : (fuel depth : Nat) → List Char → Option (List Json × List Char)
  | 0, _, _ => none
  | fuel + 1, depth, s =>
    match readValue? fuel depth s with
    | none => none
    | some (item, rest) =>
      match skipSpace rest with
      | ']' :: rest => some ([item], rest)
      | ',' :: rest =>
        (readItems? fuel depth rest).map fun (items, rest) => (item :: items, rest)
      | _ => none

/-- The members up to the end of an object. -/
def readMembers? : (fuel depth : Nat) → List Char → Option (List (String × Json) × List Char)
  | 0, _, _ => none
  | fuel + 1, depth, s =>
    match skipSpace s with
    | '"' :: rest =>
      match readString? rest with
      | none => none
      | some (key, rest) =>
        match skipSpace rest with
        | ':' :: rest =>
          match readValue? fuel depth rest with
          | none => none
          | some (value, rest) =>
            match skipSpace rest with
            | '\x7d' :: rest => some ([(key, value)], rest)
            | ',' :: rest =>
              (readMembers? fuel depth rest).map fun (members, rest) =>
                ((key, value) :: members, rest)
            | _ => none
        | _ => none
    | _ => none

end

/-- The value that the whole text writes. -/
def read? (text : String) : Option Json :=
  match readValue? (2 * text.length + 2) maxDepth text.toList with
  | some (value, rest) => if (skipSpace rest).isEmpty then some value else none
  | none => none

end Json

end LiveTemplate
