import LiveTemplate.Toml.Scalar

/-!
# Reading TOML

The sections that a TOML text writes, and the value of the text.

The reader goes through the text from left to right. Values are read with fuel that
counts values and list positions; each takes at least one character. Arrays and
inline tables can be nested less than 80 deep, and a dotted key has less than 80
parts.

## Main definitions

* `Toml.readString?`: A string in any of its four spellings.
* `Toml.readKey?`: A key with its dots.
* `Toml.readValue?`: A value.
* `Toml.read?`: The members of a document.
-/

namespace LiveTemplate

namespace Toml

open Text

/-- Space inside a line. -/
def isSpace (c : Char) : Bool :=
  c == ' ' || c == '\t'

/-- The text without leading space. -/
def skipSpace (s : List Char) : List Char :=
  s.dropWhile isSpace

/-- A character that may stand in a comment or a string on one line. -/
def isPrintable (c : Char) : Bool :=
  c == '\t' || (0x20 ≤ c.toNat && c.toNat != 0x7F)

/-- What follows a line end. -/
def afterNewline? : List Char → Option (List Char)
  | '\n' :: s => some s
  | '\r' :: '\n' :: s => some s
  | _ => none

/-- The text behind a comment, if there is one. -/
def skipComment : List Char → List Char
  | '#' :: s => s.dropWhile isPrintable
  | s => s

/-- What follows the rest of a line: space, a comment, and the line end or the end of
    the text. -/
def afterLine? (s : List Char) : Option (List Char) :=
  match skipComment (skipSpace s) with
  | [] => some []
  | s => afterNewline? s

/-- The text without leading space, comments and line ends. A comment has to end in a
    line end. -/
def skipLines? : (fuel : Nat) → List Char → Option (List Char)
  | 0, s => some s
  | fuel + 1, s =>
    match skipSpace s with
    | '#' :: rest =>
      match afterNewline? (rest.dropWhile isPrintable) with
      | some rest => skipLines? fuel rest
      | none => none
    | s =>
      match afterNewline? s with
      | some rest => skipLines? fuel rest
      | none => some s

/-- A character by its number, if it is a Unicode scalar value. -/
def characterOf? (n : Nat) : Option Char :=
  if n.isValidChar then some (Char.ofNat n) else none

/-- The character of an escape whose backslash has been read, and what follows. -/
def readEscape? : List Char → Option (Char × List Char)
  | 'b' :: s => some ('\x08', s)
  | 't' :: s => some ('\t', s)
  | 'n' :: s => some ('\n', s)
  | 'f' :: s => some ('\x0c', s)
  | 'r' :: s => some ('\r', s)
  | '"' :: s => some ('"', s)
  | '\\' :: s => some ('\\', s)
  | 'u' :: a :: b :: c :: d :: s => do
    let n ← natural? 16 [a, b, c, d]
    let char ← characterOf? n
    some (char, s)
  | 'U' :: a :: b :: c :: d :: e :: f :: g :: h :: s => do
    let n ← natural? 16 [a, b, c, d, e, f, g, h]
    let char ← characterOf? n
    some (char, s)
  | _ => none

/-- The rest of a string in double quotes, whose start, in reverse, is `done`. -/
def readBasic? : (fuel : Nat) → (done : List Char) → List Char → Option (String × List Char)
  | 0, _, _ => none
  | fuel + 1, done, s =>
    match s with
    | [] => none
    | '"' :: rest => some (String.ofList done.reverse, rest)
    | '\\' :: rest =>
      match readEscape? rest with
      | some (c, rest) => readBasic? fuel (c :: done) rest
      | none => none
    | c :: rest => if isPrintable c then readBasic? fuel (c :: done) rest else none

/-- The string in single quotes whose first quote has been read. -/
def readLiteral? (s : List Char) : Option (String × List Char) :=
  let isInside := fun c => isPrintable c && c != '\''
  match s.dropWhile isInside with
  | '\'' :: rest => some (String.ofList (s.takeWhile isInside), rest)
  | _ => none

/-- The line breaks and the space behind a backslash at the end of a line. -/
def skipBreak? (fuel : Nat) (s : List Char) : Option (List Char) :=
  let rec skipAll : Nat → List Char → List Char
    | 0, s => s
    | fuel + 1, s =>
      match afterNewline? (skipSpace s) with
      | some rest => skipAll fuel rest
      | none => skipSpace s
  (afterNewline? (skipSpace s)).map (skipAll fuel)

/-- The end of a string over several lines: three quotes, before which one or two more
    belong to the string. -/
def readClosing? (quote : Char) (done : List Char) (s : List Char) : Option (String × List Char) :=
  let quotes := s.takeWhile (· == quote)
  if 3 ≤ quotes.length then
    let extra := min (quotes.length - 3) 2
    some (String.ofList (done.reverse ++ List.replicate extra quote), s.drop (extra + 3))
  else none

/-- The rest of a string over several lines, whose start, in reverse, is `done`. Only
    double quotes know escapes. -/
def readLines? (quote : Char) :
    (fuel : Nat) → (done : List Char) → List Char → Option (String × List Char)
  | 0, _, _ => none
  | fuel + 1, done, s =>
    match readClosing? quote done s with
    | some found => some found
    | none =>
      match afterNewline? s with
      | some rest => readLines? quote fuel ('\n' :: done) rest
      | none =>
        match s with
        | [] => none
        | c :: rest =>
          if c = '\\' ∧ quote = '"' then
            match skipBreak? rest.length rest with
            | some rest => readLines? quote fuel done rest
            | none =>
              match readEscape? rest with
              | some (c, rest) => readLines? quote fuel (c :: done) rest
              | none => none
          else if isPrintable c then readLines? quote fuel (c :: done) rest
          else none

/-- The string over several lines whose three quotes have been read. A line end right
    behind them does not count. -/
def readMultiline? (quote : Char) (s : List Char) : Option (String × List Char) :=
  let s := (afterNewline? s).getD s
  readLines? quote (s.length + 1) [] s

/-- A string on one line, in either kind of quotes. -/
def readLineString? : List Char → Option (String × List Char)
  | '"' :: s => readBasic? (s.length + 1) [] s
  | '\'' :: s => readLiteral? s
  | _ => none

/-- A string in any of its four spellings. -/
def readString? : List Char → Option (String × List Char)
  | '"' :: '"' :: '"' :: s => readMultiline? '"' s
  | '\'' :: '\'' :: '\'' :: s => readMultiline? '\'' s
  | s => readLineString? s

/-- A character of a bare key. -/
def isKeyChar (c : Char) : Bool :=
  c.isAlphanum || c == '_' || c == '-'

/-- One part of a key. -/
def readKeyPart? (s : List Char) : Option (String × List Char) :=
  match readLineString? s with
  | some found => some found
  | none =>
    match s.takeWhile isKeyChar with
    | [] => none
    | name => some (String.ofList name, s.dropWhile isKeyChar)

/-- The parts of a key with dots between them, and space around each. -/
def readKeyParts? : (fuel : Nat) → List Char → Option (List String × List Char)
  | 0, _ => none
  | fuel + 1, s =>
    match readKeyPart? (skipSpace s) with
    | none => none
    | some (part, rest) =>
      match skipSpace rest with
      | '.' :: rest => (readKeyParts? fuel rest).map fun (parts, rest) => (part :: parts, rest)
      | rest => some ([part], rest)

/-- The number of nested arrays and inline tables, and of parts of a key, from which on
    a document is refused. -/
def nestingLimit : Nat := 80

/-- A key with its dots. -/
def readKey? (s : List Char) : Option (KeyPath × List Char) := do
  let (parts, rest) ← readKeyParts? (s.length + 1) s
  if nestingLimit ≤ parts.length then none
  let last ← parts.getLast?
  some (⟨parts.dropLast, last⟩, rest)

/-- A character of a bare word. -/
def isWordChar (c : Char) : Bool :=
  c.isAlphanum || c == '_' || c == '-' || c == '+' || c == '.' || c == ':'

/-- The value of the bare word that starts here. A date may be followed by one space and
    a time. -/
def readScalar? (s : List Char) : Option (Value × List Char) := do
  let word := s.takeWhile isWordChar
  let rest := s.dropWhile isWordChar
  let value ← scalar? word
  match rest with
  | ' ' :: more =>
    let time := more.takeWhile isWordChar
    if isDate word ∧ isTimeOfDate time then
      some (.moment (String.ofList (word ++ ' ' :: time)), more.dropWhile isWordChar)
    else some (value, rest)
  | rest => some (value, rest)

mutual

/-- The value at the start of the text, inside at most `depth` more brackets. -/
def readValue? : (fuel depth : Nat) → List Char → Option (Value × List Char)
  | 0, _, _ => none
  | fuel + 1, depth, s =>
    match s with
    | '[' :: rest =>
      match depth with
      | 0 => none
      | depth + 1 => (readItems? fuel depth rest).map fun (items, rest) => (.array items, rest)
    | '\x7b' :: rest =>
      match depth with
      | 0 => none
      | depth + 1 =>
        match skipSpace rest with
        | '\x7d' :: rest => some (.table .inline [], rest)
        | rest =>
          match readEntries? fuel depth rest with
          | none => none
          | some (entries, rest) => (inlineTable? entries).map (·, rest)
    | '"' :: _ => (readString? s).map fun (text, rest) => (.string text, rest)
    | '\'' :: _ => (readString? s).map fun (text, rest) => (.string text, rest)
    | s => readScalar? s

/-- The items up to the end of an array. The last one may have a comma behind it. -/
def readItems? : (fuel depth : Nat) → List Char → Option (List Value × List Char)
  | 0, _, _ => none
  | fuel + 1, depth, s =>
    match skipLines? s.length s with
    | none => none
    | some (']' :: rest) => some ([], rest)
    | some s =>
      match readValue? fuel depth s with
      | none => none
      | some (item, rest) =>
        match skipLines? rest.length rest with
        | some (']' :: rest) => some ([item], rest)
        | some (',' :: rest) =>
          (readItems? fuel depth rest).map fun (items, rest) => (item :: items, rest)
        | _ => none

/-- The entries up to the end of an inline table. -/
def readEntries? : (fuel depth : Nat) → List Char → Option (List Entry × List Char)
  | 0, _, _ => none
  | fuel + 1, depth, s =>
    match readKey? s with
    | some (path, '=' :: rest) =>
      match readValue? fuel depth (skipSpace rest) with
      | none => none
      | some (value, rest) =>
        match skipSpace rest with
        | '\x7d' :: rest => some ([⟨path, value⟩], rest)
        | ',' :: rest =>
          (readEntries? fuel depth rest).map fun (entries, rest) => (⟨path, value⟩ :: entries, rest)
        | _ => none
    | _ => none

end

/-- The entry that a line consists of, and the lines after it. -/
def readAssignment? (s : List Char) : Option (Entry × List Char) := do
  let (path, rest) ← readKey? s
  match rest with
  | '=' :: rest =>
    let (value, rest) ← readValue? (2 * rest.length + 2) (nestingLimit - 1) (skipSpace rest)
    let rest ← afterLine? rest
    some (⟨path, value⟩, rest)
  | _ => none

/-- The header that a line consists of, and the lines after it. -/
def readHeader? : List Char → Option (Header × List Char)
  | '[' :: '[' :: s => do
    let (path, rest) ← readKey? s
    match rest with
    | ']' :: ']' :: rest =>
      let rest ← afterLine? rest
      some (.tables path, rest)
    | _ => none
  | '[' :: s => do
    let (path, rest) ← readKey? s
    match rest with
    | ']' :: rest =>
      let rest ← afterLine? rest
      some (.table path, rest)
    | _ => none
  | _ => none

/-- The sections of the lines that follow, where `header` and `entries`, last one first,
    have been read of the current one. -/
def readSections? (header : Header) :
    (fuel : Nat) → (entries : List Entry) → List Char → Option (List Section)
  | 0, _, _ => none
  | fuel + 1, entries, s =>
    let current : Section := ⟨header, entries.reverse⟩
    match skipSpace s with
    | [] => some [current]
    | '[' :: rest =>
      match readHeader? ('[' :: rest) with
      | none => none
      | some (next, rest) => (readSections? next fuel [] rest).map (current :: ·)
    | s =>
      match afterLine? s with
      | some rest => readSections? header fuel entries rest
      | none =>
        match readAssignment? s with
        | none => none
        | some (e, rest) => readSections? header fuel (e :: entries) rest

/-- The members of the document that the text writes. A byte order mark in front does not
    count. -/
def read? (text : String) : Option Members :=
  let s :=
    match text.toList with
    | '\uFEFF' :: s => s
    | s => s
  (readSections? .root (s.length + 1) [] s).bind document?

end Toml

end LiveTemplate
