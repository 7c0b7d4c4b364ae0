import LiveTemplate.Number.Binary64
import LiveTemplate.Text.Natural
import LiveTemplate.Toml.Basic

/-!
# TOML Numbers and Dates

The value of a bare word: a truth value, an integer, a float, a date or a time.

Digits may be grouped by single underscores. An integer has to fit into 64 bits with
sign, a float may not be too large for a binary one, and a date has to exist.

## Main definitions

* `Toml.digits?`: A run of digits without its underscores.
* `Toml.integer?`, `Toml.isFloat`, `Toml.isMoment`: The kinds of numbers and dates.
* `Toml.scalar?`: The value of a bare word.
-/

namespace LiveTemplate

namespace Toml

open Text

/-- The digits of a run in which single underscores stand between digits. -/
def digits? (isDigit : Char → Bool) : List Char → Option (List Char)
  | [] => none
  | [c] => if isDigit c then some [c] else none
  | c :: '_' :: cs => if isDigit c then (digits? isDigit cs).map (c :: ·) else none
  | c :: cs => if isDigit c then (digits? isDigit cs).map (c :: ·) else none

/-- The sign of a number, and what follows it. -/
def takeSign : List Char → Bool × List Char
  | '-' :: s => (true, s)
  | '+' :: s => (false, s)
  | s => (false, s)

/-- The digits of a decimal integer without sign, which has no leading zero. -/
def wholeDigits? (s : List Char) : Option (List Char) :=
  match digits? Char.isDigit s with
  | some ('0' :: _ :: _) => none
  | found => found

/-- An integer that fits into 64 bits with sign. -/
def wordInteger? (i : Int) : Option Int :=
  if -Int.pow 2 63 ≤ i ∧ i < Int.pow 2 63 then some i else none

/-- The natural number in a radix, digits grouped or not. -/
def grouped? (radix : Nat) (s : List Char) : Option Int := do
  let digits ← digits? (fun c => (digit? radix c).isSome) s
  let n ← natural? radix digits
  wordInteger? n

/-- The integer that a word writes. Only a decimal one has a sign. -/
def integer? : List Char → Option Int
  | '0' :: 'x' :: s => grouped? 16 s
  | '0' :: 'o' :: s => grouped? 8 s
  | '0' :: 'b' :: s => grouped? 2 s
  | s => do
    let (negative, s) := takeSign s
    let digits ← wholeDigits? s
    let n ← natural? 10 digits
    wordInteger? (if negative then -(n : Int) else n)

/-- The exponent of a float, from behind its letter. -/
def exponent? (s : List Char) : Option Int := do
  let (negative, s) := takeSign s
  let digits ← digits? Char.isDigit s
  let n ← natural? 10 digits
  some (if negative then -(n : Int) else n)

/-- The float's letter between digits and exponent. -/
def isExponentMark (c : Char) : Bool :=
  c == 'e' || c == 'E'

/-- A float with digits: a fraction, an exponent, or both follow its integral part. A
    positive one that is too large for a binary float is none. -/
def isNumericFloat (s : List Char) : Bool :=
  let (negative, s) := takeSign s
  let mantissa := s.takeWhile (!isExponentMark ·)
  let power? :=
    match s.dropWhile (!isExponentMark ·) with
    | [] => some none
    | _ :: s => (exponent? s).map some
  let whole := mantissa.takeWhile (· != '.')
  let fraction? :=
    match mantissa.dropWhile (· != '.') with
    | [] => some none
    | _ :: s => (digits? Char.isDigit s).map some
  match wholeDigits? whole, fraction?, power? with
  | some _, some none, some none => false
  | some whole, some fraction, some power =>
    let places := fraction.getD []
    match natural? 10 (whole ++ places) with
    | some n => negative || (Binary64.ofDecimal? false n (power.getD 0 - places.length)).isSome
    | none => false
  | _, _, _ => false

/-- A float, written with digits or as one of the special words. -/
def isFloat (s : List Char) : Bool :=
  let word := String.ofList (takeSign s).2
  word == "inf" || word == "nan" || isNumericFloat s

/-- The number of exactly two digits. -/
def pair? (a b : Char) : Option Nat :=
  if a.isDigit && b.isDigit then natural? 10 [a, b] else none

/-- The number of days of a month. -/
def daysIn (year month : Nat) : Nat :=
  if month = 2 then
    if year % 4 = 0 ∧ (year % 100 ≠ 0 ∨ year % 400 = 0) then 29 else 28
  else if month = 4 ∨ month = 6 ∨ month = 9 ∨ month = 11 then 30
  else 31

/-- What follows a date that exists. -/
def afterDate? : List Char → Option (List Char)
  | a :: b :: c :: d :: '-' :: e :: f :: '-' :: g :: h :: rest => do
    let century ← pair? a b
    let year ← pair? c d
    let month ← pair? e f
    let day ← pair? g h
    if 1 ≤ month ∧ month ≤ 12 ∧ 1 ≤ day ∧ day ≤ daysIn (100 * century + year) month then some rest
    else none
  | _ => none

/-- What follows a time of day. A minute may have a sixty-first second. -/
def afterTime? : List Char → Option (List Char)
  | a :: b :: ':' :: c :: d :: ':' :: e :: f :: rest => do
    let hour ← pair? a b
    let minute ← pair? c d
    let second ← pair? e f
    if hour < 24 ∧ minute < 60 ∧ second ≤ 60 then
      match rest with
      | '.' :: g :: rest => if g.isDigit then some (rest.dropWhile Char.isDigit) else none
      | rest => some rest
    else none
  | _ => none

/-- The rest of a date and time behind the time is empty or a distance from UTC. -/
def isOffset : List Char → Bool
  | [] => true
  | ['Z'] => true
  | ['z'] => true
  | [sign, a, b, ':', c, d] =>
    (sign == '+' || sign == '-') && (pair? a b).any (· < 24) && (pair? c d).any (· < 60)
  | _ => false

/-- A time of day by itself. -/
def isTime (s : List Char) : Bool :=
  (afterTime? s).any List.isEmpty

/-- A time of day, perhaps with a distance from UTC, as it follows a date. -/
def isTimeOfDate (s : List Char) : Bool :=
  (afterTime? s).any isOffset

/-- A date by itself. -/
def isDate (s : List Char) : Bool :=
  (afterDate? s).any List.isEmpty

/-- A date, a time, or a date and a time in one word. -/
def isMoment (s : List Char) : Bool :=
  isTime s ||
    match afterDate? s with
    | some [] => true
    | some ('T' :: rest) => isTimeOfDate rest
    | some ('t' :: rest) => isTimeOfDate rest
    | _ => false

/-- The value that a bare word writes. -/
def scalar? (word : List Char) : Option Value :=
  let text := String.ofList word
  if text = "true" then some (.boolean true)
  else if text = "false" then some (.boolean false)
  else if isMoment word then some (.moment text)
  else
    match integer? word with
    | some i => some (.integer i)
    | none => if isFloat word then some (.float text) else none

end Toml

end LiveTemplate
