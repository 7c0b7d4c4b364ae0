import LiveTemplate.Text.Shapeless

/-!
# Quoted Text

Text between double quotes, as descriptions of values and nodes show it. A double
quote and a backslash are escaped by a backslash, and the three common control
characters for tabs and line ends by a letter, so a description stays on one line. A
null character is escaped by a digit, and any other character without a shape of its
own by its number between braces.

## Main definitions

* `quoted`: A text in quotes.
-/

namespace LiveTemplate

namespace Text

/-- How a character is shown between quotes. -/
def quotedChar (c : Char) : List Char :=
  match c with
  | '"' => ['\\', '"']
  | '\\' => ['\\', '\\']
  | '\n' => ['\\', 'n']
  | '\r' => ['\\', 'r']
  | '\t' => ['\\', 't']
  | '\x00' => ['\\', '0']
  | c =>
    if isShapeless c then "\\u\x7b".toList ++ Nat.toDigits 16 c.toNat ++ ['\x7d'] else [c]

/-- The text between double quotes. -/
def quoted (s : String) : String :=
  String.ofList ('"' :: s.toList.flatMap quotedChar ++ ['"'])

end Text

end LiveTemplate
