import LiveTemplate.Markup.Escape
import LiveTemplate.Markup.Tree
import LiveTemplate.Text.Blank

/-!
# Markup Tokens

Markup as a sequence of tokens: texts, comments, opening tags and closing tags.

Reading never fails. A `<` that starts no tag and no comment is text, a comment or
a quoted value without its end runs to the end of the input, and whatever stands in
an opening tag is read as attributes until the tag ends. Each token takes at least
one character, which is why reading comes to an end: `length_scan?_lt` says so, and
`tokens` recurses along it.

## Main definitions

* `Token`: A text, a comment, an opening tag or a closing tag.
* `startsTag`: A tag or a comment begins here.
* `scanAttributes`: The attributes of an opening tag.
* `scan?`: The token at the start of the markup and what follows it.
* `tokens`: All tokens of the markup.

## Theorems

* `length_scanAttribute_lt`: An attribute is not empty.
* `length_scanAttributes_le`: Reading attributes moves forward.
* `length_scan?_lt`: A token is not empty.
-/

namespace LiveTemplate

namespace Markup

open Text

/-- One lexical unit of markup. -/
inductive Token where
  /-- Running text, with its references read. -/
  | text (content : String)
  /-- A comment without its delimiters. -/
  | comment (content : String)
  /-- An opening tag; `closed` when it ends in `/>`. -/
  | opening (tag : String) (attributes : Attributes) (closed : Bool)
  /-- A closing tag. -/
  | closing (tag : String)
  deriving DecidableEq

/-- A character of a tag name. -/
def isTagChar (c : Char) : Bool :=
  c.isAlphanum || c == '-' || c == '_' || c == ':'

/-- The tag with its ASCII letters in lower case. -/
def tagName (name : List Char) : String :=
  String.ofList (name.map Char.toLower)

/-- A comment, a closing tag or an opening tag begins here. -/
def startsTag : List Char → Bool
  | '<' :: '!' :: '-' :: '-' :: _ => true
  | '<' :: '/' :: c :: _ => c.isAlpha
  | '<' :: c :: _ => c.isAlpha
  | _ => false

/-- The text up to the next tag or comment, and what follows. -/
def scanText : List Char → List Char × List Char
  | [] => ([], [])
  | c :: cs =>
    if startsTag (c :: cs) then ([], c :: cs)
    else
      let (content, rest) := scanText cs
      (c :: content, rest)

/-- The comment whose opening delimiter has been read, and what follows. -/
def scanComment (s : List Char) : Token × List Char :=
  let (content, rest) := (cutAt? "-->".toList s).getD (s, [])
  (.comment (String.ofList content), rest)

/-- A character that cannot stand in an attribute name. -/
def endsName (c : Char) : Bool :=
  isBlank c || c == '=' || c == '>' || c == '/'

/-- The attribute name that starts with `c`. A leading `=` is a name by itself. -/
def scanName (c : Char) (cs : List Char) : List Char × List Char :=
  if endsName c then ([c], cs)
  else (c :: cs.takeWhile (!endsName ·), cs.dropWhile (!endsName ·))

/-- The text up to the next `quote`, and what follows that. -/
def scanQuoted (quote : Char) (s : List Char) : List Char × List Char :=
  (s.takeWhile (· != quote), (s.dropWhile (· != quote)).drop 1)

/-- The attribute value that starts here, and what follows. -/
def scanValue : List Char → List Char × List Char
  | '"' :: cs => scanQuoted '"' cs
  | '\'' :: cs => scanQuoted '\'' cs
  | cs =>
    let bare := fun c => !(isBlank c || c == '>')
    (cs.takeWhile bare, cs.dropWhile bare)

/-- The value given to a name that has just been read, and what follows. Without an `=`
    the value is empty. -/
def scanAssigned (s : List Char) : List Char × List Char :=
  match skipBlanks s with
  | '=' :: rest => scanValue (skipBlanks rest)
  | rest => ([], rest)

/-- The attribute that starts with `c`, and what follows. -/
def scanAttribute (c : Char) (cs : List Char) : (String × String) × List Char :=
  let (name, rest) := scanName c cs
  let (value, rest) := scanAssigned rest
  ((String.ofList name, String.ofList (unescape value)), rest)

theorem length_scanQuoted_le (quote : Char) (s : List Char) :
    (scanQuoted quote s).2.length ≤ s.length := by
  have := (List.dropWhile_suffix (l := s) (· != quote)).length_le
  simp only [scanQuoted, List.length_drop]
  omega

theorem length_scanValue_le (s : List Char) : (scanValue s).2.length ≤ s.length := by
  unfold scanValue
  split
  · next cs =>
      have := length_scanQuoted_le '"' cs
      simp only [List.length_cons]
      omega
  · next cs =>
      have := length_scanQuoted_le '\'' cs
      simp only [List.length_cons]
      omega
  · exact (List.dropWhile_suffix _).length_le

theorem length_scanName_le (c : Char) (cs : List Char) :
    (scanName c cs).2.length ≤ cs.length := by
  unfold scanName
  split
  · exact Nat.le_refl _
  · exact (List.dropWhile_suffix _).length_le

theorem length_scanAssigned_le (s : List Char) : (scanAssigned s).2.length ≤ s.length := by
  have hskip := length_skipBlanks_le s
  unfold scanAssigned
  split
  · next rest h =>
      have hvalue := length_scanValue_le (skipBlanks rest)
      have hrest := length_skipBlanks_le rest
      rw [h, List.length_cons] at hskip
      omega
  · exact hskip

/-- An attribute takes up at least its first character. -/
theorem length_scanAttribute_lt (c : Char) (cs : List Char) :
    (scanAttribute c cs).2.length < (c :: cs).length :=
  Nat.lt_succ_of_le
    (Nat.le_trans (length_scanAssigned_le (scanName c cs).2) (length_scanName_le c cs))

/-- The attributes of an opening tag up to its end, whether it ends in `/>`, and what
    follows the tag. Names that come again replace the value. -/
def scanAttributes (found : Attributes) (s : List Char) : (Attributes × Bool) × List Char :=
  match _h : skipBlanks s with
  | [] => ((found, false), [])
  | '/' :: '>' :: rest => ((found, true), rest)
  | '>' :: rest => ((found, false), rest)
  | '/' :: rest => scanAttributes found rest
  | c :: rest =>
    match _ha : scanAttribute c rest with
    | ((name, value), after) => scanAttributes (found.set name value) after
termination_by s.length
decreasing_by
  · have := length_skipBlanks_le s
    rw [_h, List.length_cons] at this
    omega
  · have := length_skipBlanks_le s
    have hlt := length_scanAttribute_lt c rest
    rw [_h] at this
    rw [_ha] at hlt
    exact Nat.lt_of_lt_of_le hlt this

theorem length_scanAttributes_le (found : Attributes) (s : List Char) :
    (scanAttributes found s).2.length ≤ s.length := by
  fun_induction scanAttributes found s with
  | case1 => exact Nat.zero_le _
  | case2 found s rest h =>
      have := length_skipBlanks_le s
      rw [h, List.length_cons, List.length_cons] at this
      dsimp only
      omega
  | case3 found s rest h =>
      have := length_skipBlanks_le s
      rw [h, List.length_cons] at this
      dsimp only
      omega
  | case4 found s rest _ h ih =>
      have := length_skipBlanks_le s
      rw [h, List.length_cons] at this
      omega
  | case5 found s c rest _ _ _ h name value after ha ih =>
      have hskip := length_skipBlanks_le s
      have hlt := length_scanAttribute_lt c rest
      rw [h] at hskip
      rw [ha] at hlt
      dsimp only at hlt
      omega

/-- The closing tag whose name starts here, and what follows its `>`. -/
def scanClosing (s : List Char) : Token × List Char :=
  (.closing (tagName (s.takeWhile isTagChar)), (s.dropWhile (· != '>')).drop 1)

/-- The opening tag whose name starts here, and what follows it. -/
def scanOpening (s : List Char) : Token × List Char :=
  let ((attributes, closed), rest) := scanAttributes [] (s.dropWhile isTagChar)
  (.opening (tagName (s.takeWhile isTagChar)) attributes closed, rest)

/-- The tag or comment whose `<` has been read, and what follows it. -/
def scanTag : List Char → Token × List Char
  | '!' :: '-' :: '-' :: rest => scanComment rest
  | '/' :: rest => scanClosing rest
  | rest => scanOpening rest

/-- The token at the start of the markup, and what follows it. -/
def scan? : List Char → Option (Token × List Char)
  | [] => none
  | c :: cs =>
    if startsTag (c :: cs) then some (scanTag cs)
    else
      let (content, rest) := scanText cs
      some (.text (String.ofList (unescape (c :: content))), rest)

theorem length_scanText_le (s : List Char) : (scanText s).2.length ≤ s.length := by
  induction s with
  | nil => exact Nat.le_refl _
  | cons c cs ih =>
      rw [scanText]
      split
      · exact Nat.le_refl _
      · exact Nat.le_succ_of_le ih

theorem length_scanComment_le (s : List Char) : (scanComment s).2.length ≤ s.length := by
  unfold scanComment
  cases h : cutAt? "-->".toList s with
  | none => exact Nat.zero_le _
  | some parts =>
      have := congrArg List.length (append_of_cutAt? h)
      simp only [List.length_append] at this
      simp only [Option.getD_some]
      omega

theorem length_scanClosing_le (s : List Char) : (scanClosing s).2.length ≤ s.length := by
  have := (List.dropWhile_suffix (l := s) (· != '>')).length_le
  simp only [scanClosing, List.length_drop]
  omega

theorem length_scanOpening_le (s : List Char) : (scanOpening s).2.length ≤ s.length :=
  Nat.le_trans (length_scanAttributes_le [] (s.dropWhile isTagChar))
    (List.dropWhile_suffix isTagChar).length_le

theorem length_scanTag_le (s : List Char) : (scanTag s).2.length ≤ s.length := by
  unfold scanTag
  split
  · next rest =>
      have := length_scanComment_le rest
      simp only [List.length_cons]
      omega
  · next rest =>
      have := length_scanClosing_le rest
      simp only [List.length_cons]
      omega
  · exact length_scanOpening_le s

/-- A token takes up at least one character. -/
theorem length_scan?_lt {s rest : List Char} {token : Token}
    (h : scan? s = some (token, rest)) : rest.length < s.length := by
  cases s with
  | nil => simp only [scan?, reduceCtorEq] at h
  | cons c cs =>
      apply Nat.lt_succ_of_le
      simp only [scan?] at h
      split at h
      · injection h with h
        have := length_scanTag_le cs
        rw [h] at this
        exact this
      · injection h with h
        injection h with _ h
        rw [← h]
        exact length_scanText_le cs

/-- The tokens of the markup, first to last. -/
def tokens (s : List Char) : List Token :=
  match _h : scan? s with
  | none => []
  | some (token, rest) => token :: tokens rest
termination_by s.length
decreasing_by exact length_scan?_lt _h

end Markup

end LiveTemplate
