import LiveTemplate.Proofs.View.RoundTrip
import Mathlib.Data.List.Chain

/-!
# Closing Tags That Are Missing or Too Many

Three ways to spoil the closing tags of written markup that reading does not notice.

In the markup of a forest every closing tag closes the innermost open element, and in the
end no element is open. `Balanced` says so of the tokens, and it says which elements are
open at each point: the ones that the rest of the tokens closes. This is what makes the
difference between the tags that may be left out, because a later tag or the end of the
markup closes the element as well, and the ones that may not. A closing tag without an open
element of its name is a stray, which is noted and changes nothing.

Leaving out a token could bring two texts together, and then they would be read as one. But
the tokens that are left out stand in front of a closing tag or of the end.

## Main definitions

* `writeTokens`: The characters of several tokens.
* `openTags`: The tags of the elements that are open after some tokens.
* `Balanced`: Every closing tag closes the innermost open element, and none stays open.
* `World.PlantsAs`: What planting some markup gives.

## Theorems

* `tokens_writeTokens`: Tokens are read back.
* `balanced_tokensAll`: The tokens of a forest are balanced.
* `forestOf_closings`: At the end everything is closed.
* `forestOf_stray`: What closes nothing changes nothing.
* `forestOf_intervening`: Closing an element closes what stands open inside it.
* `parse_inserted`: A closing tag between tokens is read as one.
* `plantsAs_of_written`: What may be done to the closing tags of written nodes.
-/

namespace LiveTemplate

namespace Markup

open Text

namespace Token

/-- The token is a text. -/
def IsText : Token → Prop
  | text _ => True
  | _ => False

/-- The tokens are not both texts, so that they may stand next to each other. -/
def Apart (t u : Token) : Prop :=
  t.IsText → ¬u.IsText

/-- The token is read back as it is written. -/
def Legible : Token → Prop
  | text content => content ≠ ""
  | comment content => ¬"-->".toList <:+: content.toList
  | opening tag attributes closed => IsTag tag ∧ IsAttributes attributes ∧ closed = false
  | closing tag => IsTag tag

/-- The characters of a token. -/
def write (spell : Spelling) : Token → List Char
  | text content => escape spell content.toList
  | comment content => "<!--".toList ++ content.toList ++ "-->".toList
  | opening tag attributes closed =>
    '<' :: tag.toList ++ attributes.write spell ++ if closed then "/>".toList else ['>']
  | closing tag => "</".toList ++ tag.toList ++ ['>']

/-- The tags of the open elements behind the token, innermost first. -/
def pass (tags : List String) : Token → List String
  | opening tag _ closed => if closed || isVoid tag then tags else tag :: tags
  | closing _ => tags.tail
  | _ => tags

end Token

/-- The characters of several tokens, one after the other. -/
def writeTokens (spell : Spelling) (ts : List Token) : List Char :=
  ts.flatMap (Token.write spell)

/-- The tags of the elements that are open after the tokens, innermost first. -/
def openTags (ts : List Token) : List String :=
  ts.foldl Token.pass []

/-- Every closing tag closes the innermost open element, and in the end none is open. -/
def Balanced : (tags : List String) → List Token → Prop
  | tags, [] => tags = []
  | tags, t :: ts => (∀ tag, t = .closing tag → tags.head? = some tag) ∧ Balanced (t.pass tags) ts

/-! ### Tokens and their characters -/

section Scanning

variable {spell : Spelling}

theorem writeTokens_append (ts us : List Token) :
    writeTokens spell (ts ++ us) = writeTokens spell ts ++ writeTokens spell us :=
  List.flatMap_append

/-- A forest is written as its tokens. -/
theorem writeAll_eq_writeTokens (ts : List Tree) :
    Tree.writeAll spell ts = writeTokens spell (Tree.tokensAll ts) := by
  induction ts using Tree.forestInduction with
  | nil => rfl
  | text content ts ih =>
      rw [Tree.writeAll, Tree.tokensAll, writeTokens_append, ih]
      exact congrArg (· ++ _) (List.append_nil _).symm
  | comment content ts ih =>
      rw [Tree.writeAll, Tree.tokensAll, writeTokens_append, ih]
      exact congrArg (· ++ _) (List.append_nil _).symm
  | element tag attributes children ts ihc ih =>
      rw [Tree.writeAll, Tree.tokensAll, writeTokens_append, ih, Tree.write, Tree.tokens, ihc]
      cases isVoid tag with
      | true =>
          simp only [writeTokens, Token.write, List.flatMap_cons, List.flatMap_nil, if_true,
            Bool.false_eq_true, if_false, List.append_nil]
      | false =>
          simp only [writeTokens, Token.write, List.flatMap_cons, List.flatMap_nil,
            List.flatMap_append, Bool.false_eq_true, if_false, List.append_nil, List.append_assoc,
            List.cons_append, List.nil_append]

/-- A legible token is read back, in front of something else if it is a text. -/
theorem scan?_write (hs : spell.Faithful) {t : Token} (ht : t.Legible) {rest : List Char}
    (hrest : t.IsText → Halts rest) : scan? (t.write spell ++ rest) = some (t, rest) := by
  cases t with
  | text content => exact scan?_escape hs ht (hrest trivial)
  | comment content => exact scan?_comment ht rest
  | opening tag attributes closed =>
      rcases ht with ⟨htag, hattributes, rfl⟩
      have hopening := scan?_opening hs htag hattributes rest
      rw [Token.write, if_neg Bool.false_ne_true, List.append_assoc, List.singleton_append]
      exact hopening
  | closing tag =>
      rw [Token.write, List.append_assoc, List.singleton_append]
      exact scan?_closing ht rest

/-- Whatever is no text ends a text in front of it. -/
theorem halts_writeTokens {ts : List Token} (hts : ∀ t ∈ ts, t.Legible)
    (hhead : ∀ t ∈ ts.head?, ¬t.IsText) {rest : List Char} (hrest : Halts rest) :
    Halts (writeTokens spell ts ++ rest) := by
  cases ts with
  | nil => exact hrest
  | cons t ts =>
      rw [writeTokens, List.flatMap_cons, List.append_assoc]
      generalize ts.flatMap (Token.write spell) ++ rest = after
      rw [List.forall_mem_cons] at hts
      cases t with
      | text content => exact absurd trivial (hhead _ rfl)
      | comment content => exact Or.inr rfl
      | opening tag attributes closed =>
          rcases hts.1.1.initial with ⟨c, cs, hcons, hc⟩
          refine Or.inr ?_
          rw [Token.write, hcons]
          exact (startsTag_of_isAlpha hc _).1
      | closing tag =>
          rw [Token.write, List.append_assoc]
          exact Tree.halts_closing hts.1.spelled after

/-- Tokens are read back if no text stands next to another one. -/
theorem tokens_writeTokens (hs : spell.Faithful) {ts : List Token} (hts : ∀ t ∈ ts, t.Legible)
    (hapart : ts.IsChain Token.Apart) {rest : List Char} (hrest : Halts rest) :
    tokens (writeTokens spell ts ++ rest) = ts ++ tokens rest := by
  induction ts with
  | nil => rfl
  | cons t ts ih =>
      rw [List.forall_mem_cons] at hts
      rw [List.isChain_cons] at hapart
      have hhalts : t.IsText → Halts (writeTokens spell ts ++ rest) := fun ht =>
        halts_writeTokens hts.2 (fun u hu => hapart.1 u hu ht) hrest
      have hscan := scan?_write hs hts.1 hhalts
      rw [writeTokens, List.flatMap_cons, List.append_assoc, ← writeTokens, tokens_of_scan? hscan,
        ih hts.2 hapart.2, List.cons_append]

end Scanning

namespace Tree

theorem tokensAll_void {tag : String} (hv : isVoid tag = true) (attributes : Attributes)
    (children ts : List Tree) (rest : List Token) :
    tokensAll (element tag attributes children :: ts) ++ rest =
      .opening tag attributes false :: (tokensAll ts ++ rest) := by
  simp only [tokensAll, tokens, hv, if_true, List.cons_append, List.nil_append]

theorem tokensAll_element {tag : String} (hv : isVoid tag = false) (attributes : Attributes)
    (children ts : List Tree) (rest : List Token) :
    tokensAll (element tag attributes children :: ts) ++ rest =
      .opening tag attributes false ::
        (tokensAll children ++ .closing tag :: (tokensAll ts ++ rest)) := by
  simp only [tokensAll, tokens, hv, Bool.false_eq_true, if_false, List.cons_append,
    List.append_assoc, List.nil_append]

theorem legible_tokensAll {ts : List Tree} (h : WritableAll ts) :
    ∀ t ∈ tokensAll ts, t.Legible := by
  induction ts using forestInduction with
  | nil => exact fun t ht => absurd ht List.not_mem_nil
  | text content ts ih => exact List.forall_mem_cons.mpr ⟨h.1, ih h.2⟩
  | comment content ts ih => exact List.forall_mem_cons.mpr ⟨h.1, ih h.2⟩
  | element tag attributes children ts ihc ih =>
      rcases h with ⟨⟨htag, hattributes, _, hchildren⟩, hts⟩
      rw [tokensAll, tokens, List.cons_append, List.forall_mem_cons, List.forall_mem_append]
      refine ⟨⟨htag, hattributes, rfl⟩, ?_, ih hts⟩
      cases isVoid tag with
      | true => exact fun t ht => absurd ht List.not_mem_nil
      | false =>
          rw [if_neg Bool.false_ne_true, List.forall_mem_append, List.forall_mem_singleton]
          exact ⟨ihc hchildren, htag⟩

/-- The first token of a forest is a text only if the first tree is. -/
theorem head_tokensAll {ts : List Tree} (hts : ∀ u ∈ ts.head?, ¬IsText u) {rest : List Token}
    (hrest : ∀ t ∈ rest.head?, ¬t.IsText) : ∀ t ∈ (tokensAll ts ++ rest).head?, ¬t.IsText := by
  cases ts with
  | nil => exact hrest
  | cons u ts =>
      cases u with
      | text content => exact absurd ⟨content, rfl⟩ (hts _ rfl)
      | comment content =>
          rintro t ht
          cases ht
          exact id
      | element tag attributes children =>
          rintro t ht
          cases ht
          exact id

/-- In a forest without neighbouring texts there are no neighbouring text tokens. -/
theorem isChain_tokensAll {ts : List Tree} (h : SeparatedAll ts) {rest : List Token}
    (hrest : rest.IsChain Token.Apart) (hhead : ∀ t ∈ rest.head?, ¬t.IsText) :
    (tokensAll ts ++ rest).IsChain Token.Apart := by
  induction ts using forestInduction generalizing rest with
  | nil => exact hrest
  | text content ts ih =>
      refine List.isChain_cons.mpr ⟨fun t ht _ => ?_, ih h.2.2 hrest hhead⟩
      exact head_tokensAll (h.2.1 ⟨content, rfl⟩) hhead t ht
  | comment content ts ih =>
      exact List.isChain_cons.mpr ⟨fun t _ hcomment => absurd hcomment id, ih h.2.2 hrest hhead⟩
  | element tag attributes children ts ihc ih =>
      have hneighbours := ih h.2.2 hrest hhead
      cases hv : isVoid tag with
      | true =>
          rw [tokensAll_void hv]
          exact List.isChain_cons.mpr ⟨fun t _ hopening => absurd hopening id, hneighbours⟩
      | false =>
          have hclosing : (Token.closing tag :: (tokensAll ts ++ rest)).IsChain Token.Apart :=
            List.isChain_cons.mpr ⟨fun t _ hclosing => absurd hclosing id, hneighbours⟩
          rw [tokensAll_element hv]
          refine List.isChain_cons.mpr ⟨fun t _ hopening => absurd hopening id,
            ihc h.1 hclosing fun t ht => ?_⟩
          cases ht
          exact id

/-- The tokens of a forest are balanced. -/
theorem balanced_tokensAll {tags : List String} {ts : List Tree} {rest : List Token}
    (hrest : Balanced tags rest) : Balanced tags (tokensAll ts ++ rest) := by
  induction ts using forestInduction generalizing tags rest with
  | nil => exact hrest
  | text content ts ih => exact ⟨fun tag h => (nomatch h), ih hrest⟩
  | comment content ts ih => exact ⟨fun tag h => (nomatch h), ih hrest⟩
  | element tag attributes children ts ihc ih =>
      have hneighbours := ih hrest
      cases hv : isVoid tag with
      | true =>
          rw [tokensAll_void hv]
          refine ⟨fun tag h => (nomatch h), ?_⟩
          rw [Token.pass, hv, Bool.or_true, if_pos rfl]
          exact hneighbours
      | false =>
          rw [tokensAll_element hv]
          refine ⟨fun tag h => (nomatch h), ?_⟩
          rw [Token.pass, hv, Bool.or_self, if_neg Bool.false_ne_true]
          have hclosing : Balanced (tag :: tags) (.closing tag :: (tokensAll ts ++ rest)) :=
            ⟨fun _ h => congrArg some (Token.closing.inj h), hneighbours⟩
          exact ihc hclosing

end Tree

/-! ### Elements that are open -/

/-- What stands behind some tokens closes what they leave open. -/
theorem Balanced.behind {tags : List String} {ts us : List Token} (h : Balanced tags (ts ++ us)) :
    Balanced (ts.foldl Token.pass tags) us := by
  induction ts generalizing tags with
  | nil => exact h
  | cons t ts ih => exact ih h.2

/-- Closing tags at the front close the innermost elements. -/
theorem Balanced.closings {tags xs : List String} {ts : List Token}
    (h : Balanced tags (xs.map .closing ++ ts)) : ∃ rest, tags = xs ++ rest ∧ Balanced rest ts := by
  induction xs generalizing tags with
  | nil => exact ⟨tags, rfl, h⟩
  | cons x xs ih =>
      rcases List.head?_eq_some_iff.mp (h.1 x rfl) with ⟨rest, rfl⟩
      rcases ih h.2 with ⟨rest', hrest, hbalanced⟩
      have htail : rest = xs ++ rest' := hrest
      exact ⟨rest', by rw [htail, List.cons_append], hbalanced⟩

namespace Nesting

/-- The tags of the open elements. -/
def tags (n : Nesting) : List String :=
  n.opened.map (·.tag)

theorem tags_attach (n : Nesting) (t : Tree) : (n.attach t).tags = n.tags := by
  unfold attach tags
  split
  · rfl
  · next e es hcons => rw [hcons, List.map_cons, List.map_cons]

theorem tags_close (n : Nesting) : n.close.tags = n.tags.tail := by
  unfold close
  split
  · next hnil => rw [tags, hnil, List.map_nil, List.tail_nil]
  · next e es hcons => rw [tags_attach, tags, tags, hcons, List.map_cons, List.tail_cons]

theorem findIdx?_tag (n : Nesting) (tag : String) :
    n.opened.findIdx? (·.tag == tag) = n.tags.findIdx? (· == tag) := by
  rw [tags, List.findIdx?_map]
  rfl

/-- The closing tag of an open element closes what stands open inside it. -/
theorem add_closing {n : Nesting} {xs rest : List String} {tag : String}
    (h : n.tags = xs ++ tag :: rest) (htag : tag ∉ xs) :
    n.add (.closing tag) = closeMany (xs.length + 1) n := by
  have hinside : xs.findIdx? (· == tag) = none := by
    rw [List.findIdx?_eq_none_iff]
    intro x hx
    exact beq_eq_false_iff_ne.mpr fun heq => htag (heq ▸ hx)
  have hfind : n.opened.findIdx? (·.tag == tag) = some xs.length := by
    rw [findIdx?_tag, h, List.findIdx?_append, hinside, List.findIdx?_cons,
      if_pos (beq_self_eq_true tag), Option.map_some, Option.none_or, Nat.zero_add]
  simp only [add, hfind]

/-- What is open after a token of balanced markup. -/
theorem tags_add {n : Nesting} {t : Token} {ts : List Token} (h : Balanced n.tags (t :: ts)) :
    (n.add t).tags = t.pass n.tags := by
  cases t with
  | text content => exact tags_attach n _
  | comment content => exact tags_attach n _
  | opening tag attributes closed =>
      rw [add, Token.pass]
      split
      · exact tags_attach n _
      · rfl
  | closing tag =>
      rcases List.head?_eq_some_iff.mp (h.1 tag rfl) with ⟨rest, hrest⟩
      rw [@add_closing n [] rest tag hrest List.not_mem_nil]
      exact tags_close n

theorem tags_foldl_add {n : Nesting} {ts us : List Token} (h : Balanced n.tags (ts ++ us)) :
    (ts.foldl add n).tags = ts.foldl Token.pass n.tags := by
  induction ts generalizing n with
  | nil => rfl
  | cons t ts ih =>
      have hrest : Balanced (n.add t).tags (ts ++ us) := by
        rw [tags_add h]
        exact h.2
      rw [List.foldl_cons, List.foldl_cons, ih hrest, tags_add h]

/-- Closing tags in balanced markup close one element each. -/
theorem foldl_add_closings {n : Nesting} {xs : List String} {ts : List Token}
    (h : Balanced n.tags (xs.map .closing ++ ts)) :
    (xs.map Token.closing).foldl add n = closeMany xs.length n := by
  induction xs generalizing n with
  | nil => rfl
  | cons x xs ih =>
      rcases List.head?_eq_some_iff.mp (h.1 x rfl) with ⟨rest, hrest⟩
      have hclose : n.add (.closing x) = n.close :=
        @add_closing n [] rest x hrest List.not_mem_nil
      have hbehind : Balanced n.close.tags (xs.map .closing ++ ts) := by
        rw [tags_close]
        exact h.2
      rw [List.map_cons, List.foldl_cons, hclose, ih hbehind, List.length_cons, closeMany]

/-- Strays make no difference to what is closed. -/
theorem closeMany_strays (k : Nat) (n : Nesting) (strays : List String) :
    closeMany k { n with strays } = { closeMany k n with strays } := by
  have hclose : ∀ n : Nesting, close { n with strays } = { n.close with strays } := by
    rintro ⟨_ | ⟨e, _ | ⟨e', es⟩⟩, roots, old⟩
    · rfl
    · rfl
    · rfl
  induction k generalizing n with
  | zero => rfl
  | succ k ih => rw [closeMany, closeMany, hclose, ih]

/-- Strays make no difference to what is read later. -/
theorem add_strays (n : Nesting) (strays : List String) (t : Token) :
    ∃ strays', add { n with strays } t = { n.add t with strays := strays' } := by
  have hattach : ∀ u : Tree, attach u { n with strays } = { n.attach u with strays } := by
    intro u
    rcases n with ⟨_ | ⟨e, es⟩, roots, old⟩
    · rfl
    · rfl
  cases t with
  | text content => exact ⟨strays, hattach _⟩
  | comment content => exact ⟨strays, hattach _⟩
  | opening tag attributes closed =>
      rw [add, add]
      split
      · exact ⟨strays, hattach _⟩
      · exact ⟨strays, rfl⟩
  | closing tag =>
      simp only [add]
      cases n.opened.findIdx? (·.tag == tag) with
      | none => exact ⟨_, rfl⟩
      | some i => exact ⟨strays, closeMany_strays (i + 1) n strays⟩

theorem foldl_add_strays (n : Nesting) (strays : List String) (ts : List Token) :
    ∃ strays', ts.foldl add { n with strays } = { ts.foldl add n with strays := strays' } := by
  induction ts generalizing n strays with
  | nil => exact ⟨strays, rfl⟩
  | cons t ts ih =>
      rcases add_strays n strays t with ⟨strays', ht⟩
      rw [List.foldl_cons, List.foldl_cons, ht]
      exact ih (n.add t) strays'

theorem forest_strays (n : Nesting) (strays : List String) :
    forest { n with strays } = n.forest := by
  rw [forest, forest, closeMany_strays]

end Nesting

/-! ### Closing tags left out or added -/

/-- The forest that some tokens describe. -/
def forestOf (ts : List Token) : List Tree :=
  (ts.foldl Nesting.add {}).forest

theorem tags_openTags {ts us : List Token} (h : Balanced [] (ts ++ us)) :
    (ts.foldl Nesting.add {}).tags = openTags ts ∧ Balanced (openTags ts) us :=
  ⟨Nesting.tags_foldl_add h, h.behind⟩

/-- Elements that are closed last need no closing tags. -/
theorem forestOf_closings {ts : List Token} {xs : List String}
    (h : Balanced [] (ts ++ xs.map .closing)) :
    forestOf ts = forestOf (ts ++ xs.map .closing) := by
  rcases tags_openTags h with ⟨htags, hbehind⟩
  rw [← htags, ← List.append_nil (xs.map _)] at hbehind
  rw [forestOf, forestOf, List.foldl_append, Nesting.foldl_add_closings hbehind]
  have hclosed := (Nesting.tags_foldl_add hbehind).trans hbehind.behind
  rw [Nesting.foldl_add_closings hbehind] at hclosed
  rcases hbehind.closings with ⟨rest, hopen, rfl⟩
  generalize ts.foldl Nesting.add {} = n at hopen hclosed
  have hlength : n.opened.length = xs.length := by
    rw [← List.length_map (·.tag), ← Nesting.tags, hopen, List.append_nil]
  have hnone : (Nesting.closeMany xs.length n).opened = [] := List.map_eq_nil_iff.mp hclosed
  rw [Nesting.forest, Nesting.forest, hlength, hnone, List.length_nil, Nesting.closeMany]

/-- A closing tag without an element of its name changes nothing. -/
theorem forestOf_stray {ts us : List Token} {tag : String} (h : Balanced [] (ts ++ us))
    (htag : tag ∉ openTags ts) : forestOf (ts ++ .closing tag :: us) = forestOf (ts ++ us) := by
  have htags := (tags_openTags h).1
  rw [forestOf, forestOf, List.foldl_append, List.foldl_append, List.foldl_cons]
  generalize ts.foldl Nesting.add {} = n at htags
  have hnone : n.opened.findIdx? (·.tag == tag) = none := by
    rw [Nesting.findIdx?_tag, htags, List.findIdx?_eq_none_iff]
    exact fun x hx => beq_eq_false_iff_ne.mpr fun heq => htag (heq ▸ hx)
  have hstray : n.add (.closing tag) = { n with strays := tag :: n.strays } := by
    simp only [Nesting.add, hnone]
  rcases Nesting.foldl_add_strays n (tag :: n.strays) us with ⟨strays, hrest⟩
  rw [hstray, hrest, Nesting.forest_strays]

/-- A closing tag closes the elements inside, too, if they have other names. -/
theorem forestOf_intervening {ts us : List Token} {xs : List String} {tag : String}
    (h : Balanced [] (ts ++ (xs.map .closing ++ .closing tag :: us))) (htag : tag ∉ xs) :
    forestOf (ts ++ .closing tag :: us) =
      forestOf (ts ++ (xs.map .closing ++ .closing tag :: us)) := by
  have happ : xs.map Token.closing ++ .closing tag :: us =
      (xs ++ [tag]).map .closing ++ us := by
    rw [List.map_append, List.append_assoc, List.map_singleton, List.singleton_append]
  rcases tags_openTags h with ⟨htags, hbehind⟩
  rw [← htags] at hbehind
  rcases hbehind.closings with ⟨rest, hopen, hclosing⟩
  rcases List.head?_eq_some_iff.mp (hclosing.1 tag rfl) with ⟨rest', rfl⟩
  rw [happ] at hbehind
  rw [happ, forestOf, forestOf, List.foldl_append, List.foldl_append, List.foldl_append,
    List.foldl_cons, Nesting.foldl_add_closings hbehind, Nesting.add_closing hopen htag,
    List.length_append, List.length_singleton]

/-- Markup is read as the forest that its tokens describe. -/
theorem parse_writeTokens {spell : Spelling} (hs : spell.Faithful) {ts : List Token}
    (hts : ∀ t ∈ ts, t.Legible) (hapart : ts.IsChain Token.Apart) :
    parse (String.ofList (writeTokens spell ts)) = forestOf ts := by
  have htokens := tokens_writeTokens hs hts hapart (Or.inl rfl : Halts [])
  rw [List.append_nil, tokens_nil, List.append_nil] at htokens
  rw [parse, Fragment.parse, String.toList_ofList, htokens, forestOf]

/-- A closing tag between tokens is read as one, in whatever letters it is written. -/
theorem parse_inserted {spell : Spelling} (hs : spell.Faithful) {ts us : List Token}
    {name : String} (hts : ∀ t ∈ ts, t.Legible) (hus : ∀ t ∈ us, t.Legible)
    (hapart : ts.IsChain Token.Apart) (hbehind : us.IsChain Token.Apart)
    (hname : IsSpelledTag name) :
    parse (String.ofList (writeTokens spell ts) ++ "</" ++ name ++ ">" ++
      String.ofList (writeTokens spell us)) =
        forestOf (ts ++ .closing (tagName name.toList) :: us) := by
  have hrest := tokens_writeTokens hs hus hbehind (Or.inl rfl : Halts [])
  rw [List.append_nil, tokens_nil, List.append_nil] at hrest
  have htokens := tokens_writeTokens hs hts hapart
    (Tree.halts_closing hname (writeTokens spell us))
  rw [tokens_of_scan? (scan?_spelled hname _), hrest] at htokens
  have hchars : (String.ofList (writeTokens spell ts) ++ "</" ++ name ++ ">" ++
      String.ofList (writeTokens spell us)).toList = writeTokens spell ts ++
        ("</".toList ++ name.toList ++ '>' :: writeTokens spell us) := by
    simp only [String.toList_append, String.toList_ofList, String.reduceToList,
      List.append_assoc, List.cons_append, List.nil_append]
  rw [parse, Fragment.parse, hchars, htokens, forestOf]

end Markup

open Markup

namespace World

/-- Planting the markup anywhere gives nodes that read as the forest, each with the form value
    that its attributes say. -/
def PlantsAs (κ σ : Type) [Client σ] (markup : String) (ts : List Tree) : Prop :=
  ∀ v : World κ σ, (v.plantMarkup markup).2.trees? (v.plantMarkup markup).1 = some ts ∧
    gather? (v.plantMarkup markup).2.outline? (v.plantMarkup markup).1 = some (outline ts)

variable {κ σ : Type} [Client σ] {w : World κ σ}

theorem plantsAs_of_parse {markup : String} {ts : List Tree} (h : parse markup = ts) :
    PlantsAs κ σ markup ts := by
  intro v
  rw [← h]
  exact v.reads_plantMarkup markup

/-- What nodes are written as may lose the closing tags at its end, or those in front of the
    closing tag of an element around them that has another tag than each of them, or get
    another closing tag at any point where no element of its tag is open. What is planted from
    it stays the same. -/
theorem plantsAs_of_written {spell : Spelling} (hs : spell.Faithful) {ns : List NodeId}
    {ts : List Tree} (hforest : w.trees? ns = some ts) (hw : Tree.WritableAll ts)
    (hsep : Tree.SeparatedAll ts) :
    w.written? spell ns = some (String.ofList (writeTokens spell (Tree.tokensAll ts))) ∧
    PlantsAs κ σ (String.ofList (writeTokens spell (Tree.tokensAll ts))) ts ∧
    (∀ (before : List Token) (xs : List String), Tree.tokensAll ts = before ++ xs.map .closing →
      PlantsAs κ σ (String.ofList (writeTokens spell before)) ts) ∧
    (∀ (before after : List Token) (name : String),
      Tree.tokensAll ts = before ++ after → IsSpelledTag name →
      tagName name.toList ∉ openTags before →
      PlantsAs κ σ (String.ofList (writeTokens spell before) ++ "</" ++ name ++ ">" ++
        String.ofList (writeTokens spell after)) ts) ∧
    ∀ (before : List Token) (xs : List String) (tag : String) (after : List Token),
      Tree.tokensAll ts = before ++ (xs.map .closing ++ .closing tag :: after) → tag ∉ xs →
      PlantsAs κ σ (String.ofList (writeTokens spell (before ++ .closing tag :: after))) ts := by
  have hlegible := Tree.legible_tokensAll hw
  have hapart : (Tree.tokensAll ts).IsChain Token.Apart := by
    have hchain := Tree.isChain_tokensAll hsep List.isChain_nil
      fun t ht => absurd ht (Option.not_mem_none t)
    rwa [List.append_nil] at hchain
  have hbalanced : Balanced [] (Tree.tokensAll ts) := by
    have htokens : Balanced [] (Tree.tokensAll ts ++ []) := Tree.balanced_tokensAll rfl
    rwa [List.append_nil] at htokens
  have hread : forestOf (Tree.tokensAll ts) = ts := by
    rw [← parse_writeTokens hs hlegible hapart, ← writeAll_eq_writeTokens]
    exact congrArg Fragment.forest (parse_writeAll hs hw hsep)
  refine ⟨?_, plantsAs_of_parse ((parse_writeTokens hs hlegible hapart).trans hread), ?_, ?_, ?_⟩
  · rw [written?, hforest, Option.map_some, writeAll_eq_writeTokens]
  · intro before xs hsplit
    rw [hsplit] at hlegible hapart hbalanced hread
    rw [List.forall_mem_append] at hlegible
    refine plantsAs_of_parse ?_
    rw [parse_writeTokens hs hlegible.1 hapart.left_of_append, forestOf_closings hbalanced, hread]
  · intro before after name hsplit hname htag
    rw [hsplit] at hlegible hapart hbalanced hread
    rw [List.forall_mem_append] at hlegible
    rw [List.isChain_append] at hapart
    refine plantsAs_of_parse ?_
    rw [parse_inserted hs hlegible.1 hlegible.2 hapart.1 hapart.2.1 hname,
      forestOf_stray hbalanced htag, hread]
  · intro before xs tag after hsplit htag
    rw [hsplit] at hlegible hapart hbalanced hread
    simp only [List.forall_mem_append, List.forall_mem_cons] at hlegible
    rw [List.isChain_append] at hapart
    have hkept : ∀ t ∈ before ++ .closing tag :: after, t.Legible := by
      rw [List.forall_mem_append, List.forall_mem_cons]
      exact ⟨hlegible.1, hlegible.2.2⟩
    have hmeet : (before ++ .closing tag :: after).IsChain Token.Apart := by
      refine List.isChain_append.mpr ⟨hapart.1, hapart.2.1.right_of_append, ?_⟩
      rintro t _ u hu _
      cases hu
      exact id
    refine plantsAs_of_parse ?_
    rw [parse_writeTokens hs hkept hmeet, forestOf_intervening hbalanced htag, hread]

/-- A list with a comment and an item. -/
def sampleList : List Tree :=
  [.element "ul" [] [.comment " b ", .element "li" [] [.text "a"]]]

theorem plantsAs_of_written_sampleList :
    PlantsAs Unit Unit "<ul><!-- b --><li>a" sampleList ∧
      PlantsAs Unit Unit ("<ul>" ++ "</" ++ "LI" ++ ">" ++ "<!-- b --><li>a</li></ul>")
        sampleList ∧
      PlantsAs Unit Unit "<ul><!-- b --><li>a</ul>" sampleList := by
  have hul : IsTag "ul" :=
    ⟨⟨'u', ['l'], rfl, rfl⟩, List.all_eq_true.mp (rfl : "ul".toList.all isTagChar = true), rfl⟩
  have hli : IsTag "li" :=
    ⟨⟨'l', ['i'], rfl, rfl⟩, List.all_eq_true.mp (rfl : "li".toList.all isTagChar = true), rfl⟩
  have hshout : IsSpelledTag "LI" :=
    ⟨⟨'L', ['I'], rfl, rfl⟩, List.all_eq_true.mp (rfl : "LI".toList.all isTagChar = true)⟩
  have hnone : IsAttributes [] := ⟨fun a ha => absurd ha List.not_mem_nil, List.nodup_nil⟩
  have hcomment : ¬"-->".toList <:+: " b ".toList := by decide
  have hwritable : Tree.WritableAll sampleList :=
    ⟨⟨hul, hnone, fun h => absurd h (by decide), hcomment,
      ⟨hli, hnone, fun h => absurd h (by decide), (by decide : "a" ≠ ""), trivial⟩, trivial⟩,
      trivial⟩
  have hseparated : Tree.SeparatedAll sampleList := by
    simp only [sampleList, Tree.SeparatedAll, Tree.Separated, Tree.IsText, List.head?_cons,
      Option.mem_def, Option.some.injEq, forall_eq', List.head?_nil, reduceCtorEq, exists_false,
      false_implies, implies_true, not_false_eq_true, and_self]
  have hforest :=
    (planted_plantForest sampleList { client := () : World Unit Unit }).stand.trees?_eq
  have hspoiled := (plantsAs_of_written faithful_standard hforest hwritable hseparated).2.2
  -- The tokens in front of the closing tags.
  have hfront : String.ofList (writeTokens .standard
      [.opening "ul" [] false, .comment " b ", .opening "li" [] false, .text "a"]) =
        "<ul><!-- b --><li>a" := rfl
  have htail : String.ofList (writeTokens .standard [.opening "ul" [] false, .comment " b ",
      .opening "li" [] false, .text "a", .closing "ul"]) = "<ul><!-- b --><li>a</ul>" := rfl
  have hitem : String.ofList (writeTokens .standard [.comment " b ", .opening "li" [] false,
      .text "a", .closing "li", .closing "ul"]) = "<!-- b --><li>a</li></ul>" := rfl
  have hlist : String.ofList (writeTokens .standard [.opening "ul" [] false]) = "<ul>" := rfl
  have hopen : tagName "LI".toList ∉ openTags [.opening "ul" [] false] := by decide
  rw [← hfront, ← htail, ← hitem, ← hlist]
  exact ⟨hspoiled.1 _ ["li", "ul"] rfl, hspoiled.2.1 _ _ "LI" rfl hshout hopen,
    hspoiled.2.2 [.opening "ul" [] false, .comment " b ", .opening "li" [] false, .text "a"]
      ["li"] "ul" [] rfl (by decide)⟩

end World

end LiveTemplate
