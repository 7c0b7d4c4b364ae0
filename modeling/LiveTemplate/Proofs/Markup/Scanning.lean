import LiveTemplate.Proofs.Markup.Forest
import LiveTemplate.Proofs.Markup.Spelling

/-!
# Scanning Written Markup

The tokens of the text of a forest.

Each kind of token is read back from its text whatever follows, with one exception: a
text goes on until something else begins. So the lemmas for texts ask that what
follows is the end of the markup or starts a tag, and `tokens_writeAll` carries this
condition through a forest in which no text stands next to another one.

## Main definitions

* `Halts`: What follows a text ends it.
* `Tree.tokens`, `Tree.tokensAll`: The tokens that describe a tree and a forest.

## Theorems

* `scan?_escape`: A text is read back.
* `scan?_comment`: A comment is read back.
* `scanAttributes_write`: Attributes are read back.
* `tokens_writeAll`: The text of a forest is read as the tokens of the forest.
-/

namespace LiveTemplate

namespace Markup

open Text

/-- Running text ends here. -/
def Halts (s : List Char) : Prop :=
  s = [] ∨ startsTag s = true

theorem tokens_nil : tokens [] = [] := by
  rw [tokens]
  split
  · rfl
  · next h => simp only [scan?, reduceCtorEq] at h

theorem tokens_of_scan? {s rest : List Char} {token : Token} (h : scan? s = some (token, rest)) :
    tokens s = token :: tokens rest := by
  rw [tokens]
  split
  · next h' => rw [h] at h'; exact absurd h' (by simp only [reduceCtorEq, not_false_eq_true])
  · next token' rest' h' =>
      rw [h] at h'
      injection h' with h'
      injection h' with htoken hrest
      rw [htoken, hrest]

theorem startsTag_cons_of_ne {c : Char} (hc : c ≠ '<') (s : List Char) :
    startsTag (c :: s) = false := by
  unfold startsTag
  split
  · next h => injection h with h _; exact absurd h hc
  · next h => injection h with h _; exact absurd h hc
  · next h => injection h with h _; exact absurd h hc
  · rfl

/-- A text without `<` is read up to where it ends. -/
theorem scanText_append {s rest : List Char} (hs : '<' ∉ s) (hrest : Halts rest) :
    scanText (s ++ rest) = (s, rest) := by
  induction s with
  | nil =>
      rcases hrest with rfl | hstart
      · rfl
      · cases rest with
        | nil => rfl
        | cons c cs => rw [List.nil_append, scanText, if_pos hstart]
  | cons c cs ih =>
      have hc : c ≠ '<' := fun h => hs (h ▸ List.mem_cons_self)
      have hcs : '<' ∉ cs := fun h => hs (List.mem_cons_of_mem c h)
      rw [List.cons_append, scanText, startsTag_cons_of_ne hc, ih hcs]
      rfl

/-- A text is read back from its spelling. -/
theorem scan?_escape {spell : Spelling} (hs : spell.Faithful) {content : String}
    (hne : content ≠ "") {rest : List Char} (hrest : Halts rest) :
    scan? (escape spell content.toList ++ rest) = some (.text content, rest) := by
  have hlt := hs.not_mem_escape (d := '<') (by decide) (by decide) content.toList
  have hcontent : content.toList ≠ [] := fun h => hne (String.toList_eq_nil_iff.mp h)
  have hread := hs.unescape_escape content.toList
  cases hesc : escape spell content.toList with
  | nil => exact absurd hesc (hs.escape_ne_nil hcontent)
  | cons c cs =>
      rw [hesc] at hlt hread
      have hc : c ≠ '<' := fun h => hlt (h ▸ List.mem_cons_self)
      have hcs : '<' ∉ cs := fun h => hlt (List.mem_cons_of_mem c h)
      rw [List.cons_append, scan?, startsTag_cons_of_ne hc, scanText_append hcs hrest]
      simp only [Bool.false_eq_true, if_false, hread, String.ofList_toList]

/-- A comment's end is not found before the end of its content. -/
theorem cutAt?_commentEnd {s : List Char} (hs : ¬"-->".toList <:+: s) (rest : List Char) :
    cutAt? "-->".toList (s ++ ("-->".toList ++ rest)) = some (s, rest) := by
  induction s with
  | nil =>
      have hmarker := afterMarker?_eq_some_iff.mpr (rfl : "-->".toList ++ rest = _)
      have hcons : "-->".toList ++ rest = '-' :: '-' :: '>' :: rest := rfl
      rw [List.nil_append, hcons, cutAt?, ← hcons, hmarker]
  | cons c cs ih =>
      have hcs : ¬"-->".toList <:+: cs := fun h => hs (List.infix_cons h)
      have hnone : afterMarker? "-->".toList (c :: (cs ++ ("-->".toList ++ rest))) = none := by
        rw [Option.eq_none_iff_forall_ne_some]
        intro after hafter
        have heq := afterMarker?_eq_some_iff.mp hafter
        simp only [String.reduceToList, List.cons_append, List.nil_append] at heq
        -- The end would have to begin inside the content and finish behind it.
        rcases cs with _ | ⟨d, _ | ⟨e, cs⟩⟩
        · simp only [List.nil_append, List.cons.injEq, Char.reduceEq, false_and, and_false] at heq
        · simp only [List.nil_append, List.cons_append, List.cons.injEq, Char.reduceEq, false_and,
            and_false] at heq
        · simp only [List.cons_append, List.cons.injEq] at heq
          rcases heq with ⟨rfl, rfl, rfl, _⟩
          exact hs ⟨[], cs, rfl⟩
      rw [List.cons_append, cutAt?, hnone]
      simp only [ih hcs, Option.map_some]

/-- A comment is read back. -/
theorem scan?_comment {content : String} (h : ¬"-->".toList <:+: content.toList)
    (rest : List Char) :
    scan? ("<!--".toList ++ content.toList ++ "-->".toList ++ rest) =
      some (.comment content, rest) := by
  have hcut := cutAt?_commentEnd h rest
  have hcons : "<!--".toList ++ content.toList ++ "-->".toList ++ rest =
      '<' :: '!' :: '-' :: '-' :: (content.toList ++ ("-->".toList ++ rest)) := by
    simp only [String.reduceToList, List.cons_append, List.append_assoc, List.nil_append]
  rw [hcons, scan?, startsTag, if_pos rfl, scanTag, scanComment, hcut, Option.getD_some]
  simp only [String.ofList_toList]

namespace Attributes

/-- A new name goes to the end. -/
theorem set_eq_append {name value : String} {attributes : Attributes}
    (h : name ∉ attributes.map (·.1)) :
    attributes.set name value = attributes ++ [(name, value)] := by
  induction attributes with
  | nil => rfl
  | cons a rest ih =>
      rcases a with ⟨n, v⟩
      rw [List.map_cons, List.mem_cons, not_or] at h
      rw [set, if_neg (Ne.symm h.1), ih h.2, List.cons_append]

/-- A name that is there already stays where it is. -/
theorem names_set_of_mem {attributes : Attributes} {name : String}
    (h : name ∈ attributes.map (·.1)) (value : String) :
    (attributes.set name value).map (·.1) = attributes.map (·.1) := by
  induction attributes with
  | nil => cases h
  | cons a rest ih =>
      rcases a with ⟨n, v⟩
      rw [set]
      split
      · rfl
      · next hne =>
          rw [List.map_cons, List.mem_cons] at h
          rw [List.map_cons, List.map_cons, ih (h.resolve_left (Ne.symm hne))]

end Attributes

theorem scanAttributes_end (found : Attributes) (rest : List Char) :
    scanAttributes found ('>' :: rest) = ((found, false), rest) := by
  have hskip : skipBlanks ('>' :: rest) = '>' :: rest := rfl
  rw [scanAttributes]
  split <;> simp_all only [List.cons.injEq, reduceCtorEq, Char.reduceEq, false_and, true_and,
    imp_false, not_true_eq_false]

/-- One attribute is read, then the others. -/
theorem scanAttributes_of_skipBlanks {found : Attributes} {s rest after : List Char} {c : Char}
    {name value : String} (h : skipBlanks s = c :: rest) (hslash : c ≠ '/') (hend : c ≠ '>')
    (hscan : scanAttribute c rest = ((name, value), after)) :
    scanAttributes found s = scanAttributes (found.set name value) after := by
  rw [scanAttributes]
  split
  · next h' => rw [h] at h'; exact absurd h' (by simp only [reduceCtorEq, not_false_eq_true])
  · next h' => rw [h] at h'; injection h' with h' _; exact absurd h' hslash
  · next h' => rw [h] at h'; injection h' with h' _; exact absurd h' hend
  · next h' => rw [h] at h'; injection h' with h' _; exact absurd h' hslash
  · next h' =>
      rw [h] at h'
      injection h' with hc hrest
      subst hc hrest
      rw [hscan]

theorem not_isBlank_of_not_endsName {c : Char} (h : endsName c = false) : isBlank c = false := by
  simp only [endsName, Bool.or_eq_false_iff] at h
  exact h.1.1.1

/-- The first character of a name: it ends neither the tag nor the blanks before it. -/
theorem IsName.exists_cons {name : String} (h : IsName name) :
    ∃ c cs, name.toList = c :: cs ∧ isBlank c = false ∧ c ≠ '/' ∧ c ≠ '>' := by
  rcases h with rfl | ⟨hne, hall⟩
  · exact ⟨'=', [], rfl, by decide, by decide, by decide⟩
  · cases hname : name.toList with
    | nil => exact absurd (String.toList_eq_nil_iff.mp hname) hne
    | cons c cs =>
        have hc : endsName c = false := hall c (hname ▸ List.mem_cons_self)
        refine ⟨c, cs, rfl, not_isBlank_of_not_endsName hc, ?_, ?_⟩
        · rintro rfl
          exact absurd hc (by decide)
        · rintro rfl
          exact absurd hc (by decide)

/-- A name is read up to the `=` behind it. -/
theorem IsName.scanName {name : String} (h : IsName name) {c : Char} {cs : List Char}
    (hcons : name.toList = c :: cs) (rest : List Char) :
    scanName c (cs ++ '=' :: rest) = (name.toList, '=' :: rest) := by
  rcases h with rfl | ⟨_, hall⟩
  · simp only [String.reduceToList, List.cons.injEq] at hcons
    rcases hcons with ⟨rfl, rfl⟩
    rfl
  · rw [hcons] at hall
    have hc := hall c List.mem_cons_self
    have hcs : ∀ d ∈ cs, (!endsName d) = true := by
      intro d hd
      rw [hall d (List.mem_cons_of_mem c hd), Bool.not_false]
    rw [Markup.scanName, hc, List.takeWhile_append_of_pos hcs, List.dropWhile_append_of_pos hcs,
      List.takeWhile_cons_of_neg (by decide), List.dropWhile_cons_of_neg (by decide),
      List.append_nil, hcons]
    rfl

/-- A quoted value is read up to its closing quote. -/
theorem scanAssigned_quoted {s : List Char} (hs : '"' ∉ s) (rest : List Char) :
    scanAssigned ('=' :: '"' :: (s ++ '"' :: rest)) = (s, rest) := by
  have hne : ∀ d ∈ s, (d != '"') = true := by
    intro d hd
    rw [bne_iff_ne]
    rintro rfl
    exact hs hd
  have hequals : ∀ r, skipBlanks ('=' :: r) = '=' :: r := fun _ => rfl
  have hquote : ∀ r, skipBlanks ('"' :: r) = '"' :: r := fun _ => rfl
  simp only [scanAssigned, hequals, hquote, scanValue, scanQuoted,
    List.takeWhile_append_of_pos hne, List.dropWhile_append_of_pos hne,
    List.takeWhile_cons_of_neg (p := (· != '"')) (a := '"') (by decide),
    List.dropWhile_cons_of_neg (p := (· != '"')) (a := '"') (by decide), List.append_nil,
    List.drop_one, List.tail_cons]

/-- An attribute is read back. -/
theorem scanAttribute_write {spell : Spelling} (hs : spell.Faithful) {name : String}
    (hname : IsName name) {c : Char} {cs : List Char} (hcons : name.toList = c :: cs)
    (value : String) (rest : List Char) :
    scanAttribute c (cs ++ '=' :: '"' :: (escape spell value.toList ++ '"' :: rest)) =
      ((name, value), rest) := by
  have hquote := hs.not_mem_escape (d := '"') (by decide) (by decide) value.toList
  have hscan := hname.scanName hcons ('"' :: (escape spell value.toList ++ '"' :: rest))
  have hassigned := scanAssigned_quoted hquote rest
  unfold scanAttribute
  simp only [hscan, hassigned, hs.unescape_escape, String.ofList_toList]

/-- Attributes are read back, behind those that have been read already. -/
theorem scanAttributes_write {spell : Spelling} (hs : spell.Faithful)
    {found attributes : Attributes} (h : IsAttributes (found ++ attributes)) (rest : List Char) :
    scanAttributes found (attributes.write spell ++ '>' :: rest) =
      ((found ++ attributes, false), rest) := by
  induction attributes generalizing found with
  | nil => rw [Attributes.write, List.nil_append, scanAttributes_end, List.append_nil]
  | cons a attributes ih =>
      rcases a with ⟨name, value⟩
      have hname : IsName name := h.isName (name, value) (by simp)
      have hnew : name ∉ found.map (·.1) := by
        intro hmem
        have hnodup := h.nodup
        rw [List.map_append, List.nodup_append] at hnodup
        exact hnodup.2.2 name hmem name (by simp) rfl
      rcases hname.exists_cons with ⟨c, cs, hcons, hblank, hslash, hend⟩
      have hwritten : Attributes.write spell ((name, value) :: attributes) ++ '>' :: rest =
          ' ' :: c :: (cs ++ '=' :: '"' :: (escape spell value.toList ++
            '"' :: (Attributes.write spell attributes ++ '>' :: rest))) := by
        simp only [Attributes.write, hcons, String.reduceToList, List.cons_append,
          List.append_assoc, List.nil_append]
      have hskip : ∀ r, skipBlanks (' ' :: c :: r) = c :: r := by
        intro r
        rw [skipBlanks, List.dropWhile_cons_of_pos (by decide),
          List.dropWhile_cons_of_neg (by rw [hblank]; decide)]
      have hscan := scanAttribute_write hs hname hcons value
        (Attributes.write spell attributes ++ '>' :: rest)
      rw [hwritten, scanAttributes_of_skipBlanks (hskip _) hslash hend hscan,
        Attributes.set_eq_append hnew, ih (by rw [List.append_assoc]; exact h),
        List.append_assoc]
      rfl

/-- What follows the name of an opening tag does not belong to the name. -/
theorem takeWhile_tagName {tag s : List Char} (htag : ∀ c ∈ tag, isTagChar c = true)
    (hs : ∀ c ∈ s.head?, isTagChar c = false) :
    (tag ++ s).takeWhile isTagChar = tag ∧ (tag ++ s).dropWhile isTagChar = s := by
  rw [List.takeWhile_append_of_pos htag, List.dropWhile_append_of_pos htag]
  cases s with
  | nil => exact ⟨List.append_nil tag, rfl⟩
  | cons c cs =>
      have hc := hs c rfl
      rw [List.takeWhile_cons_of_neg (by rw [hc]; decide),
        List.dropWhile_cons_of_neg (by rw [hc]; decide), List.append_nil]
      exact ⟨rfl, rfl⟩

/-- A letter is none of the marks by which other tokens than opening tags are told. -/
theorem startsTag_of_isAlpha {c : Char} (hc : c.isAlpha = true) (s : List Char) :
    startsTag ('<' :: c :: s) = true ∧ scanTag (c :: s) = scanOpening (c :: s) := by
  have hbang : c ≠ '!' := by
    rintro rfl
    exact absurd hc (by decide)
  have hslash : c ≠ '/' := by
    rintro rfl
    exact absurd hc (by decide)
  constructor
  · unfold startsTag
    split
    · rfl
    · next h => injection h with _ h; injection h with h _; exact absurd h hslash
    · next h => injection h with _ h; injection h with h _; rw [← h]; exact hc
    · next h => exact absurd rfl (h c s)
  · unfold scanTag
    split
    · next h => injection h with h _; exact absurd h hbang
    · next h => injection h with h _; exact absurd h hslash
    · rfl

/-- An opening tag is read back. -/
theorem scan?_opening {spell : Spelling} (hs : spell.Faithful) {tag : String}
    {attributes : Attributes} (htag : IsTag tag) (h : IsAttributes attributes)
    (rest : List Char) :
    scan? ('<' :: tag.toList ++ attributes.write spell ++ '>' :: rest) =
      some (.opening tag attributes false, rest) := by
  have hhead : ∀ c ∈ (attributes.write spell ++ '>' :: rest).head?, isTagChar c = false := by
    intro c hc
    cases attributes with
    | nil => cases hc; decide
    | cons a attributes => cases hc; decide
  have hname := takeWhile_tagName htag.tagChars hhead
  have hfound : IsAttributes ([] ++ attributes) := h
  have hattributes := scanAttributes_write hs hfound rest
  have hopening : scanOpening (tag.toList ++ (attributes.write spell ++ '>' :: rest)) =
      (.opening tag attributes false, rest) := by
    simp only [scanOpening, hname.1, hname.2, hattributes, htag.lower, List.nil_append]
  rcases htag.initial with ⟨c, cs, hcons, hc⟩
  rw [List.cons_append, List.cons_append, List.append_assoc]
  rw [hcons, List.cons_append] at hopening ⊢
  rw [scan?, if_pos (startsTag_of_isAlpha hc _).1, (startsTag_of_isAlpha hc _).2, hopening]

/-- A closing tag is read whatever the case of its letters. -/
theorem scan?_spelled {name : String} (h : IsSpelledTag name) (rest : List Char) :
    scan? ("</".toList ++ name.toList ++ '>' :: rest) =
      some (.closing (tagName name.toList), rest) := by
  have hhead : ∀ c ∈ ('>' :: rest).head?, isTagChar c = false := by
    intro c hc
    cases hc
    decide
  have hname := takeWhile_tagName h.tagChars hhead
  have hne : ∀ c ∈ name.toList, (c != '>') = true := by
    intro c hc
    rw [bne_iff_ne]
    rintro rfl
    exact absurd (h.tagChars '>' hc) (by decide)
  have hclosing : scanClosing (name.toList ++ '>' :: rest) =
      (.closing (tagName name.toList), rest) := by
    rw [scanClosing, hname.1, List.dropWhile_append_of_pos hne,
      List.dropWhile_cons_of_neg (by decide), List.drop_one, List.tail_cons]
  have hcons : "</".toList ++ name.toList ++ '>' :: rest =
      '<' :: '/' :: (name.toList ++ '>' :: rest) := by
    simp only [String.reduceToList, List.cons_append, List.nil_append]
  have hstart : startsTag ('<' :: '/' :: (name.toList ++ '>' :: rest)) = true := by
    rcases h.initial with ⟨c, cs, htoList, hc⟩
    rw [htoList, List.cons_append, startsTag]
    exact hc
  rw [hcons, scan?, if_pos hstart, scanTag, hclosing]

/-- A closing tag is read back. -/
theorem scan?_closing {tag : String} (htag : IsTag tag) (rest : List Char) :
    scan? ("</".toList ++ tag.toList ++ '>' :: rest) = some (.closing tag, rest) := by
  rw [scan?_spelled htag.spelled, htag.lower]

namespace Tree

mutual

/-- The tokens that describe a tree. -/
def tokens : Tree → List Token
  | text content => [.text content]
  | comment content => [.comment content]
  | element tag attributes children =>
    .opening tag attributes false ::
      if isVoid tag then [] else tokensAll children ++ [.closing tag]

/-- The tokens that describe a forest. -/
def tokensAll : List Tree → List Token
  | [] => []
  | t :: ts => tokens t ++ tokensAll ts

end

theorem halts_write (spell : Spelling) {t : Tree} (ht : Writable t) (hne : ¬IsText t)
    (rest : List Char) : Halts (write spell t ++ rest) := by
  cases t with
  | text content => exact absurd ⟨content, rfl⟩ hne
  | comment content => exact Or.inr rfl
  | element tag attributes children =>
      rw [Writable] at ht
      rcases ht.1.initial with ⟨c, cs, hcons, hc⟩
      refine Or.inr ?_
      rw [write, hcons]
      exact (startsTag_of_isAlpha hc _).1

/-- What follows a text in a forest ends it. -/
theorem halts_writeAll (spell : Spelling) {ts : List Tree} (hts : WritableAll ts)
    (hne : ∀ u ∈ ts.head?, ¬IsText u) {rest : List Char} (hrest : Halts rest) :
    Halts (writeAll spell ts ++ rest) := by
  cases ts with
  | nil => exact hrest
  | cons t ts =>
      rw [writeAll, List.append_assoc]
      exact halts_write spell hts.1 (hne t rfl) (writeAll spell ts ++ rest)

theorem halts_closing {name : String} (h : IsSpelledTag name) (rest : List Char) :
    Halts ("</".toList ++ name.toList ++ '>' :: rest) := by
  rcases h.initial with ⟨c, cs, hcons, hc⟩
  refine Or.inr ?_
  rw [hcons]
  exact hc

/-- The text of a forest is read as the tokens of the forest. -/
theorem tokens_writeAll {spell : Spelling} (hs : spell.Faithful) {ts : List Tree}
    (hw : WritableAll ts) (hsep : SeparatedAll ts) {rest : List Char} (hrest : Halts rest) :
    Markup.tokens (writeAll spell ts ++ rest) = tokensAll ts ++ Markup.tokens rest := by
  induction ts using forestInduction generalizing rest with
  | nil => rfl
  | text content ts ih =>
      have hhalts := halts_writeAll spell hw.2 (hsep.2.1 ⟨content, rfl⟩) hrest
      rw [writeAll, write, List.append_assoc, tokens_of_scan? (scan?_escape hs hw.1 hhalts),
        ih hw.2 hsep.2.2 hrest]
      rfl
  | comment content ts ih =>
      rw [writeAll, write, List.append_assoc, tokens_of_scan? (scan?_comment hw.1 _),
        ih hw.2 hsep.2.2 hrest]
      rfl
  | element tag attributes children ts ihc ih =>
      rcases hw with ⟨⟨htag, hattributes, _, hchildren⟩, hts⟩
      have hneighbours := ih hts hsep.2.2 hrest
      cases hv : isVoid tag with
      | true =>
          have hopening := scan?_opening hs htag hattributes (writeAll spell ts ++ rest)
          have hwritten : writeAll spell (element tag attributes children :: ts) ++ rest =
              '<' :: tag.toList ++ attributes.write spell ++
                '>' :: (writeAll spell ts ++ rest) := by
            simp only [writeAll, write, hv, if_true, List.cons_append, List.append_assoc,
              List.nil_append]
          have htokens : tokensAll (element tag attributes children :: ts) =
              .opening tag attributes false :: tokensAll ts := by
            simp only [tokensAll, tokens, hv, if_true, List.cons_append, List.nil_append]
          rw [hwritten, tokens_of_scan? hopening, hneighbours, htokens, List.cons_append]
      | false =>
          have hwritten : writeAll spell (element tag attributes children :: ts) ++ rest =
              '<' :: tag.toList ++ attributes.write spell ++
                '>' :: (writeAll spell children ++
                  ("</".toList ++ tag.toList ++ '>' :: (writeAll spell ts ++ rest))) := by
            simp only [writeAll, write, hv, Bool.false_eq_true, if_false, List.cons_append,
              List.append_assoc, List.nil_append]
          have htokens : tokensAll (element tag attributes children :: ts) =
              .opening tag attributes false ::
                (tokensAll children ++ .closing tag :: tokensAll ts) := by
            simp only [tokensAll, tokens, hv, Bool.false_eq_true, if_false, List.cons_append,
              List.append_assoc, List.nil_append]
          -- The closing tag ends whatever text stands last inside the element.
          rw [hwritten, tokens_of_scan? (scan?_opening hs htag hattributes _),
            ihc hchildren hsep.1 (halts_closing htag.spelled _),
            tokens_of_scan? (scan?_closing htag _), hneighbours, htokens, List.cons_append,
            List.append_assoc, List.cons_append]

end Tree

end Markup

end LiveTemplate
