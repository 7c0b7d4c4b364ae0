import LiveTemplate.Proofs.Markup.Nesting
import LiveTemplate.Proofs.Text.Searching
import Mathlib.Data.List.Nodup
import Mathlib.Data.List.TakeWhile

/-!
# What Reading Produces

Whatever a text looks like, the forest that it describes can be written.

Every token is sound: a text is not empty, a comment does not contain its own end, and
an opening tag has a tag and attributes that can be read back. Nothing else enters a
forest, and the open elements along the way are those of sound opening tags that are
not void, so `Nesting.Sound` is kept by every token.

What a text describes may still have texts side by side, where a closing tag that
closed nothing stood between them. Writing such a forest and reading it again merges
them, and does nothing else.

## Main definitions

* `Token.Sound`: What the scanner says of each token.
* `Nesting.Sound`: What holds part-way through the markup.

## Theorems

* `sound_of_mem_tokens`: Every token is sound.
* `Nesting.Sound.add`: A sound token keeps a nesting sound.
* `writableAll_parse`: What a text describes can be written.
* `parse_writeAll_parse`: Reading what was written after reading merges texts.
-/

namespace LiveTemplate

namespace Markup

open Text

/-- The token can be part of a forest that is read back as written. -/
def Token.Sound : Token → Prop
  | text content => content ≠ ""
  | comment content => ¬"-->".toList <:+: content.toList
  | opening tag attributes _ => IsTag tag ∧ IsAttributes attributes
  | closing _ => True

/-- Decoding references leaves something of every text. -/
theorem unescape_ne_nil {s : List Char} (h : s ≠ []) : unescape s ≠ [] := by
  fun_cases unescape s with
  | case1 => exact absurd rfl h
  | case2 cs c rest href => exact List.cons_ne_nil _ _
  | case3 cs href => exact List.cons_ne_nil _ _
  | case4 c cs hne => exact List.cons_ne_nil _ _

/-- A comment ends at the first end of a comment. -/
theorem sound_scanComment (s : List Char) : (scanComment s).1.Sound := by
  unfold scanComment
  cases h : cutAt? "-->".toList s with
  | none =>
      have hnone := not_infix_of_cutAt?_eq_none h
      simpa only [Option.getD_none, Token.Sound, String.toList_ofList] using hnone
  | some parts =>
      have hsome := not_infix_of_cutAt? (by decide) h
      simpa only [Option.getD_some, Token.Sound, String.toList_ofList] using hsome

/-- The small form of a character is a small letter, or the character itself. -/
theorem isLower_toLower_or_eq (c : Char) : c.toLower.isLower = true ∨ c.toLower = c := by
  by_cases hupper : 65 ≤ c.val.toNat ∧ c.val.toNat ≤ 90
  · have hsmall : c.toLower.val = c.val + 32 :=
      congrArg Char.val (dif_pos ⟨UInt32.le_iff_toNat_le.mpr hupper.1,
        UInt32.le_iff_toNat_le.mpr hupper.2⟩)
    have hdistance : (32 : UInt32).toNat = 32 := rfl
    refine Or.inl (isLower_iff.mpr ?_)
    rw [hsmall, UInt32.toNat_add]
    omega
  · refine Or.inr (dif_neg fun h => hupper ?_)
    have hlow : 65 ≤ c.val.toNat := UInt32.le_iff_toNat_le.mp h.1
    have hhigh : c.val.toNat ≤ 90 := UInt32.le_iff_toNat_le.mp h.2
    exact ⟨hlow, hhigh⟩

theorem toLower_of_isLower {c : Char} (h : c.isLower = true) : c.toLower = c := by
  have hlow := (isLower_iff.mp h).1
  refine dif_neg fun hupper => ?_
  have hhigh : c.val.toNat ≤ 90 := UInt32.le_iff_toNat_le.mp hupper.2
  omega

theorem isTagChar_toLower {c : Char} (h : isTagChar c = true) : isTagChar c.toLower = true := by
  rcases isLower_toLower_or_eq c with hlower | hsame
  · simp only [isTagChar, Char.isAlphanum, isAlpha_of_isLower hlower, Bool.true_or]
  · rwa [hsame]

/-- The characters of a tag after a letter make up a tag. -/
theorem isTag_tagName {c : Char} {cs : List Char} (hc : c.isAlpha = true) :
    IsTag (tagName ((c :: cs).takeWhile isTagChar)) := by
  have htag : isTagChar c = true := by
    simp only [isTagChar, Char.isAlphanum, hc, Bool.true_or]
  constructor
  · refine ⟨c.toLower, (cs.takeWhile isTagChar).map Char.toLower, ?_, ?_⟩
    · rw [tagName, List.takeWhile_cons_of_pos htag, List.map_cons, String.toList_ofList]
    · rcases isLower_toLower_or_eq c with hlower | hsame
      · exact isAlpha_of_isLower hlower
      · rwa [hsame]
  · intro d hd
    rw [tagName, String.toList_ofList, List.mem_map] at hd
    rcases hd with ⟨e, he, rfl⟩
    exact isTagChar_toLower (List.mem_takeWhile_imp he)
  · rw [tagName, tagName, String.toList_ofList, List.map_map]
    congr 1
    refine List.map_congr_left ?_
    intro d _
    rcases isLower_toLower_or_eq d with hlower | hsame
    · exact toLower_of_isLower hlower
    · exact congrArg Char.toLower hsame

/-- Setting an attribute keeps the names distinct. -/
theorem IsAttributes.set {attributes : Attributes} (h : IsAttributes attributes) {name : String}
    (hname : IsName name) (value : String) : IsAttributes (attributes.set name value) := by
  by_cases hmem : name ∈ attributes.map (·.1)
  · have hnames : (attributes.set name value).map (·.1) = attributes.map (·.1) :=
      Attributes.names_set_of_mem hmem value
    constructor
    · intro a ha
      have hset : a.1 ∈ (attributes.set name value).map (·.1) := List.mem_map_of_mem ha
      rw [hnames] at hset
      rcases List.mem_map.mp hset with ⟨b, hb, hba⟩
      rw [← hba]
      exact h.isName b hb
    · rw [hnames]
      exact h.nodup
  · rw [Attributes.set_eq_append hmem]
    constructor
    · intro a ha
      rcases List.mem_append.mp ha with ha | ha
      · exact h.isName a ha
      · rw [List.mem_singleton.mp ha]
        exact hname
    · rw [List.map_append, List.nodup_append]
      refine ⟨h.nodup, List.nodup_singleton name, ?_⟩
      rintro n hn m hm rfl
      rw [List.map_singleton, List.mem_singleton] at hm
      rw [hm] at hn
      exact hmem hn

/-- What stands in front of an attribute's value is a name. -/
theorem isName_scanName {c : Char} (cs : List Char) (hblank : isBlank c = false)
    (hend : c ≠ '>') (hslash : c ≠ '/') : IsName (String.ofList (scanName c cs).1) := by
  rw [scanName]
  split
  · next hc =>
      simp only [endsName, hblank, Bool.false_or, Bool.or_eq_true, beq_iff_eq] at hc
      rcases hc with (rfl | rfl) | rfl
      · exact Or.inl rfl
      · exact absurd rfl hend
      · exact absurd rfl hslash
  · next hc =>
      refine Or.inr ⟨?_, ?_⟩
      · intro hnil
        rw [← String.toList_eq_nil_iff, String.toList_ofList] at hnil
        exact absurd hnil (List.cons_ne_nil _ _)
      · intro d hd
        rw [String.toList_ofList] at hd
        rcases List.mem_cons.mp hd with rfl | hd
        · exact Bool.eq_false_iff.mpr hc
        · have := List.mem_takeWhile_imp hd
          rwa [Bool.not_eq_true'] at this

/-- Reading attributes keeps them sound. -/
theorem isAttributes_scanAttributes {found : Attributes} (h : IsAttributes found)
    (s : List Char) : IsAttributes (scanAttributes found s).1.1 := by
  fun_induction scanAttributes found s with
  | case1 => exact h
  | case2 => exact h
  | case3 => exact h
  | case4 found s rest hne hskip ih => exact ih h
  | case5 found s c rest hclosed hend hslash hskip name value after hscan ih =>
      apply ih
      have hname := congrArg (fun a => a.1.1) hscan
      have hc : IsName (String.ofList (scanName c rest).1) :=
        isName_scanName rest (isBlank_of_skipBlanks hskip) hend hslash
      have hread : (scanAttribute c rest).1.1 = String.ofList (scanName c rest).1 := rfl
      rw [← hread, hname] at hc
      exact h.set hc value

/-- The scanner's tokens are sound. -/
theorem sound_of_scan? {s rest : List Char} {token : Token} (h : scan? s = some (token, rest)) :
    token.Sound := by
  cases s with
  | nil => simp only [scan?, reduceCtorEq] at h
  | cons c cs =>
      rw [scan?] at h
      split at h
      · next hstart =>
          injection h with h
          have htoken := congrArg Prod.fst h
          dsimp only at htoken
          rw [← htoken]
          unfold scanTag
          split
          · exact sound_scanComment _
          · exact trivial
          · next hcomment hslash =>
              -- Only a letter is left to stand behind the `<`.
              have hletter : ∃ d ds, cs = d :: ds ∧ d.isAlpha = true := by
                unfold startsTag at hstart
                split at hstart
                · next ds heq => injection heq with _ heq; exact absurd heq (hcomment ds)
                · next d ds heq => injection heq with _ heq; exact absurd heq (hslash (d :: ds))
                · next d ds _ _ heq => injection heq with _ heq; exact ⟨d, ds, heq, hstart⟩
                · exact absurd hstart (by decide)
              rcases hletter with ⟨d, ds, rfl, hd⟩
              have hempty : IsAttributes [] :=
                ⟨fun a ha => absurd ha List.not_mem_nil, List.nodup_nil⟩
              exact ⟨isTag_tagName hd, isAttributes_scanAttributes hempty _⟩
      · injection h with h
        injection h with htoken _
        rw [← htoken]
        intro hnil
        rw [← String.toList_eq_nil_iff, String.toList_ofList] at hnil
        exact unescape_ne_nil (List.cons_ne_nil _ _) hnil

/-- Every token of every text is sound. -/
theorem sound_of_mem_tokens {s : List Char} : ∀ token ∈ tokens s, token.Sound := by
  fun_induction tokens s with
  | case1 s h => exact fun token htoken => absurd htoken List.not_mem_nil
  | case2 s token rest h ih =>
      intro t ht
      rcases List.mem_cons.mp ht with rfl | ht
      · exact sound_of_scan? h
      · exact ih t ht

namespace Tree

theorem writableAll_iff {ts : List Tree} : WritableAll ts ↔ ∀ t ∈ ts, Writable t := by
  induction ts with
  | nil => simp only [WritableAll, List.not_mem_nil, false_implies, implies_true]
  | cons t ts ih => simp only [WritableAll, ih, List.forall_mem_cons]

theorem writableAll_reverse {ts : List Tree} (h : WritableAll ts) : WritableAll ts.reverse := by
  rw [writableAll_iff] at h ⊢
  intro t ht
  exact h t (List.mem_reverse.mp ht)

end Tree

/-- An open element can be part of a forest that is read back as written. -/
structure OpenElement.Sound (e : OpenElement) : Prop where
  /-- Its tag can be read back. -/
  isTag : IsTag e.tag
  /-- It may have children. -/
  notVoid : isVoid e.tag = false
  /-- Its attributes can be read back. -/
  isAttributes : IsAttributes e.attributes
  /-- Its children can be read back. -/
  children : Tree.WritableAll e.children

namespace Nesting

/-- Everything read so far can be read back. -/
structure Sound (n : Nesting) : Prop where
  /-- Every open element is sound. -/
  opened : ∀ e ∈ n.opened, e.Sound
  /-- Every root can be read back. -/
  roots : Tree.WritableAll n.roots

theorem Sound.attach {n : Nesting} (h : n.Sound) {t : Tree} (ht : t.Writable) :
    (n.attach t).Sound := by
  unfold Nesting.attach
  split
  · next hnil => exact ⟨h.opened, ht, h.roots⟩
  · next e es hcons =>
      have hopened := h.opened
      rw [hcons, List.forall_mem_cons] at hopened
      rcases hopened with ⟨he, hes⟩
      exact ⟨List.forall_mem_cons.mpr
        ⟨⟨he.isTag, he.notVoid, he.isAttributes, ht, he.children⟩, hes⟩, h.roots⟩

theorem Sound.close {n : Nesting} (h : n.Sound) : n.close.Sound := by
  unfold Nesting.close
  split
  · exact h
  · next e es hcons =>
      have hopened := h.opened
      rw [hcons, List.forall_mem_cons] at hopened
      rcases hopened with ⟨he, hes⟩
      have hrest : Sound { n with opened := es } := ⟨hes, h.roots⟩
      refine hrest.attach ⟨he.isTag, he.isAttributes, ?_, Tree.writableAll_reverse he.children⟩
      intro hvoid
      rw [he.notVoid] at hvoid
      exact absurd hvoid (by decide)

theorem Sound.closeMany {n : Nesting} (h : n.Sound) (k : Nat) : (closeMany k n).Sound := by
  induction k generalizing n with
  | zero => exact h
  | succ k ih => exact ih h.close

/-- A sound token keeps a nesting sound. -/
theorem Sound.add {n : Nesting} (h : n.Sound) {token : Token} (ht : token.Sound) :
    (n.add token).Sound := by
  cases token with
  | text content => exact h.attach ht
  | comment content => exact h.attach ht
  | opening tag attributes closed =>
      rw [Nesting.add]
      split
      · exact h.attach ⟨ht.1, ht.2, fun _ => rfl, trivial⟩
      · next hopen =>
          rw [Bool.or_eq_true, not_or] at hopen
          refine ⟨List.forall_mem_cons.mpr ⟨⟨ht.1, ?_, ht.2, trivial⟩, h.opened⟩, h.roots⟩
          exact Bool.eq_false_iff.mpr hopen.2
  | closing tag =>
      rw [Nesting.add]
      split
      · exact h.closeMany _
      · exact ⟨h.opened, h.roots⟩

theorem Sound.foldl_add {n : Nesting} (h : n.Sound) {ts : List Token}
    (hts : ∀ t ∈ ts, t.Sound) : (ts.foldl Nesting.add n).Sound := by
  induction ts generalizing n with
  | nil => exact h
  | cons t ts ih =>
      rw [List.forall_mem_cons] at hts
      exact ih (h.add hts.1) hts.2

end Nesting

/-- What a text describes can be written. -/
theorem writableAll_parse (markup : String) : Tree.WritableAll (parse markup) := by
  have hempty : Nesting.Sound {} := ⟨fun e he => absurd he List.not_mem_nil, trivial⟩
  have hread := hempty.foldl_add (sound_of_mem_tokens (s := markup.toList))
  exact Tree.writableAll_reverse (hread.closeMany _).roots

/-- Reading what was written after reading merges the texts that stand side by side, and
    changes nothing else. -/
theorem parse_writeAll_parse {spell : Spelling} (hs : spell.Faithful) (markup : String) :
    Fragment.parse (String.ofList (Tree.writeAll spell (parse markup))) =
      ⟨Tree.joinedAll (parse markup), []⟩ := by
  rw [← Tree.writeAll_joinedAll]
  exact parse_writeAll hs (Tree.writableAll_joinedAll (writableAll_parse markup))
    (Tree.separatedAll_joinedAll (parse markup))

end Markup

end LiveTemplate
