import LiveTemplate.Binding.App
import LiveTemplate.Proofs.Markup.Skeleton
import LiveTemplate.Proofs.View.RoundTrip

/-!
# What Stands Around a Template

Blanks and comments around the root of a template make no difference.

They are read as texts and comments beside the root. What stands in front of an element may
run together with what comes before that, but never with the element, because an element
begins with a tag. So a text with elements and fillers in it is the text of a forest, which
has the elements and besides them only what does not count, and the elements keep their
order.

## Main definitions

* `Markup.IsFiller`: Blanks and complete comments.
* `World.Strewn`: The markup of some nodes with fillers between and around it.

## Theorems

* `exists_forest_of_isFiller`: Fillers are the text of trees that do not count.
* `filter_joinedAll`: Merging texts that do not count leaves the trees that do.
* `Strewn.filter_parse`: Of strewn elements only the elements count.
* `plantTemplate_of_strewn`: One element is a template, and several are too many.
-/

namespace LiveTemplate

open Text

namespace Markup

/-- Blanks and complete comments, one after the other. -/
inductive IsFiller : List Char → Prop
  /-- Nothing. -/
  | nil : IsFiller []
  /-- A blank. -/
  | blank {c : Char} {s : List Char} (hc : isBlank c = true) (hs : IsFiller s) : IsFiller (c :: s)
  /-- A comment. -/
  | comment {content s : List Char} (hcontent : ¬"-->".toList <:+: content) (hs : IsFiller s) :
      IsFiller ("<!--".toList ++ content ++ "-->".toList ++ s)

theorem isSpecial_of_isBlank {c : Char} (h : isBlank c = true) : isSpecial c = false := by
  cases hspecial : isSpecial c with
  | false => rfl
  | true =>
      simp only [isSpecial, Bool.or_eq_true, beq_iff_eq] at hspecial
      rcases hspecial with ((((rfl | rfl) | rfl) | rfl) | rfl) | rfl
      all_goals exact absurd h (by decide)

/-- Nothing is left of a text exactly if it is all blank. -/
theorem trim_eq_nil_iff {s : List Char} : trim s = [] ↔ ∀ c ∈ s, isBlank c = true := by
  rw [trim, List.reverse_eq_nil_iff, skipBlanks, List.dropWhile_eq_nil_iff]
  simp only [List.mem_reverse]
  constructor
  · intro h
    -- What is left after skipping would begin with something that is not blank.
    cases hskip : skipBlanks s with
    | nil => exact List.dropWhile_eq_nil_iff.mp hskip
    | cons c r =>
        have hc := h c (by rw [hskip]; exact List.mem_cons_self)
        rw [isBlank_of_skipBlanks hskip] at hc
        exact absurd hc Bool.false_ne_true
  · exact fun h c hc => h c ((List.dropWhile_suffix isBlank).subset hc)

namespace Tree

theorem isSignificant_text {content : String} :
    (text content).isSignificant = false ↔ ∀ c ∈ content.toList, isBlank c = true := by
  rw [isSignificant, Bool.not_eq_false', List.isEmpty_iff, trim_eq_nil_iff]

/-- A forest without neighbouring texts stays as it is when they are merged. -/
theorem joinedAll_of_separatedAll {ts : List Tree} (h : SeparatedAll ts) : joinedAll ts = ts := by
  have hcons : ∀ {t : Tree} {us : List Tree}, (t.IsText → ∀ u ∈ us.head?, ¬u.IsText) →
      joinCons t us = t :: us := by
    intro t us hne
    unfold joinCons
    split
    · exact absurd ⟨_, rfl⟩ (hne ⟨_, rfl⟩ _ rfl)
    · rfl
  induction ts using forestInduction with
  | nil => rfl
  | text content ts ih => rw [joinedAll, joined, ih h.2.2, hcons h.2.1]
  | comment content ts ih => rw [joinedAll, joined, ih h.2.2, hcons h.2.1]
  | element tag attributes children ts ihc ih =>
      rw [joinedAll, joined, ihc h.1, ih h.2.2, hcons h.2.1]

/-- The tree does not count at top level, or is an element without neighbouring texts. -/
def IsSurrounding (t : Tree) : Prop :=
  t.isSignificant = false ∨ t.isElement = true ∧ t.Separated

theorem joined_of_isSurrounding {t : Tree} (h : t.IsSurrounding) : t.joined = t := by
  cases t with
  | text content => rfl
  | comment content => rfl
  | element tag attributes children =>
      rcases h with h | ⟨_, hsep⟩
      · exact absurd h (Bool.false_ne_true ∘ Eq.symm)
      · rw [joined, joinedAll_of_separatedAll hsep]

/-- Merging two texts that do not count gives a text that does not count. -/
theorem filter_joinCons {t : Tree} {ts : List Tree} (ht : t.IsSurrounding)
    (hts : ∀ u ∈ ts, u.IsSurrounding) :
    (joinCons t ts).filter isSignificant = (t :: ts).filter isSignificant ∧
      ∀ u ∈ joinCons t ts, u.IsSurrounding := by
  unfold joinCons
  split
  · next a b us =>
      rw [List.forall_mem_cons] at hts
      have hblank : ∀ {content : String}, (text content).IsSurrounding →
          (text content).isSignificant = false := by
        rintro content (hplain | ⟨helement, _⟩)
        · exact hplain
        · exact absurd helement Bool.false_ne_true
      have hjoined : (text (a ++ b)).isSignificant = false := by
        rw [isSignificant_text, String.toList_append, List.forall_mem_append]
        exact ⟨isSignificant_text.mp (hblank ht), isSignificant_text.mp (hblank hts.1)⟩
      have hne : ∀ {u : Tree}, u.isSignificant = false → ¬u.isSignificant = true :=
        fun h => Bool.eq_false_iff.mp h
      refine ⟨?_, List.forall_mem_cons.mpr ⟨Or.inl hjoined, hts.2⟩⟩
      rw [List.filter_cons_of_neg (hne hjoined), List.filter_cons_of_neg (hne (hblank ht)),
        List.filter_cons_of_neg (hne (hblank hts.1))]
  · exact ⟨rfl, List.forall_mem_cons.mpr ⟨ht, hts⟩⟩

/-- Merging texts that do not count leaves the trees that do. -/
theorem filter_joinedAll {ts : List Tree} (h : ∀ t ∈ ts, t.IsSurrounding) :
    (joinedAll ts).filter isSignificant = ts.filter isSignificant ∧
      ∀ u ∈ joinedAll ts, u.IsSurrounding := by
  induction ts with
  | nil => exact ⟨rfl, h⟩
  | cons t ts ih =>
      rw [List.forall_mem_cons] at h
      rcases ih h.2 with ⟨hfilter, hjoined⟩
      rcases filter_joinCons h.1 hjoined with ⟨hcons, hmem⟩
      rw [joinedAll, joined_of_isSurrounding h.1]
      refine ⟨?_, hmem⟩
      rw [hcons, List.filter_cons, List.filter_cons, hfilter]

end Tree

variable {spell : Spelling}

/-- Fillers are the text of trees that do not count. -/
theorem exists_forest_of_isFiller (hs : spell.Faithful) {s : List Char} (h : IsFiller s) :
    ∃ ts, Tree.writeAll spell ts = s ∧ Tree.WritableAll ts ∧
      ∀ t ∈ ts, t.isSignificant = false := by
  induction h with
  | nil => exact ⟨[], rfl, trivial, fun t ht => absurd ht List.not_mem_nil⟩
  | @blank c s hc _ ih =>
      rcases ih with ⟨ts, hwritten, hw, hplain⟩
      refine ⟨.text (String.ofList [c]) :: ts, ?_, ⟨?_, hw⟩, ?_⟩
      · rw [Tree.writeAll, Tree.write, String.toList_ofList, escape, List.flatMap_singleton,
          hs.plain c (isSpecial_of_isBlank hc), hwritten, List.singleton_append]
      · intro hempty
        exact List.cons_ne_nil c [] (String.ofList_eq_empty_iff.mp hempty)
      · rw [List.forall_mem_cons, Tree.isSignificant_text, String.toList_ofList]
        refine ⟨fun d hd => ?_, hplain⟩
        rw [List.mem_singleton.mp hd]
        exact hc
  | @comment content s hcontent _ ih =>
      rcases ih with ⟨ts, hwritten, hw, hplain⟩
      have hchars : (String.ofList content).toList = content := String.toList_ofList
      refine ⟨.comment (String.ofList content) :: ts, ?_, ⟨?_, hw⟩, ?_⟩
      · rw [Tree.writeAll, Tree.write, hchars, hwritten]
      · rw [Tree.Writable, hchars]
        exact hcontent
      · exact List.forall_mem_cons.mpr ⟨rfl, hplain⟩

end Markup

open Markup

namespace World

variable {κ σ : Type} {w : World κ σ} {spell : Spelling}

/-- The markup of some elements with fillers between and around it. The elements can be told
    from their texts. -/
inductive Strewn (w : World κ σ) (spell : Spelling) : List Tree → String → Prop
  /-- What stands behind the elements. -/
  | filler {after : String} (hafter : IsFiller after.toList) : Strewn w spell [] after
  /-- An element, what stands in front of it, and the elements behind it. -/
  | element {n : NodeId} {e : Tree} {es : List Tree} {before html rest : String}
      (hbefore : IsFiller before.toList) (htree : w.tree? n = some e)
      (helement : e.isElement = true) (hw : e.Writable) (hsep : e.Separated)
      (hhtml : w.written? spell [n] = some html) (hrest : Strewn w spell es rest) :
      Strewn w spell (e :: es) (before ++ html ++ rest)

theorem written?_singleton {n : NodeId} {e : Tree} (h : w.tree? n = some e) :
    w.written? spell [n] = some (String.ofList (Tree.writeAll spell [e])) := by
  simp only [written?, trees?, gather?, h, Option.map_some, List.append_nil]

/-- Strewn elements are the text of a forest in which nothing else counts. -/
theorem Strewn.exists_forest (hs : spell.Faithful) {es : List Tree} {markup : String}
    (h : w.Strewn spell es markup) :
    ∃ ts, Tree.writeAll spell ts = markup.toList ∧ Tree.WritableAll ts ∧
      (∀ t ∈ ts, t.IsSurrounding) ∧ ts.filter Tree.isSignificant = es := by
  induction h with
  | filler hafter =>
      rcases exists_forest_of_isFiller hs hafter with ⟨ts, hwritten, hw, hplain⟩
      refine ⟨ts, hwritten, hw, fun t ht => Or.inl (hplain t ht), ?_⟩
      exact List.filter_eq_nil_iff.mpr fun t ht => Bool.eq_false_iff.mp (hplain t ht)
  | @element n e es before html rest hbefore htree helement hw hsep hhtml _ ih =>
      rcases exists_forest_of_isFiller hs hbefore with ⟨bs, hbs, hbw, hplain⟩
      rcases ih with ⟨ts, hts, htw, hsurround, hfilter⟩
      rw [written?_singleton htree, Option.some.injEq] at hhtml
      have hsignificant : e.isSignificant = true := by
        cases e with
        | element tag attributes children => rfl
        | text content => exact absurd helement Bool.false_ne_true
        | comment content => exact absurd helement Bool.false_ne_true
      refine ⟨bs ++ e :: ts, ?_, ?_, ?_, ?_⟩
      · rw [Tree.writeAll_append, hbs, ← List.singleton_append, Tree.writeAll_append, hts, ← hhtml,
          String.toList_append, String.toList_append, String.toList_ofList, List.append_assoc]
      · exact Tree.writableAll_append.mpr ⟨hbw, hw, htw⟩
      · rw [List.forall_mem_append, List.forall_mem_cons]
        exact ⟨fun t ht => Or.inl (hplain t ht), Or.inr ⟨helement, hsep⟩, hsurround⟩
      · have hnone : bs.filter Tree.isSignificant = [] :=
          List.filter_eq_nil_iff.mpr fun t ht => Bool.eq_false_iff.mp (hplain t ht)
        rw [List.filter_append, hnone, List.nil_append, List.filter_cons_of_pos hsignificant,
          hfilter]

/-- Of strewn elements only the elements count. -/
theorem Strewn.filter_parse (hs : spell.Faithful) {es : List Tree} {markup : String}
    (h : w.Strewn spell es markup) : (parse markup).filter Tree.isSignificant = es := by
  rcases h.exists_forest hs with ⟨ts, hwritten, hw, hsurround, hfilter⟩
  have hparse : parse markup = Tree.joinedAll ts := by
    have hread := parse_writeAll hs (Tree.writableAll_joinedAll hw) (Tree.separatedAll_joinedAll ts)
    rw [Tree.writeAll_joinedAll, hwritten, String.ofList_toList] at hread
    exact congrArg Fragment.forest hread
  rw [hparse, (Tree.filter_joinedAll hsurround).1, hfilter]

/-- A planted tree reads as the tree, with the form values of the attributes. -/
theorem reads_plant (t : Tree) (w : World κ σ) :
    (plant t w).2.tree? (plant t w).1 = some t ∧
      gather? (plant t w).2.outline? [(plant t w).1] = some (outline [t]) ∧
      ((plant t w).2.node (plant t w).1).parent = none := by
  have hforest : plantForest [t] w = ([(plant t w).1], (plant t w).2) := rfl
  have hplanted := planted_plantForest [t] w
  rw [hforest] at hplanted
  exact ⟨hplanted.stand.tree?_eq, hplanted.stand.outline?_eq fun _ hn => hn.2.value,
    hplanted.parents _ List.mem_cons_self⟩

variable [Client σ]

/-- The markup of one element is a template, whatever blanks and comments stand around it:
    it becomes a node without a parent that reads as the element. Several elements are too
    many. -/
theorem plantTemplate_of_strewn (hs : spell.Faithful) {es : List Tree} {markup : String}
    (h : w.Strewn spell es markup) (v : World κ σ) :
    (∀ e, es = [e] → ∃ n v', v.plantTemplate markup = (.ok n, v') ∧ v'.tree? n = some e ∧
      gather? v'.outline? [n] = some (outline [e]) ∧ (v'.node n).parent = none) ∧
    (2 ≤ es.length → (v.plantTemplate markup).1 = .error (.multipleRoots es.length)) := by
  have hcount := h.filter_parse hs
  constructor
  · rintro e rfl
    have helement : e.isElement = true := by
      cases h
      assumption
    have hroot : rootElement (Fragment.parse markup).forest = .ok e := by
      rw [rootElement, ← parse, hcount]
      exact if_pos helement
    simp only [plantTemplate, hroot]
    refine ⟨_, _, rfl, ?_⟩
    exact reads_plant e _
  · intro hmany
    have hroot : rootElement (Fragment.parse markup).forest =
        .error (.multipleRoots es.length) := by
      rw [rootElement, ← parse, hcount]
      rcases es with _ | ⟨e, _ | ⟨e', es⟩⟩
      · exact absurd hmany (by decide)
      · exact absurd hmany (Nat.not_succ_le_self 1)
      · rfl
    simp only [plantTemplate, hroot]

/-- A paragraph around a text. -/
def sampleParagraph : Tree :=
  .element "p" [] [.text "1 < 2"]

theorem plantTemplate_of_strewn_sampleParagraph :
    (∃ n v', { client := () : World Unit Unit }.plantTemplate
        ("\n<!-- -- > -->" ++ "<p>1 &lt; 2</p>" ++ "\u00a0") = (.ok n, v') ∧
      v'.tree? n = some sampleParagraph ∧
      gather? v'.outline? [n] = some (outline [sampleParagraph]) ∧
      (v'.node n).parent = none) ∧
    ({ client := () : World Unit Unit }.plantTemplate ("\u00a0" ++ "<p>1 &lt; 2</p>" ++
        ("\n<!-- -- > -->" ++ "<p>1 &lt; 2</p>" ++ "\u00a0"))).1 = .error (.multipleRoots 2) := by
  have hp : IsTag "p" :=
    ⟨⟨'p', [], rfl, rfl⟩, List.all_eq_true.mp (rfl : "p".toList.all isTagChar = true), rfl⟩
  have hnone : IsAttributes [] := ⟨fun a ha => absurd ha List.not_mem_nil, List.nodup_nil⟩
  have hw : sampleParagraph.Writable :=
    ⟨hp, hnone, fun h => absurd h (by decide), (by decide : "1 < 2" ≠ ""), trivial⟩
  have hsep : sampleParagraph.Separated :=
    ⟨trivial, fun _ u hu => absurd hu (Option.not_mem_none u), trivial⟩
  have hcomment : ¬"-->".toList <:+: " -- > ".toList := by decide
  have hbefore : IsFiller "\n<!-- -- > -->".toList := .blank rfl (.comment hcomment .nil)
  have hafter : IsFiller "\u00a0".toList := .blank rfl .nil
  have htree := (reads_plant sampleParagraph { client := () : World Unit Unit }).1
  have hhtml : (plant sampleParagraph { client := () : World Unit Unit }).2.written? .standard
      [(plant sampleParagraph { client := () : World Unit Unit }).1] = some "<p>1 &lt; 2</p>" :=
    written?_singleton htree
  have honce := Strewn.element hbefore htree rfl hw hsep hhtml (.filler hafter)
  have htwice := Strewn.element hafter htree rfl hw hsep hhtml honce
  exact ⟨(plantTemplate_of_strewn faithful_standard honce { client := () }).1 sampleParagraph rfl,
    (plantTemplate_of_strewn faithful_standard htwice { client := () }).2 (Nat.le_refl 2)⟩

end World

end LiveTemplate
