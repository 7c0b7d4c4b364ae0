import LiveTemplate.Proofs.Markup.Image
import LiveTemplate.Proofs.View.Planting
import LiveTemplate.Scenario.Preview

/-!
# Nodes Written and Read Again

What writing nodes as markup and planting that markup makes of them.

Nodes that read as a forest are written as the text of the forest, so everything about
reading texts of forests becomes a statement about nodes. A forest that can be told
from its text comes back as it was. A forest that was planted from some text comes
back with its neighbouring texts merged, whatever the text was, and from then on
nothing changes any more.

## Theorems

* `reads_plantMarkup`: Planted markup reads as the forest that it describes.
* `plantMarkup_of_written`: Writing nodes and planting the markup gives equal nodes.
* `plantMarkup_of_replanted`: Writing planted nodes and planting that merges texts.
-/

namespace LiveTemplate

open Markup

namespace World

variable {κ σ : Type} [Client σ]

/-- Planted markup reads as the forest that it describes, with the form values of the
    attributes. -/
theorem reads_plantMarkup (markup : String) (w : World κ σ) :
    (w.plantMarkup markup).2.trees? (w.plantMarkup markup).1 = some (parse markup) ∧
      gather? (w.plantMarkup markup).2.outline? (w.plantMarkup markup).1 =
        some (outline (parse markup)) := by
  have hplanted := planted_plantForest (Fragment.parse markup).forest
    ((w.noticeAll ((Fragment.parse markup).strays.map .strayClosing)).notice
      (.markupRead (Fragment.parse markup).forest.length))
  exact ⟨hplanted.stand.trees?_eq, hplanted.stand.outline?_eq fun _ hn => hn.2.value⟩

/-- Writing nodes as markup, in any spelling that can be read back, and planting the markup
    anywhere gives nodes that read as the same forest, each with the form value that its
    attributes say. -/
theorem plantMarkup_of_written {spell : Spelling} (hs : spell.Faithful) {w : World κ σ}
    {ns : List NodeId} {ts : List Tree} (hforest : w.trees? ns = some ts)
    (hw : Tree.WritableAll ts) (hsep : Tree.SeparatedAll ts) :
    ∃ markup, w.written? spell ns = some markup ∧ ∀ v : World κ σ,
      (v.plantMarkup markup).2.trees? (v.plantMarkup markup).1 = some ts ∧
        gather? (v.plantMarkup markup).2.outline? (v.plantMarkup markup).1 =
          some (outline ts) := by
  have hparse : parse (String.ofList (Tree.writeAll spell ts)) = ts :=
    congrArg Fragment.forest (parse_writeAll hs hw hsep)
  refine ⟨String.ofList (Tree.writeAll spell ts), ?_, ?_⟩
  · rw [written?, hforest, Option.map_some]
  · intro v
    have hreads := v.reads_plantMarkup (String.ofList (Tree.writeAll spell ts))
    rwa [hparse] at hreads

/-- A paragraph with two attributes around a text, a line break and a comment. -/
def sampleForest : List Tree :=
  [.element "p" [("class", "a&b"), ("=", "\"")]
    [.text "1 < 2", .element "br" [] [], .comment " -- > "]]

theorem plantMarkup_of_written_sampleForest :
    ∃ markup, (plantForest sampleForest { client := () : World Unit Unit }).2.written? .standard
        (plantForest sampleForest { client := () : World Unit Unit }).1 = some markup ∧
      ∀ v : World Unit Unit,
        (v.plantMarkup markup).2.trees? (v.plantMarkup markup).1 = some sampleForest ∧
          gather? (v.plantMarkup markup).2.outline? (v.plantMarkup markup).1 =
            some (outline sampleForest) := by
  have hplanted := planted_plantForest sampleForest { client := () : World Unit Unit }
  have hforest := hplanted.stand.trees?_eq
  have hp : IsTag "p" :=
    ⟨⟨'p', [], rfl, rfl⟩, List.all_eq_true.mp (rfl : "p".toList.all isTagChar = true), rfl⟩
  have hbr : IsTag "br" :=
    ⟨⟨'b', ['r'], rfl, rfl⟩, List.all_eq_true.mp (rfl : "br".toList.all isTagChar = true), rfl⟩
  have hclass : IsName "class" := by
    refine Or.inr ⟨by decide, fun c hc => ?_⟩
    have hall : "class".toList.all (!endsName ·) = true := rfl
    exact (Bool.not_eq_true' (endsName c)).mp (List.all_eq_true.mp hall c hc)
  have hattributes : IsAttributes [("class", "a&b"), ("=", "\"")] := by
    refine ⟨?_, by decide⟩
    simp only [List.forall_mem_cons, List.not_mem_nil, false_implies, implies_true, and_true]
    exact ⟨hclass, Or.inl rfl⟩
  have hnone : IsAttributes [] := ⟨fun a ha => absurd ha List.not_mem_nil, List.nodup_nil⟩
  have hcomment : ¬"-->".toList <:+: " -- > ".toList := by decide
  have hwritable : Tree.WritableAll sampleForest :=
    ⟨⟨hp, hattributes, fun h => absurd h (by decide), (by decide : "1 < 2" ≠ ""),
      ⟨hbr, hnone, fun _ => rfl, trivial⟩, hcomment, trivial⟩, trivial⟩
  have hseparated : Tree.SeparatedAll sampleForest := by
    simp only [sampleForest, Tree.SeparatedAll, Tree.Separated, Tree.IsText, List.head?_cons,
      Option.mem_def, Option.some.injEq, forall_eq', List.head?_nil, reduceCtorEq, exists_false,
      false_implies, implies_true, not_false_eq_true, and_self]
  exact plantMarkup_of_written faithful_standard hforest hwritable hseparated

/-- Nodes planted from any text at all read as a forest, with the form values of its attributes,
    and they can be written. Planting what was written gives nodes that read as the same forest
    with its neighbouring texts merged. They have the form values of their attributes as well,
    and they are written as the same markup again. -/
theorem plantMarkup_of_replanted {spell : Spelling} (hs : spell.Faithful)
    (text : String) (w : World κ σ) :
    ∃ ts markup, (w.plantMarkup text).2.trees? (w.plantMarkup text).1 = some ts ∧
      gather? (w.plantMarkup text).2.outline? (w.plantMarkup text).1 = some (outline ts) ∧
      (w.plantMarkup text).2.written? spell (w.plantMarkup text).1 = some markup ∧
      ∀ v : World κ σ,
        (v.plantMarkup markup).2.trees? (v.plantMarkup markup).1 = some (Tree.joinedAll ts) ∧
        gather? (v.plantMarkup markup).2.outline? (v.plantMarkup markup).1 =
          some (outline (Tree.joinedAll ts)) ∧
        (v.plantMarkup markup).2.written? spell (v.plantMarkup markup).1 = some markup := by
  have hfirst := w.reads_plantMarkup text
  have hparse : parse (String.ofList (Tree.writeAll spell (parse text))) =
      Tree.joinedAll (parse text) :=
    congrArg Fragment.forest (parse_writeAll_parse hs text)
  refine ⟨parse text, String.ofList (Tree.writeAll spell (parse text)), hfirst.1, hfirst.2, ?_, ?_⟩
  · rw [written?, hfirst.1, Option.map_some]
  · intro v
    have hreads := v.reads_plantMarkup (String.ofList (Tree.writeAll spell (parse text)))
    rw [hparse] at hreads
    refine ⟨hreads.1, hreads.2, ?_⟩
    rw [written?, hreads.1, Option.map_some, Tree.writeAll_joinedAll]

/-- A form field, a text that a stray closing tag divides, and a comment without an end. -/
def strayClosing : String :=
  "<input value=7>a</b>b<!--c"

/-- The text is in two parts at first and in one after it has been written and planted again.
    The field holds what its attribute says both times. -/
theorem plantMarkup_of_replanted_strayClosing :
    ({ client := () : World Unit Unit }.plantMarkup strayClosing).2.trees?
        ({ client := () : World Unit Unit }.plantMarkup strayClosing).1 =
      some [.element "input" [("value", "7")] [], .text "a", .text "b", .comment "c"] ∧
    gather? ({ client := () : World Unit Unit }.plantMarkup strayClosing).2.outline?
        ({ client := () : World Unit Unit }.plantMarkup strayClosing).1 =
      some [⟨0, .element "input" [("value", "7")] "7"⟩, ⟨0, .text "a"⟩, ⟨0, .text "b"⟩,
        ⟨0, .comment "c"⟩] ∧
    ({ client := () : World Unit Unit }.plantMarkup strayClosing).2.written? .standard
        ({ client := () : World Unit Unit }.plantMarkup strayClosing).1 =
      some "<input value=\"7\">ab<!--c-->" ∧
    ∀ v : World Unit Unit,
      (v.plantMarkup "<input value=\"7\">ab<!--c-->").2.trees?
          (v.plantMarkup "<input value=\"7\">ab<!--c-->").1 =
        some [.element "input" [("value", "7")] [], .text "ab", .comment "c"] ∧
      gather? (v.plantMarkup "<input value=\"7\">ab<!--c-->").2.outline?
          (v.plantMarkup "<input value=\"7\">ab<!--c-->").1 =
        some [⟨0, .element "input" [("value", "7")] "7"⟩, ⟨0, .text "ab"⟩, ⟨0, .comment "c"⟩] ∧
      (v.plantMarkup "<input value=\"7\">ab<!--c-->").2.written? .standard
          (v.plantMarkup "<input value=\"7\">ab<!--c-->").1 =
        some "<input value=\"7\">ab<!--c-->" := by
  rcases plantMarkup_of_replanted faithful_standard strayClosing { client := () : World Unit Unit }
    with ⟨ts, markup, hforest, houtline, hwritten, hagain⟩
  have hparse : parse strayClosing =
      [.element "input" [("value", "7")] [], .text "a", .text "b", .comment "c"] := by
    decide +kernel
  have hts : ts = parse strayClosing :=
    Option.some.inj (hforest.symm.trans (reads_plantMarkup strayClosing _).1)
  rw [hparse] at hts
  subst hts
  have hmarkup : ({ client := () : World Unit Unit }.plantMarkup strayClosing).2.written? .standard
      ({ client := () : World Unit Unit }.plantMarkup strayClosing).1 =
        some "<input value=\"7\">ab<!--c-->" := by decide +kernel
  cases hwritten.symm.trans hmarkup
  exact ⟨hforest, houtline, hwritten, hagain⟩

end World

end LiveTemplate
