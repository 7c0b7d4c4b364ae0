import LiveTemplate.Binding.Compile
import LiveTemplate.Proofs.Text.Searching

/-!
# Handlers

The handlers that the attributes of an element are, read off their names.

An event attribute has a short and a long form, and the words after the dots in its name
say what else it does. Which of them are there counts, and not in what order they stand or
how often. An attribute without an event is none. So the handlers for a kind of event are
found by going through the attributes once, and they stand in the order of these.

The directives say the same in another way: the name of a directive is taken apart at the
dots before its form is known.

## Main definitions

* `Markers.event?`: The event in the name of an attribute, and the words after it.
* `Handler`: What an event attribute asks for.
* `handlersFor`: The handlers of an element for a kind of event.

## Theorems

* `Modifiers.ofTokens_eq`: Words count if they are there.
* `Directive.handler?_of_parse`: A directive is a handler if its name has the event.
* `filterMap_handler?`: The handlers are the directives for the event.
-/

namespace LiveTemplate

open Text

/-- The event in the name of an attribute, and the words after it. In the short form they follow
    the event marker; in the long form, the directive marker, the word for events and a colon. -/
def Markers.event? (markers : Markers) (name : String) : Option (String × List String) :=
  match afterMarker? markers.event.toList name.toList with
  | some s =>
    let (event, words) := segments '.' s
    some (String.ofList event, words.map String.ofList)
  | none =>
    (afterMarker? markers.directive.toList name.toList).bind fun s =>
      let (head, words) := segments '.' s
      (afterMarker? (markers.eventWord.toList ++ [':']) head).map fun event =>
        (String.ofList event, words.map String.ofList)

/-- What an event attribute asks for: a method that is called, and what is done to the event
    before. -/
structure Handler where
  /-- The name of the method. -/
  method : String
  /-- What is done to the event. -/
  modifiers : Modifiers
  deriving DecidableEq

/-- The handlers of an element with these attributes for a kind of event. -/
def handlersFor (markers : Markers) (kind : String) (attributes : Markup.Attributes) :
    List Handler :=
  attributes.filterMap fun (name, value) =>
    (markers.event? name).bind fun (event, words) =>
      if event = kind then some ⟨trimmed value, "stop" ∈ words, "prevent" ∈ words⟩ else none

namespace Modifiers

theorem foldl_union (m : Modifiers) (ms : List Modifiers) :
    ms.foldl union m = m.union (ms.foldl union {}) := by
  induction ms generalizing m with
  | nil => simp only [List.foldl_nil, union, Bool.or_false]
  | cons m' ms ih =>
      rw [List.foldl_cons, List.foldl_cons, ih, ih (union {} m')]
      simp only [union, Bool.false_or, Bool.or_assoc]

/-- A modifier is there if its word is among the tokens. -/
theorem ofTokens_eq (tokens : List String) :
    ofTokens tokens = ⟨"stop" ∈ tokens, "prevent" ∈ tokens⟩ := by
  induction tokens with
  | nil => rfl
  | cons token tokens ih =>
      have hcons : ofTokens (token :: tokens) =
          union ((ofToken? token).getD {}) (ofTokens tokens) := by
        rw [ofTokens, List.filterMap_cons]
        cases ofToken? token with
        | none => simp only [Option.getD_none, union, Bool.false_or, ofTokens]
        | some m =>
            rw [List.foldl_cons, foldl_union, Option.getD_some, ofTokens]
            simp only [union, Bool.false_or]
      rw [hcons, ih, ofToken?]
      by_cases hstop : token = "stop"
      · subst hstop
        simp only [if_true, Option.getD_some, union, List.mem_cons, true_or, decide_true,
          Bool.true_or, Bool.false_or, String.reduceEq, false_or]
      · by_cases hprevent : token = "prevent"
        · subst hprevent
          simp only [String.reduceEq, if_false, if_true, Option.getD_some, union, List.mem_cons,
            true_or, decide_true, Bool.true_or, Bool.false_or, false_or]
        · rw [if_neg hstop, if_neg hprevent]
          simp only [Option.getD_none, union, Bool.false_or, List.mem_cons, Ne.symm hstop,
            Ne.symm hprevent, false_or]

end Modifiers

namespace Directive

/-- The handler for a kind of event that a directive is. -/
def handler? (kind : String) (d : Directive) : Option Handler :=
  match d.kind with
  | .on event modifiers => if event = kind then some ⟨d.expression, modifiers⟩ else none
  | _ => none

/-- With the word for events and a colon in the first segment, a name is one of an event in its
    long form. -/
theorem Reading.ofLongName_of_word {markers : Markers} {s rest : List Char}
    (h : afterMarker? (markers.eventWord.toList ++ [':']) (segments '.' s).1 = some rest) :
    ofLongName markers s = ofEvent (s.drop (markers.eventWord.toList ++ [':']).length) := by
  have hhead := afterMarker?_eq_some_iff.mp h
  have hcolon : ':' ∈ (segments '.' s).1 := by
    rw [← hhead]
    exact List.mem_append_left _ (List.mem_append_right _ (List.mem_singleton_self _))
  -- None of the other names has a colon, or one after the word for events.
  have hne : ∀ name : String, ':' ∉ name.toList → String.ofList (segments '.' s).1 ≠ name := by
    rintro name hname rfl
    rw [String.toList_ofList] at hname
    exact hname hcolon
  have hword : String.ofList (segments '.' s).1 ≠ markers.eventWord := by
    intro heq
    rw [← heq, String.toList_ofList] at hhead
    have hlength := congrArg List.length hhead
    simp only [List.length_append, List.length_cons, List.length_nil] at hlength
    omega
  unfold ofLongName
  dsimp only
  rw [if_neg (hne "text" (by decide)), if_neg (hne "model" (by decide)),
    if_neg (hne "html" (by decide)), if_neg hword, h]

/-- Without them it is no name of an event, unless it is the word alone. -/
theorem Reading.kind_ofLongName_ne {markers : Markers} {s : List Char} {event : String}
    {modifiers : Modifiers}
    (h : afterMarker? (markers.eventWord.toList ++ [':']) (segments '.' s).1 = none)
    (hword : String.ofList (segments '.' s).1 = markers.eventWord → event ≠ "") :
    (ofLongName markers s).kind ≠ .on event modifiers := by
  unfold ofLongName
  dsimp only
  split
  · exact nofun
  split
  · exact nofun
  split
  · exact nofun
  split
  · next heq =>
      intro hkind
      injection hkind with hevent _
      exact hword heq hevent.symm
  · rw [h]
    exact nofun

/-- The name of an event attribute in its long form. -/
theorem Reading.kind_ofLongName (markers : Markers) (s : List Char) {event : String}
    {modifiers : Modifiers} (hevent : event ≠ "") :
    (Reading.ofLongName markers s).kind = .on event modifiers ↔
      ∃ rest, afterMarker? (markers.eventWord.toList ++ [':']) (segments '.' s).1 = some rest ∧
        String.ofList rest = event ∧
        Modifiers.ofTokens ((segments '.' s).2.map String.ofList) = modifiers := by
  cases hrest : afterMarker? (markers.eventWord.toList ++ [':']) (segments '.' s).1 with
  | none =>
      simp only [reduceCtorEq, false_and, exists_false, iff_false]
      exact Reading.kind_ofLongName_ne hrest fun _ => hevent
  | some rest =>
      rw [Reading.ofLongName_of_word hrest, Reading.ofEvent, segments_drop hrest, Reading.kind]
      simp only [Kind.on.injEq, Option.some.injEq, exists_eq_left']

/-- An attribute is a directive for an event if and only if its name has the event. -/
theorem kind_of_parse (markers : Markers) (name value : String) {event : String}
    {modifiers : Modifiers} (hevent : event ≠ "") :
    (∃ d, Directive.parse markers name value = some d ∧ d.kind = .on event modifiers) ↔
      ∃ words, markers.event? name = some (event, words) ∧
        Modifiers.ofTokens words = modifiers := by
  rw [Directive.parse, Reading.ofName?, Markers.event?]
  cases hshort : afterMarker? markers.event.toList name.toList with
  | some s =>
      simp only [Option.map_some, Option.some.injEq, exists_eq_left', Reading.ofEvent,
        Reading.kind, Kind.on.injEq, Prod.mk.injEq]
      constructor
      · rintro ⟨hname, hmodifiers⟩
        exact ⟨_, ⟨hname, rfl⟩, hmodifiers⟩
      · rintro ⟨words, ⟨hname, rfl⟩, hmodifiers⟩
        exact ⟨hname, hmodifiers⟩
  | none =>
      cases hlong : afterMarker? markers.directive.toList name.toList with
      | none => simp only [Option.map_none, Option.bind_none, reduceCtorEq, false_and, exists_false]
      | some s =>
          simp only [Option.map_some, Option.some.injEq, exists_eq_left', Option.bind_some,
            Reading.kind_ofLongName markers s hevent, Option.map_eq_some_iff, Prod.mk.injEq]
          constructor
          · rintro ⟨rest, hrest, hname, hmodifiers⟩
            exact ⟨_, ⟨rest, hrest, hname, rfl⟩, hmodifiers⟩
          · rintro ⟨words, ⟨rest, hrest, hname, rfl⟩, hmodifiers⟩
            exact ⟨rest, hrest, hname, hmodifiers⟩

theorem expression_of_parse {markers : Markers} {name value : String} {d : Directive}
    (h : Directive.parse markers name value = some d) : d.expression = trimmed value := by
  rcases Option.map_eq_some_iff.mp h with ⟨r, _, rfl⟩
  rfl

/-- A directive is a handler if its name has the event. -/
theorem handler?_of_parse (markers : Markers) {kind : String} (hkind : kind ≠ "")
    (name value : String) :
    (Directive.parse markers name value).bind (handler? kind) =
      (markers.event? name).bind fun (event, words) =>
        if event = kind then some ⟨trimmed value, "stop" ∈ words, "prevent" ∈ words⟩ else none := by
  refine Option.ext fun h => ?_
  have hread : ∀ modifiers, (∃ d, Directive.parse markers name value = some d ∧
      d.kind = .on kind modifiers) ↔ ∃ words, markers.event? name = some (kind, words) ∧
        Modifiers.ofTokens words = modifiers :=
    fun _ => kind_of_parse markers name value hkind
  simp only [Option.bind_eq_some_iff, Prod.exists]
  constructor
  · rintro ⟨d, hd, hhandler⟩
    rw [handler?] at hhandler
    split at hhandler
    · next event modifiers hon =>
        split at hhandler
        · next heq =>
            subst heq
            rcases (hread modifiers).mp ⟨d, hd, hon⟩ with ⟨words, hname, hwords⟩
            refine ⟨event, words, hname, ?_⟩
            rw [if_pos rfl, ← Modifiers.ofTokens_eq, hwords, ← expression_of_parse hd]
            exact hhandler
        · exact nomatch hhandler
    · exact nomatch hhandler
  · rintro ⟨event, words, hname, hhandler⟩
    split at hhandler
    · next heq =>
        subst heq
        rcases (hread _).mpr ⟨words, hname, rfl⟩ with ⟨d, hd, hon⟩
        refine ⟨d, hd, ?_⟩
        rw [handler?, hon]
        dsimp only
        rw [if_pos rfl, expression_of_parse hd, Modifiers.ofTokens_eq]
        exact hhandler
    · exact nomatch hhandler

end Directive

/-- The handlers of an element are its directives for the event. -/
theorem filterMap_handler? (markers : Markers) {kind : String} (hkind : kind ≠ "")
    (attributes : Markup.Attributes) :
    (directivesOf markers attributes).filterMap (Directive.handler? kind) =
      handlersFor markers kind attributes := by
  rw [directivesOf, List.filterMap_filterMap, handlersFor]
  exact congrArg (attributes.filterMap ·) <|
    funext fun entry => Directive.handler?_of_parse markers hkind entry.1 entry.2

example : handlersFor .standard "click"
    [("@click.prevent.stop", "a"), ("v-on:click", " b "), ("@keyup", "c")] =
      [⟨"a", true, true⟩, ⟨"b", false, false⟩] := by
  decide +kernel

end LiveTemplate
