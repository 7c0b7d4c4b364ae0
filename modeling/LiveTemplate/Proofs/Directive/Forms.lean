import LiveTemplate.Proofs.Directive.Handling

/-!
# Two Forms of Event Attributes

When the short and the long form of an event attribute mean the same.

The short form has the event marker in front of the event. The long form has the directive marker,
the word for events and a colon there. Whatever stands behind, the two are directives of the same
kind if the name in the long form is recognised as one: the word for events must have no dot in
it, or it would be taken apart there; and the name must not look like one in the short form, which
is tried first. It does if one of the two beginnings starts with the other one. Then some events
are read with a part of the longer beginning in front of them, unless there is no such part, since
both beginnings are the same.

The markers may be any texts here, usable or not.

## Main definitions

* `Markers.longEvent`: What the long form starts with.
* `Markers.FormsAgree`: Both forms are directives of the same kind.

## Theorems

* `exists_kind_ofEvent_ne`: Text in front of an event changes the event, for some event.
* `formsAgree_iff`: For which markers both forms mean the same for every event.
-/

namespace LiveTemplate

open Text

namespace Markers

/-- What the name of an event attribute starts with, in its long form. -/
def longEvent (markers : Markers) : String :=
  markers.directive ++ markers.eventWord ++ ":"

/-- Both forms are directives of the same kind for an event with its modifiers, whatever the
    attributes' values are. -/
def FormsAgree (markers : Markers) (event : String) : Prop :=
  ∀ short long : String, ∃ d d', Directive.parse markers (markers.event ++ event) short = some d ∧
    Directive.parse markers (markers.longEvent ++ event) long = some d' ∧ d.kind = d'.kind

end Markers

namespace Directive

variable {markers : Markers}

/-- The event in a directive's name, whatever form it has. -/
theorem Reading.kind_ofEvent (s : List Char) : (ofEvent s).kind =
    .on (String.ofList (segments '.' s).1)
      (Modifiers.ofTokens ((segments '.' s).2.map String.ofList)) :=
  rfl

/-- Text in front of an event changes the event, for some event. -/
theorem exists_kind_ofEvent_ne {t : List Char} (ht : t ≠ []) :
    ∃ event : String, (Reading.ofEvent event.toList).kind ≠
      (Reading.ofEvent (t ++ event.toList)).kind := by
  cases t with
  | nil => exact absurd rfl ht
  | cons c t =>
      by_cases hc : c = '.'
      · -- The event is in front of the first dot, where nothing is.
        subst hc
        refine ⟨"a", fun h => ?_⟩
        rw [Reading.kind_ofEvent, Reading.kind_ofEvent, Kind.on.injEq, String.ofList_inj] at h
        exact absurd h.1 nofun
      · -- There is at least a character of an event.
        refine ⟨"", fun h => ?_⟩
        have hmem : '.' ∉ [c] := fun hmem => hc (List.mem_singleton.mp hmem).symm
        have hsegments := segments_append hmem (t ++ "".toList)
        rw [Reading.kind_ofEvent, Reading.kind_ofEvent, Kind.on.injEq, String.ofList_inj,
          List.cons_append, ← List.singleton_append, hsegments] at h
        exact absurd h.1 nofun

theorem Reading.ofName?_short (markers : Markers) (event : String) :
    ofName? markers (markers.event ++ event) = some (ofEvent event.toList) := by
  rw [ofName?, String.toList_append, afterMarker?_eq_some_iff.mpr rfl]

/-- A name in the long form may look like one in the short form. -/
theorem Reading.ofName?_long (markers : Markers) (event : String) :
    ofName? markers (markers.longEvent ++ event) =
      match afterMarker? markers.event.toList (markers.longEvent.toList ++ event.toList) with
      | some rest => some (ofEvent rest)
      | none => some (ofLongName markers (markers.eventWord.toList ++ ':' :: event.toList)) := by
  have hlong : afterMarker? markers.directive.toList (markers.longEvent.toList ++ event.toList) =
      some (markers.eventWord.toList ++ ':' :: event.toList) := by
    rw [afterMarker?_eq_some_iff, Markers.longEvent]
    simp only [String.toList_append, String.reduceToList, List.append_assoc, List.cons_append,
      List.nil_append]
  rw [ofName?, String.toList_append, hlong]
  cases afterMarker? markers.event.toList (markers.longEvent.toList ++ event.toList) with
  | none => rfl
  | some rest => rfl

/-- Both forms mean the same if the name in the long form is read as the event. -/
theorem formsAgree_iff_kind {event : String} : markers.FormsAgree event ↔
    (Reading.ofName? markers (markers.longEvent ++ event)).map Reading.kind =
      some (Reading.ofEvent event.toList).kind := by
  simp only [Markers.FormsAgree, Directive.parse, Reading.ofName?_short, Option.map_some,
    Option.some.injEq, Option.map_eq_some_iff]
  constructor
  · intro h
    rcases h "" "" with ⟨_, _, rfl, ⟨r, hr, rfl⟩, hkind⟩
    exact ⟨r, hr, hkind.symm⟩
  · rintro ⟨r, hr, hkind⟩ short long
    exact ⟨_, _, rfl, ⟨r, hr, rfl⟩, hkind.symm⟩

/-- Behind the short form's beginning the long form's name is read as an event. -/
theorem formsAgree_iff_of_append {event : String} {rest : List Char}
    (h : markers.event.toList ++ rest = markers.longEvent.toList ++ event.toList) :
    markers.FormsAgree event ↔
      (Reading.ofEvent event.toList).kind = (Reading.ofEvent rest).kind := by
  rw [formsAgree_iff_kind, Reading.ofName?_long, afterMarker?_eq_some_iff.mpr h, Option.map_some,
    Option.some.injEq]
  exact eq_comm

/-- If neither beginning starts with the other one, no name in the long form looks like one in
    the short form. -/
theorem afterMarker?_longEvent (hlong : ¬markers.event.toList <+: markers.longEvent.toList)
    (hshort : ¬markers.longEvent.toList <+: markers.event.toList) (event : String) :
    afterMarker? markers.event.toList (markers.longEvent.toList ++ event.toList) = none := by
  rw [Option.eq_none_iff_forall_ne_some]
  intro rest hrest
  -- Two texts that the name starts with start with one another.
  have hprefix : markers.event.toList <+: markers.longEvent.toList ++ event.toList :=
    ⟨rest, afterMarker?_eq_some_iff.mp hrest⟩
  exact (List.prefix_or_prefix_of_prefix hprefix (List.prefix_append _ _)).elim hlong hshort

/-- Then both forms mean the same if the word for events has no dot in it, and otherwise never. -/
theorem formsAgree_iff_of_not_prefix (hlong : ¬markers.event.toList <+: markers.longEvent.toList)
    (hshort : ¬markers.longEvent.toList <+: markers.event.toList) (event : String) :
    markers.FormsAgree event ↔ '.' ∉ markers.eventWord.toList := by
  rw [formsAgree_iff_kind, Reading.ofName?_long, afterMarker?_longEvent hlong hshort,
    Option.map_some, Option.some.injEq]
  have happ : markers.eventWord.toList ++ ':' :: event.toList =
      markers.eventWord.toList ++ [':'] ++ event.toList := by
    rw [List.append_assoc, List.singleton_append]
  constructor
  · -- A word with a dot in it is not all in the first segment.
    intro hkind hdot
    have hnone : afterMarker? (markers.eventWord.toList ++ [':'])
        (segments '.' (markers.eventWord.toList ++ ':' :: event.toList)).1 = none := by
      rw [Option.eq_none_iff_forall_ne_some]
      intro rest hrest
      refine separator_not_mem_segments '.' (markers.eventWord.toList ++ ':' :: event.toList) ?_
      rw [← afterMarker?_eq_some_iff.mp hrest]
      exact List.mem_append_left _ (List.mem_append_left _ hdot)
    refine Reading.kind_ofLongName_ne hnone (fun hword => ?_) hkind
    have hfirst := separator_not_mem_segments '.' (markers.eventWord.toList ++ ':' :: event.toList)
    rw [← hword, String.toList_ofList] at hdot
    exact absurd hdot hfirst
  · intro hdot
    have hword : '.' ∉ markers.eventWord.toList ++ [':'] := by
      rw [List.mem_append, not_or]
      exact ⟨hdot, by decide⟩
    have hhead : afterMarker? (markers.eventWord.toList ++ [':'])
        (segments '.' (markers.eventWord.toList ++ [':'] ++ event.toList)).1 =
          some (segments '.' event.toList).1 := by
      rw [segments_append hword, afterMarker?_eq_some_iff]
    rw [happ, Reading.ofLongName_of_word hhead, List.drop_left]

/-- If the long form's beginning starts with the short form's one and both forms always mean the
    same, then both beginnings are the same: the rest of the longer one would be read as a part of
    the event. -/
theorem event_eq_of_long (h : ∀ event, markers.FormsAgree event)
    (hlong : markers.event.toList <+: markers.longEvent.toList) :
    markers.event = markers.longEvent := by
  rcases hlong with ⟨t, ht⟩
  by_cases hempty : t = []
  · rw [hempty, List.append_nil] at ht
    exact String.toList_inj.mp ht
  · rcases exists_kind_ofEvent_ne hempty with ⟨event, hne⟩
    refine absurd ((formsAgree_iff_of_append ?_).mp (h event)) hne
    rw [← ht, List.append_assoc]

/-- The other way round: the rest of the short form's beginning would be taken off with it from an
    event that starts with that rest. -/
theorem event_eq_of_short (h : ∀ event, markers.FormsAgree event)
    (hshort : markers.longEvent.toList <+: markers.event.toList) :
    markers.event = markers.longEvent := by
  rcases hshort with ⟨t, ht⟩
  by_cases hempty : t = []
  · rw [hempty, List.append_nil] at ht
    exact (String.toList_inj.mp ht).symm
  · rcases exists_kind_ofEvent_ne hempty with ⟨event, hne⟩
    have hparts : markers.event.toList ++ event.toList =
        markers.longEvent.toList ++ (String.ofList (t ++ event.toList)).toList := by
      rw [← ht, String.toList_ofList, List.append_assoc]
    have hagree := (formsAgree_iff_of_append hparts).mp (h _)
    rw [String.toList_ofList] at hagree
    exact absurd hagree.symm hne

end Directive

/-- For which markers both forms of an event attribute mean the same, whatever event with modifiers
    stands behind them: if they start alike, or if the word for events has no dot in it and
    neither of the two beginnings starts with the other one. The standard markers are such. -/
theorem Markers.formsAgree_iff (markers : Markers) :
    ((∀ event, markers.FormsAgree event) ↔
      markers.event = markers.longEvent ∨
        '.' ∉ markers.eventWord.toList ∧ ¬markers.event.toList <+: markers.longEvent.toList ∧
          ¬markers.longEvent.toList <+: markers.event.toList) ∧
      ∀ event, Markers.standard.FormsAgree event := by
  refine ⟨⟨fun h => ?_, fun h event => ?_⟩, fun event => ?_⟩
  · by_cases hlong : markers.event.toList <+: markers.longEvent.toList
    · exact .inl (Directive.event_eq_of_long h hlong)
    · by_cases hshort : markers.longEvent.toList <+: markers.event.toList
      · exact .inl (Directive.event_eq_of_short h hshort)
      · refine .inr ⟨?_, hlong, hshort⟩
        exact (Directive.formsAgree_iff_of_not_prefix hlong hshort "").mp (h "")
  · rcases h with heq | ⟨hdot, hlong, hshort⟩
    · exact (Directive.formsAgree_iff_of_append (by rw [heq])).mpr rfl
    · exact (Directive.formsAgree_iff_of_not_prefix hlong hshort event).mpr hdot
  · exact (Directive.formsAgree_iff_of_not_prefix (by decide) (by decide) event).mpr (by decide)

end LiveTemplate
