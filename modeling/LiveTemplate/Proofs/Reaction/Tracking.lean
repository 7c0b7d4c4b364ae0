import LiveTemplate.Proofs.Reaction.Attending
import LiveTemplate.Proofs.Store.Enlisting
import LiveTemplate.Proofs.Text.Searching

/-!
# Tracked Reads

What a tracked read finds, and with whom it registers the reader.

A read looks at the segments of a path one after the other. Going on from a segment takes
an object, so the first segment that fails decides the error: it is empty, or there is no
such property, or the property holds something plain although there are segments left.
Registering a reader changes no values, so the same segment fails whether the read is
tracked or not, and the reader is registered with the properties in front of it, and with
the one that holds something plain as well.

## Main definitions

* `World.FailsAt`: Why a way cannot be followed beyond a segment.
* `World.Crosses`: A read of a path gets as far as a field.

## Theorems

* `exists_stop`: Every read stops somewhere.
* `readPath_cases`: What a read finds, by the segment at which it stops.
* `getPath_eq_ok`, `getPath_eq_error`: What a read finds or fails with.
* `tracked_spec`: What a tracked read finds, and what it changes.
-/

namespace LiveTemplate

variable {κ σ : Type}

theorem intercalate_segmentsOfPath (path : String) :
    ".".intercalate (segmentsOfPath path) = path := by
  have hlists := Text.intercalate_segments '.' path.toList
  have hchars : (segmentsOfPath path).map String.toList =
      (Text.segments '.' path.toList).1 :: (Text.segments '.' path.toList).2 := by
    simp only [segmentsOfPath, pathSegments, Text.segmentsOf, List.map_cons, List.map_map,
      String.toList_ofList, Function.comp_def, List.map_id']
  rw [← String.toList_inj, String.toList_intercalate, hchars]
  exact hlists

theorem dot_not_mem_segmentsOfPath {path segment : String} (h : segment ∈ segmentsOfPath path) :
    '.' ∉ segment.toList := by
  have hchars : segment.toList ∈
      (Text.segments '.' path.toList).1 :: (Text.segments '.' path.toList).2 := by
    rcases List.mem_cons.mp h with rfl | h
    · rw [pathSegments, Text.segmentsOf, String.toList_ofList]
      exact List.mem_cons_self
    · rcases List.mem_map.mp h with ⟨chars, hmem, rfl⟩
      rw [String.toList_ofList]
      exact List.mem_cons_of_mem _ hmem
  exact Text.separator_not_mem_of_mem_segments hchars

/-- Changing an entry changes no keys. -/
theorem Table.keys_update {α : Type} (key : String) (change : α → α) (t : Table α) :
    Table.keys (Table.update key change t) = Table.keys t := by
  induction t with
  | nil => rfl
  | cons entry rest ih =>
      rcases entry with ⟨k, a⟩
      rw [Table.update]
      split
      · rfl
      · exact congrArg (k :: ·) ih

/-- Writes a value at the end of a path for which the place has been looked for. -/
def Host.writeTo [Client σ] (host : Host κ σ) (path : String) (value : Data) :
    Except BindingError (ObjectId × String) → Run κ σ (Except BindingError Bool)
  | .error e => pure (.error e)
  | .ok (o, key) => do
    match ← Run.pinned [.object o] (host.setProperty o key value) with
    | .ok changed => pure (.ok changed)
    | .error _ => pure (.error (.unobserved path))

namespace World

variable {w w' : World κ σ}

/-- Why a path cannot be followed beyond a segment: it is empty or the key of nothing, or
    there are others behind it but no object to go on from. -/
inductive FailsAt (w : World κ σ) (path : String) (o : ObjectId) (segment : String)
    (rest : List String) : BindingError → Prop
  /-- The segment is empty. -/
  | empty (hempty : segment = "") : FailsAt w path o segment rest (.unobserved path)
  /-- The object has no such property. -/
  | missing (hmissing : w.property? o segment = none) :
      FailsAt w path o segment rest (.unobserved path)
  /-- The property holds something plain, but the path goes on. -/
  | plain {p : Property} {v : Json} (hne : segment ≠ "")
      (hp : w.property? o segment = some p) (hvalue : p.value = .plain v) (hrest : rest ≠ []) :
      FailsAt w path o segment rest (.notAnObject path segment)

/-- A read of the path gets as far as the field, which exists. -/
def Crosses (w : World κ σ) (root : ObjectId) (path : String) (o : ObjectId) (key : String) :
    Prop :=
  ∃ init rest, segmentsOfPath path = init ++ key :: rest ∧
    w.follow init (.object root) = some (.object o) ∧ key ≠ "" ∧
      ∃ p, w.property? o key = some p

theorem mem_pathFields_iff {root o : ObjectId} {path key : String} :
    (o, key) ∈ w.pathFields root path ↔ w.Crosses root path o key := by
  rw [pathFields, mem_trail_iff]
  constructor
  · rintro ⟨init, ⟨rest, hsegments⟩, hfollow, hkey, hp⟩
    refine ⟨init, rest, ?_, hfollow, ?_, hp⟩
    · rw [← hsegments, List.append_assoc, List.singleton_append]
    · rwa [ne_eq, ← String.isEmpty_iff, Bool.not_eq_true]
  · rintro ⟨init, rest, hsegments, hfollow, hkey, hp⟩
    refine ⟨init, ⟨rest, ?_⟩, hfollow, ?_, hp⟩
    · rw [hsegments, List.append_assoc, List.singleton_append]
    · rwa [ne_eq, ← String.isEmpty_iff, Bool.not_eq_true] at hkey

variable [Client σ]

/-- Going down to an object changes no values. -/
theorem resolveFrom_of_follow (reader : Option SubscriberId) (path : String)
    {init : List String} {segment key : String} {segments rest : List String} {root o : ObjectId}
    (hsegments : segment :: segments = init ++ key :: rest)
    (hfollow : w.follow init (.object root) = some (.object o)) :
    ∃ w', SameValues (fun _ => True) w w' ∧
      resolveFrom reader path segments segment root w = resolveFrom reader path rest key o w' := by
  induction init generalizing segment segments root w with
  | nil =>
      injection hfollow with hfollow
      injection hfollow with hfollow
      injection hsegments with hsegment hrest
      rw [hsegment, hrest, hfollow]
      exact ⟨w, fun _ _ _ => rfl, rfl⟩
  | cons first init ih =>
      injection hsegments with hsegment hrest
      subst hsegment
      rcases follow_cons_eq_some hfollow with ⟨a, p, ha, hne, hp, hfollow⟩
      injection ha with ha
      subst ha
      -- What is followed further is an object, since something stands behind it.
      cases segments with
      | nil => exact absurd hrest.symm (List.append_ne_nil_of_right_ne_nil init
          (List.cons_ne_nil key rest))
      | cons next segments =>
          cases hvalue : p.value with
          | plain v =>
              rw [hvalue] at hfollow
              cases init with
              | nil => cases hfollow
              | cons _ _ => cases hfollow
          | object inner =>
              rw [hvalue] at hfollow
              have hsame := sameValues_depend (fun _ => True) w reader root segment
              rw [← (w.follow_trail_depend reader root segment init (.object inner)).1] at hfollow
              rcases ih hrest hfollow with ⟨w', hw', hrun⟩
              refine ⟨w', fun a ha k => (hw' a ha k).trans (hsame a ha k), ?_⟩
              rw [resolveFrom, if_neg (Bool.eq_false_iff.mp hne)]
              simp only [readProperty, hp, hvalue]
              exact hrun

/-- A read stops with an error at a segment that fails. -/
theorem readPath_of_failsAt {path key : String} {init rest : List String} {root o : ObjectId}
    {e : BindingError} (hsegments : segmentsOfPath path = init ++ key :: rest)
    (hfollow : w.follow init (.object root) = some (.object o))
    (hfails : w.FailsAt path o key rest e) (reader : Option SubscriberId) :
    (w.readPath reader root path).1 = .error e := by
  rcases resolveFrom_of_follow reader path hsegments hfollow with ⟨w', hsame, hrun⟩
  have hvalue := hsame o trivial key
  have hread : (w'.readProperty reader o key).1 = (w'.property? o key).map (·.value) := by
    unfold readProperty
    cases w'.property? o key with
    | none => rfl
    | some p => rfl
  rw [hvalue] at hread
  simp only [readPath, resolve, hrun]
  rcases hproperty : w'.readProperty reader o key with ⟨found, w''⟩
  rw [hproperty] at hread
  dsimp only at hread
  subst hread
  cases hfails with
  | empty hempty =>
      subst hempty
      cases rest with
      | nil => rfl
      | cons next rest => rfl
  | missing hmissing =>
      rw [hmissing, Option.map_none] at hproperty
      by_cases hempty : key.isEmpty = true
      · cases rest with
        | nil => simp only [resolveFrom, if_pos hempty]
        | cons next rest => simp only [resolveFrom, if_pos hempty]
      · cases rest with
        | nil => simp only [resolveFrom, if_neg hempty, hproperty]
        | cons next rest => simp only [resolveFrom, if_neg hempty, hproperty]
  | @plain p v hne hp hplain hrest =>
      rw [hp, Option.map_some, hplain] at hproperty
      cases rest with
      | nil => exact absurd rfl hrest
      | cons next rest =>
          rw [resolveFrom, if_neg (mt String.isEmpty_iff.mp hne), hproperty]

/-- A read of a path whose last segment is there finds the value. -/
theorem readPath_of_end {path key : String} {init : List String} {root o : ObjectId}
    {p : Property} (hsegments : segmentsOfPath path = init ++ [key])
    (hfollow : w.follow init (.object root) = some (.object o)) (hne : key ≠ "")
    (hp : w.property? o key = some p) (reader : Option SubscriberId) :
    (w.readPath reader root path).1 = .ok p.value := by
  have hvalue : w.pathValue? root path = some p.value := by
    rw [pathValue?, hsegments, follow_append, hfollow, Option.bind_some, follow,
      if_neg (mt String.isEmpty_iff.mp hne)]
    simp only [hp, follow]
  rw [← (w.readPath_spec reader root path).2] at hvalue
  cases hresult : (w.readPath reader root path).1 with
  | error e =>
      rw [hresult] at hvalue
      cases hvalue
  | ok d =>
      rw [hresult] at hvalue
      rw [Option.some.inj hvalue]

omit [Client σ] in
/-- Every way has a segment at which it fails or ends. -/
theorem exists_stop (w : World κ σ) (path : String) (root : ObjectId) (segment : String)
    (segments : List String) :
    ∃ init key rest o, segment :: segments = init ++ key :: rest ∧
      w.follow init (.object root) = some (.object o) ∧
      ((∃ e, w.FailsAt path o key rest e) ∨
        rest = [] ∧ key ≠ "" ∧ ∃ p, w.property? o key = some p) := by
  induction segments generalizing segment root with
  | nil =>
      refine ⟨[], segment, [], root, rfl, rfl, ?_⟩
      by_cases hempty : segment = ""
      · exact Or.inl ⟨_, .empty hempty⟩
      · cases hp : w.property? root segment with
        | none => exact Or.inl ⟨_, .missing hp⟩
        | some p => exact Or.inr ⟨rfl, hempty, p, rfl⟩
  | cons next segments ih =>
      by_cases hempty : segment = ""
      · exact ⟨[], segment, _, root, rfl, rfl, Or.inl ⟨_, .empty hempty⟩⟩
      · cases hp : w.property? root segment with
        | none => exact ⟨[], segment, _, root, rfl, rfl, Or.inl ⟨_, .missing hp⟩⟩
        | some p =>
            cases hvalue : p.value with
            | plain v =>
                exact ⟨[], segment, _, root, rfl, rfl,
                  Or.inl ⟨_, .plain hempty hp hvalue (List.cons_ne_nil next segments)⟩⟩
            | object inner =>
                rcases ih inner next with ⟨init, key, rest, o, hsegments, hfollow, hstop⟩
                refine ⟨segment :: init, key, rest, o, ?_, ?_, hstop⟩
                · rw [hsegments, List.cons_append]
                · rw [follow, if_neg (mt String.isEmpty_iff.mp hempty)]
                  simp only [hp, hvalue]
                  exact hfollow

/-- A read of a path stops at one segment, whoever reads. -/
theorem readPath_cases (w : World κ σ) (root : ObjectId) (path : String) :
    (∃ e init segment rest o, segmentsOfPath path = init ++ segment :: rest ∧
        w.follow init (.object root) = some (.object o) ∧ w.FailsAt path o segment rest e ∧
        ∀ reader, (w.readPath reader root path).1 = .error e) ∨
      ∃ init key o p, segmentsOfPath path = init ++ [key] ∧
        w.follow init (.object root) = some (.object o) ∧ key ≠ "" ∧
        w.property? o key = some p ∧ ∀ reader, (w.readPath reader root path).1 = .ok p.value := by
  rcases w.exists_stop path root (pathSegments path).1 (pathSegments path).2 with
    ⟨init, key, rest, o, hsegments, hfollow, ⟨e, hfails⟩ | ⟨rfl, hne, p, hp⟩⟩
  · exact Or.inl ⟨e, init, key, rest, o, hsegments, hfollow, hfails,
      readPath_of_failsAt hsegments hfollow hfails⟩
  · exact Or.inr ⟨init, key, o, p, hsegments, hfollow, hne, hp,
      readPath_of_end hsegments hfollow hne hp⟩

/-- What a read finds stands at the last segment. -/
theorem getPath_eq_ok {root : ObjectId} {path : String} {d : Data} :
    w.getPath root path = .ok d ↔ ∃ init key o p, segmentsOfPath path = init ++ [key] ∧
      w.follow init (.object root) = some (.object o) ∧ key ≠ "" ∧
      w.property? o key = some p ∧ p.value = d := by
  constructor
  · intro hd
    rcases w.readPath_cases root path with
      ⟨e, _, _, _, _, _, _, _, hread⟩ | ⟨init, key, o, p, hsegments, hfollow, hne, hp, hread⟩
    · cases (hread none).symm.trans hd
    · exact ⟨init, key, o, p, hsegments, hfollow, hne, hp,
        Except.ok.inj ((hread none).symm.trans hd)⟩
  · rintro ⟨init, key, o, p, hsegments, hfollow, hne, hp, rfl⟩
    exact readPath_of_end hsegments hfollow hne hp none

/-- A read fails at the first segment that fails. -/
theorem getPath_eq_error {root : ObjectId} {path : String} {e : BindingError} :
    w.getPath root path = .error e ↔ ∃ init segment rest o,
      segmentsOfPath path = init ++ segment :: rest ∧
      w.follow init (.object root) = some (.object o) ∧ w.FailsAt path o segment rest e := by
  constructor
  · intro he
    rcases w.readPath_cases root path with
      ⟨e', init, segment, rest, o, hsegments, hfollow, hfails, hread⟩ |
        ⟨_, _, _, _, _, _, _, _, hread⟩
    · cases (hread none).symm.trans he
      exact ⟨init, segment, rest, o, hsegments, hfollow, hfails⟩
    · cases (hread none).symm.trans he
  · rintro ⟨init, segment, rest, o, hsegments, hfollow, hfails⟩
    exact readPath_of_failsAt hsegments hfollow hfails none

/-! ### What a tracked read changes -/

/-- Registering somebody changes no keys. -/
theorem keys_dependAll (reader : Option SubscriberId) (fields : List (ObjectId × String))
    (w : World κ σ) (o : ObjectId) : (w.dependAll reader fields).keys o = w.keys o := by
  induction fields generalizing w with
  | nil => rfl
  | cons field fields ih =>
      have hfirst : (w.depend reader field.1 field.2).keys o = w.keys o := by
        rcases w.depend_eq reader field.1 field.2 with heq | ⟨s, heq⟩
        · rw [heq]
        · rw [heq]
          change (w.updateProperty field.1 field.2 fun p =>
            { p with registry := p.registry.add s }).keys o = w.keys o
          rw [keys, keys, object_updateProperty]
          split
          · exact Table.keys_update _ _ _
          · rfl
      exact (ih (w.depend reader field.1 field.2)).trans hfirst

/-- A write begins in the world in which its place was looked for. -/
theorem setPath_eq (w : World κ σ) (host : Host κ σ) (root : ObjectId) (path : String)
    (value : Data) :
    host.setPath root path value w = host.writeTo path value (w.resolve none root path).1 w := by
  rcases w.resolve_none_spec root path with ⟨result, hresolve, _⟩
  have hfirst : (Run.apply (·.resolve none root path) : Run κ σ _) w = some (result, w) :=
    congrArg some hresolve
  rw [Host.setPath, Run.bind_of_eq_some hfirst, hresolve]
  cases result with
  | error e => rfl
  | ok field => rfl

/-- A tracked read finds what an untracked one finds, which the first segment that fails
    decides. It registers the reader, behind the others, with the fields that it crosses, and
    changes nothing else; registries stay coherent. Reading untracked and looking for the place
    of a write register nobody. -/
theorem tracked_spec (w : World κ σ) (s : SubscriberId) (root : ObjectId) (path : String) :
    (".".intercalate (segmentsOfPath path) = path ∧
      ∀ segment ∈ segmentsOfPath path, '.' ∉ segment.toList) ∧
    (w.readPath (some s) root path).1 = w.getPath root path ∧
    (∀ d, w.getPath root path = .ok d ↔ ∃ init key o p, segmentsOfPath path = init ++ [key] ∧
      w.follow init (.object root) = some (.object o) ∧ key ≠ "" ∧
      w.property? o key = some p ∧ p.value = d) ∧
    (∀ e, w.getPath root path = .error e ↔ ∃ init segment rest o,
      segmentsOfPath path = init ++ segment :: rest ∧
      w.follow init (.object root) = some (.object o) ∧ w.FailsAt path o segment rest e) ∧
    (∀ o key p, w.Crosses root path o key → w.property? o key = some p →
      (w.readPath (some s) root path).2.property? o key = some { p with
        registry := ⟨if p.registry.contains s then p.registry.subscribers
          else p.registry.subscribers ++ [s], p.registry.members.insert s⟩ }) ∧
    (w.Orderly → (w.readPath (some s) root path).2.Orderly) ∧
    (∀ o key, ¬w.Crosses root path o key →
      (w.readPath (some s) root path).2.property? o key = w.property? o key) ∧
    (∀ o, (w.readPath (some s) root path).2.keys o = w.keys o) ∧
    (w.readPath (some s) root path).2.objects.size = w.objects.size ∧
    { (w.readPath (some s) root path).2 with objects := w.objects, client := w.client } = w ∧
    (w.readPath none root path).2 = w ∧
    ∀ (host : Host κ σ) (value : Data), host.setPath root path value w =
      host.writeTo path value (w.resolve none root path).1 w := by
  have hworld := (w.readPath_spec (some s) root path).1
  refine ⟨⟨intercalate_segmentsOfPath path, fun segment => dot_not_mem_segmentsOfPath⟩, ?_,
    fun d => getPath_eq_ok, fun e => getPath_eq_error, fun o key p hcrosses hp => ?_,
    (Enlists.readPath w (some s) root path).orderly, fun o key hcrosses => ?_, fun o => ?_,
    (w.readPath_frame (some s) root path).2.2.2, ?_, ?_, fun host value => ?_⟩
  · rcases w.readPath_cases root path with
      ⟨e, _, _, _, _, _, _, _, hread⟩ | ⟨_, _, _, p, _, _, _, _, hread⟩
    · rw [getPath, hread, hread]
    · rw [getPath, hread, hread]
  · rw [hworld, property?_dependAll, hp, Option.map_some,
      if_pos (mem_pathFields_iff.mpr hcrosses), Registry.add]
  · have hout : (o, key) ∉ w.pathFields root path := mt mem_pathFields_iff.mp hcrosses
    rw [hworld, property?_dependAll]
    simp only [if_neg hout]
    exact Option.map_id'
  · rw [hworld, keys_dependAll]
  · rw [hworld, dependAll_eq_off]
  · rw [(w.readPath_spec none root path).1, dependAll_none]
  · exact setPath_eq w host root path value

end World

end LiveTemplate
