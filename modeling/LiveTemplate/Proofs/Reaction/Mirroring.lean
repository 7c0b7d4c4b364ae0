import LiveTemplate.Proofs.Reaction.Observing
import LiveTemplate.Proofs.Reaction.UpToDate

/-!
# Writing as in Plain Data

Observed data is written as plain data is.

A client observes an object and writes to paths of it, and subscribers look on. To the
client this is no different from plain data that it writes to: the same paths lead
somewhere, writes of an equal value are told apart from writes that change something,
and afterwards the plain form is what it would be. Each write observes the value that
it writes, so nothing is ever in two places, and what notifying does besides is
nothing to the data.

## Main definitions

* `Json.assign`: A write to plain data.
* `StoreStep`: A write, or anything that writes nothing.
* `StoreStep.runAll`, `StoreStep.replayAll`: Steps on observed data and on plain data.

## Theorems

* `Host.setPath_mirrors`: A write to observed data is a write to the plain data.
* `StoreStep.mirrors_of_runAll`: After any steps the data is what plain data would be.
-/

namespace LiveTemplate

variable {κ σ : Type}

/-- A write to plain data: whether it changed something, if the path leads to a value, and the
    data afterwards. -/
def Json.assign (path : List String) (v j : Json) : Option Bool × Json :=
  match j.at? path with
  | none => (none, j)
  | some old =>
    if old.isObject = false ∧ v.isObject = false ∧ old.same v = true then (some false, j)
    else (some true, replaceAt v path j)

namespace World

variable {w w' : World κ σ}

/-- Values without a common object count as one for writes if they stand for plain values that
    do, and neither of these is an object. -/
theorem Stands.same_iff {d d' : Data} {j j' : Json} {ids ids' : List ObjectId}
    (h : w.Stands d j ids) (h' : w.Stands d' j' ids') (hapart : ∀ a ∈ ids', a ∉ ids) :
    d.same d' = true ↔ j.isObject = false ∧ j'.isObject = false ∧ j.same j' = true := by
  cases d with
  | plain v =>
      rcases h.eq_plain with ⟨rfl, _, hv⟩
      cases d' with
      | plain v' =>
          rcases h'.eq_plain with ⟨rfl, _, hv'⟩
          simp only [Data.same, hv, hv', true_and]
      | object o' =>
          rcases h'.eq_object with ⟨inner', rest', rfl, _⟩
          simp only [Data.same, Json.isObject, Bool.false_eq_true, Bool.true_eq_false, false_and,
            and_false]
  | object o =>
      rcases h.eq_object with ⟨inner, rest, rfl, rfl, _⟩
      simp only [Json.isObject, Bool.true_eq_false, false_and, iff_false, Bool.not_eq_true]
      cases d' with
      | plain v' => rfl
      | object o' =>
          rcases h'.eq_object with ⟨inner', rest', rfl, rfl, _⟩
          rw [Data.same, beq_eq_false_iff_ne]
          rintro rfl
          exact hapart o List.mem_cons_self List.mem_cons_self

/-- A write leaves the subscribers what they were. -/
theorem Staffed.write {kind : Subscriber κ → Prop} (h : w.Staffed kind) {o : ObjectId}
    {key : String} {new : Data} {v : Json} {fresh : List ObjectId}
    (hgrown : w.objects.size ≤ w'.objects.size)
    (hvalues : ∀ a, w'.values a =
      if a = o then Table.update key (fun _ => new) (w.values a) else w.values a)
    (hnew : w'.Stands new v fresh) (hsame : w'.subscribers = w.subscribers) :
    w'.Staffed kind := by
  have hsubscriber := fun s => subscriber?_of_subscribers (s := s) hsame
  refine ⟨fun s subscriber hs => ?_, fun s a path r hs => ?_⟩
  · rw [hsubscriber] at hs
    exact h.kinds s subscriber hs
  · rw [hsubscriber] at hs
    rcases h.grounded s a path r hs with ⟨j, ids, hstands⟩
    rcases Denotes.exists_write hstands hgrown hvalues hnew with ⟨ms', ids', hwritten⟩
    rcases hwritten.of_cons with ⟨j', _, first, _, _, _, hfirst, _⟩
    exact ⟨j', first, hfirst⟩

/-- After a write to a property, and before anybody hears of it, an object stands for what it
    stood for with the new value in its place. -/
theorem mirrors_write {kind : Subscriber κ → Prop} {root : ObjectId} {j v : Json}
    {ids fresh : List ObjectId} (hstaffed : w.Staffed kind)
    (hstands : w.Stands (.object root) j ids)
    (hnodup : ids.Nodup) {d : Data} (hd : w.Stands d v fresh) (hfresh : fresh.Nodup)
    (hapart : ∀ a ∈ fresh, a ∉ ids) {init : List String} {key : String} {o : ObjectId}
    (hfollow : w.follow init (.object root) = some (.object o)) {p : Property}
    (hp : w.property? o key = some p) :
    (w.updateProperty o key fun p => { p with value := d }).Mirrors kind root
      (Json.replaceAt v (init ++ [key]) j) := by
  have hvalues := w.values_write o key d
  have hgrown := w.size_write o key d
  have hnew : (w.updateProperty o key fun p => { p with value := d }).Stands d v fresh :=
    hd.written_elsewhere (fun ho => hapart o ho (hstands.mem_of_follow hfollow)) key d
  rcases hstands.write hnodup hfollow hp hgrown hvalues hnew hfresh hapart with
    ⟨ids', hwritten, hids', _⟩
  exact ⟨⟨ids', hwritten, hids'⟩, hstaffed.write hgrown hvalues hnew rfl⟩

end World

namespace Host

variable [Client σ] {host : Host κ σ} {kind : Subscriber κ → Prop} {root : ObjectId} {j : Json}
  {w : World κ σ}

/-- Writing to a property that is there, and that a way leads to. -/
theorem setProperty_mirrors (hhost : host.Observes kind)
    {ids : List ObjectId} (hstaffed : w.Staffed kind) (hstands : w.Stands (.object root) j ids)
    (hnodup : ids.Nodup) {d : Data} {v : Json} {fresh : List ObjectId} (hd : w.Stands d v fresh)
    (hfresh : fresh.Nodup) (hapart : ∀ a ∈ fresh, a ∉ ids) {init : List String} {key : String}
    {o : ObjectId} (hkey : key.isEmpty = false)
    (hfollow : w.follow init (.object root) = some (.object o)) {p : Property}
    (hp : w.property? o key = some p) :
    ∃ changed w', host.setProperty o key d w = some (.ok changed, w') ∧
      some changed = (Json.assign (init ++ [key]) v j).1 ∧
      w'.Mirrors kind root (Json.assign (init ++ [key]) v j).2 := by
  have hend : w.follow (init ++ [key]) (.object root) = some p.value := by
    rw [World.follow_append, hfollow, Option.bind_some, World.follow,
      if_neg (Bool.eq_false_iff.mp hkey), hp]
    rfl
  rcases hstands.follow_at? (init ++ [key]) with ⟨hnone, _⟩ |
    ⟨old, j', within, hold, hj', hwithin, hsub⟩
  · rw [hnone] at hend
    exact absurd hend.symm (Option.some_ne_none _)
  rw [hold, Option.some.injEq] at hend
  subst hend
  have hsame := hwithin.same_iff hd fun a ha hmem => hapart a ha (hsub.subset hmem)
  rw [setProperty, Run.bind_of_eq_some (Run.get_eq w), hp, Json.assign, hj']
  dsimp only
  by_cases hequal : p.value.same d = true
  · rw [if_pos hequal, if_pos (hsame.mp hequal)]
    exact ⟨false, w, rfl, rfl, ⟨ids, hstands, hnodup⟩, hstaffed⟩
  · rw [if_neg hequal, if_neg fun h => hequal (hsame.mpr h)]
    have hmirrors := World.mirrors_write hstaffed hstands hnodup hd hfresh hapart hfollow hp
    rcases quiet_notify hhost hmirrors.staffed p.registry with
      ⟨_, w', hnotify, hunwritten, hstaffed'⟩
    refine ⟨true, w', ?_, rfl, hmirrors.of_unwritten hunwritten hstaffed'⟩
    have hchange : Run.change (·.updateProperty o key fun p => { p with value := d }) w =
        some ((), w.updateProperty o key fun p => { p with value := d }) := rfl
    rw [Run.bind_of_eq_some hchange, Run.bind_of_eq_some hnotify]
    rfl

/-- A write to observed data is a write to the plain data that it stands for. -/
theorem setPath_mirrors (hhost : host.Observes kind) {ids : List ObjectId}
    (hstaffed : w.Staffed kind) (hstands : w.Stands (.object root) j ids) (hnodup : ids.Nodup)
    {d : Data} {v : Json} {fresh : List ObjectId} (hd : w.Stands d v fresh)
    (hfresh : fresh.Nodup) (hapart : ∀ a ∈ fresh, a ∉ ids) (path : String) :
    ∃ result w', host.setPath root path d w = some (result, w') ∧
      result.toOption = (Json.assign (segmentsOfPath path) v j).1 ∧
      w'.Mirrors kind root (Json.assign (segmentsOfPath path) v j).2 := by
  have hnowhere : w.pathValue? root path = none → j.at? (segmentsOfPath path) = none := by
    intro hnone
    rcases hstands.follow_at? (segmentsOfPath path) with ⟨_, hat⟩ | ⟨d', _, _, hd', _⟩
    · exact hat
    · rw [World.pathValue?, hd'] at hnone
      exact absurd hnone (Option.some_ne_none d')
  have hunchanged : w.Mirrors kind root j := ⟨⟨ids, hstands, hnodup⟩, hstaffed⟩
  rw [setPath]
  rcases w.resolve_cases root path with ⟨e, hresolve, hnone⟩ |
    ⟨init, key, o, hsegments, hresolve, hkey, hfollow⟩
  · have hrun : Run.apply (·.resolve none root path) w = some (.error e, w) :=
      congrArg some hresolve
    refine ⟨.error e, w, by rw [Run.bind_of_eq_some hrun]; rfl, ?_⟩
    rw [Json.assign, hnowhere hnone]
    exact ⟨rfl, hunchanged⟩
  · have hrun : Run.apply (·.resolve none root path) w = some (.ok (o, key), w) :=
      congrArg some hresolve
    rw [Run.bind_of_eq_some hrun]
    dsimp only
    cases hp : w.property? o key with
    | none =>
        have hset : Run.pinned [.object o] (host.setProperty o key d) w =
            some (.error (.unobserved key), w) := by
          refine Run.pinned_eq_some_iff.mpr ⟨{ w with pins := [.object o] ++ w.pins }, ?_, rfl⟩
          have hmissing : World.property? { w with pins := [.object o] ++ w.pins } o key =
              none := hp
          rw [setProperty, Run.bind_of_eq_some (Run.get_eq _), hmissing]
          rfl
        refine ⟨.error (.unobserved path), w, by rw [Run.bind_of_eq_some hset]; rfl, ?_⟩
        have hnone : w.pathValue? root path = none := by
          rw [World.pathValue?, hsegments, World.follow_append, hfollow, Option.bind_some,
            World.follow, if_neg (Bool.eq_false_iff.mp hkey), hp]
        rw [Json.assign, hnowhere hnone]
        exact ⟨rfl, hunchanged⟩
    | some p =>
        have hpinned : w.Unwritten { w with pins := [.object o] ++ w.pins } := .of_objects rfl
        have hway : World.follow { w with pins := [.object o] ++ w.pins } init (.object root) =
            some (.object o) := by
          rw [← hfollow]
          have hvalues : World.SameValues (fun _ => True) w
              { w with pins := [.object o] ++ w.pins } := fun _ _ _ => rfl
          exact World.follow_congr hvalues w.closedUnder_true init fun _ _ => trivial
        rcases setProperty_mirrors (w := { w with pins := [.object o] ++ w.pins }) hhost
          (hstaffed.of_objects rfl rfl) (hstands.of_unwritten hpinned) hnodup
          (hd.of_unwritten hpinned) hfresh hapart hkey hway hp with
          ⟨changed, w', hset, hchanged, hmirrors⟩
        refine ⟨.ok changed, { w' with pins := w.pins }, ?_, ?_, ?_⟩
        · rw [Run.bind_of_eq_some (Run.pinned_eq_some_iff.mpr ⟨w', hset, rfl⟩)]
          rfl
        · rw [hsegments]
          exact hchanged
        · rw [hsegments]
          exact hmirrors.of_unwritten (.of_objects rfl) (hmirrors.staffed.of_objects rfl rfl)

/-- What has just been observed can be written: it is nowhere in the data yet. -/
theorem write_mirrors (hhost : host.Observes kind) (h : w.Mirrors kind root j)
    (handles : List Handle) (path : String) (v : Json) : ∃ result w', Run.pinned handles
        (host.setPath root path (World.observeValue v w).1) (World.observeValue v w).2 =
          some (result, w') ∧
      result.toOption = (Json.assign (segmentsOfPath path) v j).1 ∧
      w'.Mirrors kind root (Json.assign (segmentsOfPath path) v j).2 := by
  rcases World.stands_observeValue v w with ⟨fresh, hd, hfresh, hnew⟩
  have hextends := (World.extends_observeValue v w).1
  rcases h.tree with ⟨ids, hbefore, hnodup⟩
  have hapart : ∀ a ∈ fresh, a ∉ ids := fun a ha hmem =>
    Nat.not_lt_of_le (hnew a ha) (World.Denotes.lt_size hbefore a hmem)
  have hstands := hbefore.of_unwritten (.of_extends hextends)
  have hstaffed := h.staffed.of_unwritten (.of_extends hextends) hextends.subscribers
  generalize (World.observeValue v w).1 = d at hd ⊢
  generalize (World.observeValue v w).2 = w₁ at hd hstands hstaffed ⊢
  have hpinned : w₁.Unwritten { w₁ with pins := handles ++ w₁.pins } := .of_objects rfl
  rcases setPath_mirrors hhost (hstaffed.of_unwritten hpinned rfl) (hstands.of_unwritten hpinned)
    hnodup (hd.of_unwritten hpinned) hfresh hapart path with ⟨result, w', hset, hdone, hmirrors⟩
  refine ⟨result, { w' with pins := w₁.pins }, Run.pinned_eq_some_iff.mpr ⟨w', hset, rfl⟩, hdone,
    ?_⟩
  exact hmirrors.of_unwritten (.of_objects rfl) (hmirrors.staffed.of_objects rfl rfl)

end Host

/-- A step with an observed object: a write to a path, or anything else that writes nothing as
    long as the object stands for something. -/
inductive StoreStep (κ σ : Type) (kind : Subscriber κ → Prop) (root : ObjectId) where
  /-- Writes a value that is observed for it. -/
  | write (path : String) (value : Json)
  /-- Something between writes. -/
  | between (change : World κ σ → World κ σ)
      (quiet : ∀ w j, w.Mirrors kind root j → w.Unwritten (change w) ∧ (change w).Staffed kind)

namespace StoreStep

variable {kind : Subscriber κ → Prop} {root : ObjectId}

/-- Takes the steps: what the writes have answered. The object is held on to while it is
    written to. -/
def runAll [Client σ] (host : Host κ σ) :
    List (StoreStep κ σ kind root) → Run κ σ (List (Except BindingError Bool))
  | [] => pure []
  | write path value :: rest => do
    let d ← Run.apply (World.observeValue value)
    let result ← Run.pinned [.object root] (host.setPath root path d)
    let results ← runAll host rest
    pure (result :: results)
  | between change _ :: rest => do
    Run.change change
    runAll host rest

/-- The same steps with plain data: what each write has done, and the data afterwards. -/
def replayAll : List (StoreStep κ σ kind root) → Json → List (Option Bool) × Json
  | [], j => ([], j)
  | write path value :: rest, j =>
    let (done, j) := Json.assign (segmentsOfPath path) value j
    let (others, j) := replayAll rest j
    (done :: others, j)
  | between _ _ :: rest, j => replayAll rest j

variable [Client σ] {host : Host κ σ}

/-- Step by step, observed data answers as plain data and goes on standing for it. -/
theorem runAll_mirrors (hhost : host.Observes kind) (steps : List (StoreStep κ σ kind root))
    {w : World κ σ} {j : Json} (h : w.Mirrors kind root j) :
    ∃ results w', runAll host steps w = some (results, w') ∧
      results.map Except.toOption = (replayAll steps j).1 ∧
      w'.Mirrors kind root (replayAll steps j).2 := by
  induction steps generalizing w j with
  | nil => exact ⟨[], w, rfl, rfl, h⟩
  | cons step rest ih =>
      cases step with
      | write path value =>
          rcases Host.write_mirrors hhost h [.object root] path value with
            ⟨result, v, hset, hdone, hv⟩
          rcases ih hv with ⟨results, w', hrun, hothers, hw'⟩
          have hobserve : Run.apply (World.observeValue value) w =
            some (World.observeValue value w) := rfl
          refine ⟨result :: results, w', ?_, ?_, hw'⟩
          · rw [runAll, Run.bind_of_eq_some hobserve, Run.bind_of_eq_some hset,
              Run.bind_of_eq_some hrun]
            rfl
          · rw [replayAll, List.map_cons, hdone, hothers]
      | between change quiet =>
          rcases quiet w j h with ⟨hunwritten, hstaffed⟩
          rcases ih (h.of_unwritten hunwritten hstaffed) with ⟨results, w', hrun, hdone, hw'⟩
          have hchange : Run.change change w = some ((), change w) := rfl
          refine ⟨results, w', ?_, hdone, hw'⟩
          rw [runAll, Run.bind_of_eq_some hchange, hrun]

/-- What is observed goes through any steps as plain data would: it answers the writes in the
    same way, has the same plain form, and has the same values at the same paths. -/
theorem mirrors_of_runAll (hhost : host.Observes kind) {w₀ w₁ : World κ σ}
    (hstaffed : w₀.Staffed kind) {members : Table Json}
    (hroot : World.observeValue (.object members) w₀ = (.object root, w₁))
    (steps : List (StoreStep κ σ kind root)) :
    ∃ results w, runAll host steps w₁ = some (results, w) ∧
      results.map Except.toOption = (replayAll steps (.object members)).1 ∧
      w.snapshot? (.object root) = some (replayAll steps (.object members)).2 ∧
      ∀ path, match (replayAll steps (.object members)).2.at? (segmentsOfPath path) with
        | none => ∃ e, w.getPath root path = .error e
        | some v => ∃ d, w.getPath root path = .ok d ∧ w.snapshot? d = some v := by
  have hextends := (World.extends_observeValue (.object members) w₀).1
  rcases World.stands_observeValue (.object members) w₀ with ⟨ids, hstands, hnodup, _⟩
  rw [hroot] at hextends hstands
  have hstart : w₁.Mirrors kind root (.object members) :=
    ⟨⟨ids, hstands, hnodup⟩, hstaffed.of_unwritten (.of_extends hextends) hextends.subscribers⟩
  rcases runAll_mirrors hhost steps hstart with ⟨results, w, hrun, hdone, hmirrors⟩
  generalize (replayAll steps (.object members)).2 = j at hmirrors ⊢
  rcases hmirrors.tree with ⟨ids', hfinal, _⟩
  refine ⟨results, w, hrun, hdone, hfinal.snapshot?_eq, fun path => ?_⟩
  rcases hfinal.follow_at? (segmentsOfPath path) with ⟨hnone, hat⟩ |
    ⟨d, v, within, hd, hat, hwithin, _⟩
  · rw [hat]
    cases hget : w.getPath root path with
    | error e => exact ⟨e, rfl⟩
    | ok d =>
        have hvalue := (w.getPath_eq_ok_iff root path d).mp hget
        rw [World.pathValue?, hnone] at hvalue
        exact absurd hvalue.symm (Option.some_ne_none d)
  · rw [hat]
    exact ⟨d, (w.getPath_eq_ok_iff root path d).mpr hd, hwithin.snapshot?_eq⟩

/-- A host whose client counts the calls. -/
def tally : Host (Code Unit) (Journal Nat) where
  call _ _ := do
    Run.change (·.write fun j => { j with memory := j.memory + 1 })
    pure {}
  patience := 0

theorem observes_tally : tally.Observes fun _ => True := by
  intro _ _ _ _ _ w hstaffed
  refine ⟨{}, w.write fun j => { j with memory := j.memory + 1 }, rfl, ?_, ?_⟩
  · exact .of_objects rfl
  · exact hstaffed.of_objects rfl rfl

/-- A text inside an object. -/
def note : Table Json :=
  [("inner", .object [("text", .string "a")]), ("copy", .null)]

/-- Somebody watches the text. It is written, written again, and replaced with its object; in
    between a path that leads nowhere is written. -/
def overheard : List (StoreStep (Code Unit) (Journal Nat) (fun _ => True) ⟨1⟩) :=
  [.between (fun w => (w.watch ⟨1⟩ "inner.text" (.call (.method ()))).2) fun _ _ h =>
      h.staffed.watch trivial fun _ hr => (nomatch hr),
    .write "inner.text" (.string "b"),
    .write "inner.text" (.string "b"),
    .write "copy.text" (.string "b"),
    .write "inner" (.object [("text", .string "c")])]

theorem mirrors_of_runAll_overheard :
    World.observeValue (.object note) (World.start Unit 0) =
        (.object ⟨1⟩, (World.observeValue (.object note) (World.start Unit 0)).2) ∧
      ∃ results w, runAll tally overheard
          (World.observeValue (.object note) (World.start Unit 0)).2 = some (results, w) ∧
        results.map Except.toOption = [some true, some false, none, some true] ∧
        w.snapshot? (.object ⟨1⟩) =
          some (.object [("inner", .object [("text", .string "c")]), ("copy", .null)]) ∧
        ∃ d, w.getPath ⟨1⟩ "inner.text" = .ok d ∧ w.snapshot? d = some (.string "c") := by
  have hroot : World.observeValue (.object note) (World.start Unit 0) =
      (.object ⟨1⟩, (World.observeValue (.object note) (World.start Unit 0)).2) := rfl
  have hstaffed : (World.start Unit 0).Staffed fun _ => True :=
    ⟨fun _ _ _ => trivial, fun _ _ _ _ hs => nomatch hs⟩
  have hreplay : replayAll overheard (.object note) =
      ([some true, some false, none, some true],
        .object [("inner", .object [("text", .string "c")]), ("copy", .null)]) := by
    decide +kernel
  rcases mirrors_of_runAll observes_tally hstaffed hroot overheard with
    ⟨results, w, hrun, hdone, hform, hpaths⟩
  rw [hreplay] at hdone hform hpaths
  exact ⟨hroot, results, w, hrun, hdone, hform, hpaths "inner.text"⟩

end StoreStep

end LiveTemplate
