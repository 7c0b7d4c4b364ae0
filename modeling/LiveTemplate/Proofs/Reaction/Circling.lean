import LiveTemplate.Proofs.Binding.Coursing
import LiveTemplate.Proofs.Store.Circles

/-!
# Closing a Circle

How objects come to be held in a circle, and what becomes of their plain forms.

Handles are shared freely. A client can write an object into a property of an object that it
holds, through any number of others, or into a property of its own, and neither the write nor
the plain form looks out for that. From then on taking the plain form of either object does not
come to an end, and with it whatever shows one of them.

Of all events only a write can do this, and the write can be told beforehand: the object that is
written already leads to the object that is written to. So up to the first such write every
value has a plain form in every world that is reached, and this is all that can be said in
favour of a client that shares its objects: no run that closes a circle is refused.

## Main definitions

* `World.Closes`: A write that closes a circle.

## Theorems

* `acyclic_updateProperty_iff`: Which writes close a circle.
* `Happens.acyclic_or_closes`: An event closes no circle unless it is such a write.
* `straight_of_runAll`: Which values have a plain form after any run, and what has happened if
  one has none.
* `endless_snapshot`: An object that is written into its own property.
-/

namespace LiveTemplate

open Relation (ReflTransGen TransGen)

variable {ν τ : Type} {l : Licence τ} {w w' : ClientWorld ν τ}

namespace World

/-! ### Writing -/

/-- A property whose value is an object. -/
theorem pointsTo_of_object? {o x : ObjectId} (key : String)
    (h : (w.property? o key).bind (·.value.object?) = some x) : w.PointsTo o x := by
  rcases Option.bind_eq_some_iff.mp h with ⟨p, hp, hx⟩
  exact pointsTo_of_property? hp (Data.eq_object_of_object? hx)

/-- Besides the object that is written to every object holds what it did. -/
theorem pointsTo_updateProperty_of_ne {o a : ObjectId} (ha : o ≠ a) (key : String)
    (change : Property → Property) (x : ObjectId) :
    (w.updateProperty o key change).PointsTo a x ↔ w.PointsTo a x := by
  rw [PointsTo, object_updateProperty, if_neg ha, ← PointsTo]

/-- A way that there is after a write was there before, or consists of a way to the object that
    is written to and one from the object that is written. -/
theorem transGen_of_updateProperty {o x a b : ObjectId} {key : String}
    (h : TransGen (w.updateProperty o key fun p => { p with value := .object x }).PointsTo a b) :
    TransGen w.PointsTo a b ∨ ReflTransGen w.PointsTo a o ∧ ReflTransGen w.PointsTo x b := by
  induction h with
  | single hab =>
      rcases pointsTo_of_updateProperty hab with hold | ⟨rfl, ⟨⟩⟩
      · exact .inl (.single hold)
      · exact .inr ⟨.refl, .refl⟩
  | @tail b c _ hbc ih =>
      rcases pointsTo_of_updateProperty hbc with hold | ⟨rfl, ⟨⟩⟩
      · rcases ih with hab | ⟨hao, hxb⟩
        · exact .inl (hab.tail hold)
        · exact .inr ⟨hao, hxb.tail hold⟩
      · rcases ih with hab | ⟨hao, _⟩
        · exact .inr ⟨hab.to_reflTransGen, .refl⟩
        · exact .inr ⟨hao, .refl⟩

/-- A way to the object that is written to is there still: it would have to come by that object
    earlier to be broken, and there is no circle. -/
theorem ReflTransGen.updateProperty {o a : ObjectId} (hacyclic : w.Acyclic)
    (h : ReflTransGen w.PointsTo a o) (key : String) (change : Property → Property) :
    ReflTransGen (w.updateProperty o key change).PointsTo a o := by
  induction h using ReflTransGen.head_induction_on with
  | refl => exact .refl
  | @head a c hac hco ih =>
      refine .head ?_ ih
      refine (pointsTo_updateProperty_of_ne ?_ key change c).mpr hac
      rintro rfl
      exact hacyclic o (.head' hac hco)

/-- A write closes a circle exactly if the written object leads to the one that is written to. -/
theorem acyclic_updateProperty_iff (h : w.Acyclic) {o x : ObjectId} {key : String} {p : Property}
    (hp : w.property? o key = some p) :
    (w.updateProperty o key fun p => { p with value := .object x }).Acyclic ↔
      ¬ReflTransGen w.PointsTo x o := by
  constructor
  · intro hafter hway
    have hlink : (w.updateProperty o key fun p => { p with value := .object x }).PointsTo o x := by
      have hwritten : (w.updateProperty o key fun p => { p with value := .object x }).property?
          o key = some { p with value := .object x } := by
        rw [property?_updateProperty, if_pos ⟨rfl, rfl⟩, hp, Option.map_some]
      exact pointsTo_of_property? hwritten rfl
    exact hafter o (.head' hlink (ReflTransGen.updateProperty h hway key _))
  · intro hnot y hy
    rcases transGen_of_updateProperty hy with hold | ⟨hto, hfrom⟩
    · exact h y hold
    · exact hnot (hfrom.trans hto)

/-- Fewer ways close no circle. -/
theorem Acyclic.mono (h : w.Acyclic) (hless : ∀ o x, w'.PointsTo o x → w.PointsTo o x) :
    w'.Acyclic :=
  fun x hx => h x (TransGen.mono hless x x hx)

/-- An object is written into a property of an object that it leads to. -/
def Closes (w w' : ClientWorld ν τ) : Prop :=
  ∃ o key p x, w.property? o key = some p ∧ ReflTransGen w.PointsTo x o ∧
    w' = w.updateProperty o key fun p => { p with value := .object x }

/-- A write closes no circle unless it is one that does. -/
theorem acyclic_or_closes_updateProperty (h : w.Acyclic) {o : ObjectId} {key : String}
    {p : Property} (hp : w.property? o key = some p) (d : Data) :
    (w.updateProperty o key fun p => { p with value := d }).Acyclic ∨
      w.Closes (w.updateProperty o key fun p => { p with value := d }) := by
  cases d with
  | plain value =>
      refine .inl (h.mono fun a x hx => ?_)
      rcases pointsTo_of_updateProperty hx with hold | ⟨_, ⟨⟩⟩
      exact hold
  | object x =>
      by_cases hway : ReflTransGen w.PointsTo x o
      · exact .inr ⟨o, key, p, x, hp, hway, rfl⟩
      · exact .inl ((acyclic_updateProperty_iff h hp).mpr hway)

/-! ### Events -/

/-- An event closes no circle unless it is a write that does, perhaps of what has just been
    observed. -/
theorem Happens.acyclic_or_closes (h : w.Happens l w') (hwhole : w.Whole) (hw : w.Acyclic) :
    w'.Acyclic ∨ ∃ v, w.Course l v ∧ v.Acyclic ∧ v.Closes w' := by
  have hobserved := acyclic_observeValue hw hwhole.closed
  cases h with
  | observe value => exact .inl (hobserved value)
  | watch path name _ _ =>
      refine .inl (hw.mono fun o x hx => ?_)
      rw [watch_eq] at hx
      have hadded := pointsTo_of_dependAll hx
      exact hadded
  | @follow s wt hs =>
      refine .inl (hw.mono fun o x hx => ?_)
      rw [(w.readPath_spec (some s) wt.root wt.path).1] at hx
      exact pointsTo_of_dependAll hx
  | assign value hp =>
      rcases acyclic_or_closes_updateProperty (hobserved value) hp (observeValue value w).1 with
        hafter | hcloses
      · exact .inl hafter
      · exact .inr ⟨_, .single (.observe w value), hobserved value, hcloses⟩
  | @share o key p d _ _ hp =>
      rcases acyclic_or_closes_updateProperty hw hp d with hafter | hcloses
      · exact .inl hafter
      · exact .inr ⟨w, .refl, hw, hcloses⟩
  | «show» _ _ shown =>
      exact .inl (hw.mono fun o x => (pointsTo_of_objects (w.onlyNodes_render _ _).objects o x).mp)
  | pin | note | remember | enter => exact .inl hw

/-- If a course of events ends with a circle, then a write has closed one. -/
theorem Course.acyclic_or_closes (h : w.Course l w') (hwhole : w.Whole) (hw : w.Acyclic) :
    w'.Acyclic ∨ ∃ v v', w.Course l v ∧ v.Acyclic ∧ v.Closes v' ∧ v'.Course l w' := by
  induction h with
  | refl => exact .inl hw
  | @tail b c hbefore hstep ih =>
      rcases ih with hb | ⟨v, v', hv, hacyclic, hcloses, hv'⟩
      · have hwhole' : b.Whole := Course.keeps (·.Whole) (fun hx h => h.whole hx) hbefore hwhole
        rcases hstep.acyclic_or_closes hwhole' hb with hc | ⟨v, hv, hacyclic, hcloses⟩
        · exact .inl hc
        · exact .inr ⟨v, c, hbefore.trans hv, hacyclic, hcloses, .refl⟩
      · exact .inr ⟨v, v', hv, hacyclic, hcloses, hv'.tail hstep⟩

theorem acyclic_start (memory : τ) : (start ν memory).Acyclic := by
  intro x hx
  obtain ⟨y, hy, _⟩ := TransGen.head'_iff.mp hx
  exact absurd (lt_of_pointsTo hy) (Nat.not_lt_zero _)

end World

/-! ### Runs -/

/-- After any programs, with any callbacks, the values that have a plain form and can be shown
    are exactly those from which no object can be got to that can be got to from itself. Others
    have none however deep one goes. If there is such an object, then once, when there was none,
    an object was written into a property of an object that it led to. -/
theorem straight_of_runAll {code : ν → Signal → Program ν τ} {patience depth : Nat} {memory : τ}
    {session : List (Program ν τ)}
    (hrun : Program.runAll ((Program.behaviour code).host patience depth) session
      (World.start ν memory) = some ((), w)) :
    (∀ d, ((w.snapshot? d).isSome = true ↔ w.Straight d) ∧
      ((w.display? d).isSome = true ↔ w.Straight d) ∧
      ∀ levels j, w.snapshotWithin? levels d = some j → w.snapshot? d = some j) ∧
    (w.Acyclic ∨ ∃ v v', (World.start ν memory).Course .any v ∧ v.Acyclic ∧ v.Closes v' ∧
      v'.Course .any w) := by
  have hhost : ((Program.behaviour code).host patience depth).Heeds .any fun _ => True :=
    Program.heeds_host (fun _ _ => trivial) (fun name signal _ => (code name signal).within_any)
      patience depth
  have hcourse := Program.course_of_runAll hhost (fun p _ => p.within_any) hrun
  refine ⟨fun d => ⟨World.isSome_snapshot?_iff, ?_, fun levels j =>
    World.snapshot?_eq_some_of_within⟩, ?_⟩
  · rw [World.display?, Option.isSome_map, World.isSome_snapshot?_iff]
  · exact hcourse.acyclic_or_closes (World.whole_start memory) (World.acyclic_start memory)

/-- Callbacks that do nothing. -/
def passive : Unit → Signal → Program Unit Unit :=
  fun _ _ => .done

/-- A parent gets to know its child, and the child its parent. -/
def acquaintance : List (Program Unit Unit) :=
  [.ask (.observe (.object [("child", .object [("parent", .null)]),
      ("pet", .object [("name", .string "Rex")])])) fun _ => .done,
    .ask (.set ⟨0⟩ "parent" (.shared (.object ⟨2⟩))) fun _ => .done]

/-- The world in which they know each other. -/
def acquaintedWorld : ClientWorld Unit Unit :=
  ((Program.runAll ((Program.behaviour passive).host 0 1) acquaintance
    (World.start Unit ())).get (by decide +kernel)).2

/-- The pet has a plain form, and the parent has none, since a circle has been closed. -/
theorem straight_of_runAll_acquaintance :
    Program.runAll ((Program.behaviour passive).host 0 1) acquaintance (World.start Unit ()) =
        some ((), acquaintedWorld) ∧
      (acquaintedWorld.display? (.object ⟨1⟩)).isSome = true ∧
      (acquaintedWorld.display? (.object ⟨2⟩)).isSome = false ∧
      ∃ v v', (World.start Unit ()).Course .any v ∧ v.Acyclic ∧ v.Closes v' ∧
        v'.Course .any acquaintedWorld := by
  have hrun : Program.runAll ((Program.behaviour passive).host 0 1) acquaintance
      (World.start Unit ()) = some ((), acquaintedWorld) :=
    Program.eq_some_get _
  have hchild : acquaintedWorld.PointsTo ⟨2⟩ ⟨0⟩ :=
    World.pointsTo_of_object? "child" (by decide +kernel)
  have hparent : acquaintedWorld.PointsTo ⟨0⟩ ⟨2⟩ :=
    World.pointsTo_of_object? "parent" (by decide +kernel)
  have hcircular : acquaintedWorld.Circular ⟨2⟩ := .head hchild (.single hparent)
  have hpet : acquaintedWorld.snapshotWithin? 1 (.object ⟨1⟩) =
      some (.object [("name", .string "Rex")]) := by decide +kernel
  rcases straight_of_runAll hrun with ⟨hforms, hclosed⟩
  refine ⟨hrun, ?_, ?_, ?_⟩
  · rw [World.display?, (hforms (.object ⟨1⟩)).2.2 1 _ hpet]
    rfl
  · rw [← Bool.not_eq_true, (hforms (.object ⟨2⟩)).2.1]
    exact fun hstraight => hstraight ⟨2⟩ ⟨2⟩ rfl .refl hcircular
  · exact hclosed.resolve_left fun hacyclic => hacyclic ⟨2⟩ hcircular

/-- An object is written into its own property. -/
def selfish : List (Program Unit Unit) :=
  [.ask (.observe (.object [("a", .number (.int 1))])) fun _ => .done,
    .ask (.set ⟨0⟩ "a" (.shared (.object ⟨0⟩))) fun _ => .done]

/-- The world afterwards. -/
def selfishWorld : ClientWorld Unit Unit :=
  ((Program.runAll ((Program.behaviour passive).host 0 1) selfish
    (World.start Unit ())).get (by decide +kernel)).2

/-- Its plain form does not come to an end, however deep one goes. -/
theorem endless_snapshot :
    Program.runAll ((Program.behaviour passive).host 0 1) selfish (World.start Unit ()) =
        some ((), selfishWorld) ∧
      (∀ levels, selfishWorld.snapshotWithin? levels (.object ⟨0⟩) = none) ∧
      selfishWorld.display? (.object ⟨0⟩) = none := by
  have hself : selfishWorld.PointsTo ⟨0⟩ ⟨0⟩ := World.pointsTo_of_object? "a" (by decide +kernel)
  have hnone := World.snapshotWithin?_eq_none (w := selfishWorld) .refl (.single hself)
  exact ⟨Program.eq_some_get _, hnone, congrArg (Option.map Json.display) (hnone _)⟩

end LiveTemplate
