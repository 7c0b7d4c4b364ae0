import LiveTemplate.Proofs.Binding.Coursing
import LiveTemplate.Proofs.Reaction.Attending

/-!
# Bindings Are Settled When an Application Is Built

Updates never create bindings.

A watcher that shows a value again reads its path anew, and what it reads may be
objects that have only just been written. So registrations come and go with the data,
and a leak would show as watchers that pile up in registries to which nobody looks.
There is none. The objects that have to do with the data of an application are set
apart from all others: none of them holds one of the others, and none of the others
holds one of them. New objects join them when they are written into one of them. The
watchers that start from one of them are those that were made while the application
was built, so nobody else ever gets to one of their registries, and registering
somebody twice changes nothing.

Markup that an update puts into the view is not compiled, whatever is written in it.
So nobody listens to its nodes, and the listeners of all other nodes are the ones that
they had.

## Main definitions

* `World.LeadsTo`, `World.Reaches`: Objects that can be got to from an object.
* `Licence.plain`: A client that writes plain values only.
* `World.Fenced`: Objects that are set apart, and who is registered with them.

## Theorems

* `Fenced.step`: No event gets anybody else registered with one of them.
* `settled_of_runAll`: Nothing that happens to an application adds a binding.
-/

namespace LiveTemplate

open Relation (ReflTransGen)

variable {ν τ : Type} {v w w' : ClientWorld ν τ}

/-- A client that creates no watchers and writes plain values only. -/
def Licence.plain : Licence τ where
  keeps _ _ := True
  watches _ := False
  shares d := ∃ value, d = .plain value

/-- New readers are among the new watchers. -/
theorem Template.lt_of_mem_newReaders {t : Template (Code ν)} {ss : List BindingSite}
    {field : ObjectId × String} {s : SubscriberId} (h : s ∈ t.newReaders w ss field) :
    w.subscribers.size ≤ s.index ∧
      s.index < w.subscribers.size + (ss.filterMap t.watcher?).length := by
  rcases List.mem_filterMap.mp h with ⟨⟨watcher, i⟩, hmem, hsome⟩
  dsimp only at hsome
  split at hsome
  · injection hsome with hsome
    subst hsome
    have hplace := List.mem_zipIdx hmem
    exact ⟨hplace.1, hplace.2.1⟩
  · exact nomatch hsome

namespace World

/-- A property that can be read holds the other object. -/
def LeadsTo (w : ClientWorld ν τ) (o x : ObjectId) : Prop :=
  ∃ key p, w.property? o key = some p ∧ p.value = .object x

/-- The object can be got to from another one, through any number of properties. -/
def Reaches (w : ClientWorld ν τ) : ObjectId → ObjectId → Prop :=
  ReflTransGen w.LeadsTo

/-- Some objects are set apart, and with their properties are registered only subscribers from
    `first` on. -/
structure Fenced (w : ClientWorld ν τ) (first : Nat) (ours : ObjectId → Prop) : Prop where
  /-- The objects are there. -/
  there : ∀ o, ours o → o.index < w.objects.size
  /-- An object is ours if and only if what it holds is ours. -/
  apart : ∀ o x, w.LeadsTo o x → (ours o ↔ ours x)
  /-- A watcher that starts from one of our objects is not an old one. -/
  bound : ∀ s wt, w.subscriber? s = some (.watcher wt) → ours wt.root → first ≤ s.index
  /-- The registries of our properties are coherent, and no old subscriber is in one. -/
  enrolled : ∀ o key p, ours o → w.property? o key = some p →
    p.registry.Coherent ∧
      ∀ s ∈ p.registry.subscribers, first ≤ s.index ∧ s.index < w.subscribers.size

variable {first : Nat} {ours : ObjectId → Prop} {d : Data}

theorem pointsTo_of_leadsTo {o x : ObjectId} (h : w.LeadsTo o x) : w.PointsTo o x := by
  rcases h with ⟨key, p, hp, hx⟩
  exact pointsTo_of_property? hp hx

theorem leadsTo_of_values (hsame : SameValues (fun _ => True) w w') {o x : ObjectId}
    (h : w'.LeadsTo o x) : w.LeadsTo o x := by
  rcases h with ⟨key, p, hp, hx⟩
  have hvalue := hsame o trivial key
  rw [hp] at hvalue
  cases hq : w.property? o key with
  | none =>
      rw [hq] at hvalue
      exact absurd hvalue (by simp only [Option.map_some, Option.map_none, reduceCtorEq,
        not_false_eq_true])
  | some q =>
      rw [hq] at hvalue
      injection hvalue with hvalue
      exact ⟨key, q, hq, hvalue.symm.trans hx⟩

/-- What an object holds after a write was held before, or is what has been written. -/
theorem leadsTo_of_updateProperty {o a x : ObjectId} {key : String} {d : Data}
    (h : (w.updateProperty o key fun p => { p with value := d }).LeadsTo a x) :
    w.LeadsTo a x ∨ a = o ∧ d = .object x := by
  rcases h with ⟨k, p, hp, hx⟩
  rw [property?_updateProperty] at hp
  split at hp
  · next heq =>
      rcases Option.map_eq_some_iff.mp hp with ⟨q, _, rfl⟩
      exact .inr ⟨heq.1.symm, hx⟩
  · exact .inl ⟨k, p, hp, hx⟩

/-- Observing adds objects that lead to each other. -/
theorem leadsTo_of_extends (hextends : w.Extends w') {o x : ObjectId} (h : w'.LeadsTo o x) :
    o.index < w.objects.size ∧ w.LeadsTo o x ∨
      w.objects.size ≤ o.index ∧ w.objects.size ≤ x.index ∧ x.index < w'.objects.size := by
  rcases h with ⟨key, p, hp, hx⟩
  by_cases ho : o.index < w.objects.size
  · refine .inl ⟨ho, key, p, ?_, hx⟩
    rwa [property?, hextends.kept o ho, ← property?] at hp
  · have ho' := Nat.le_of_not_lt ho
    exact .inr ⟨ho', hextends.apart o x ho' (pointsTo_of_property? hp hx)⟩

namespace Fenced

/-- Whatever one of our objects leads to is ours. -/
theorem of_reaches (h : w.Fenced first ours) {o x : ObjectId} (ho : ours o)
    (hreaches : w.Reaches o x) : ours x := by
  induction hreaches with
  | refl => exact ho
  | tail _ hstep ih => exact (h.apart _ _ hstep).mp ih

/-- Nothing but the data and the subscribers matters. -/
theorem congr (h : w.Fenced first ours) (hobjects : w'.objects = w.objects)
    (hsubscribers : w'.subscribers = w.subscribers) : w'.Fenced first ours where
  there o ho := by
    rw [hobjects]
    exact h.there o ho
  apart o x hx := by
    refine h.apart o x (leadsTo_of_values (fun o _ key => ?_) hx)
    rw [property?_of_objects hobjects]
  bound s wt hs := by
    rw [subscriber?_of_subscribers hsubscribers] at hs
    exact h.bound s wt hs
  enrolled o key p ho hp := by
    rw [property?_of_objects hobjects] at hp
    rw [hsubscribers]
    exact h.enrolled o key p ho hp

/-- A path leads through our objects alone, or through none of them. -/
theorem root_of_mem_pathFields (h : w.Fenced first ours) {root : ObjectId} {path : String}
    {field : ObjectId × String} (hfield : field ∈ w.pathFields root path)
    (hours : ours field.1) : ours root := by
  by_contra hroot
  refine (of_mem_trail (S := fun o => ¬ours o) ?_ ?_).1 field hfield hours
  · exact fun o ho key p x hp hx hx' => ho ((h.apart o x ⟨key, p, hp, hx⟩).mpr hx')
  · rintro o ho
    injection ho with ho
    rwa [← ho]

/-- A watcher that follows its path gets to our registries only if it starts from one of our
    objects. -/
theorem follow (h : w.Fenced first ours) {s : SubscriberId} {wt : Watcher (Code ν)}
    (hs : w.subscriber? s = some (.watcher wt)) :
    (w.readPath (some s) wt.root wt.path).2.Fenced first ours := by
  have hframe := w.readPath_frame (some s) wt.root wt.path
  rw [(w.readPath_spec (some s) wt.root wt.path).1] at hframe ⊢
  have hvalues := sameValues_dependAll (fun _ => True) (some s) (w.pathFields wt.root wt.path) w
  refine ⟨?_, fun o x hx => h.apart o x (leadsTo_of_values hvalues hx), ?_, ?_⟩
  · rw [hframe.2.2.2]
    exact h.there
  · intro t wt' ht
    rw [subscriber?_of_subscribers hframe.2.1] at ht
    exact h.bound t wt' ht
  · intro o key p ho hp
    rw [property?_dependAll] at hp
    rcases Option.map_eq_some_iff.mp hp with ⟨q, hq, rfl⟩
    have hbefore := h.enrolled o key q ho hq
    rw [hframe.2.1]
    split
    · next hfield =>
        refine ⟨hbefore.1.add s, fun t ht => ?_⟩
        rcases Registry.mem_add ht with ht | rfl
        · exact hbefore.2 t ht
        · exact ⟨h.bound t wt hs (h.root_of_mem_pathFields hfield ho), lt_of_subscriber? hs⟩
    · exact hbefore

/-- What has just been observed is apart from everything else, so it may join our objects or
    not. Nobody is registered with it. -/
theorem observe (h : w.Fenced first ours) (hwhole : w.Whole) (value : Json) (join : Prop) :
    (observeValue value w).2.Fenced first fun x => ours x ∨ join ∧ w.objects.size ≤ x.index ∧
      x.index < (observeValue value w).2.objects.size := by
  have hextends := (extends_observeValue value w).1
  have hold : ∀ x : ObjectId, x.index < w.objects.size → ((ours x ∨ join ∧
      w.objects.size ≤ x.index ∧ x.index < (observeValue value w).2.objects.size) ↔ ours x) :=
    fun x hx => or_iff_left fun hnew => Nat.not_lt.mpr hnew.2.1 hx
  refine ⟨?_, ?_, ?_, ?_⟩
  · rintro o (ho | ⟨_, _, ho⟩)
    · exact Nat.lt_of_lt_of_le (h.there o ho) hextends.grown
    · exact ho
  · intro o x hx
    rcases leadsTo_of_extends hextends hx with ⟨ho, hbefore⟩ | ⟨ho, hnew⟩
    · rw [hold o ho, hold x (hwhole.closed o x (pointsTo_of_leadsTo hbefore))]
      exact h.apart o x hbefore
    · have hgone : ∀ y : ObjectId, w.objects.size ≤ y.index → ¬ours y := fun y hy hours =>
        Nat.not_lt.mpr hy (h.there y hours)
      have hlt : o.index < (observeValue value w).2.objects.size :=
        lt_of_pointsTo (pointsTo_of_leadsTo hx)
      simp only [hgone o ho, hgone x hnew.1, ho, hlt, hnew, and_self, and_true, false_or]
  · intro s wt hs hours
    rw [subscriber?_of_subscribers hextends.subscribers] at hs
    exact h.bound s wt hs ((hold _ (hwhole.ranged s wt hs)).mp hours)
  · intro o key p ho hp
    rw [hextends.subscribers]
    by_cases hlt : o.index < w.objects.size
    · rw [property?, hextends.kept o hlt, ← property?] at hp
      exact h.enrolled o key p ((hold o hlt).mp ho) hp
    · rw [hextends.blank o key p (Nat.le_of_not_lt hlt) hp]
      exact ⟨Registry.coherent_empty, fun s hs => absurd hs List.not_mem_nil⟩

/-- A write leaves our objects apart if what it writes is on the same side. -/
theorem write (h : w.Fenced first ours) {o : ObjectId} (key : String)
    (hd : ∀ x, d = .object x → (ours o ↔ ours x)) :
    (w.updateProperty o key fun p => { p with value := d }).Fenced first ours where
  there a ha := by
    rw [size_objects_updateProperty]
    exact h.there a ha
  apart a x hx := by
    rcases leadsTo_of_updateProperty hx with hbefore | ⟨rfl, hnew⟩
    · exact h.apart a x hbefore
    · exact hd x hnew
  bound := h.bound
  enrolled a k p ha hp := by
    rw [property?_updateProperty] at hp
    split at hp
    · rcases Option.map_eq_some_iff.mp hp with ⟨q, hq, rfl⟩
      exact h.enrolled a k q ha hq
    · exact h.enrolled a k p ha hp

/-- No event gets anybody in who was not, and only what is written joins our objects. -/
theorem step (h : w.Fenced first ours) (hwhole : w.Whole) (hstep : w.Happens Licence.plain w') :
    ∃ ours' : ObjectId → Prop, (∀ x, ours x → ours' x) ∧ w'.Fenced first ours' := by
  cases hstep with
  | pin | note | remember => exact ⟨ours, fun _ hx => hx, h.congr rfl rfl⟩
  | observe value => exact ⟨_, fun _ => .inl, h.observe hwhole value False⟩
  | watch path name hwatches _ => exact hwatches.elim
  | follow hs => exact ⟨ours, fun _ hx => hx, h.follow hs⟩
  | @assign o key p value _ =>
      -- What is written into one of our objects joins them.
      have hobserved := h.observe hwhole value (ours o)
      refine ⟨_, fun _ => .inl, hobserved.write key fun x hx => ?_⟩
      have hnew := (extends_observeValue value w).2 x hx
      have hx' : ¬ours x := fun hours => Nat.not_lt.mpr hnew.1 (h.there x hours)
      simp only [hx', hnew, and_self, and_true, false_or]
      exact or_iff_left_of_imp And.left
  | share hshares _ _ =>
      rcases hshares with ⟨value, rfl⟩
      exact ⟨ours, fun _ hx => hx, h.write _ nofun⟩
  | @«show» _ _ r _ _ shown =>
      have honly := w.onlyNodes_render r shown
      exact ⟨ours, fun _ hx => hx, h.congr honly.objects honly.subscribers⟩
  | enter n text => exact ⟨ours, fun _ hx => hx, h.congr rfl rfl⟩

end Fenced

end World

section Build

variable {b : Blueprint (Code ν)} {app : App (Code ν)} {sites : List BindingSite}
  {w₀ w₁ w₂ u : ClientWorld ν τ}

/-- Right after an application has been built its objects are the ones that have been observed,
    and whoever is registered with them has been added by binding. -/
theorem Blueprint.Built.fenced (h : b.Built app sites w₀ u v w₁) (hwhole : w₀.Whole) :
    w₁.Fenced w₀.subscribers.size
      fun o => w₀.objects.size ≤ o.index ∧ o.index < u.objects.size where
  there o ho := by
    rw [h.data.1]
    exact ho.2
  apart o x hx := by
    have hpoints := h.data.2 o x (World.pointsTo_of_leadsTo hx)
    have hextends := h.extends_observed.1
    by_cases ho : o.index < w₀.objects.size
    · -- Old objects hold old ones.
      rw [World.PointsTo, hextends.kept o ho, ← World.PointsTo] at hpoints
      have hlt := hwhole.closed o x hpoints
      exact iff_of_false (fun h => Nat.not_lt.mpr h.1 ho) fun h => Nat.not_lt.mpr h.1 hlt
    · have hnew := hextends.apart o x (Nat.le_of_not_lt ho) hpoints
      exact iff_of_true ⟨Nat.le_of_not_lt ho, World.lt_of_pointsTo hpoints⟩ hnew
  bound s wt hs hours := by
    refine Nat.le_of_not_lt fun hlt => ?_
    rcases h.subscriber?_cases hs with hbefore | ⟨hnone, _⟩
    · exact Nat.not_lt.mpr hours.1 (hwhole.ranged s wt hbefore)
    · rcases Heap.exists_get? hlt with ⟨subscriber, hsome⟩
      exact absurd (hnone.symm.trans hsome) (Option.some_ne_none _).symm
  enrolled o key p ho hp := by
    rw [h.adds.registries, World.property?_of_objects h.onlyNodes.objects] at hp
    rcases Option.map_eq_some_iff.mp hp with ⟨q, hq, rfl⟩
    -- Nobody was registered with the property before sites were bound.
    have hblank : q.registry = {} := h.extends_observed.1.blank o key q ho.1 hq
    have hsize : w₁.subscribers.size = v.subscribers.size +
        (sites.filterMap
          (⟨app.data, b.methods, b.markers⟩ : Template (Code ν)).watcher?).length := by
      have hlength := congrArg List.length h.adds.watchers
      rwa [List.length_append, List.length_map] at hlength
    rw [hblank]
    refine ⟨Registry.coherent_empty.foldl_add _, fun s hs => ?_⟩
    rcases Registry.mem_foldl_add hs with hbefore | hreader
    · exact absurd hbefore List.not_mem_nil
    · have hplace := Template.lt_of_mem_newReaders hreader
      rw [hsize, ← h.subscribers]
      exact hplace

/-- Updates never create bindings. Whatever happens to an application that was built from a
    template, in a world in which all objects that are mentioned are there, if its methods and
    callbacks create no watchers and write plain values only: the subscribers that are registered
    with the properties that can be got to from its data are watchers that were made while it was
    built, each of them once; there are no new subscribers; the nodes that there were have the
    listeners that they had; and nobody listens to a node that has been added. -/
theorem settled_of_runAll {code : ν → Signal → Program ν τ} {patience depth levels : Nat}
    {moves : List (Move ν τ)} (hwhole : w₀.Whole) (hmount : b.mount = none)
    (hbuild : b.build levels w₀ = some (.ok app, w₁))
    (hcode : ∀ name signal, (code name signal).Within Licence.plain)
    (hplain : ∀ m ∈ moves, m.Within Licence.plain)
    (hmoves : Run.pinned app.pins
      (Move.runAll ((Program.behaviour code).host patience depth) app moves) w₁ = some ((), w₂)) :
    (∀ o key p, w₂.Reaches app.data o → w₂.property? o key = some p →
      p.registry.subscribers.Nodup ∧ ∀ s ∈ p.registry.subscribers,
        w₀.subscriber? s = none ∧
          ∃ path r, w₁.subscriber? s = some (.watcher ⟨app.data, path, .render r⟩)) ∧
      w₂.subscribers = w₁.subscribers ∧
      (∀ n : NodeId, n.index < w₁.nodes.size → (w₂.node n).listeners = (w₁.node n).listeners) ∧
      ∀ n : NodeId, w₁.nodes.size ≤ n.index → (w₂.node n).listeners = [] := by
  rcases Blueprint.built_of_build hmount hbuild with ⟨u, v, hbuilt⟩
  have hours := hbuilt.extends_observed.2
  -- What every event keeps.
  have hkept := (course_of_moves hcode hplain hmoves).keeps (fun w => w.Whole ∧
      w.subscribers = w₁.subscribers ∧ w₁.SameListeners w ∧
        ∃ ours, ours app.data ∧ w.Fenced w₀.subscribers.size ours)
    (fun {w w'} hw hstep => by
      rcases hw with ⟨hwhole, hsame, hlisteners, ours, hdata, hfenced⟩
      rcases hfenced.step hwhole hstep with ⟨ours', hmore, hfenced'⟩
      refine ⟨hstep.whole hwhole, ?_, hlisteners.trans hstep.sameListeners,
        ours', hmore app.data hdata, hfenced'⟩
      rcases hstep.joined with hsame' | ⟨_, _, _, hwatches, _⟩
      · exact hsame'.trans hsame
      · exact hwatches.elim)
    ⟨hbuilt.whole hwhole, rfl, .refl w₁, _, hours, hbuilt.fenced hwhole⟩
  rcases hkept with ⟨_, hsame, hlisteners, ours, hdata, hfenced⟩
  refine ⟨?_, hsame, fun n _ => hlisteners.listeners n, ?_⟩
  · intro o key p hreaches hp
    have henrolled := hfenced.enrolled o key p (hfenced.of_reaches hdata hreaches) hp
    refine ⟨henrolled.1.nodup, fun s hs => ?_⟩
    have hplace := henrolled.2 s hs
    have hnone : w₀.subscriber? s = none := Heap.get?_eq_none hplace.1
    rw [hsame] at hplace
    rcases Heap.exists_get? hplace.2 with ⟨subscriber, hsome⟩
    rcases hbuilt.subscriber?_cases hsome with hbefore | ⟨_, path, r, rfl⟩
    · exact absurd (hnone.symm.trans hbefore) nofun
    · exact ⟨hnone, path, r, hsome⟩
  · intro n hn
    rw [hlisteners.listeners n, World.node, Heap.get?_eq_none hn]
    rfl

end Build

/-- A method that replaces a person. -/
def promote : Unit → Signal → Program Unit Unit
  | (), .invoked data _ =>
    .ask (.set data "person" (.literal (.json (.object [("name", .string "Bo")])))) fun _ => .done
  | (), _ => .done

/-- A card with a note that is markup, and a person that can be clicked. -/
def card : Blueprint (Code Unit) where
  data := some (.object [("note", .string ""), ("person", .object [("name", .string "Al")])])
  template :=
    some "<div><p v-html=\"note\"></p><b @click=\"promote\">\x7b\x7b person.name \x7d\x7d</b></div>"
  methods := [("promote", .method ())]

/-- The note becomes markup that looks like a template, and the person is replaced. -/
def promotion : List (Move Unit Unit) :=
  [.set "note" (.literal (.json
    (.string "<i @click=\"promote\">\x7b\x7b person.name \x7d\x7d</i>"))),
    .dispatch ⟨2⟩ { kind := "click" }]

/-- The application that shows the card. -/
def cardApp : App (Code Unit) :=
  ⟨⟨1⟩, ⟨0⟩, card.methods⟩

theorem isSome_card : (card.build 9 (World.start Unit ())).isSome = true := by
  decide +kernel

/-- The world in which the card is shown. -/
def cardWorld : ClientWorld Unit Unit :=
  ((card.build 9 (World.start Unit ())).get isSome_card).2

theorem isSome_promotion : (Run.pinned cardApp.pins (Move.runAll
    ((Program.behaviour promote).host 9 9) cardApp promotion) cardWorld).isSome = true := by
  decide +kernel

/-- The world afterwards. -/
def promotedWorld : ClientWorld Unit Unit :=
  ((Run.pinned cardApp.pins (Move.runAll ((Program.behaviour promote).host 9 9) cardApp
    promotion) cardWorld).get isSome_promotion).2

theorem settled_of_runAll_promotion :
    card.build 9 (World.start Unit ()) = some (.ok cardApp, cardWorld) ∧
      Run.pinned cardApp.pins (Move.runAll ((Program.behaviour promote).host 9 9) cardApp
        promotion) cardWorld = some ((), promotedWorld) ∧
      (promotedWorld.node ⟨4⟩).attributes = [("@click", "promote")] ∧
      (promotedWorld.node ⟨4⟩).listeners = [] ∧
      (∃ p, promotedWorld.property? ⟨2⟩ "name" = some p ∧ p.registry.subscribers = [⟨1⟩]) ∧
      ∃ path r, cardWorld.subscriber? ⟨1⟩ = some (.watcher ⟨cardApp.data, path, .render r⟩) := by
  have hbuild : card.build 9 (World.start Unit ()) = some (.ok cardApp, cardWorld) :=
    Run.eq_some_of_fst isSome_card (by decide +kernel)
  have hmoves : Run.pinned cardApp.pins (Move.runAll ((Program.behaviour promote).host 9 9)
      cardApp promotion) cardWorld = some ((), promotedWorld) :=
    Program.eq_some_get isSome_promotion
  have hcode : ∀ name signal, (promote name signal).Within Licence.plain := by
    rintro ⟨⟩ (_ | _ | _ | _)
    all_goals simp only [promote, Program.Within, Command.Within, Source.Within, implies_true,
      and_self]
  have hplain : ∀ m ∈ promotion, m.Within Licence.plain := by
    simp only [promotion, List.forall_mem_cons, Move.Within, Source.Within, true_and,
      List.not_mem_nil, false_imp_iff, implies_true]
  have hsettled := settled_of_runAll (World.whole_start ()) rfl hbuild hcode hplain hmoves
  have hsize : cardWorld.nodes.size = 4 := by decide +kernel
  have hattributes : (promotedWorld.node ⟨4⟩).attributes = [("@click", "promote")] := by
    decide +kernel
  -- The new person has been written where the first one was.
  have hperson : (promotedWorld.property? cardApp.data "person").bind (·.value.object?) =
      some ⟨2⟩ := by decide +kernel
  have hname : (promotedWorld.property? ⟨2⟩ "name").map (·.registry.subscribers) = some [⟨1⟩] := by
    decide +kernel
  rcases Option.bind_eq_some_iff.mp hperson with ⟨person, hperson, hobject⟩
  rcases Option.map_eq_some_iff.mp hname with ⟨p, hp, hsubscribers⟩
  have hnew : promotedWorld.Reaches cardApp.data ⟨2⟩ :=
    .single ⟨"person", person, hperson, Data.eq_object_of_object? hobject⟩
  have hmem : (⟨1⟩ : SubscriberId) ∈ p.registry.subscribers := by
    rw [hsubscribers]
    exact List.mem_cons_self
  exact ⟨hbuild, hmoves, hattributes, hsettled.2.2.2 ⟨4⟩ (Nat.le_of_eq hsize),
    ⟨p, hp, hsubscribers⟩,
    ((hsettled.1 ⟨2⟩ "name" p hnew hp).2 ⟨1⟩ hmem).2⟩

end LiveTemplate
