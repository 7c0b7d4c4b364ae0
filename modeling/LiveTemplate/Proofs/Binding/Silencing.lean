import LiveTemplate.Proofs.Binding.Coursing
import LiveTemplate.Proofs.Reaction.Silence

/-!
# Applications Go Silent with Their Data

Bindings do not keep the data alive.

Watchers and listeners know the data of their application without holding on to it. So
once the client has let go of an application and of every handle to its data, the data
is gone, whatever else the client keeps: nodes of the view, watchers, or objects that
the data held. What is left are watchers that watch nothing and listeners that belong
to nothing, and whatever is done to them nobody is called and the view stays as it is.
Only a form field into which text is entered holds that text.

The reasoning is about the graph of who holds what. Observing makes trees whose root
nobody holds. Binding adds watchers and listeners and makes nobody hold anything. From
then on the client decides, and as long as it neither gives the data away nor watches
anything else, every event leaves it that way.

## Main definitions

* `World.Vacant`: Nobody is there yet.
* `Host.mute`: A host that has no answer to any call.
* `Touch`: Something that is done to what is left of an application.

## Theorems

* `Blueprint.Built.devoted`: After building everybody is devoted to the data.
* `Touch.hushed_runAll`: What is done in silence calls nobody.
* `silent_of_drop`: Once the data has been dropped there is silence.
-/

namespace LiveTemplate

variable {ν τ : Type} {root : ObjectId} {w w' : ClientWorld ν τ}

/-- Nobody is there to watch or to listen, and all objects that are mentioned are there. -/
structure World.Vacant (w : ClientWorld ν τ) : Prop where
  /-- All objects that are mentioned are there. -/
  whole : w.Whole
  /-- There are no subscribers. -/
  unwatched : ∀ s, w.subscriber? s = none
  /-- There are no listeners. -/
  unheard : ∀ n, (w.node n).listeners = []

theorem World.vacant_start (memory : τ) : (World.start ν memory).Vacant where
  whole := World.whole_start memory
  unwatched := LiveTemplate.subscriber?_start memory
  unheard _ := rfl

/-- A host that has no answer to any call. A run in which somebody is called comes to no end. -/
def Host.mute {κ σ : Type} (host : Host κ σ) : Host κ σ :=
  ⟨fun _ _ => Run.stuck, host.patience⟩

/-- Something that is done to what is left of an application. -/
inductive Touch (ν τ : Type) where
  /-- A subscriber is updated. -/
  | update (s : SubscriberId)
  /-- The client runs a program. -/
  | client (p : Program ν τ)
  /-- An event is dispatched at a node. -/
  | dispatch (n : NodeId) (e : Event)
  /-- Text is entered into a form field. -/
  | input (n : NodeId) (text : String)

namespace Touch

/-- What is done. -/
def run (host : Host (Code ν) (Journal τ)) : Touch ν τ → Run (Code ν) (Journal τ) Unit
  | update s => host.refresh s
  | client p => p.run host
  | dispatch n e => do
    let _ ← host.dispatch n e
    pure ()
  | input n text => do
    let _ ← host.input n text
    pure ()

/-- Several things are done, one after the other. -/
def runAll (host : Host (Code ν) (Journal τ)) :
    List (Touch ν τ) → Run (Code ν) (Journal τ) Unit
  | [] => pure ()
  | t :: ts => do
    t.run host
    runAll host ts

/-- It does what the client may do. -/
def Within (l : Licence τ) : Touch ν τ → Prop
  | client p => p.Within l
  | _ => True

/-- What it changes about the view by itself: text is entered. -/
def enter : Touch ν τ → ClientWorld ν τ → ClientWorld ν τ
  | input n text, w => w.setValue n text
  | _, w => w

/-- Entering text changes no text and no children, and what a form field holds only where the
    text is entered. -/
theorem parts_enter (t : Touch ν τ) (w : ClientWorld ν τ) (n : NodeId) :
    ((t.enter w).node n).kind = (w.node n).kind ∧
      ((t.enter w).node n).children = (w.node n).children ∧
      ((∀ text, t ≠ input n text) → ((t.enter w).node n).value = (w.node n).value) := by
  cases t with
  | update | client | dispatch => exact ⟨rfl, rfl, fun _ => rfl⟩
  | input m text =>
      have hparts := w.parts_setValue m text n
      refine ⟨hparts.1, hparts.2.2.1, fun hnot => ?_⟩
      have hne : m ≠ n := by
        rintro rfl
        exact hnot text rfl
      exact congrArg Node.value (World.node_updateNode_of_ne w _ hne)

/-- What is done in silence is the same for all hosts, and only what is entered changes the
    view. -/
theorem hushed_run {host host' : Host (Code ν) (Journal τ)}
    (hpatience : host.patience = host'.patience) {t : Touch ν τ}
    (ht : t.Within (Licence.loyal root)) (hw : w.Silent root) :
    t.run host w = t.run host' w ∧ ∀ u w', t.run host w = some (u, w') →
      w'.Silent root ∧ w'.nodes = (t.enter w).nodes := by
  cases t with
  | update s => exact hushed_refresh host host' s hw
  | client p => exact hushed_program host host' ht hw
  | dispatch n e =>
      exact Run.Hushed.bind (hushed_dispatch host host' hpatience n e) (fun _ _ _ => .pure ()) hw
  | input n text =>
      -- After the text has been entered there is nothing but an event.
      have hentered : (w.setValue n text).Silent root :=
        ⟨hw.devoted.congr rfl rfl (.updateNode w n fun _ => rfl), hw.unpinned, hw.released⟩
      exact Run.Hushed.bind (hushed_dispatch host host' hpatience n { kind := "input" })
        (fun _ _ _ => .pure ()) hentered

/-- Whatever is done in silence is the same for all hosts, and only what is entered changes the
    view. -/
theorem hushed_runAll {host host' : Host (Code ν) (Journal τ)}
    (hpatience : host.patience = host'.patience) {ts : List (Touch ν τ)}
    (hts : ∀ t ∈ ts, t.Within (Licence.loyal root)) (hw : w.Silent root) :
    runAll host ts w = runAll host' ts w ∧ ∀ u w', runAll host ts w = some (u, w') →
      w'.Silent root ∧ ∀ n, (w'.node n).kind = (w.node n).kind ∧
        (w'.node n).children = (w.node n).children ∧
        ((∀ text, input n text ∉ ts) → (w'.node n).value = (w.node n).value) := by
  induction ts generalizing w with
  | nil =>
      refine ⟨rfl, fun u w' hrun => ?_⟩
      rw [runAll, Run.pure_eq_some_iff] at hrun
      rcases hrun with ⟨_, rfl⟩
      exact ⟨hw, fun n => ⟨rfl, rfl, fun _ => rfl⟩⟩
  | cons t ts ih =>
      rw [List.forall_mem_cons] at hts
      rcases hushed_run hpatience hts.1 hw with ⟨hsame, hafter⟩
      have hbind : ∀ h, runAll h (t :: ts) w = (t.run h w).bind fun r => runAll h ts r.2 :=
        fun _ => rfl
      rw [hbind, hbind, ← hsame]
      cases hrun : t.run host w with
      | none => exact ⟨rfl, fun _ _ h => nomatch h⟩
      | some result =>
          rcases result with ⟨u, v⟩
          rcases hafter u v hrun with ⟨hv, hnodes⟩
          rcases ih hts.2 hv with ⟨hsame', hafter'⟩
          refine ⟨hsame', fun u' w' hrun' => ?_⟩
          rcases hafter' u' w' hrun' with ⟨hw', hview⟩
          refine ⟨hw', fun n => ?_⟩
          have hentered := t.parts_enter w n
          rw [World.node, ← hnodes, ← World.node] at hentered
          rcases hview n with ⟨hkind, hchildren, hvalue⟩
          refine ⟨hkind.trans hentered.1, hchildren.trans hentered.2.1, fun hnot => ?_⟩
          refine (hvalue fun text hmem => hnot text (List.mem_cons_of_mem t hmem)).trans ?_
          exact hentered.2.2 fun text heq => hnot text (heq ▸ List.mem_cons_self)

end Touch

/-! ### Building -/

/-- What is bound belongs to the data. -/
theorem Template.belongsTo_of_listener? {t : Template (Code ν)} {site : BindingSite}
    {entry : String × Listener (Code ν)} (h : t.listener? site = some entry) :
    entry.2.BelongsTo t.data := by
  cases site with
  | event n event modifiers method =>
      rcases Option.map_eq_some_iff.mp h with ⟨m, _, rfl⟩
      exact rfl
  | value description key r =>
      cases r with
      | field n =>
          rw [← Option.some.inj h]
          exact rfl
      | interpolated | text | markup => exact nomatch h

/-- Nobody holds an object that has just been observed as a whole. -/
theorem World.not_pointsTo_observed (hwhole : w.Whole) {value : Json} {o : ObjectId}
    (hobserve : World.observeValue value w = (.object o, w')) (a : ObjectId) :
    ¬w'.PointsTo a o := by
  have hmember : ∃ members, value = .object members := by
    cases value with
    | object members => exact ⟨members, rfl⟩
    | _ =>
        rw [World.observeValue] at hobserve
        · cases hobserve
        · rintro _ ⟨⟩
  rcases hmember with ⟨members, rfl⟩
  have hmembers := World.extends_observe.2 members w
  rw [World.observeValue] at hobserve
  generalize World.observeMembers members w = observed at hmembers hobserve
  rcases observed with ⟨properties, v⟩
  dsimp only at hmembers hobserve
  -- The object is the newest one.
  have ho : v.objects.size = o.index :=
    congrArg ObjectId.index (Data.object.inj (Prod.mk.inj hobserve).1)
  have hw' : (v.addObject properties).2 = w' := (Prod.mk.inj hobserve).2
  rw [← hw']
  rintro ⟨entry, hentry, hvalue⟩
  rw [World.object, World.addObject, Heap.get?_add] at hentry
  split at hentry
  · exact Nat.ne_of_lt ((hmembers.2 entry hentry).1 o hvalue).2 ho.symm
  · have hpoints : v.PointsTo a o := ⟨entry, hentry, hvalue⟩
    by_cases ha : a.index < w.objects.size
    · rw [World.PointsTo, hmembers.1.kept a ha, ← World.PointsTo] at hpoints
      have hlt := Nat.lt_of_lt_of_le (hwhole.closed a o hpoints) hmembers.1.grown
      exact Nat.ne_of_lt hlt ho.symm
    · exact Nat.ne_of_lt (hmembers.1.apart a o (Nat.le_of_not_lt ha) hpoints).2 ho.symm

/-- Right after an application has been built everybody is devoted to its data. -/
theorem Blueprint.Built.devoted {b : Blueprint (Code ν)} {app : App (Code ν)}
    {sites : List BindingSite} {w₀ u v w₁ : ClientWorld ν τ} (h : b.Built app sites w₀ u v w₁)
    (hvacant : w₀.Vacant) : w₁.Devoted app.data where
  there := by
    rw [h.data.1]
    exact h.extends_observed.2.2
  unheld o ho := World.not_pointsTo_observed hvacant.whole h.observed o (h.data.2 o app.data ho)
  watching s subscriber hs := by
    rcases h.subscriber?_cases hs with hbefore | ⟨_, key, r, rfl⟩
    · exact absurd ((hvacant.unwatched s).symm.trans hbefore) nofun
    · exact ⟨_, rfl, rfl⟩
  listening n entry hentry := by
    rw [h.adds.listeners, h.sameListeners.listeners, hvacant.unheard, List.nil_append] at hentry
    rcases List.mem_filterMap.mp hentry with ⟨site, _, hsite⟩
    exact Template.belongsTo_of_listener? hsite

/-- Once an application and all handles to its data have been dropped, the data is gone,
    whatever else is still held: the client of an application that was built from a template
    has created watchers on its data only, has never written the data anywhere, and holds on to
    anything but the data now. From then on whatever is done to nodes, watchers and objects is the
    same for a host that has no answer to any call, so nobody is called. No node changes its
    text or its children, and no form field holds anything else unless text has been entered
    into it. -/
theorem silent_of_drop {b : Blueprint (Code ν)} {app : App (Code ν)} {w₀ w₁ w₂ : ClientWorld ν τ}
    {code : ν → Signal → Program ν τ} {patience depth levels : Nat} {moves : List (Move ν τ)}
    {pins : List Handle} {j : Journal τ} (hvacant : w₀.Vacant) (hmount : b.mount = none)
    (hbuild : b.build levels w₀ = some (.ok app, w₁))
    (hcode : ∀ name signal, (code name signal).Within (Licence.loyal app.data))
    (hloyal : ∀ m ∈ moves, m.Within (Licence.loyal app.data))
    (hmoves : Run.pinned app.pins
      (Move.runAll ((Program.behaviour code).host patience depth) app moves) w₁ = some ((), w₂))
    (hpins : .object app.data ∉ pins) (hheld : .object app.data ∉ j.held) :
    World.alive { w₂ with pins := pins, client := j } (.object app.data) = false ∧
      ∀ (host : Host (Code ν) (Journal τ)) (touches : List (Touch ν τ)),
        (∀ t ∈ touches, t.Within (Licence.loyal app.data)) →
          Touch.runAll host touches { w₂ with pins := pins, client := j } =
              Touch.runAll host.mute touches { w₂ with pins := pins, client := j } ∧
            ∀ w₃, Touch.runAll host touches { w₂ with pins := pins, client := j } =
                some ((), w₃) →
              w₃.alive (.object app.data) = false ∧
                ∀ n, (w₃.node n).kind = (w₂.node n).kind ∧
                  (w₃.node n).children = (w₂.node n).children ∧
                  ((∀ text, Touch.input n text ∉ touches) →
                    (w₃.node n).value = (w₂.node n).value) := by
  rcases Blueprint.built_of_build hmount hbuild with ⟨u, v, hbuilt⟩
  have hdevoted := (course_of_moves hcode hloyal hmoves).keeps (·.Devoted app.data)
    (fun h hstep => h.step hstep) (hbuilt.devoted hvacant)
  have hsilent : World.Silent { w₂ with pins := pins, client := j } app.data :=
    ⟨hdevoted.congr rfl rfl ⟨Nat.le_refl _, fun _ => rfl⟩, hpins, hheld⟩
  refine ⟨hsilent.alive_eq_false, fun host touches htouches => ?_⟩
  have hpatience : host.patience = host.mute.patience := rfl
  rcases Touch.hushed_runAll hpatience htouches hsilent with
    ⟨hsame, hafter⟩
  exact ⟨hsame, fun w₃ hrun =>
    ⟨(hafter () w₃ hrun).1.alive_eq_false, (hafter () w₃ hrun).2⟩⟩

/-- A method that gives a person a name, and a callback that counts. -/
def retitle : Unit → Signal → Program Unit Nat
  | (), .invoked data _ =>
    .ask (.setPath data "person.name" (.literal (.json (.string "Bo")))) fun _ => .done
  | (), .changed _ => .ask (.remember (· + 1)) fun _ => .done
  | (), _ => .done

/-- A badge with a form field for the name, and something to click. -/
def badge : Blueprint (Code Unit) where
  data := some (.object [("person", .object [("name", .string "Al")])])
  template := some
    "<p>\x7b\x7b person.name \x7d\x7d<input v-model=\"person.name\"><b @click=\"retitle\"></b></p>"
  methods := [("retitle", .method ())]

/-- The client watches the name and holds on to the person. Then the name changes twice. -/
def wearing : List (Move Unit Nat) :=
  [.client (.ask (.watch ⟨1⟩ "person.name" ()) fun _ => .ask (.hold ⟨0⟩) fun _ => .done),
    .dispatch ⟨3⟩ { kind := "click" }, .input ⟨2⟩ "Di"]

/-- Everything that is left is touched. -/
def fumbling : List (Touch Unit Nat) :=
  [.update ⟨2⟩, .client (.ask (.set ⟨0⟩ "name" (.literal (.json (.string "Zed")))) fun _ => .done),
    .dispatch ⟨3⟩ { kind := "click" }, .input ⟨2⟩ "Flo"]

/-- The application that shows the badge. -/
def badgeApp : App (Code Unit) :=
  ⟨⟨1⟩, ⟨0⟩, badge.methods⟩

theorem isSome_badge : (badge.build 9 (World.start Unit 0)).isSome = true := by
  decide +kernel

/-- The world in which the badge is shown. -/
def badgeWorld : ClientWorld Unit Nat :=
  ((badge.build 9 (World.start Unit 0)).get isSome_badge).2

theorem isSome_wearing : (Run.pinned badgeApp.pins (Move.runAll
    ((Program.behaviour retitle).host 9 9) badgeApp wearing) badgeWorld).isSome = true := by
  decide +kernel

/-- The world in which the badge has been worn. -/
def wornWorld : ClientWorld Unit Nat :=
  ((Run.pinned badgeApp.pins (Move.runAll ((Program.behaviour retitle).host 9 9) badgeApp
    wearing) badgeWorld).get isSome_wearing).2

/-- Nothing but the data has been let go of. -/
def droppedJournal : Journal Nat :=
  { wornWorld.client with held := [.object ⟨0⟩, .node ⟨0⟩, .subscriber ⟨0⟩, .subscriber ⟨2⟩] }

/-- The world without the badge's data. -/
def droppedWorld : ClientWorld Unit Nat :=
  { wornWorld with pins := [], client := droppedJournal }

theorem isSome_fumbling : (Touch.runAll ((Program.behaviour retitle).host 9 9) fumbling
    droppedWorld).isSome = true := by
  decide +kernel

/-- The world in which everything has been touched. -/
def fumbledWorld : ClientWorld Unit Nat :=
  ((Touch.runAll ((Program.behaviour retitle).host 9 9) fumbling droppedWorld).get
    isSome_fumbling).2

theorem silent_of_drop_badge :
    badge.build 9 (World.start Unit 0) = some (.ok badgeApp, badgeWorld) ∧
      Run.pinned badgeApp.pins (Move.runAll ((Program.behaviour retitle).host 9 9) badgeApp
        wearing) badgeWorld = some ((), wornWorld) ∧
      droppedWorld.alive (.object badgeApp.data) = false ∧
      droppedWorld.alive (.object ⟨0⟩) = true ∧
      Touch.runAll ((Program.behaviour retitle).host 9 9) fumbling droppedWorld =
        some ((), fumbledWorld) ∧
      (fumbledWorld.property? ⟨0⟩ "name").bind (·.value.string?) = some "Zed" ∧
      (fumbledWorld.node ⟨1⟩).kind = .text "Di" := by
  have hbuild : badge.build 9 (World.start Unit 0) = some (.ok badgeApp, badgeWorld) :=
    Run.eq_some_of_fst isSome_badge (by decide +kernel)
  have hmoves : Run.pinned badgeApp.pins (Move.runAll ((Program.behaviour retitle).host 9 9)
      badgeApp wearing) badgeWorld = some ((), wornWorld) := Program.eq_some_get isSome_wearing
  have hcode : ∀ name signal, (retitle name signal).Within (Licence.loyal badgeApp.data) := by
    rintro ⟨⟩ (_ | _ | _ | _)
    all_goals simp only [retitle, Program.Within, Command.Within, Source.Within, Licence.loyal,
      implies_true, and_self]
  have hloyal : ∀ m ∈ wearing, m.Within (Licence.loyal badgeApp.data) := by
    simp only [wearing, List.forall_mem_cons, Move.Within, Program.Within, Command.Within,
      Licence.loyal, badgeApp, implies_true, and_self, List.not_mem_nil, false_imp_iff]
  have htouches : ∀ t ∈ fumbling, t.Within (Licence.loyal badgeApp.data) := by
    simp only [fumbling, List.forall_mem_cons, Touch.Within, Program.Within, Command.Within,
      Source.Within, implies_true, and_self, List.not_mem_nil, false_imp_iff]
  have hheld : .object badgeApp.data ∉ droppedJournal.held := by decide +kernel
  have hsilent := silent_of_drop (World.vacant_start 0) rfl hbuild hcode hloyal hmoves
    List.not_mem_nil hheld
  have hrun : Touch.runAll ((Program.behaviour retitle).host 9 9) fumbling droppedWorld =
      some ((), fumbledWorld) := Program.eq_some_get isSome_fumbling
  have htext : (wornWorld.node ⟨1⟩).kind = .text "Di" := by decide +kernel
  have hafter := (hsilent.2 ((Program.behaviour retitle).host 9 9) fumbling htouches).2
    fumbledWorld hrun
  exact ⟨hbuild, hmoves, hsilent.1, by decide +kernel, hrun, by decide +kernel,
    (hafter.2 ⟨1⟩).1.trans htext⟩

end LiveTemplate
