import LiveTemplate.Proofs.Binding.Building
import LiveTemplate.Proofs.Reaction.Dispatching

/-!
# The View Is Consistent

After any run of an application its bindings show the values of the data.

An application is built from a template in the world of a client that has run programs
already, so there may be watchers and observed data. From then on, whatever happens
happens to the whole: the client writes data through the application, calls its
methods by name, enters text into form fields, dispatches events and runs programs of
its own, and methods and callbacks are programs as well. None of this is told apart
here. Each move keeps the invariant, so any number of them does.

What a binding shows is then read off the view. The conditions are the ones under which
a binding has an aspect of its node for itself: it is the only directive that changes
it, and what it put beneath the node first asked for nothing, so that no binding was
made inside.

## Main definitions

* `Move`: Something that happens to an application.
* `World.Alone`: No other directive changes the same aspect of the same node.
* `World.Presents`: The view presents a value as a binding has to.

## Theorems

* `Move.runAll_kept`: What happens keeps everybody up to date.
* `presents_of_runAll`: After any run the view presents the values of the data.
-/

namespace LiveTemplate

open Markup

variable {ν τ : Type} {v w w' : ClientWorld ν τ}

/-- Something that happens to an application. -/
inductive Move (ν τ : Type) where
  /-- The client runs a program. -/
  | client (p : Program ν τ)
  /-- The client writes a value into the data. -/
  | set (path : String) (value : Source)
  /-- The client calls a method by name. -/
  | call (name : String)
  /-- Text is entered into a form field. -/
  | input (n : NodeId) (text : String)
  /-- An event is dispatched at a node. -/
  | dispatch (n : NodeId) (e : Event)

namespace Move

/-- What the move does. -/
def run (host : Host (Code ν) (Journal τ)) (app : App (Code ν)) :
    Move ν τ → Run (Code ν) (Journal τ) Unit
  | client p => p.run host
  | set path source => do
    let value ← source.obtain
    let _ ← host.setData app path value
    pure ()
  | call name => do
    let _ ← host.callMethod app name
    pure ()
  | input n text => do
    let _ ← host.input n text
    pure ()
  | dispatch n e => do
    let _ ← host.dispatch n e
    pure ()

/-- Several moves, one after the other. -/
def runAll (host : Host (Code ν) (Journal τ)) (app : App (Code ν)) :
    List (Move ν τ) → Run (Code ν) (Journal τ) Unit
  | [] => pure ()
  | m :: ms => do
    m.run host app
    runAll host app ms

section Kept

variable {D : Display ν τ} {host : Host (Code ν) (Journal τ)} {app : App (Code ν)} {u : Unit}

theorem mem_pins_iff {o : ObjectId} : .object o ∈ app.pins ↔ o = app.data := by
  simp only [App.pins, List.mem_cons, Handle.object.injEq, reduceCtorEq, List.not_mem_nil,
    or_false]

/-- Writing a value into the data. -/
theorem setData_kept (hhost : Serves D host) (hD : D.Lawful) {path : String} {d : Data}
    {result : Except BindingError Bool} (hdata : .object app.data ∈ w.pins)
    (h : Kept D [] [] { w with pins := d.owned ++ w.pins })
    (hd : ∀ x, d = .object x → x.index < w.objects.size)
    (hrun : host.setData app path d w = some (result, w')) :
    Kept D [] [] w' ∧ w'.pins = w.pins := by
  refine Kept.pinned hD.toOfView hrun fun u hset => ?_
  refine hhost.setPath_kept (w := { w with pins := app.pins ++ w.pins }) hD ?_ hd
    (World.alive_of_mem_pins List.mem_cons_self) hset
  refine h.pins hD.toOfView fun o ho => World.alive_of_mem_pins ?_
  rcases List.mem_append.mp ho with ho | ho
  · exact List.mem_append_left _ ho
  · rcases List.mem_append.mp ho with ho | ho
    · rw [mem_pins_iff.mp ho]
      exact List.mem_append_right _ hdata
    · exact List.mem_append_right _ ho

/-- Calling a method by name. -/
theorem callMethod_kept (hhost : Serves D host) (hD : D.Lawful) {name : String}
    {found : Bool} (hdata : .object app.data ∈ w.pins)
    (h : Kept D [] [] w)
    (hrun : host.callMethod app name w = some (found, w')) :
    Kept D [] [] w' ∧ w'.pins = w.pins := by
  simp only [Host.callMethod] at hrun
  cases hmethod : Table.find? name app.methods with
  | none =>
      rw [hmethod, Run.pure_eq_some_iff] at hrun
      rcases hrun with ⟨_, rfl⟩
      exact ⟨h, rfl⟩
  | some method =>
      rw [hmethod] at hrun
      simp only [Run.bind_eq_some_iff, Run.pure_eq_some_iff] at hrun
      rcases hrun with ⟨_, u, hcall, _, rfl⟩
      refine Kept.pinned hD.toOfView hcall fun u hu => ?_
      simp only [Run.bind_eq_some_iff, Run.pure_eq_some_iff] at hu
      rcases hu with ⟨flags, u', hanswer, _, rfl⟩
      refine hhost.other ?_ (h.pin hD.toOfView fun o ho => ?_) hanswer
      · exact fun d hd => absurd hd (by simp only [reduceCtorEq, not_false_eq_true])
      · rw [mem_pins_iff.mp ho]
        exact World.alive_of_mem_pins hdata

/-- The client writes a value into the data. -/
theorem set_kept (hhost : Serves D host) (hD : D.Lawful) {path : String} {source : Source}
    (hdata : .object app.data ∈ w.pins) (h : Kept D [] [] w)
    (hrun : (set path source).run host app w = some (u, w')) :
    Kept D [] [] w' ∧ w'.pins = w.pins := by
  simp only [run, Run.bind_eq_some_iff, Run.pure_eq_some_iff] at hrun
  rcases hrun with ⟨d, w₁, hobtain, _, _, hset, _, rfl⟩
  rcases Source.obtain_kept hD.toOfView h hobtain with ⟨hkept, hpins, hd⟩
  have hdata' : .object app.data ∈ w₁.pins := by rwa [hpins]
  have hwritten := setData_kept hhost hD hdata' hkept hd hset
  exact ⟨hwritten.1, hwritten.2.trans hpins⟩

/-- If every move keeps everybody up to date, then what happens does. -/
theorem runAll_kept {ms : List (Move ν τ)} (hdata : .object app.data ∈ w.pins)
    (h : Kept D [] [] w)
    (hmoves : ∀ m ∈ ms, ∀ {w w' : ClientWorld ν τ} {u : Unit}, .object app.data ∈ w.pins →
      Kept D [] [] w → m.run host app w = some (u, w') → Kept D [] [] w' ∧ w'.pins = w.pins)
    (hrun : runAll host app ms w = some (u, w')) :
    Kept D [] [] w' ∧ w'.pins = w.pins := by
  induction ms generalizing w with
  | nil =>
      rw [runAll, Run.pure_eq_some_iff] at hrun
      rcases hrun with ⟨_, rfl⟩
      exact ⟨h, rfl⟩
  | cons m ms ih =>
      rw [List.forall_mem_cons] at hmoves
      simp only [runAll, Run.bind_eq_some_iff] at hrun
      rcases hrun with ⟨_, w₁, hfirst, hothers⟩
      have hkept := hmoves.1 hdata h hfirst
      have hdata' : .object app.data ∈ w₁.pins := by rwa [hkept.2]
      have hrest := ih hdata' hkept.1 hmoves.2 hothers
      exact ⟨hrest.1, hrest.2.trans hkept.2⟩

end Kept

/-- A move keeps the view up to date that has been completed. -/
theorem run_kept {first : SubscriberId → Rendering → Prop}
    {host : Host (Code ν) (Journal τ)} {app : App (Code ν)} {u : Unit}
    (hhost : Serves (Display.lasting v first) host) {m : Move ν τ}
    (hdata : .object app.data ∈ w.pins) (h : Kept (Display.lasting v first) [] [] w)
    (hrun : m.run host app w = some (u, w')) :
    Kept (Display.lasting v first) [] [] w' ∧ w'.pins = w.pins := by
  have hlawful := Display.lawful_lasting v first
  cases m with
  | client p => exact Program.run_kept hhost hlawful h hrun
  | set path source => exact set_kept hhost hlawful hdata h hrun
  | call name =>
      simp only [run, Run.bind_eq_some_iff, Run.pure_eq_some_iff] at hrun
      rcases hrun with ⟨_, _, hcall, _, rfl⟩
      exact callMethod_kept hhost hlawful hdata h hcall
  | input n text =>
      simp only [run, Run.bind_eq_some_iff, Run.pure_eq_some_iff] at hrun
      rcases hrun with ⟨_, _, hinput, _, rfl⟩
      exact hhost.input h hinput
  | dispatch n e =>
      simp only [run, Run.bind_eq_some_iff, Run.pure_eq_some_iff] at hrun
      rcases hrun with ⟨_, _, hdispatch, _, rfl⟩
      exact hhost.dispatch hlawful h hdispatch

end Move

namespace World

/-- No other directive changes the same aspect of the same node. -/
def Alone (w : ClientWorld ν τ) (markers : Markers) (r : Rendering) : Prop :=
  aspectCount r.aspect (directivesOf markers (w.node r.target).attributes) = 1

/-- The view presents a value as a binding has to that was made while the view was built. A
    text that is bound has the value in place of its expression. An element presents it if
    the directive was the only one for it, and if besides nothing that was put beneath the
    element first was bound as well. -/
def Presents (v w : ClientWorld ν τ) (markers : Markers) (wt : Watcher (Code ν)) (r : Rendering)
    (value : Json) : Prop :=
  match r with
  | .interpolated n i => (w.node n).kind = .text (i.before ++ value.display ++ i.after)
  | .field n => v.Alone markers r → (w.node n).value = value.display
  | .text n => v.Alone markers r → v.FirstPlain markers wt r →
      w.textContent? n = some value.display
  | .markup n => v.Alone markers r → v.FirstPlain markers wt r →
      w.trees? (w.node n).children = some (parse value.display) ∧
        w.innerHtml? n = some (html (parse value.display))

/-- What is shown is presented. -/
theorem presents_of_holds {markers : Markers} {s : SubscriberId} {wt : Watcher (Code ν)}
    {r : Rendering} {value : Json} (hplaced : w.Placed) (hs : w.Renders s r)
    (hroom : (v.node r.target).room markers r.aspect = 1 → v.Sole s r)
    (h : v.Sole s r → w.Holds (v.FirstPlain markers wt r) (fun _ => True) r value.display) :
    v.Presents w markers wt r value := by
  rcases hplaced s r hs with ⟨hlt, hfits⟩
  cases r with
  | interpolated n i => exact h (hroom rfl)
  | field n => exact fun halone => h (hroom halone)
  | text n => exact fun halone hfirst => textContent?_of_holds (h (hroom halone)) hfirst hlt hfits
  | markup n =>
      intro halone hfirst
      have htrees := trees?_of_holds (h (hroom halone)) hfirst
      refine ⟨htrees, ?_⟩
      rw [innerHtml?, written?, htrees]
      rfl

/-- What comes first is known from the value that the path leads to. -/
theorem firstPlain_of_getPath {markers : Markers} {wt : Watcher (Code ν)} {r : Rendering}
    {value : Json} (hvalue : w.getPath wt.root wt.path = .ok (.plain value))
    (hplain : Tree.PlainAll markers (r.forest value.display)) : w.FirstPlain markers wt r := by
  intro d shown hd hshown
  rw [hvalue, Except.ok.injEq] at hd
  subst hd
  have hdisplay : value.display = shown := Option.some.inj hshown
  rwa [← hdisplay]

end World

section Session

variable {code : ν → Signal → Program ν τ} {patience depth levels : Nat} {memory : τ}
  {session : List (Program ν τ)} {moves : List (Move ν τ)} {b : Blueprint (Code ν)}
  {app : App (Code ν)} {w₀ w₁ w₂ : ClientWorld ν τ}

/-- In the beginning there is nobody, and nothing to show. -/
theorem kept_blank_start (memory : τ) :
    Kept (Display.blank : Display ν τ) [] [] (World.start ν memory) :=
  kept_start Display.blank memory fun s wt r hs =>
    absurd (subscriber?_start memory s) (by rw [hs]; exact Option.some_ne_none _)

/-- An application that is built in the world of a client that has run programs. -/
theorem stage_of_session
    (hsession : Program.runAll ((Program.behaviour code).host patience depth) session
      (World.start ν memory) = some ((), w₀))
    (hmount : b.mount = none) (hbuild : b.build levels w₀ = some (.ok app, w₁)) :
    (⟨app.data, b.methods, b.markers⟩ : Template (Code ν)).Stage [] w₁ := by
  have hblank : (Display.blank : Display ν τ).Lawful := Display.lawful_blank
  have hserves := Program.serves_host hblank code patience depth
  exact stage_build (Program.runAll_kept hserves hblank (kept_blank_start memory) hsession).1
    hmount hbuild

/-- What happens to an application while it is held on to, if every move keeps everybody up to
    date. -/
theorem kept_of_pinned {D : Display ν τ} {t : Template (Code ν)}
    {host : Host (Code ν) (Journal τ)} (hD : D.Lawful) (hdata : t.data = app.data)
    (hkept : Kept D [] [] (t.held w₁))
    (hstep : ∀ m ∈ moves, ∀ {w w' : ClientWorld ν τ} {u : Unit}, .object app.data ∈ w.pins →
      Kept D [] [] w → m.run host app w = some (u, w') → Kept D [] [] w' ∧ w'.pins = w.pins)
    (hmoves : Run.pinned app.pins (Move.runAll host app moves) w₁ = some ((), w₂)) :
    ∃ w, w₂ = { w with pins := w₁.pins } ∧ Kept D [] [] w ∧ w.alive (.object app.data) = true := by
  rcases Run.pinned_eq_some_iff.mp hmoves with ⟨w, hrun, hw⟩
  have hstart : Kept D [] [] { w₁ with pins := app.pins ++ w₁.pins } := by
    refine hkept.pins hD.toOfView fun o ho => World.alive_of_mem_pins ?_
    rcases List.mem_append.mp ho with ho | ho
    · rw [Move.mem_pins_iff.mp ho, ← hdata]
      exact List.mem_cons_self
    · exact List.mem_cons_of_mem _ ho
  rcases Move.runAll_kept (w := { w₁ with pins := app.pins ++ w₁.pins }) List.mem_cons_self hstart
    hstep hrun with ⟨hafter, hpins⟩
  refine ⟨w, hw.symm, hafter, World.alive_of_mem_pins ?_⟩
  rw [hpins]
  exact List.mem_cons_self

/-- What happens to an application while it is held on to keeps everybody up to date. -/
theorem kept_of_moves {methods : Methods (Code ν)} {markers : Markers}
    (hstage : (⟨app.data, methods, markers⟩ : Template (Code ν)).Stage [] w₁)
    (hmoves : Run.pinned app.pins
      (Move.runAll ((Program.behaviour code).host patience depth) app moves) w₁ = some ((), w₂)) :
    ∃ w, w₂ = { w with pins := w₁.pins } ∧ Kept (Display.complete w₁ markers) [] [] w ∧
      w.alive (.object app.data) = true := by
  have hlawful : (Display.complete w₁ markers).Lawful := Display.lawful_lasting _ _
  have hserves := Program.serves_host hlawful code patience depth
  exact kept_of_pinned hlawful rfl (kept_of_stage hstage)
    (fun _ _ _ _ _ hdata h hrun => Move.run_kept hserves hdata h hrun) hmoves

/-- After any run of an application that was built from a template the view presents the
    values of the data: whatever binding was made when the application was built, if its
    path leads to a plain value now, this is the value that it shows. -/
theorem presents_of_runAll
    (hsession : Program.runAll ((Program.behaviour code).host patience depth) session
      (World.start ν memory) = some ((), w₀))
    (hmount : b.mount = none) (hbuild : b.build levels w₀ = some (.ok app, w₁))
    (hmoves : Run.pinned app.pins
      (Move.runAll ((Program.behaviour code).host patience depth) app moves) w₁ = some ((), w₂))
    {s : SubscriberId} {wt : Watcher (Code ν)} {r : Rendering} {value : Json}
    (hs : w₁.subscriber? s = some (.watcher wt)) (heffect : wt.effect = .render r)
    (hvalue : w₂.getPath app.data wt.path = .ok (.plain value)) :
    w₁.Presents w₂ b.markers wt r value := by
  have hstage := stage_of_session hsession hmount hbuild
  rcases kept_of_moves hstage hmoves with ⟨w, rfl, hkept, halive⟩
  -- The binding is still there, and its data is held on to.
  have hs' : w.subscriber? s = some (.watcher wt) := (hkept.sound.renderers heffect).mpr hs
  have hroot : wt.root = app.data := hstage.rooted hs heffect
  have hpath : w.pathValue? wt.root wt.path = some (.plain value) := by
    rw [hroot, ← (w.path_pins w₁.pins app.data wt.path).1]
    exact (World.getPath_eq_ok_iff _ _ _ _).mp hvalue
  rw [← hroot] at halive
  have hshown := hkept.shown s wt _ hs' List.not_mem_nil List.not_mem_nil halive hpath
  rw [heffect] at hshown
  have hview : w.SameView { w with pins := w₁.pins } := .of_subscribers rfl rfl
  refine World.presents_of_holds (hview.placed hkept.sound.placed) ⟨wt, hs', heffect⟩
    (hstage.sole ⟨wt, hs, heffect⟩) fun hsole => ?_
  have hholds := hshown value rfl (hkept.sound.sole hsole)
  refine (hholds.weaken (fun hfirst wt' hwt' => ?_) fun _ h => h).of_sameView hview
  rwa [World.watcher_unique hs hwt']

end Session

/-- A method that writes a name. -/
def rename : Unit → Signal → Program Unit Unit
  | (), .invoked data _ =>
    .ask (.setPath data "person.name" (.literal (.json (.string "Bo")))) fun _ => .done
  | (), _ => .done

/-- A greeting, a form field for the name, the name alone, and a note in markup. -/
def greeting : Blueprint (Code Unit) where
  data := some (.object [("person", .object [("name", .string "Al"), ("note", .string "none")])])
  template := some ("<p>Hi \x7b\x7b person.name \x7d\x7d!<input v-model=\"person.name\">" ++
    "<b v-text=\"person.name\"></b><q v-html=\"person.note\"></q></p>")
  methods := [("rename", .method ())]

/-- A name is entered, and then the person is replaced and renamed. -/
def renamed : List (Move Unit Unit) :=
  [.input ⟨2⟩ "Di",
    .set "person" (.literal (.json (.object [("name", .string "Cy"),
      ("note", .string "<u>x</u> & y")]))),
    .call "rename"]

/-- The application that shows the greeting. -/
def greetingApp : App (Code Unit) :=
  ⟨⟨1⟩, ⟨0⟩, greeting.methods⟩

theorem isSome_greeting : (greeting.build 9 (World.start Unit ())).isSome = true := by
  decide +kernel

/-- The world in which the greeting is shown. -/
def greetingWorld : ClientWorld Unit Unit :=
  ((greeting.build 9 (World.start Unit ())).get isSome_greeting).2

theorem isSome_renamed : (Run.pinned greetingApp.pins (Move.runAll
    ((Program.behaviour rename).host 9 9) greetingApp renamed) greetingWorld).isSome = true := by
  decide +kernel

/-- The world afterwards. -/
def renamedWorld : ClientWorld Unit Unit :=
  ((Run.pinned greetingApp.pins (Move.runAll ((Program.behaviour rename).host 9 9) greetingApp
    renamed) greetingWorld).get isSome_renamed).2

/-- The watchers of the greeting, and what they read. -/
theorem reads_greetingWorld :
    greetingWorld.subscribers.cells.toList =
        [.watcher ⟨⟨1⟩, "person.name", .render (.interpolated ⟨1⟩ ⟨"Hi ", "person.name", "!"⟩)⟩,
          .watcher ⟨⟨1⟩, "person.name", .render (.field ⟨2⟩)⟩,
          .watcher ⟨⟨1⟩, "person.name", .render (.text ⟨3⟩)⟩,
          .watcher ⟨⟨1⟩, "person.note", .render (.markup ⟨4⟩)⟩] ∧
      greetingWorld.getPath ⟨1⟩ "person.name" = .ok (.plain (.string "Al")) ∧
      greetingWorld.getPath ⟨1⟩ "person.note" = .ok (.plain (.string "none")) := by
  decide +kernel

/-- What they read in the end. -/
theorem reads_renamedWorld :
    renamedWorld.getPath ⟨1⟩ "person.name" = .ok (.plain (.string "Bo")) ∧
      renamedWorld.getPath ⟨1⟩ "person.note" = .ok (.plain (.string "<u>x</u> & y")) := by
  decide +kernel

/-- Nobody enters the name that the field holds in the end. -/
theorem presents_of_runAll_renamed :
    greeting.build 9 (World.start Unit ()) = some (.ok greetingApp, greetingWorld) ∧
      Run.pinned greetingApp.pins (Move.runAll ((Program.behaviour rename).host 9 9) greetingApp
        renamed) greetingWorld = some ((), renamedWorld) ∧
      (renamedWorld.node ⟨1⟩).kind = .text "Hi Bo!" ∧ (renamedWorld.node ⟨2⟩).value = "Bo" ∧
      renamedWorld.textContent? ⟨3⟩ = some "Bo" ∧
      renamedWorld.trees? (renamedWorld.node ⟨4⟩).children =
        some [.element "u" [] [.text "x"], .text " & y"] ∧
      renamedWorld.innerHtml? ⟨4⟩ = some "<u>x</u> &amp; y" := by
  have hsession : Program.runAll ((Program.behaviour rename).host 9 9) []
      (World.start Unit ()) = some ((), World.start Unit ()) := rfl
  have hbuild : greeting.build 9 (World.start Unit ()) =
      some (.ok greetingApp, greetingWorld) :=
    Run.eq_some_of_fst isSome_greeting (by decide +kernel)
  have hmoves : Run.pinned greetingApp.pins (Move.runAll ((Program.behaviour rename).host 9 9)
      greetingApp renamed) greetingWorld = some ((), renamedWorld) :=
    Program.eq_some_get isSome_renamed
  rcases reads_greetingWorld with ⟨hwatchers, hold, hnone⟩
  rcases reads_renamedWorld with ⟨hnew, hnote⟩
  have hwatcher := fun s => (greetingWorld.subscriber?_eq_getElem? s).trans
    (congrArg (·[s.index]?) hwatchers)
  -- Each element has one directive.
  have halone : ∀ r ∈ [Rendering.field ⟨2⟩, .text ⟨3⟩, .markup ⟨4⟩],
      greetingWorld.Alone greeting.markers r := by
    unfold World.Alone
    decide +kernel
  simp only [List.forall_mem_cons] at halone
  rcases halone with ⟨hfield, hbold, hquote, _⟩
  -- What stood beneath them first has no expressions and no directives.
  have hname : Tree.PlainAll greeting.markers ((Rendering.text ⟨3⟩).forest "Al") :=
    ⟨show Interpolation.find? greeting.markers "Al" = none by decide +kernel, trivial⟩
  have hwords : Tree.PlainAll greeting.markers ((Rendering.markup ⟨4⟩).forest "none") := by
    have hparsed : parse "none" = [.text "none"] := by decide +kernel
    rw [Rendering.forest, hparsed]
    exact ⟨show Interpolation.find? greeting.markers "none" = none by decide +kernel, trivial⟩
  have hpresented := presents_of_runAll hsession rfl hbuild hmoves (hwatcher ⟨3⟩) rfl
    hnote hquote (World.firstPlain_of_getPath hnone hwords)
  have hparsed : parse "<u>x</u> & y" = [.element "u" [] [.text "x"], .text " & y"] := by
    decide +kernel
  have hwritten : html [.element "u" [] [.text "x"], .text " & y"] = "<u>x</u> &amp; y" := by
    decide +kernel
  refine ⟨hbuild, hmoves,
    presents_of_runAll hsession rfl hbuild hmoves (hwatcher ⟨0⟩) rfl hnew,
    presents_of_runAll hsession rfl hbuild hmoves (hwatcher ⟨1⟩) rfl hnew hfield,
    presents_of_runAll hsession rfl hbuild hmoves (hwatcher ⟨2⟩) rfl hnew hbold
      (World.firstPlain_of_getPath hold hname), ?_, ?_⟩
  · rw [hpresented.1, Json.display, hparsed]
  · rw [hpresented.2, Json.display, hparsed, hwritten]

end LiveTemplate
