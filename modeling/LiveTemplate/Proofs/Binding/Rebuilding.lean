import LiveTemplate.Proofs.Binding.Consistency
import LiveTemplate.Proofs.Binding.Picturing
import LiveTemplate.Proofs.Reaction.Mirroring

/-!
# Updating Is Building Anew

After any writes an application has the view that a new application would have.

An application is built from a template, and values are written into its data: some of
them arrive, some change nothing, and some are for paths that lead nowhere. Meanwhile a
path that is bound may be broken, and the view keeps what it showed there last. Once
everything that is bound is a plain value again, nothing of this can be told from the
view. It is the view that the template has when it is built from the plain form of the
data, in whatever world this is done.

Nothing is compared node by node for that. Both views are the picture of the same
template with the same values, the one because updates leave a wired view wired, the
other one because compiling wires it. That a new application can be built at all takes
the values that are there now, the methods that the first one has found, and one level
more, because an element may show a text that had none before.

## Main definitions

* `Subscriber.Draws`: A subscriber that shows a value.
* `writes`: Values that are written into the data.
* `Blueprint.IsTame`: An application that is built from a template with tame directives.

## Theorems

* `exists_writes`: Any writes come to an end.
* `outline?_of_settled`: After any writes the view is the picture of the data.
* `exists_build`: What has been built once can be built from other data.
* `outline?_of_writes`: After any writes the view is the one of a new application.
-/

namespace LiveTemplate

open Markup

variable {ν τ : Type}

/-- The subscriber is a watcher that shows its value. -/
def Subscriber.Draws {κ : Type} (subscriber : Subscriber κ) : Prop :=
  ∃ o path r, subscriber = .watcher ⟨o, path, .render r⟩

/-- Whoever shows values only does not call the client. -/
theorem Host.observes_draws {κ σ : Type} (host : Host κ σ) : host.Observes Subscriber.Draws := by
  rintro _ c ⟨o, path, r, rfl⟩ hcall
  exact absurd hcall nofun

/-- Values that are written into the data, one after the other. -/
def writes (sets : List (String × Json)) : List (Move ν τ) :=
  sets.map fun (path, value) => .set path (.literal (.json value))

namespace Move

variable (host : Host (Code ν) (Journal τ)) {app : App (Code ν)} {w : ClientWorld ν τ} {j : Json}

/-- A write comes to an end, and the data stands for something afterwards. -/
theorem set_mirrors (h : w.Mirrors Subscriber.Draws app.data j) (path : String) (value : Json) :
    ∃ w' j', (set path (.literal (.json value))).run host app w = some ((), w') ∧
      w'.Mirrors Subscriber.Draws app.data j' := by
  rcases Host.write_mirrors host.observes_draws h app.pins path value with
    ⟨result, w', hset, _, hmirrors⟩
  refine ⟨w', _, ?_, hmirrors⟩
  have hobtain : (Source.literal (.json value)).obtain w = some (World.observeValue value w) := rfl
  rw [run, Run.bind_of_eq_some hobtain, Host.setData, Run.bind_of_eq_some hset]
  rfl

/-- So do any writes. -/
theorem writes_mirrors (h : w.Mirrors Subscriber.Draws app.data j) (sets : List (String × Json)) :
    ∃ w' j', runAll host app (writes sets) w = some ((), w') ∧
      w'.Mirrors Subscriber.Draws app.data j' := by
  induction sets generalizing w j with
  | nil => exact ⟨w, j, rfl, h⟩
  | cons set sets ih =>
      rcases set_mirrors host h set.1 set.2 with ⟨v, j₁, hset, hv⟩
      rcases ih hv with ⟨w', j', hsets, hw'⟩
      refine ⟨w', j', ?_, hw'⟩
      rw [writes, List.map_cons, runAll, Run.bind_of_eq_some hset]
      exact hsets

end Move

/-- The application is built from a template alone. This is a single element, and all its
    directives are tame. -/
structure Blueprint.IsTame {κ : Type} (b : Blueprint κ) (tree : Tree) : Prop where
  /-- There is no node of the client's. -/
  mount : b.mount = none
  /-- The template is the element. -/
  template : ∃ markup, b.template = some markup ∧
    rootElement (Fragment.parse markup).forest = .ok tree
  /-- Its directives are tame. -/
  tame : tree.Tame b.markers

section Build

variable {b : Blueprint (Code ν)} {app : App (Code ν)} {tree : Tree} {j : Json}
  {levels levels' : Nat} {memory : τ} {w w' w₁ w₂ : ClientWorld ν τ}

/-- Building an application is planting its template and walking over it. -/
theorem walked_of_build (h : b.IsTame tree) (hj : b.data.getD (.object []) = j)
    (hcalm : tree.Calm b.markers j) (hbuild : b.build levels w = some (.ok app, w')) :
    ∃ v : ClientWorld ν τ, (∀ s, v.subscriber? s = w.subscriber? s) ∧
      (∃ ids, v.Stands (.object app.data) j ids ∧ ids.Nodup) ∧
      (⟨app.data, b.methods, b.markers⟩ : Template (Code ν)).Walked j v.nodes.size levels
        app.root.index [app.root] [tree] v.nodes.size v w' := by
  rcases h.template with ⟨markup, hmarkup, htree⟩
  rcases (build_eq_some_ok_iff h.mount).mp hbuild with
    ⟨_, u, v, markup', hobserve, hmarkup', hplant, hcompile, _⟩
  rw [hmarkup, Option.some.injEq] at hmarkup'
  subst hmarkup'
  rcases plantTemplate_eq_ok_iff.mp hplant with ⟨tree', htree', hplanted⟩
  rw [htree, Except.ok.injEq] at htree'
  subst htree'
  rw [hj] at hobserve
  have honly := (planted_plant hplanted).1.rest
  refine ⟨v, subscriber?_of_observeRoot hobserve honly, stands_of_observeRoot hobserve honly, ?_⟩
  exact walked_of_compile (ready_plant hobserve hplanted h.tame hcalm) hcompile

/-- The view of an application that has been built is the picture of the data. -/
theorem outline?_of_build (h : b.IsTame tree) (hj : b.data.getD (.object []) = j)
    (hcalm : tree.Calm b.markers j) (hbuild : b.build levels w = some (.ok app, w')) :
    w'.outline? app.root = some (tree.picture b.markers j.look 0) := by
  rcases walked_of_build h hj hcalm hbuild with ⟨v, _, _, hwalked⟩
  exact outline?_of_walked hwalked

/-- What has been built once can be built from other data, if there is one level more. -/
theorem exists_build {σ : Type} {t₀ : Template (Code ν)} {v : World (Code ν) σ}
    {site : Rendering → String → Prop} {still : NodeId → Prop} {start stop : Nat}
    {ms : List NodeId} {members : Table Json}
    (hwired : t₀.Wired v site still levels start ms [tree] stop)
    (hmarkers : b.markers = t₀.markers) (hmethods : b.methods = t₀.methods)
    (hfault : b.markers.fault? = none) (h : b.IsTame tree)
    (hdata : b.data = some (.object members)) (hcalm : tree.Calm b.markers (.object members))
    (hvalues : ∀ a key, (a, key) ∈ tree.bindings b.markers →
      ∃ x, Json.at? (segmentsOfPath key) (.object members) = some x)
    (hlevels : levels < levels') (u : ClientWorld ν τ) :
    ∃ app w, b.build levels' u = some (.ok app, w) := by
  rcases h.template with ⟨markup, hmarkup, htree⟩
  obtain ⟨o, u₁, hobserve⟩ : ∃ o v, u.observeRoot (.object members) = (some o, v) := ⟨_, _, rfl⟩
  rcases hplanted : World.plant tree u₁ with ⟨root, u₂⟩
  have hready : (⟨o, b.methods, b.markers⟩ : Template (Code ν)).Ready (.object members)
      u₂.nodes.size u₂ root.index [root] [tree] u₂.nodes.size :=
    ready_plant hobserve hplanted h.tame hcalm
  -- How deep the view is and which methods there are is known from the wired one.
  rw [← Tree.bindingsAll_singleton] at hvalues
  rcases Template.exists_run_of_wired hwired hmarkers hmethods hlevels hready hvalues {} with
    ⟨stats, w, hrun⟩
  rcases Template.foldlM_cons_run_eq_some_iff.mp hrun with ⟨stats₁, w₁, hcompile, hnil⟩
  refine ⟨⟨o, root, b.methods⟩, w₁, (build_eq_some_ok_iff h.mount).mpr ⟨hfault, u₁, u₂, markup, ?_,
    hmarkup, plantTemplate_eq_ok_iff.mpr ⟨tree, htree, hplanted⟩,
    compile_run_eq_some_ok_iff.mpr ⟨stats₁, hcompile⟩, rfl⟩⟩
  rw [hdata]
  exact hobserve

/-- If nobody was there, and nothing has been written since, then data is watched by what shows
    it. -/
theorem mirrors_of_added {o : ObjectId} {v : ClientWorld ν τ} (hnone : ∀ s, v.subscriber? s = none)
    (hstands : ∃ ids, v.Stands (.object o) j ids ∧ ids.Nodup) (hunwritten : v.Unwritten w)
    (hadded : ∀ s subscriber, w.subscriber? s = some subscriber →
      v.subscriber? s = some subscriber ∨ ∃ key r, subscriber = .watcher ⟨o, key, .render r⟩) :
    w.Mirrors Subscriber.Draws o j := by
  have hadded : ∀ {s subscriber}, w.subscriber? s = some subscriber →
      ∃ key r, subscriber = .watcher ⟨o, key, .render r⟩ := by
    intro s subscriber hs
    rcases hadded s subscriber hs with hs | hnew
    · rw [hnone] at hs
      exact absurd hs.symm (Option.some_ne_none _)
    · exact hnew
  rcases hstands with ⟨ids, hstands, hnodup⟩
  have hafter := hstands.of_unwritten hunwritten
  refine ⟨⟨ids, hafter, hnodup⟩, fun s subscriber hs => ?_, fun s o' path r hs => ?_⟩
  · rcases hadded hs with ⟨key, r, hwatcher⟩
    exact ⟨o, key, r, hwatcher⟩
  · rcases hadded hs with ⟨key, r', hwatcher⟩
    injection hwatcher with hwatcher
    injection hwatcher with hroot
    rw [hroot]
    exact ⟨j, ids, hafter⟩

/-- An application that has been built in the beginning: its view is wired and complete, and
    nobody is there but its watchers. -/
theorem wired_of_start (h : b.IsTame tree) (hj : b.data.getD (.object []) = j)
    (hcalm : tree.Calm b.markers j)
    (hbuild : b.build levels (World.start ν memory) = some (.ok app, w)) :
    ∃ limit, (⟨app.data, b.methods, b.markers⟩ : Template (Code ν)).Stage [] w ∧
      w.Mirrors Subscriber.Draws app.data j ∧
      (⟨app.data, b.methods, b.markers⟩ : Template (Code ν)).Wired w
        (Template.Site ⟨app.data, b.methods, b.markers⟩ j limit w) w.Quiet levels app.root.index
        [app.root] [tree] limit := by
  rcases walked_of_build h hj hcalm hbuild with ⟨v, hsubscribers, hstands, hwalked⟩
  have hnone : ∀ s, v.subscriber? s = none := fun s =>
    (hsubscribers s).trans (subscriber?_start memory s)
  have hquiet : ∀ n, v.Quiet n := by
    rintro n s r ⟨wt, hs, _⟩
    rw [hnone] at hs
    exact absurd hs.symm (Option.some_ne_none _)
  exact ⟨v.nodes.size, stage_build (kept_blank_start memory) h.mount hbuild,
    mirrors_of_added hnone hstands hwalked.passes.unwritten hwalked.passes.added,
    hwalked.wired.weaken fun n _ _ hstill => hstill (hquiet n)⟩

/-- Any writes into an application come to an end. -/
theorem exists_writes (host : Host (Code ν) (Journal τ))
    (h : w₁.Mirrors Subscriber.Draws app.data j) (sets : List (String × Json)) :
    ∃ w₂ json ids, Run.pinned app.pins (Move.runAll host app (writes sets)) w₁ = some ((), w₂) ∧
      w₂.Stands (.object app.data) json ids := by
  have hheld : World.Mirrors { w₁ with pins := app.pins ++ w₁.pins } Subscriber.Draws app.data j :=
    h.of_unwritten (.of_objects rfl) (h.staffed.of_objects rfl rfl)
  rcases Move.writes_mirrors host hheld sets with ⟨w, json, hrun, hafter⟩
  rcases hafter.tree with ⟨ids, hstands, _⟩
  exact ⟨{ w with pins := w₁.pins }, json, ids, Run.pinned_eq_some_iff.mpr ⟨w, hrun, rfl⟩,
    hstands.of_unwritten (.of_objects rfl)⟩

/-- After any writes the view is the picture of the data. -/
theorem outline?_of_settled {code : ν → Signal → Program ν τ} {patience depth limit low high : Nat}
    {t : Template (Code ν)} {sets : List (String × Json)} {json : Json} {ids ids' : List ObjectId}
    (hdata : t.data = app.data)
    (hwired : t.Wired w₁ (t.Site j limit w₁) w₁.Quiet levels low [app.root] [tree] high)
    (htame : tree.Tame t.markers) (hcalm : tree.Calm t.markers j) (hstage : t.Stage [] w₁)
    (hbefore : w₁.Stands (.object t.data) j ids)
    (hsets : Run.pinned app.pins (Move.runAll ((Program.behaviour code).host patience depth) app
      (writes sets)) w₁ = some ((), w₂))
    (hafter : w₂.Stands (.object t.data) json ids')
    (hplain : ∀ a key, (a, key) ∈ tree.bindings t.markers →
      ∃ x, w₂.getPath t.data key = .ok (.plain x)) :
    w₂.outline? app.root = some (tree.picture t.markers json.look 0) := by
  have hlawful : (Display.settled w₁ t.markers).Lawful := Display.lawful_steady _ _
  have hserves := Program.serves_host hlawful code patience depth
  -- Entering text would change a form field without its watcher, so this is for writes only.
  rcases kept_of_pinned hlawful hdata (settled_of_stage hstage)
      (fun m hm _ _ _ hpin hkept hrun => by
        rcases List.mem_map.mp hm with ⟨set, _, rfl⟩
        exact Move.set_kept hserves hlawful hpin hkept hrun) hsets with ⟨w, rfl, hkept, halive⟩
  rw [← hdata] at halive
  rw [outline?_pins]
  refine outline?_of_kept hwired htame hcalm hstage hbefore hkept halive
    (hafter.of_unwritten (.of_objects rfl)) fun a key hbound => ?_
  rcases hplain a key hbound with ⟨x, hx⟩
  refine ⟨x, ?_⟩
  rw [← (w.path_pins w₁.pins t.data key).1]
  exact (World.getPath_eq_ok_iff _ _ _ _).mp hx

/-- After any writes an application has the view that a new application would have which is
    built from what the data is then. What is bound has to be plain then, and no text of an
    element may have an expression. -/
theorem outline?_of_writes (code : ν → Signal → Program ν τ) (patience depth : Nat)
    (h : b.IsTame tree) (hcalm : tree.Calm b.markers (b.data.getD (.object [])))
    (hbuild : b.build levels (World.start ν memory) = some (.ok app, w₁))
    (sets : List (String × Json)) :
    ∃ w₂ json, Run.pinned app.pins (Move.runAll ((Program.behaviour code).host patience depth) app
        (writes sets)) w₁ = some ((), w₂) ∧
      w₂.snapshot? (.object app.data) = some json ∧
      ((∀ a key, (a, key) ∈ tree.bindings b.markers →
          ∃ x, w₂.getPath app.data key = .ok (.plain x)) →
        tree.Calm b.markers json → ∀ (u : ClientWorld ν τ) (levels' : Nat), levels < levels' →
        ∃ app' w₃ lines,
          ({ b with data := some json } : Blueprint (Code ν)).build levels' u =
            some (.ok app', w₃) ∧
          w₂.outline? app.root = some lines ∧ w₃.outline? app'.root = some lines) := by
  rcases wired_of_start h rfl hcalm hbuild with ⟨limit, hstage, hmirrors, hwired⟩
  rcases hmirrors.tree with ⟨ids, hbefore, _⟩
  rcases exists_writes ((Program.behaviour code).host patience depth) hmirrors sets with
    ⟨w₂, json, ids', hsets, hafter⟩
  refine ⟨w₂, json, hsets, hafter.snapshot?_eq, fun hplain hcalm' u levels' hlevels => ?_⟩
  have hview := outline?_of_settled rfl hwired h.tame hcalm hstage hbefore hsets hafter hplain
  -- The data is an object still, and there is a value for every binding.
  rcases hafter.eq_object with ⟨members, _, rfl, _⟩
  have hvalues : ∀ a key, (a, key) ∈ tree.bindings b.markers →
      ∃ x, Json.at? (segmentsOfPath key) (.object members) = some x := by
    intro a key hbound
    rcases hplain a key hbound with ⟨x, hx⟩
    rcases Template.display?_of_stands hafter hx with ⟨x', hx', _⟩
    exact ⟨x', hx'⟩
  let anew : Blueprint (Code ν) := { b with data := some (.object members) }
  have htame : anew.IsTame tree := ⟨h.mount, h.template, h.tame⟩
  have hfault : anew.markers.fault? = none := ((build_eq_some_ok_iff h.mount).mp hbuild).1
  rcases exists_build (b := anew) hwired rfl rfl hfault htame rfl hcalm' hvalues hlevels u with
    ⟨app', w₃, hanew⟩
  exact ⟨app', w₃, _, hanew, hview, outline?_of_build (b := anew) htame rfl hcalm' hanew⟩

end Build

/-- A form field for a name, and a greeting with a remark that there is not at first. -/
def remark : Blueprint (Code Unit) where
  data := some (.object [("person", .object [("name", .string "Al")]), ("remark", .string "")])
  template := some "<p>Hi \x7b\x7b person.name \x7d\x7d!<input v-model=\"person.name\"><b v-text=\"remark\"></b></p>"

/-- The template, read. -/
def remarkTree : Tree :=
  .element "p" [] [.text "Hi \x7b\x7b person.name \x7d\x7d!",
    .element "input" [("v-model", "person.name")] [], .element "b" [("v-text", "remark")] []]

/-- The person is taken away, so that a name cannot be written, and another one is put in place.
    Then there is a remark. -/
def remarked : List (String × Json) :=
  [("person", .null), ("person.name", .string "Bo"),
    ("person", .object [("name", .string "Cy")]), ("remark", .string "late")]

/-- Directives are tame if counting them says so. -/
theorem tameDirectives_iff {ds : List Directive} :
    TameDirectives ds ↔ (∀ d ∈ ds, d.kind ≠ .html) ∧
      aspectCount .own ds ≤ 1 ∧ aspectCount .beneath ds ≤ 1 ∧ aspectCount .field ds ≤ 1 := by
  constructor
  · exact fun h => ⟨h.html, h.single .own, h.single .beneath, h.single .field⟩
  · rintro ⟨hhtml, hown, hbeneath, hfield⟩
    refine ⟨hhtml, fun a => ?_⟩
    cases a with
    | own => exact hown
    | beneath => exact hbeneath
    | field => exact hfield

theorem isTame_remark : remark.IsTame remarkTree := by
  refine ⟨rfl, ⟨_, rfl, by decide +kernel⟩, ?_⟩
  simp only [remarkTree, Tree.Tame, Tree.TameAll, tameDirectives_iff, and_true, true_and]
  decide +kernel

theorem bindings_remark : remarkTree.bindings remark.markers =
    [(.own, "person.name"), (.field, "person.name"), (.beneath, "remark")] := by
  decide +kernel

/-- The text is the remark. -/
theorem calm_remark (text : String) {j : Json}
    (hj : j.at? (segmentsOfPath "remark") = some (.string text))
    (hfind : Interpolation.find? remark.markers text = none) :
    remarkTree.Calm remark.markers j := by
  intro key v hkey hv
  simp only [bindings_remark, List.mem_cons, Prod.mk.injEq, reduceCtorEq, false_and, true_and,
    List.not_mem_nil, or_false, false_or] at hkey
  rw [hkey, hj, Option.some.injEq] at hv
  rw [← hv]
  exact hfind

/-- Code that does nothing. -/
def silence : Unit → Signal → Program Unit Unit :=
  fun _ _ => .done

theorem isSome_remark : (remark.build 2 (World.start Unit ())).isSome = true := by
  decide +kernel

/-- The world in which there is no remark yet. -/
def remarkWorld : ClientWorld Unit Unit :=
  ((remark.build 2 (World.start Unit ())).get isSome_remark).2

/-- The application. -/
def remarkApp : App (Code Unit) :=
  ⟨⟨1⟩, ⟨0⟩, []⟩

theorem build_remark : remark.build 2 (World.start Unit ()) = some (.ok remarkApp, remarkWorld) :=
  Run.eq_some_of_fst isSome_remark (by decide +kernel)

theorem isSome_remarked : (Run.pinned remarkApp.pins (Move.runAll
    ((Program.behaviour silence).host 9 9) remarkApp (writes remarked)) remarkWorld).isSome =
      true := by
  decide +kernel

/-- The world with a remark. -/
def remarkedWorld : ClientWorld Unit Unit :=
  ((Run.pinned remarkApp.pins (Move.runAll ((Program.behaviour silence).host 9 9) remarkApp
    (writes remarked)) remarkWorld).get isSome_remarked).2

/-- The data with a remark. -/
def remarkedData : Json :=
  .object [("person", .object [("name", .string "Cy")]), ("remark", .string "late")]

/-- The view with a remark. -/
def remarkedLines : List OutlineLine :=
  [⟨0, .element "p" [] ""⟩, ⟨1, .text "Hi Cy!"⟩,
    ⟨1, .element "input" [("v-model", "person.name")] "Cy"⟩,
    ⟨1, .element "b" [("v-text", "remark")] ""⟩, ⟨2, .text "late"⟩]

/-- What can be read and seen in the end. -/
theorem reads_remarked :
    remarkedWorld.snapshot? (.object remarkApp.data) = some remarkedData ∧
      remarkedWorld.getPath remarkApp.data "person.name" = .ok (.plain (.string "Cy")) ∧
      remarkedWorld.getPath remarkApp.data "remark" = .ok (.plain (.string "late")) ∧
      remarkedWorld.outline? remarkApp.root = some remarkedLines := by
  refine ⟨?_, ?_, ?_, ?_⟩
  · decide +kernel
  · decide +kernel
  · decide +kernel
  · decide +kernel

/-- What is bound is plain in the end. -/
theorem plain_remarked (a : Aspect) (key : String)
    (hkey : (a, key) ∈ remarkTree.bindings remark.markers) :
    ∃ x, remarkedWorld.getPath remarkApp.data key = .ok (.plain x) := by
  simp only [bindings_remark, List.mem_cons, Prod.mk.injEq, List.not_mem_nil, or_false] at hkey
  rcases reads_remarked with ⟨_, hname, hremark, _⟩
  rcases hkey with ⟨_, rfl⟩ | ⟨_, rfl⟩ | ⟨_, rfl⟩
  · exact ⟨_, hname⟩
  · exact ⟨_, hname⟩
  · exact ⟨_, hremark⟩

theorem outline?_of_writes_remarked :
    remark.IsTame remarkTree ∧ remarkTree.Calm remark.markers (remark.data.getD (.object [])) ∧
      remark.build 2 (World.start Unit ()) = some (.ok remarkApp, remarkWorld) ∧
      remarkedWorld.snapshot? (.object remarkApp.data) = some remarkedData ∧
      ∃ app w, ({ remark with data := some remarkedData } : Blueprint (Code Unit)).build 3
          (World.start Unit ()) = some (.ok app, w) ∧
        remarkedWorld.outline? remarkApp.root = some remarkedLines ∧
        w.outline? app.root = some remarkedLines := by
  have hcalm : remarkTree.Calm remark.markers (remark.data.getD (.object [])) :=
    calm_remark "" (by decide +kernel) (by decide +kernel)
  have hcalm' : remarkTree.Calm remark.markers remarkedData :=
    calm_remark "late" (by decide +kernel) (by decide +kernel)
  have hsets : Run.pinned remarkApp.pins (Move.runAll ((Program.behaviour silence).host 9 9)
      remarkApp (writes remarked)) remarkWorld = some ((), remarkedWorld) :=
    Program.eq_some_get isSome_remarked
  rcases outline?_of_writes silence 9 9 isTame_remark hcalm build_remark remarked with
    ⟨w, json, hrun, hjson, hanew⟩
  rcases reads_remarked with ⟨hdata, _, _, hlines⟩
  rw [hsets, Option.some.injEq, Prod.mk.injEq] at hrun
  rw [← hrun.2] at hjson hanew
  rw [hdata, Option.some.injEq] at hjson
  subst hjson
  rcases hanew plain_remarked hcalm' (World.start Unit ()) 3 (Nat.lt_succ_self 2) with
    ⟨app, w₃, lines, hbuild, hview, hview'⟩
  rw [hlines, Option.some.injEq] at hview
  subst hview
  exact ⟨isTame_remark, hcalm, build_remark, hdata, app, w₃, hbuild, hlines, hview'⟩

end LiveTemplate
