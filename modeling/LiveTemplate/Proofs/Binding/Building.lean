import LiveTemplate.Binding.App
import LiveTemplate.Proofs.Binding.Compiling
import LiveTemplate.Proofs.Reaction.UpToDate

/-!
# Building an Application

What a world is like in which an application has been built.

The data is observed first, then the template is planted, and then it is compiled. In
front of that there is a world without a view, so the invariant of compiling holds for
the new nodes because nothing is bound yet. Behind it the view is complete: its
watchers are all that there will ever be, and from then on the display is the one of a
view that lasts.

## Main definitions

* `World.FirstPlain`: What a binding put beneath its element first was plain.

## Theorems

* `build_eq_some_ok_iff`: Building is observing, planting and compiling.
* `stage_build`: After building the template has been compiled.
* `kept_of_stage`: A view that has been compiled is complete.
-/

namespace LiveTemplate

open Markup

variable {ν τ : Type} {D D' : Display ν τ} {P Q : List SubscriberId} {w w' : ClientWorld ν τ}

/-- The same for another display, if what is shown for the one is shown for the other. -/
theorem Kept.redisplay (h : Kept D P Q w)
    (hshown : ∀ s wt d, w.subscriber? s = some (.watcher wt) →
      w.pathValue? wt.root wt.path = some d → D.IsShown w s wt.effect d →
      D'.IsShown w s wt.effect d) (hsound : D'.sound w) : Kept D' P Q w where
  closed := h.closed
  ranged := h.ranged
  tagged := h.tagged
  registered := h.registered
  orderly := h.orderly
  shown s wt d hs hsP hsQ halive hd :=
    hshown s wt d hs hd (h.shown s wt d hs hsP hsQ halive hd)
  sound := hsound

/-- A forest of which less is asked is shown all the same. -/
theorem World.Holds.weaken {first first' : Prop} {keeps keeps' : Node (Code ν) → Prop}
    {r : Rendering} {shown : String} (h : w.Holds first keeps r shown) (hfirst : first' → first)
    (hkeeps : ∀ node, keeps node → keeps' node) : w.Holds first' keeps' r shown := by
  by_cases hr : r.aspect = .beneath
  · rw [World.holds_beneath_iff hr] at h ⊢
    intro hf
    refine (h (hfirst hf)).mono (Nat.le_refl _) ?_
    rintro c ⟨hbehind, hquiet, hc⟩ _
    exact ⟨⟨hbehind, hquiet, hkeeps _ hc⟩, rfl, rfl, rfl⟩
  · cases r with
    | interpolated n i => exact h
    | field n => exact h
    | text n => exact absurd rfl hr
    | markup n => exact absurd rfl hr

/-- What the binding put beneath its element first was plain. While a template is compiled
    no value changes, so what comes first is the value that there is afterwards. -/
def World.FirstPlain (w : ClientWorld ν τ) (markers : Markers) (wt : Watcher (Code ν))
    (r : Rendering) : Prop :=
  ∀ d shown, w.getPath wt.root wt.path = .ok d → w.display? d = some shown →
    Tree.PlainAll markers (r.forest shown)

/-- The display of the view from now on. -/
def Display.complete (v : ClientWorld ν τ) (markers : Markers) : Display ν τ :=
  lasting v fun s r => ∀ wt, v.subscriber? s = some (.watcher wt) → v.FirstPlain markers wt r

/-- A view that has been compiled is complete. -/
theorem kept_of_stage {t : Template (Code ν)} (h : t.Stage [] w) :
    Kept (Display.complete w t.markers) [] [] (t.held w) := by
  refine h.kept.redisplay ?_ ⟨fun _ => Iff.rfl, h.kept.sound, h.heard List.not_mem_nil⟩
  intro s wt d hs hd hshown
  refine hshown.imp rfl fun r _ hshows value hvalue hsole => ?_
  refine (hshows value hvalue hsole).weaken (fun hfirst => ?_) (fun _ _ => trivial)
  have hpath : w.pathValue? wt.root wt.path = some d := by
    rw [← (w.path_pins (.object t.data :: w.pins) wt.root wt.path).1]
    exact hd
  refine hfirst wt hs d value.display ((w.getPath_eq_ok_iff _ _ _).mpr hpath) ?_
  rw [hvalue]
  rfl

/-- In a view that has been compiled a watcher is the only one where there is room for one. -/
theorem Template.Stage.sole {t : Template (Code ν)} (h : t.Stage [] w) {s : SubscriberId}
    {r : Rendering} (hs : w.Renders s r)
    (hroom : (w.node r.target).room t.markers r.aspect = 1) : w.Sole s r := by
  have hcrowd := h.counted r.target r.aspect
  rw [hroom] at hcrowd
  exact hcrowd.sole hs rfl rfl

/-- Planting a template is planting its root, if it has a single one. -/
theorem plantTemplate_eq_ok_iff {markup : String} {root : NodeId} :
    w.plantTemplate markup = (.ok root, w') ↔
      ∃ tree, rootElement (Fragment.parse markup).forest = .ok tree ∧
        World.plant tree w = (root, w') := by
  have hnoticed : ∀ (ds : List Diagnostic) (d : Diagnostic), (w.noticeAll ds).notice d = w :=
    fun ds d => World.noticeAll_eq ds w
  simp only [World.plantTemplate]
  rw [hnoticed]
  cases rootElement (Fragment.parse markup).forest with
  | error e => simp only [Prod.mk.injEq, reduceCtorEq, false_and, exists_false]
  | ok tree =>
      simp only [Except.ok.injEq, exists_eq_left', Prod.mk.injEq]
      exact (Prod.ext_iff (x := World.plant tree w) (y := (root, w'))).symm

/-- Markup that is no template is not planted. -/
theorem plantTemplate_of_error {markup : String} {e : TemplateError}
    (h : Markup.template markup = .error e) : w.plantTemplate markup = (.error e, w) := by
  simp only [World.plantTemplate]
  rw [show rootElement (Fragment.parse markup).forest = .error e from h]
  exact congrArg (Prod.mk _) (World.noticeAll_eq _ w)

/-- Planting a tree adds nodes, in document order. -/
theorem planted_plant {tree : Tree} {root : NodeId} (h : World.plant tree w = (root, w')) :
    w.Planted none [tree] [root] w' ∧ w'.Spans root.index [root] w'.nodes.size := by
  have hforest : World.plantForest [tree] w =
      ([(World.plant tree w).1], (World.plant tree w).2) := rfl
  have hspans := World.spans_plantForest [tree] w
  have hplanted := World.planted_plantForest [tree] w
  rw [hforest, h] at hspans hplanted
  refine ⟨hplanted, ?_⟩
  cases hspans with
  | cons hlt hbeneath hafter => exact .cons hlt hbeneath hafter

/-- Observing an object makes it the root. -/
theorem observeValue_of_root {value : Json} {o : ObjectId}
    (h : w.observeRoot value = (some o, w')) :
    World.observeValue value w = (.object o, w') := by
  rw [World.observeRoot_eq, Prod.mk.injEq] at h
  exact Prod.ext (Data.eq_object_of_object? h.1) h.2

/-- Data that has been observed stands for its plain form, and new nodes do not matter to it. -/
theorem stands_of_observeRoot {value : Json} {o : ObjectId} {v : ClientWorld ν τ}
    (hobserve : w.observeRoot value = (some o, v)) (honly : v.OnlyNodes w') :
    ∃ ids, w'.Stands (.object o) value ids ∧ ids.Nodup := by
  rcases World.stands_observeValue value w with ⟨ids, hstands, hnodup, _⟩
  rw [observeValue_of_root hobserve] at hstands
  exact ⟨ids, hstands.of_unwritten (.of_objects honly.objects), hnodup⟩

theorem subscriber?_of_observeRoot {value : Json} {o : ObjectId} {v : ClientWorld ν τ}
    (hobserve : w.observeRoot value = (some o, v)) (honly : v.OnlyNodes w') (s : SubscriberId) :
    w'.subscriber? s = w.subscriber? s := by
  have hextends := (World.extends_observeValue value w).1
  rw [observeValue_of_root hobserve] at hextends
  exact World.subscriber?_of_subscribers (honly.subscribers.trans hextends.subscribers) s

/-- In front of compiling: the data has been observed and the template has been planted in a
    world without a view. -/
theorem stage_plantTemplate {t : Template (Code ν)} {value : Json} {markup : String}
    {root : NodeId} {v : ClientWorld ν τ} (h : Kept Display.blank [] [] w)
    (hobserve : w.observeRoot value = (some t.data, v))
    (hplant : v.plantTemplate markup = (.ok root, w')) :
    t.Stage [] w' ∧ ∀ n, w'.Quiet n := by
  have hvalue := observeValue_of_root hobserve
  have hobtain : (Source.literal (.json value)).obtain w = some (.object t.data, v) := by
    rw [Source.obtain, Run.apply_eq_some_iff]
    exact hvalue
  have hlawful : (Display.blank : Display ν τ).Lawful := Display.lawful_blank
  rcases Source.obtain_kept hlawful.toOfView h hobtain with ⟨hkept, _, hdata⟩
  rcases plantTemplate_eq_ok_iff.mp hplant with ⟨tree, _, hplanted⟩
  have honly := (planted_plant hplanted).1.rest
  have hsubscriber : ∀ s, w'.subscriber? s = v.subscriber? s :=
    World.subscriber?_of_subscribers honly.subscribers
  have hblank : ∀ {s wt r}, w'.subscriber? s = some (.watcher wt) → wt.effect ≠ .render r := by
    intro s wt r hs
    rw [hsubscriber] at hs
    exact hkept.sound s wt r hs
  have hnone : ∀ s r, ¬w'.Renders s r := by
    rintro s r ⟨wt, hs, heffect⟩
    exact hblank hs heffect
  have hplanted : Kept Display.blank [] [] (t.held w') := by
    refine hkept.of_objects honly.objects honly.registries honly.subscribers ?_ ?_
      fun s wt r hs => hblank hs
    · intro o _ hrooted
      refine World.alive_of_rooted ?_
      rw [World.rooted_eq_true_iff] at hrooted ⊢
      simp only [Template.held, honly.pins, honly.client] at hrooted
      exact hrooted
    · intro s wt d hs _ _ hd
      exact hd.imp (congrFun (congrArg Journal.shown honly.client) s) fun _ _ _ => trivial
  refine ⟨⟨?_, hplanted.redisplay ?_ ?_, ?_, ?_, ?_⟩, fun n s r hs => absurd hs (hnone s r)⟩
  · rw [honly.objects]
    exact hdata t.data rfl
  · intro s wt d hs _ hd
    exact hd.imp rfl fun r heffect _ => absurd heffect (hblank hs)
  · exact fun s r hs => absurd hs (hnone s r)
  · exact fun hs heffect => absurd heffect (hblank hs)
  · exact fun _ hs heffect => absurd heffect (hblank hs)
  · exact fun n a => World.Crowd.of_quiet fun s r hs => absurd hs (hnone s r)

/-- An error is not an answer. -/
theorem Run.pure_error_ne_some_ok {ε α : Type} {e : ε} {x : α} :
    (pure (.error e) : Run (Code ν) (Journal τ) (Except ε α)) w ≠ some (.ok x, w') := by
  simp only [ne_eq, Run.pure_eq_some_iff, reduceCtorEq, false_and, not_false_eq_true]

/-- Without a node of the client's the view is the template. -/
theorem view_eq_ok_iff {b : Blueprint (Code ν)} {root : NodeId} (hmount : b.mount = none) :
    b.view w = (.ok root, w') ↔
      ∃ markup, b.template = some markup ∧ w.plantTemplate markup = (.ok root, w') := by
  simp only [Blueprint.view, hmount]
  cases htemplate : b.template with
  | none => simp only [Prod.mk.injEq, reduceCtorEq, false_and, exists_false]
  | some markup =>
      simp only [Option.some.injEq, exists_eq_left']
      rcases w.plantTemplate markup with ⟨result, v⟩
      cases result with
      | error e => simp only [Prod.mk.injEq, reduceCtorEq, false_and]
      | ok n => simp only [Prod.mk.injEq, Except.ok.injEq]

/-- Compiling a template makes an application of it. -/
theorem compile_eq_some_ok_iff {b : Blueprint (Code ν)} {depth : Nat} {data : ObjectId}
    {root : NodeId} {app : App (Code ν)} :
    b.compile depth data root w = some (.ok app, w') ↔
      ((⟨data, b.methods, b.markers⟩ : Template (Code ν)).compile depth root).run w =
        some (.ok (), w') ∧ ⟨data, root, b.methods⟩ = app := by
  rw [Blueprint.compile, Run.bind_eq_some_iff]
  constructor
  · rintro ⟨result, v, hcompile, hrun⟩
    cases result with
    | error e => exact absurd hrun Run.pure_error_ne_some_ok
    | ok u =>
        simp only [Run.notice, Run.bind_eq_some_iff, Run.change_eq_some_iff,
          Run.pure_eq_some_iff] at hrun
        rcases hrun with ⟨_, _, rfl, happ, rfl⟩
        injection happ with happ
        exact ⟨hcompile, happ⟩
  · rintro ⟨hcompile, rfl⟩
    exact ⟨.ok (), w', hcompile, rfl⟩

/-- Building an application from a template: the data is observed, the template is planted,
    and then it is compiled. -/
theorem build_eq_some_ok_iff {b : Blueprint (Code ν)} {depth : Nat} {app : App (Code ν)}
    (hmount : b.mount = none) :
    b.build depth w = some (.ok app, w') ↔
      b.markers.fault? = none ∧ ∃ u v markup,
        w.observeRoot (b.data.getD (.object [])) = (some app.data, u) ∧
        b.template = some markup ∧ u.plantTemplate markup = (.ok app.root, v) ∧
        ((⟨app.data, b.methods, b.markers⟩ : Template (Code ν)).compile depth app.root).run v =
          some (.ok (), w') ∧
        ⟨app.data, app.root, b.methods⟩ = app := by
  simp only [Blueprint.build]
  cases b.markers.fault? with
  | some fault => simp only [Run.pure_eq_some_iff, reduceCtorEq, false_and]
  | none =>
      simp only [Run.bind_eq_some_iff, Run.apply_eq_some_iff, true_and]
      constructor
      · rintro ⟨data?, u, hobserve, hrun⟩
        cases data? with
        | none => exact absurd hrun Run.pure_error_ne_some_ok
        | some data =>
            simp only [Run.bind_eq_some_iff, Run.apply_eq_some_iff] at hrun
            rcases hrun with ⟨result, v, hview, hrun⟩
            cases result with
            | error e => exact absurd hrun Run.pure_error_ne_some_ok
            | ok root =>
                rcases compile_eq_some_ok_iff.mp hrun with ⟨hcompile, rfl⟩
                rcases (view_eq_ok_iff hmount).mp hview with ⟨markup, hmarkup, hplant⟩
                exact ⟨u, v, markup, hobserve, hmarkup, hplant, hcompile, rfl⟩
      · rintro ⟨u, v, markup, hobserve, hmarkup, hplant, hcompile, happ⟩
        refine ⟨some app.data, u, hobserve, ?_⟩
        simp only [Run.bind_eq_some_iff, Run.apply_eq_some_iff]
        refine ⟨.ok app.root, v, (view_eq_ok_iff hmount).mpr ⟨markup, hmarkup, hplant⟩, ?_⟩
        exact compile_eq_some_ok_iff.mpr ⟨hcompile, happ⟩

/-- Compiling a template is compiling its root. -/
theorem compile_run_eq_some_ok_iff {t : Template (Code ν)} {depth : Nat} {root : NodeId} :
    (t.compile depth root).run w = some (.ok (), w') ↔
      ∃ stats, (t.compileNode depth {} root).run w = some (.ok stats, w') := by
  simp only [Template.compile, Template.note, Template.bind_run_eq_some_iff,
    Template.step_run_eq_some_iff, Run.get_eq_some_iff, Run.notice, Run.change_eq_some_iff]
  constructor
  · rintro ⟨_, _, ⟨rfl, rfl⟩, _, _, rfl, stats, v, hcompile, rfl⟩
    exact ⟨stats, hcompile⟩
  · rintro ⟨stats, hcompile⟩
    exact ⟨w, w, ⟨rfl, rfl⟩, (), w, rfl, stats, w', hcompile, rfl⟩

/-- Compiling a template that has been planted completes it. -/
theorem stage_compile {t : Template (Code ν)} {depth : Nat} {root : NodeId}
    (h : t.Stage [] w) (hquiet : ∀ n, w.Quiet n) (hspans : w.Spans root.index [root] w.nodes.size)
    (hrun : (t.compile depth root).run w = some (.ok (), w')) : t.Stage [] w' := by
  rcases compile_run_eq_some_ok_iff.mp hrun with ⟨stats, hcompile⟩
  exact (Template.compileNode_apart h hspans (Nat.le_refl _) (fun c _ _ => hquiet c) hcompile).1

/-- After an application has been built from a template, all of the template has been
    compiled. -/
theorem stage_build {b : Blueprint (Code ν)} {depth : Nat} {app : App (Code ν)}
    (h : Kept Display.blank [] [] w) (hmount : b.mount = none)
    (hbuild : b.build depth w = some (.ok app, w')) :
    (⟨app.data, b.methods, b.markers⟩ : Template (Code ν)).Stage [] w' := by
  rcases (build_eq_some_ok_iff hmount).mp hbuild with
    ⟨_, u, v, markup, hobserve, _, hplant, hcompile, _⟩
  have hstart := stage_plantTemplate (t := ⟨app.data, b.methods, b.markers⟩) h hobserve hplant
  rcases plantTemplate_eq_ok_iff.mp hplant with ⟨tree, _, hplanted⟩
  exact stage_compile hstart.1 hstart.2 (planted_plant hplanted).2 hcompile

end LiveTemplate
