import LiveTemplate.Proofs.Binding.Labelling

/-!
# Values Are Not Templates

Compiling a template binds what the template asks for, whatever the values are.

A value that takes the place of an expression is not looked at again, and neither is one in
a form field. A label is: it is planted like a template, so an expression in it is bound.
As long as there is none in any label, what is bound can be read off the template, up to
the first path or method that there is not. Then every text is what the template and the
values say, and every label is the value.

## Main definitions

* `Tree.sites`: What is bound when trees are compiled.
* `Blueprint.resolves`: There is what a binding needs.

## Theorems

* `follows_of_visits`: Compiling is binding what the nodes ask for.
* `exists_build_of_calm`: An application that is built from a template without markup.
* `bound_label`: A label with an expression is bound.
-/

namespace LiveTemplate

open Markup

variable {ν τ : Type} {u v w w' : ClientWorld ν τ}

namespace Template

variable {t : Template (Code ν)} {n : NodeId} {ns all : List NodeId} {S : NodeId → Prop}

/-- If the element puts something beneath itself, then this is a text without an expression. -/
def Calm (t : Template (Code ν)) (w : ClientWorld ν τ) (n : NodeId) : Prop :=
  ∀ d, (w.node n).filler? t.markers = some d →
    d.kind = .text ∧ Interpolation.find? t.markers (t.shown w d.expression) = none

theorem Calm.spared (h : t.Calm w n) (hspares : w.Spares v S) (hlt : n.index < w.nodes.size)
    (hn : ¬S n) (hagrees : t.Agrees w v) : t.Calm v n := by
  intro d hd
  have hloose := hspares.others n hlt hn
  rw [Node.filler?_congr (Node.kind_of_loose hloose) (Node.attributes_of_loose hloose)] at hd
  rw [hagrees.shown]
  exact h d hd

/-- What the nodes ask for. -/
def asked (t : Template (Code ν)) (w : ClientWorld ν τ) (all : List NodeId) : List BindingSite :=
  all.flatMap fun n => t.sitesAt n (w.node n)

theorem asked_cons : t.asked w (n :: all) = t.sitesAt n (w.node n) ++ t.asked w all :=
  List.flatMap_cons

theorem asked_append {first rest : List NodeId} :
    t.asked w (first ++ rest) = t.asked w first ++ t.asked w rest :=
  List.flatMap_append

theorem asked_spared (hspares : w.Spares v S) (hlt : ∀ n ∈ all, n.index < w.nodes.size)
    (hout : ∀ n ∈ all, ¬S n) : t.asked v all = t.asked w all := by
  rw [asked, asked, List.flatMap, List.flatMap]
  refine congrArg List.flatten (List.map_congr_left fun n hn => ?_)
  have hloose := hspares.others n (hlt n hn) (hout n hn)
  exact sitesAt_congr (Node.kind_of_loose hloose) (Node.attributes_of_loose hloose)

section Walk

variable {depth : Nat} {stats : CompileStats}

/-- A node with what is beneath it. -/
theorem follows_node
    (hbeneath : ∀ {u : ClientWorld ν τ} {ns all : List NodeId} {stats : CompileStats},
      u.Visits t.markers ns all → (∀ n ∈ all, n.index < u.nodes.size) → all.Nodup →
      (∀ n ∈ all, t.Calm u n) → t.Follows (ns.foldlM (t.compileNode depth) stats) u (t.asked u all))
    (h : w.Visits t.markers [n] all) (hlt : ∀ n ∈ all, n.index < w.nodes.size) (hnodup : all.Nodup)
    (hcalm : ∀ n ∈ all, t.Calm w n) :
    t.Follows (t.compileNode (depth + 1) stats n) w (t.asked w all) := by
  rw [compileNode]
  rcases h.singleton_cases with ⟨below, hfiller, rfl, hbelow⟩ | ⟨d, hfiller, rfl⟩
  · rw [List.forall_mem_cons] at hlt hcalm
    rw [List.nodup_cons] at hnodup
    rw [asked_cons]
    refine (follows_compileSelf n _).bind fun stats' v hself => ?_
    have hattended := attended_of_run hlt.1 hself
    have hagrees := (Agrees.refl w).follows (follows_compileSelf n _) hself
    have hout : ∀ m ∈ below, m ≠ n := fun m hm hmn => hnodup.1 (hmn ▸ hm)
    have hvisits : v.Visits t.markers (v.node n).children below := by
      rw [hattended.kept hfiller]
      exact hbelow.spared hattended.spares hlt.2 hout
    rw [← asked_spared hattended.spares hlt.2 hout]
    change t.Follows _ v ([] ++ t.asked v below)
    refine follows_get.bind fun x y hget => ?_
    rcases of_step_get hget with ⟨rfl, rfl⟩
    exact hbeneath hvisits (fun m hm => Nat.lt_of_lt_of_le (hlt.2 m hm) hattended.spares.grown)
      hnodup.2 fun m hm =>
        (hcalm.2 m hm).spared hattended.spares (hlt.2 m hm) (hout m hm) hagrees
  · rw [List.forall_mem_singleton] at hlt hcalm
    rw [asked_cons, asked, List.flatMap_nil]
    refine (follows_compileSelf n _).bind fun stats' v hself => ?_
    rcases hcalm d hfiller with ⟨htext, hfind⟩
    rcases (attended_of_run hlt hself).filled_text hfiller htext with
      ⟨low, high, below, _, _, hvisits, hnodup', hbelow⟩
    refine follows_get.bind fun x y hget => ?_
    rcases of_step_get hget with ⟨rfl, rfl⟩
    -- There is nothing in the label that is bound.
    have hinner : t.Follows ((y.node n).children.foldlM (t.compileNode depth) stats') y
        (t.asked y below) :=
      hbeneath hvisits (fun m hm => (hbelow m hm).2.1) hnodup' fun m hm d' hd' => by
        rw [Node.filler?_of_text (hbelow m hm).2.2] at hd'
        exact absurd hd' (by simp only [reduceCtorEq, not_false_eq_true])
    have hnone : t.asked y below = [] := by
      refine List.flatMap_eq_nil_iff.mpr fun m hm => ?_
      rw [sitesAt, (hbelow m hm).2.2]
      dsimp only
      rw [hfind]
      rfl
    rwa [hnone] at hinner

/-- Compiling nodes is binding what they ask for, until there is no value or no method, if no
    label has an expression. -/
theorem follows_of_visits (h : w.Visits t.markers ns all) (hlt : ∀ n ∈ all, n.index < w.nodes.size)
    (hnodup : all.Nodup) (hcalm : ∀ n ∈ all, t.Calm w n) :
    t.Follows (ns.foldlM (t.compileNode depth) stats) w (t.asked w all) := by
  induction depth generalizing ns all stats w with
  | zero =>
      cases ns with
      | nil =>
          cases h
          exact follows_pure stats
      | cons n ns =>
          intro r w' hrun
          rw [List.foldlM_cons, bind_run_eq_some_cases] at hrun
          rcases hrun with ⟨_, hnode, _⟩ | ⟨_, _, hnode, _⟩
          · rcases step_run_eq_some_cases.mp hnode with ⟨_, hstuck, _⟩
            exact absurd hstuck (by simp only [Run.stuck_eq_some_iff, not_false_eq_true])
          · rcases step_run_eq_some_cases.mp hnode with ⟨_, hstuck, _⟩
            exact absurd hstuck (by simp only [Run.stuck_eq_some_iff, not_false_eq_true])
  | succ depth ihdepth =>
      induction ns generalizing all stats w with
      | nil =>
          cases h
          exact follows_pure stats
      | cons n ns ih =>
          rcases h.uncons with ⟨first, rest, rfl, hfirst, hns⟩
          rw [List.forall_mem_append] at hlt hcalm
          rw [List.nodup_append] at hnodup
          have hnode : t.Follows (t.compileNode (depth + 1) stats n) w (t.asked w first) :=
            follows_node ihdepth hfirst hlt.1 hnodup.1 hcalm.1
          rw [List.foldlM_cons, asked_append]
          refine hnode.bind fun stats' x hrun => ?_
          have hone : ([n].foldlM (t.compileNode (depth + 1)) stats).run w = some (.ok stats', x) :=
            foldlM_cons_run_eq_some_iff.mpr ⟨stats', x, hrun, rfl⟩
          have hspares := spares_of_run hfirst hlt.1 hnodup.1 hone
          have hapart : ∀ m ∈ rest, m ∉ first := fun m hm hmem => hnodup.2.2 m hmem m hm rfl
          rw [← asked_spared hspares hlt.2 hapart]
          exact ih (hns.spared hspares hlt.2 hapart)
            (fun m hm => Nat.lt_of_lt_of_le (hlt.2 m hm) hspares.grown) hnodup.2.1
            fun m hm => (hcalm.2 m hm).spared hspares (hlt.2 m hm) (hapart m hm)
              ((Agrees.refl w).follows hnode hrun)

theorem Follows.of_singleton {α β : Type} {f : β → α → Work (Code ν) (Journal τ) β} {a : α} {b : β}
    {ss : List BindingSite} (h : t.Follows ([a].foldlM f b) w ss) : t.Follows (f b a) w ss := by
  intro r w' hrun
  refine h r w' (bind_run_eq_some_cases.mpr ?_)
  cases r with
  | error e => exact Or.inl ⟨e, hrun, rfl⟩
  | ok b' => exact Or.inr ⟨b', w', hrun, rfl⟩

end Walk

end Template

/-! ### Applications -/

namespace Markup.Tree

/-- What is bound for the root of the tree where it stands, apart from what is beneath it. -/
def sitesAt (markers : Markers) (n : NodeId) : Tree → List BindingSite
  | text content =>
    (Interpolation.find? markers content).toList.map fun i =>
      .value (i.describe markers) i.key (.interpolated n i)
  | comment _ => []
  | element _ attributes _ => (directivesOf markers attributes).filterMap (·.site? n)

/-- What is bound when the tree is compiled, if it has been planted from a place on. -/
def sites (markers : Markers) (start : Nat) (t : Tree) : List BindingSite :=
  (stops markers start t).flatMap fun p => p.2.sitesAt markers p.1

theorem mem_sites_of_filler {markers : Markers} {start : Nat} {tree : Tree} {p : NodeId × Tree}
    (hp : p ∈ stops markers start tree) {d : Directive} (hd : p.2.filler? markers = some d)
    (htext : d.kind = .text) :
    .value d.name d.expression (.text p.1) ∈ tree.sites markers start := by
  refine List.mem_flatMap.mpr ⟨p, hp, ?_⟩
  cases hhead : p.2 with
  | text content =>
      rw [hhead] at hd
      exact absurd hd (by simp only [filler?, reduceCtorEq, not_false_eq_true])
  | comment content =>
      rw [hhead] at hd
      exact absurd hd (by simp only [filler?, reduceCtorEq, not_false_eq_true])
  | element tag attributes children =>
      rw [hhead, filler?] at hd
      refine List.mem_filterMap.mpr ⟨d, (aspect?_of_filler? hd).1, ?_⟩
      rw [Directive.site?, htext]

theorem stopsAll_singleton (markers : Markers) (start : Nat) (t : Tree) :
    stopsAll markers start [t] = stops markers start t := by
  rw [stopsAll, stopsAll, List.append_nil]

end Markup.Tree

/-- A planted tree asks for what it is known to bind. -/
theorem World.Sown.asked_eq {t : Template (Code ν)} {start stop : Nat} {ns : List NodeId}
    {tree : Tree} (h : w.Sown start ns [tree] stop) :
    t.asked w ((Tree.stopsAll t.markers start [tree]).map (·.1)) = tree.sites t.markers start := by
  have hstops := h.isHeadOf t.markers
  rw [Tree.stopsAll_singleton] at hstops ⊢
  rw [Template.asked, Tree.sites, List.flatMap_map, List.flatMap, List.flatMap]
  refine congrArg List.flatten (List.map_congr_left fun p hp => ?_)
  have hhead := (hstops p hp).2
  rw [Template.sitesAt]
  cases htree : p.2 with
  | text content =>
      rw [htree] at hhead
      rw [show (w.node p.1).kind = .text content from hhead]
      rfl
  | comment content =>
      rw [htree] at hhead
      rw [show (w.node p.1).kind = .comment content from hhead]
      rfl
  | element tag attributes children =>
      rw [htree] at hhead
      rw [hhead.1, hhead.2]
      rfl

namespace Blueprint

variable {b : Blueprint (Code ν)} {tree : Tree} {root : NodeId} {data : ObjectId}

/-- There is what the binding needs: a value at its path, or the method. -/
def resolves {κ : Type} (b : Blueprint κ) : BindingSite → Bool
  | .value _ key _ => (b.look? key).isSome
  | .event _ _ _ method => (Table.find? method b.methods).isSome

/-- A binding fails if there is not what it needs. -/
theorem resolves_eq (hlook : (b.forData data).look v = b.look?)
    (hdisplay : (b.forData data).Displayable v) :
    b.resolves = fun site => ((b.forData data).fault? v site).isNone := by
  funext site
  cases site with
  | value description key r =>
      rw [resolves, ← hlook, Template.look, Template.fault?]
      cases hget : v.getPath (b.forData data).data key with
      | error e =>
          cases hvalue : v.pathValue? (b.forData data).data key with
          | none => rfl
          | some value =>
              rw [(v.getPath_eq_ok_iff _ key value).mpr hvalue] at hget
              exact absurd hget (by simp only [reduceCtorEq, not_false_eq_true])
      | ok value =>
          have hvalue := (v.getPath_eq_ok_iff _ key value).mp hget
          rcases hdisplay key value hvalue with ⟨shown, hshown⟩
          rw [hvalue, Option.bind_some, hshown]
          rfl
  | event n event modifiers method =>
      have hmethods : (b.forData data).methods = b.methods := rfl
      rw [resolves, Template.fault?, hmethods]
      cases Table.find? method b.methods with
      | none => rfl
      | some m => rfl

/-- Where the data has been observed and the template has been planted. -/
theorem calm_of_plant (h : b.IsTextual tree)
    (hcalm : ∀ d ∈ tree.fillers b.markers, ∀ shown, b.look? d.expression = some shown →
      Interpolation.find? b.markers shown = none)
    (hplant : World.plant tree u = (root, v)) (hlook : (b.forData data).look v = b.look?) :
    ∀ n ∈ (Tree.stopsAll b.markers u.nodes.size [tree]).map (·.1), (b.forData data).Calm v n := by
  intro n hn d hd
  rcases World.sown_plant hplant with ⟨_, hsown⟩
  rcases List.mem_map.mp hn with ⟨p, hp, rfl⟩
  rw [(hsown.isHeadOf (b.forData data).markers p hp).2.filler?_eq] at hd
  refine ⟨h.kind_of_stops hp hd, ?_⟩
  rw [Template.shown, hlook]
  cases hshown : b.look? d.expression with
  | none => exact Interpolation.find?_empty b.markers
  | some shown =>
      have hmem := Tree.mem_fillersAll_of_stops hp hd
      rw [Tree.fillersAll, Tree.fillersAll, List.append_nil] at hmem
      exact hcalm d hmem shown hshown

/-- A label without an expression is what its element shows. -/
theorem textContent?_of_labelled {t : Template (Code ν)} {p : NodeId × Tree} {d : Directive}
    (hlt : p.1.index < v.nodes.size) (hgrown : v.nodes.size ≤ w.nodes.size)
    (hhead : (v.node p.1).IsHeadOf p.2) (h : t.Labelled p.1 v w)
    (hd : p.2.filler? t.markers = some d)
    (hfind : Interpolation.find? t.markers (t.shown v d.expression) = none) :
    w.textContent? p.1 = some (t.shown v d.expression) := by
  have hfiller : (v.node p.1).filler? t.markers = some d := (hhead.filler?_eq t.markers).trans hd
  have hlabel := h.label d hfiller
  rw [labels_of_none p.1 hfind] at hlabel
  cases htree : p.2 with
  | text content =>
      rw [htree] at hd
      exact absurd hd (by simp only [Tree.filler?, reduceCtorEq, not_false_eq_true])
  | comment content =>
      rw [htree] at hd
      exact absurd hd (by simp only [Tree.filler?, reduceCtorEq, not_false_eq_true])
  | element tag attributes children =>
      rw [htree] at hhead
      have hkind := h.kind (by
        rw [hhead.1]
        exact fun _ => by simp only [ne_eq, reduceCtorEq, not_false_eq_true])
      exact World.textContent?_of_standFor (Nat.lt_of_lt_of_le hlt hgrown) (hkind.trans hhead.1)
        (hlabel.mono (Nat.le_refl _) fun c hc _ => ⟨Nat.lt_of_lt_of_le hlt hc.1, rfl, rfl, rfl⟩)

/-- What comes of compiling a template, and of building an application from it. -/
theorem exists_compile_of_calm (h : b.IsTextual tree) (hfault : b.markers.fault? = none)
    (hcalm : ∀ d ∈ tree.fillers b.markers, ∀ shown, b.look? d.expression = some shown →
      Interpolation.find? b.markers shown = none)
    (hobserve : w.observeRoot (b.data.getD (.object [])) = (some data, u))
    (hplant : World.plant tree u = (root, v)) :
    ∃ depth r w',
      (∀ levels, depth ≤ levels → ((b.forData data).compile levels root).run v = some (r, w') ∧
        b.build levels w = some (b.outcome data root r, w')) ∧
      (b.forData data).Follows ((b.forData data).compile depth root) v
        (tree.sites b.markers u.nodes.size) ∧
      (b.forData data).Lives v (tree.sites b.markers u.nodes.size) := by
  have honly := (planted_plant hplant).1.rest
  rcases World.sown_plant hplant with ⟨_, hsown⟩
  rcases (look_of_observe hobserve honly : (b.forData data).look v = b.look? ∧ _) with
    ⟨hlook, hdisplay⟩
  have hsize : ∀ n ∈ (Tree.stopsAll b.markers u.nodes.size [tree]).map (·.1),
      n.index < v.nodes.size := fun n hn => (hsown.lt_of_stops hn).2
  have hasked : (b.forData data).asked v _ = tree.sites b.markers u.nodes.size := hsown.asked_eq
  have hends := Template.ends_of_acc (t := b.forData data) hdisplay (hsown.visits b.markers) hsize
    (Tree.nodup_stopsAll _ _ _) fun n hn d hd hhtml => by
      rcases List.mem_map.mp hn with ⟨p, hp, rfl⟩
      rw [(hsown.isHeadOf (b.forData data).markers p hp).2.filler?_eq] at hd
      rw [h.kind_of_stops hp hd] at hhtml
      exact absurd hhtml (by simp only [reduceCtorEq, not_false_eq_true])
  rcases hends.compile with ⟨depth, r, w', hrun⟩
  refine ⟨depth, r, w', fun levels hlevels => ⟨hrun levels hlevels, ?_⟩, ?_, ?_⟩
  · rw [build_of_view hfault hobserve (h.view_eq_ok_iff.mpr hplant)]
    exact compile_eq_some_iff.mpr ⟨r, hrun levels hlevels, rfl⟩
  · rw [← hasked]
    exact (Template.follows_of_visits (hsown.visits b.markers) hsize (Tree.nodup_stopsAll _ _ _)
      (calm_of_plant h hcalm hplant hlook)).of_singleton.compile
  · rw [← hasked]
    refine Template.lives_of_lt fun site hsite => ?_
    rcases List.mem_flatMap.mp hsite with ⟨n, _, hsite⟩
    rw [(Template.node_of_mem_sitesAt hsite).1]
    exact (Template.node_of_mem_sitesAt hsite).2

/-- Nothing is built from what is no template. -/
theorem build_of_template_error {markup : String} {e : TemplateError} (hmount : b.mount = none)
    (hmarkup : b.template = some markup) (hfault : b.markers.fault? = none)
    (hobserve : w.observeRoot (b.data.getD (.object [])) = (some data, u))
    (he : Markup.template markup = .error e) (levels : Nat) :
    b.build levels w = some (.error (.template e), u) := by
  have hview : b.view u = (.error (.template e), u) := by
    rw [view, hmarkup, hmount]
    dsimp only
    rw [plantTemplate_of_error he]
  exact build_of_view_error hfault hobserve hview levels

/-- Labels without expressions show the values that there are. -/
theorem exists_value_of_build {levels : Nat} {app : App (Code ν)} (h : b.IsTextual tree)
    (hcalm : ∀ d ∈ tree.fillers b.markers, ∀ shown, b.look? d.expression = some shown →
      Interpolation.find? b.markers shown = none)
    (hbuild : b.build levels w = some (.ok app, w'))
    (hresolves : ∀ site ∈ tree.sites b.markers w.nodes.size, b.resolves site = true)
    {p : NodeId × Tree} (hp : p ∈ tree.stops b.markers w.nodes.size) {d : Directive}
    (hd : p.2.filler? b.markers = some d) :
    ∃ value shown, w'.getPath app.data d.expression = .ok value ∧ w'.display? value = some shown ∧
      w'.textContent? p.1 = some shown := by
  rcases h.toured_of_build hbuild with ⟨u, v, hobserve, hplant, hcompile, htoured, hspares⟩
  have hagrees := (Template.Agrees.refl v).follows
    (Template.follows_compile (Nat.le_refl levels) app.root) hcompile
  rcases (look_of_observe hobserve (planted_plant hplant).1.rest :
    (b.forData app.data).look v = b.look? ∧ _) with ⟨hlook, hdisplay⟩
  have hextends := (World.extends_observeValue (b.data.getD (.object [])) w).1
  rw [observeValue_of_root hobserve] at hextends
  have hstop : p ∈ Tree.stopsAll b.markers u.nodes.size [tree] := by
    rw [hextends.nodes, Tree.stopsAll_singleton]
    exact hp
  rcases (World.sown_plant hplant).2.isHeadOf b.markers p hstop with ⟨hlt, hhead⟩
  rcases b.calm_of_plant h hcalm hplant hlook p.1 (List.mem_map_of_mem hstop) d
    ((hhead.filler?_eq b.markers).trans hd) with ⟨htext, hfind⟩
  have hfault := hresolves _ (Tree.mem_sites_of_filler hp hd htext)
  rw [resolves_eq hlook hdisplay, Option.isNone_iff_eq_none] at hfault
  rcases Template.exists_value hfault with ⟨value, hvalue⟩
  rcases hdisplay d.expression value hvalue with ⟨shown, hshown⟩
  refine ⟨value, shown, (w'.getPath_eq_ok_iff app.data d.expression value).mpr ?_,
    (hagrees.display value).trans hshown, ?_⟩
  · exact (hagrees.path d.expression).trans hvalue
  · rw [textContent?_of_labelled hlt hspares.grown hhead
      (htoured.labelled p.1 (List.mem_map_of_mem hstop)) hd hfind,
      Template.shown_of_value hvalue, hshown, Option.getD_some]

end Blueprint

/-- An application is built from a template that puts no markup anywhere. If the template is none,
    then nothing is built whatever the data is. Otherwise, if no label has an expression, the
    application is there if there are values and methods for all bindings of the template, and
    in any case these are bound up to the first one for which there is none. Every text is
    what the template says, with a value in place of its expression, and every label is the
    value. -/
theorem exists_build_of_calm {b : Blueprint (Code ν)} {markup : String} {data : ObjectId}
    (hmount : b.mount = none) (hmarkup : b.template = some markup)
    (hfault : b.markers.fault? = none)
    (hobserve : w.observeRoot (b.data.getD (.object [])) = (some data, u)) :
    (∀ e levels, Markup.template markup = .error e →
      b.build levels w = some (.error (.template e), u)) ∧
    ∀ tree, Markup.template markup = .ok tree → (∀ d ∈ tree.directives b.markers, d.kind ≠ .html) →
      (∀ d ∈ tree.fillers b.markers, ∀ shown, b.look? d.expression = some shown →
        Interpolation.find? b.markers shown = none) →
      ∃ v depth r w', World.plant tree u = (⟨w.nodes.size⟩, v) ∧
        (∀ levels, depth ≤ levels → b.build levels w = some (r, w')) ∧
        ((∃ app, r = .ok app) ↔
          ∀ site ∈ tree.sites b.markers w.nodes.size, b.resolves site = true) ∧
        (b.forData data).Adds v ((tree.sites b.markers w.nodes.size).takeWhile b.resolves) w' ∧
        ∀ app, r = .ok app → app = ⟨data, ⟨w.nodes.size⟩, b.methods⟩ ∧
          w'.tree? app.root = some (tree.presented b.markers ((b.forData data).shown w')) ∧
          ∀ p ∈ tree.stops b.markers w.nodes.size, ∀ d, p.2.filler? b.markers = some d →
            ∃ value shown, w'.getPath app.data d.expression = .ok value ∧
              w'.display? value = some shown ∧ w'.textContent? p.1 = some shown := by
  have hextends := (World.extends_observeValue (b.data.getD (.object [])) w).1
  rw [observeValue_of_root hobserve] at hextends
  refine ⟨fun e levels he => b.build_of_template_error hmount hmarkup hfault hobserve he levels,
    fun tree htree htext hcalm => ?_⟩
  have h : b.IsTextual tree := ⟨hmount, ⟨markup, hmarkup, htree⟩, htext⟩
  rcases hplant : World.plant tree u with ⟨root, v⟩
  rcases (Blueprint.look_of_observe hobserve (planted_plant hplant).1.rest :
    (b.forData data).look v = b.look? ∧ _) with ⟨hlook, hdisplay⟩
  have hroot := (World.sown_plant hplant).1
  rcases b.exists_compile_of_calm h hfault hcalm hobserve hplant with
    ⟨depth, r, w', hrun, hfollows, hlives⟩
  rcases hfollows.effect (hrun depth (Nat.le_refl depth)).1 hlives with ⟨hok, _, _, hadds⟩
  rw [← Blueprint.resolves_eq hlook hdisplay] at hadds
  rw [hextends.nodes] at hroot hok hadds
  have happ : (∃ app, b.outcome data root r = .ok app) ↔
      ∀ site ∈ tree.sites b.markers w.nodes.size, b.resolves site = true := by
    simp only [Blueprint.outcome_eq_ok_iff, exists_and_left, exists_eq, and_true, hok,
      Blueprint.resolves_eq hlook hdisplay, Option.isNone_iff_eq_none]
  refine ⟨v, depth, b.outcome data root r, w', by rw [hroot],
    fun levels hlevels => (hrun levels hlevels).2, happ, hadds, fun app hr => ?_⟩
  have hbuild := (hrun depth (Nat.le_refl depth)).2
  rw [hr] at hbuild
  refine ⟨by rw [(Blueprint.outcome_eq_ok_iff.mp hr).2, hroot], ?_, fun p hp d hd =>
    b.exists_value_of_build h hcalm hbuild (happ.mp ⟨app, hr⟩) hp hd⟩
  have htree := h.tree?_of_build hbuild
  rwa [(Blueprint.outcome_eq_ok_iff.mp hr).2] at htree ⊢

/-- A paragraph with a message as its label, and a note behind it. -/
def message (m : String) : Blueprint (Code Unit) where
  data := some (.object [("m", .string m), ("n", .string "\x7b\x7b ghost \x7d\x7d")])
  template := some "<div><p v-text=\"m\"></p>\x7b\x7b n \x7d\x7d</div>"

/-- The template, read. -/
def messageTree : Tree :=
  .element "div" [] [.element "p" [("v-text", "m")] [], .text "\x7b\x7b n \x7d\x7d"]

/-- The world with the data. -/
def messageData (m : String) : ClientWorld Unit Unit :=
  ((World.start Unit ()).observeRoot ((message m).data.getD (.object []))).2

theorem template_message : Markup.template "<div><p v-text=\"m\"></p>\x7b\x7b n \x7d\x7d</div>" =
    .ok messageTree := by
  decide +kernel

theorem stops_message : messageTree.stops .standard 0 =
    [(⟨0⟩, messageTree), (⟨1⟩, .element "p" [("v-text", "m")] []),
      (⟨2⟩, .text "\x7b\x7b n \x7d\x7d")] := by
  decide +kernel

/-- A note with an expression is a note. -/
theorem exists_build_of_calm_message :
    ∃ depth w', (∀ levels, depth ≤ levels → (message "<b>").build levels (World.start Unit ()) =
        some (.ok ⟨⟨0⟩, ⟨0⟩, []⟩, w')) ∧
      w'.tree? ⟨0⟩ =
        some (messageTree.presented .standard (((message "<b>").forData ⟨0⟩).shown w')) ∧
      ∃ value shown, w'.getPath ⟨0⟩ "m" = .ok value ∧ w'.display? value = some shown ∧
        w'.textContent? ⟨1⟩ = some shown := by
  have hobserve : (World.start Unit () : ClientWorld Unit Unit).observeRoot
      ((message "<b>").data.getD (.object [])) = (some ⟨0⟩, messageData "<b>") :=
    Prod.ext (by decide +kernel) rfl
  have htext : ∀ d ∈ messageTree.directives (message "<b>").markers, d.kind ≠ .html := by
    decide +kernel
  have hfillers : messageTree.fillers (message "<b>").markers = [⟨"v-text", .text, "m"⟩] := by
    decide +kernel
  have hcalm : ∀ d ∈ messageTree.fillers (message "<b>").markers, ∀ shown,
      (message "<b>").look? d.expression = some shown →
        Interpolation.find? (message "<b>").markers shown = none := by
    intro d hd shown hshown
    rw [hfillers] at hd
    have hlook : (message "<b>").look? "m" = some "<b>" := by decide +kernel
    rw [List.mem_singleton.mp hd] at hshown
    rw [← Option.some.inj (hlook.symm.trans hshown)]
    decide +kernel
  rcases (exists_build_of_calm rfl rfl (by decide +kernel) hobserve).2 messageTree template_message
    htext hcalm with ⟨v, depth, r, w', _, hbuild, hok, _, hshown⟩
  rcases hok.mpr (by decide +kernel) with ⟨app, rfl⟩
  rcases hshown app rfl with ⟨rfl, htree, hlabels⟩
  refine ⟨depth, w', hbuild, htree, hlabels (⟨1⟩, .element "p" [("v-text", "m")] []) ?_
    ⟨"v-text", .text, "m"⟩ ?_⟩
  · exact stops_message ▸ List.mem_cons_of_mem _ List.mem_cons_self
  · decide +kernel

/-- A label with an expression is bound: whether there is an application depends on what is in
    the message, and the label need not be the message. -/
theorem bound_label :
    (∀ m, ∀ site ∈ messageTree.sites .standard 0, (message m).resolves site = true) ∧
      ((message "hello").build 9 (World.start Unit ())).map (·.1.isOk) = some true ∧
      ((message "\x7b\x7b ghost \x7d\x7d").build 9 (World.start Unit ())).map (·.1.isOk) =
        some false ∧
      ((message "\x7b\x7b n \x7d\x7d").build 9 (World.start Unit ())).map (fun p =>
          (p.2.getPath ⟨0⟩ "m", p.2.textContent? ⟨1⟩)) =
        some (.ok (.plain (.string "\x7b\x7b n \x7d\x7d")), some "\x7b\x7b ghost \x7d\x7d") := by
  refine ⟨fun m site hsite => ?_, by decide +kernel, by decide +kernel, by decide +kernel⟩
  have hsites : messageTree.sites .standard 0 = [.value "v-text" "m" (.text ⟨1⟩),
      .value "\x7b\x7b n \x7d\x7d" "n" (.interpolated ⟨2⟩ ⟨"", "n", ""⟩)] := by
    decide +kernel
  rw [hsites, List.mem_cons, List.mem_singleton] at hsite
  rcases hsite with rfl | rfl
  · have hpath : segmentsOfPath "m" = ["m"] := by decide +kernel
    rw [Blueprint.resolves, Blueprint.look?, hpath]
    rfl
  · have hpath : segmentsOfPath "n" = ["n"] := by decide +kernel
    rw [Blueprint.resolves, Blueprint.look?, hpath]
    rfl

end LiveTemplate
