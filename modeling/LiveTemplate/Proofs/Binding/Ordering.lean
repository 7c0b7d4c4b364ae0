import LiveTemplate.Binding.App
import LiveTemplate.Proofs.Binding.Attaching
import LiveTemplate.Proofs.Reaction.UpToDate
import Mathlib.Data.List.TakeWhile

/-!
# The Order of Bindings

Compiling is binding at one site after the other, up to the first at which it fails.

The sites of a template are found in document order: those of a node itself, and then
those of its children as they are once the node's own sites are bound. So the list of
sites cannot be read off the template beforehand, but it can be written down without any
errors in it: where nothing can be bound, nothing happens, and the list goes on.
Compiling follows this list and leaves it at the first fault.

Whether something can be bound at a site depends on the values of the data and on the
methods. Binding changes neither, so the faults can be told from the world in which
compiling starts.

## Main definitions

* `BindingSite`: A place in the view where compiling binds something.
* `Template.fault?`: Why nothing can be bound at a site.
* `Template.establish`: What binding at a site does to the world.
* `Template.sites`: The sites in the order in which they are met.
* `Template.bindAll`: Binding at sites up to the first fault.
* `Template.Follows`: A part of a compilation is binding at some sites.
* `Template.Adds`: The watchers, registrations and listeners that have been added.

## Theorems

* `follows_compileNode`: Compiling a node is binding at its sites.
* `bindAll_eq`: The result and the effect of binding at sites, told apart.
* `adds_foldl`: What binding at sites adds.
* `compile_eq_bindAll`: Compiling, as a fold over the sites that stops at the first fault.
-/

namespace LiveTemplate

open Markup

/-- A place in the view where compiling binds something. -/
inductive BindingSite where
  /-- A value is shown. Errors name the binding by its description. -/
  | value (description key : String) (rendering : Rendering)
  /-- A method is called at an event. -/
  | event (node : NodeId) (event : String) (modifiers : Modifiers) (method : String)
  deriving DecidableEq

/-- The node at which something is bound. -/
def BindingSite.node : BindingSite → NodeId
  | value _ _ r => r.target
  | event n _ _ _ => n

/-- The site that a directive of an element is, unless it does not count. -/
def Directive.site? (n : NodeId) (d : Directive) : Option BindingSite :=
  match d.kind with
  | .text => some (.value d.name d.expression (.text n))
  | .html => some (.value d.name d.expression (.markup n))
  | .model => some (.value d.name d.expression (.field n))
  | .on event modifiers =>
    if event.isEmpty then none else some (.event n event modifiers d.expression)
  | .unknown _ => none

variable {ν τ : Type} {w w' v : ClientWorld ν τ}

namespace Template

/-! ### Sites -/

/-- Why nothing can be bound at a site. -/
def fault? (t : Template (Code ν)) (w : ClientWorld ν τ) : BindingSite → Option CompileError
  | .value description key _ =>
    match w.getPath t.data key with
    | .error e => some (.binding description e)
    | .ok _ => none
  | .event _ event _ method =>
    match Table.find? method t.methods with
    | none => some (.missingMethod method event)
    | some _ => none

/-- The listener that belongs to a site, and the kind of event for which it is. -/
def listener? (t : Template (Code ν)) : BindingSite → Option (String × Listener (Code ν))
  | .value _ key (.field _) => some ("input", .writeBack t.data key)
  | .value _ _ _ => none
  | .event _ event modifiers method =>
    (Table.find? method t.methods).map fun m => (event, .handle t.data m modifiers)

/-- The value of a site is shown and watched. Compiling does not come to an end at a value
    without plain form, so it does not matter what is shown for one. -/
def draw (t : Template (Code ν)) (w : ClientWorld ν τ) : BindingSite → ClientWorld ν τ
  | .value _ key r =>
    match w.pathValue? t.data key with
    | none => w
    | some value => t.bindPath key r ((w.display? value).getD "") w
  | .event _ _ _ _ => w

/-- The listener of a site is added to its node. -/
def hear (t : Template (Code ν)) (w : ClientWorld ν τ) (site : BindingSite) : ClientWorld ν τ :=
  match t.listener? site with
  | none => w
  | some (kind, listener) => w.listen site.node kind listener

/-- What binding at a site does to the world. Nothing happens where nothing can be bound. -/
def establish (t : Template (Code ν)) (w : ClientWorld ν τ) (site : BindingSite) :
    ClientWorld ν τ :=
  match t.fault? w site with
  | some _ => w
  | none => t.hear (t.draw w site) site

/-- The watcher that belongs to a site. -/
def watcher? (t : Template (Code ν)) : BindingSite → Option (Watcher (Code ν))
  | .value _ key r => some ⟨t.data, key, .render r⟩
  | .event _ _ _ _ => none

/-- The sites of a node itself. -/
def sitesAt (t : Template (Code ν)) (n : NodeId) (node : Node (Code ν)) : List BindingSite :=
  match node.kind with
  | .text content =>
    (Interpolation.find? t.markers content).toList.map fun i =>
      .value (i.describe t.markers) i.key (.interpolated n i)
  | .comment _ => []
  | .element _ => (directivesOf t.markers node.attributes).filterMap (·.site? n)

/-- The sites of nodes that are visited one after the other. -/
def sitesAmong (t : Template (Code ν)) (visit : ClientWorld ν τ → NodeId → List BindingSite) :
    List NodeId → ClientWorld ν τ → List BindingSite
  | [], _ => []
  | n :: ns, w =>
    let sites := visit w n
    sites ++ sitesAmong t visit ns (sites.foldl t.establish w)

/-- The sites of a node and of what stands beneath it, at most `depth` levels deep. The children
    are the ones that the node has once its own sites are bound. -/
def sites (t : Template (Code ν)) : (depth : Nat) → ClientWorld ν τ → NodeId → List BindingSite
  | 0, _, _ => []
  | depth + 1, w, n =>
    let own := t.sitesAt n (w.node n)
    let after := own.foldl t.establish w
    own ++ t.sitesAmong (t.sites depth) (after.node n).children after

/-- Binds at sites, one after the other, up to the first at which this fails. -/
def bindAll (t : Template (Code ν)) :
    List BindingSite → ClientWorld ν τ → Except CompileError Unit × ClientWorld ν τ
  | [], w => (.ok (), w)
  | site :: rest, w =>
    match t.fault? w site with
    | some e => (.error e, w)
    | none => t.bindAll rest (t.establish w site)

/-- Those of the watchers of sites, which are numbered one after the other, whose paths lead over
    a field. -/
def newReaders (t : Template (Code ν)) (w : ClientWorld ν τ) (ss : List BindingSite)
    (field : ObjectId × String) : List SubscriberId :=
  ((ss.filterMap t.watcher?).zipIdx w.subscribers.size).filterMap fun (watcher, i) =>
    if field ∈ w.pathFields watcher.root watcher.path then some ⟨i⟩ else none

/-- What binding at sites adds to the world: watchers, registrations and listeners. -/
structure Adds (t : Template (Code ν)) (w : ClientWorld ν τ) (ss : List BindingSite)
    (w' : ClientWorld ν τ) : Prop where
  /-- There is a watcher more for each site that shows a value, in the order of the sites. -/
  watchers : w'.subscribers.cells.toList =
    w.subscribers.cells.toList ++ (ss.filterMap t.watcher?).map .watcher
  /-- Each of them is registered once with every property on its path, behind the others, and
      the properties have their values. -/
  registries : ∀ o key, w'.property? o key = (w.property? o key).map fun p =>
    { p with registry := (t.newReaders w ss (o, key)).foldl .add p.registry }
  /-- Each node has the listeners of its sites, behind the ones that it had. -/
  listeners : ∀ n, (w'.node n).listeners =
    (w.node n).listeners ++ (ss.filter (·.node = n)).filterMap t.listener?

/-! ### The list is followed -/

section Follow

variable {t : Template (Code ν)} {α β : Type} {site : BindingSite} {ss ss' : List BindingSite}
  {n : NodeId} {e : CompileError}

theorem bindAll_append : t.bindAll (ss ++ ss') w =
    match t.bindAll ss w with
    | (.ok (), v) => t.bindAll ss' v
    | (.error e, v) => (.error e, v) := by
  induction ss generalizing w with
  | nil => rfl
  | cons site ss ih =>
      rw [List.cons_append, bindAll, bindAll]
      cases t.fault? w site with
      | none => exact ih
      | some e => rfl

/-- A part of compiling binds at these sites, and does nothing else. -/
def Follows (t : Template (Code ν)) (work : Work (Code ν) (Journal τ) α) (w : ClientWorld ν τ)
    (ss : List BindingSite) : Prop :=
  ∀ r w', work.run w = some (r, w') → t.bindAll ss w = (r.map fun _ => (), w')

theorem Follows.bind {work : Work (Code ν) (Journal τ) α}
    {next : α → Work (Code ν) (Journal τ) β} (h : t.Follows work w ss)
    (hnext : ∀ a v, work.run w = some (.ok a, v) → t.Follows (next a) v ss') :
    t.Follows (work >>= next) w (ss ++ ss') := by
  intro r w' hrun
  rw [bindAll_append]
  rcases bind_run_eq_some_cases.mp hrun with ⟨e, hwork, rfl⟩ | ⟨a, v, hwork, hrest⟩
  · rw [h _ _ hwork]
    rfl
  · rw [h _ _ hwork]
    exact hnext a v hwork r w' hrest

/-- Where there has been no error something has been bound at all sites. -/
theorem bindAll_eq_foldl (h : t.bindAll ss w = (.ok (), w')) : w' = ss.foldl t.establish w := by
  induction ss generalizing w with
  | nil =>
      rw [bindAll, Prod.mk.injEq] at h
      exact h.2.symm
  | cons site ss ih =>
      rw [bindAll] at h
      cases hfault : t.fault? w site with
      | none =>
          rw [hfault] at h
          exact ih h
      | some e =>
          rw [hfault, Prod.mk.injEq] at h
          exact absurd h.1 (by simp only [reduceCtorEq, not_false_eq_true])

theorem Follows.eq_foldl {work : Work (Code ν) (Journal τ) α} {a : α} (h : t.Follows work w ss)
    (hrun : work.run w = some (.ok a, w')) : w' = ss.foldl t.establish w :=
  bindAll_eq_foldl (h _ _ hrun)

theorem follows_pure (a : α) : t.Follows (pure a) w [] := by
  intro r w' hrun
  rcases pure_run_eq_some_cases.mp hrun with ⟨rfl, rfl⟩
  rfl

/-- Running something that leaves the world alone binds nowhere. -/
theorem follows_step {run : Run (Code ν) (Journal τ) α}
    (hsame : ∀ a w', run w = some (a, w') → w' = w) : t.Follows (step run) w [] := by
  intro r w' hrun
  rcases step_run_eq_some_cases.mp hrun with ⟨a, hstep, rfl⟩
  rw [hsame a w' hstep]
  rfl

theorem follows_get : t.Follows (step get : Work (Code ν) (Journal τ) _) w [] :=
  follows_step fun _ _ hrun => (Run.get_eq_some_iff.mp hrun).2.symm

theorem of_step_get {u : ClientWorld ν τ}
    (hrun : (step get : Work (Code ν) (Journal τ) _).run w = some (.ok u, v)) : u = w ∧ v = w := by
  rcases Run.get_eq_some_iff.mp (step_run_eq_some_iff.mp hrun) with ⟨rfl, rfl⟩
  exact ⟨rfl, rfl⟩

theorem follows_note (d : Diagnostic) : t.Follows (note d) w [] :=
  follows_step fun _ _ hrun => (Run.change_eq_some_iff.mp hrun).symm

/-- For a directive that shows a value there is no more to be done than for the value. -/
theorem bindValue_of_bindDirective {d : Directive} {r : Rendering} {stats : CompileStats}
    {result : Except CompileError CompileStats}
    (hrun : (t.bindDirective d r stats).run w = some (result, w')) :
    (t.bindValue d.name d.expression r).run w = some (result.map fun _ => (), w') := by
  rcases bind_run_eq_some_cases.mp hrun with ⟨e, hvalue, rfl⟩ | ⟨⟨⟩, v, hvalue, hrest⟩
  · exact hvalue
  · have hnoted : t.Follows (do
        note (.valueBound d.name d.expression)
        pure { stats with watchers := stats.watchers + 1 }) v [] :=
      (follows_note _).bind fun _ _ _ => follows_pure _
    have hrest := hnoted _ _ hrest
    rw [bindAll, Prod.mk.injEq] at hrest
    rw [hvalue, ← hrest.1, hrest.2]

theorem draw_eq {description key shown : String} {r : Rendering} {value : Data}
    (hvalue : w.getPath t.data key = .ok value) (hshown : w.display? value = some shown) :
    t.draw w (.value description key r) = t.bindPath key r shown w := by
  rw [draw, (w.getPath_eq_ok_iff t.data key value).mp hvalue]
  dsimp only
  rw [hshown, Option.getD_some]

/-- Showing and watching a value is binding at a site, apart from the listener. -/
theorem follows_bindValue {description key : String} {r : Rendering}
    {result : Except CompileError Unit}
    (hrun : (t.bindValue description key r).run w = some (result, w')) :
    (∃ e, t.fault? w (.value description key r) = some e ∧ result = .error e ∧ w' = w) ∨
      t.fault? w (.value description key r) = none ∧ result = .ok () ∧
        w' = t.draw w (.value description key r) := by
  rcases bindValue_run_iff.mp hrun with
    ⟨e, hvalue, rfl, rfl⟩ | ⟨value, shown, hvalue, hshown, rfl, rfl⟩
  · refine Or.inl ⟨_, ?_, rfl, rfl⟩
    rw [fault?, hvalue]
  · refine Or.inr ⟨?_, rfl, (draw_eq hvalue hshown).symm⟩
    rw [fault?, hvalue]

theorem bindAll_of_fault (hfault : t.fault? w site = some e) :
    t.bindAll [site] w = (.error e, w) := by
  rw [bindAll, hfault]

theorem bindAll_of_none (hfault : t.fault? w site = none) :
    t.bindAll [site] w = (.ok (), t.hear (t.draw w site) site) := by
  rw [bindAll, hfault, bindAll, establish, hfault]

theorem follows_bindEvent (d : Directive) (event : String) (modifiers : Modifiers)
    (stats : CompileStats) : t.Follows (t.bindEvent n d event modifiers stats) w
      (if event.isEmpty then none else some (.event n event modifiers d.expression)).toList := by
  intro r w' hrun
  rw [bindEvent] at hrun
  split
  · next hempty =>
      rw [if_pos hempty] at hrun
      exact ((follows_note _).bind fun _ _ _ => follows_pure _) r w' hrun
  · next hempty =>
      rw [if_neg hempty] at hrun
      cases hmethod : Table.find? d.expression t.methods with
      | none =>
          rw [hmethod] at hrun
          rcases throw_run_eq_some_cases.mp hrun with ⟨rfl, rfl⟩
          refine bindAll_of_fault ?_
          rw [fault?, hmethod]
      | some method =>
          rw [hmethod] at hrun
          have hfault : t.fault? w (.event n event modifiers d.expression) = none := by
            rw [fault?, hmethod]
          have hheard : t.hear w (.event n event modifiers d.expression) =
              w.listen n event (.handle t.data method modifiers) := by
            rw [hear, listener?, hmethod]
            rfl
          rcases bind_run_eq_some_cases.mp hrun with ⟨_, hlisten, _⟩ | ⟨_, u, hlisten, hrest⟩
          · rcases step_run_eq_some_cases.mp hlisten with ⟨_, _, hok⟩
            exact absurd hok (by simp only [reduceCtorEq, not_false_eq_true])
          · have hu := Run.change_eq_some_iff.mp (step_run_eq_some_iff.mp hlisten)
            have hnoted : t.bindAll [] u = (r.map fun _ => (), w') :=
              ((follows_note _).bind fun _ _ _ => follows_pure _) r w' hrest
            rw [bindAll, Prod.mk.injEq] at hnoted
            rw [Option.toList_some, bindAll_of_none hfault, draw, hheard, hu, hnoted.1, hnoted.2]

theorem follows_applyDirective (d : Directive) (n : NodeId) (stats : CompileStats) :
    t.Follows (t.applyDirective n stats d) w (d.site? n).toList := by
  intro r w' hrun
  rw [applyDirective] at hrun
  cases hkind : d.kind with
  | text | html =>
      rw [hkind] at hrun
      rw [Directive.site?, hkind]
      rcases follows_bindValue (bindValue_of_bindDirective hrun) with
        ⟨e, hfault, hr, rfl⟩ | ⟨hfault, hr, rfl⟩
      · rw [hr]
        exact bindAll_of_fault hfault
      · rw [hr]
        exact bindAll_of_none hfault
  | model =>
      rw [hkind] at hrun
      rw [Directive.site?, hkind]
      rcases bind_run_eq_some_cases.mp hrun with ⟨e, hbind, rfl⟩ | ⟨_, v, hbind, hrest⟩
      · rcases follows_bindValue (bindValue_of_bindDirective hbind) with
          ⟨e', hfault, he, rfl⟩ | ⟨_, hok, _⟩
        · injection he with he
          subst he
          exact bindAll_of_fault hfault
        · exact absurd hok (by simp only [Except.map, reduceCtorEq, not_false_eq_true])
      · rcases follows_bindValue (bindValue_of_bindDirective hbind) with
          ⟨_, _, he, _⟩ | ⟨hfault, _, rfl⟩
        · exact absurd he (by simp only [Except.map, reduceCtorEq, not_false_eq_true])
        · -- The field listens only when its value is bound.
          rcases bind_run_eq_some_cases.mp hrest with ⟨_, hlisten, _⟩ | ⟨_, u, hlisten, hpure⟩
          · rcases step_run_eq_some_cases.mp hlisten with ⟨_, _, hok⟩
            exact absurd hok (by simp only [reduceCtorEq, not_false_eq_true])
          · have hu := Run.change_eq_some_iff.mp (step_run_eq_some_iff.mp hlisten)
            rcases pure_run_eq_some_cases.mp hpure with ⟨rfl, rfl⟩
            rw [← hu]
            exact bindAll_of_none hfault
  | on event modifiers =>
      rw [hkind] at hrun
      rw [Directive.site?, hkind]
      exact follows_bindEvent d event modifiers stats r w' hrun
  | unknown name =>
      rw [hkind] at hrun
      rw [Directive.site?, hkind]
      exact ((follows_note _).bind fun _ _ _ => follows_pure _) r w' hrun

/-- Directives take effect one after the other, at the sites that they are. -/
theorem follows_applyDirectives (ds : List Directive) (n : NodeId) (stats : CompileStats) :
    t.Follows (ds.foldlM (t.applyDirective n) stats) w (ds.filterMap (·.site? n)) := by
  induction ds generalizing w stats with
  | nil => exact follows_pure stats
  | cons d ds ih =>
      have hsites : (d :: ds).filterMap (·.site? n) =
          (d.site? n).toList ++ ds.filterMap (·.site? n) := by
        rw [List.filterMap_cons]
        cases d.site? n with
        | none => rfl
        | some site => rfl
      rw [hsites, List.foldlM_cons]
      exact (follows_applyDirective d n stats).bind fun stats' _ _ => ih stats'

theorem follows_bindText (n : NodeId) (content : String) (stats : CompileStats) :
    t.Follows (t.bindText n content stats) w ((Interpolation.find? t.markers content).toList.map
      fun i => .value (i.describe t.markers) i.key (.interpolated n i)) := by
  intro r w' hrun
  rw [bindText] at hrun
  cases hfind : Interpolation.find? t.markers content with
  | none =>
      rw [hfind] at hrun
      exact follows_pure _ r w' hrun
  | some i =>
      rw [hfind] at hrun
      have hvalue : t.Follows (t.bindValue (i.describe t.markers) i.key (.interpolated n i)) w
          [.value (i.describe t.markers) i.key (.interpolated n i)] := by
        intro r w' hrun
        rcases follows_bindValue hrun with ⟨e, hfault, rfl, rfl⟩ | ⟨hfault, rfl, rfl⟩
        · exact bindAll_of_fault hfault
        · exact bindAll_of_none hfault
      exact (hvalue.bind fun _ _ _ => follows_pure _) r w' hrun

/-- A node itself binds at its own sites. -/
theorem follows_compileSelf (n : NodeId) (stats : CompileStats) :
    t.Follows (t.compileSelf n stats) w (t.sitesAt n (w.node n)) := by
  refine follows_get.bind fun u v hget => ?_
  rcases of_step_get hget with ⟨rfl, rfl⟩
  refine (follows_note _).bind fun _ x hnote => ?_
  rw [(follows_note (t := t) _).eq_foldl hnote, List.foldl_nil]
  cases hkind : (v.node n).kind with
  | text content => exact follows_bindText n content stats
  | comment content => exact (follows_note _).bind fun _ _ _ => follows_pure _
  | element tag =>
      have hremarks : t.Follows (step (Run.change
          (·.noticeAll (remarksOf t.markers (v.node n).attributes)))) v [] :=
        follows_step fun _ _ hrun =>
          (Run.change_eq_some_iff.mp hrun).symm.trans (World.noticeAll_eq _ v)
      refine hremarks.bind fun _ x hnoticed => ?_
      rw [hremarks.eq_foldl hnoticed]
      exact follows_applyDirectives _ n stats

/-- Nodes that are visited one after the other bind at the sites that are among them. -/
theorem follows_compileAll {depth levels : Nat}
    (ih : ∀ n (w : ClientWorld ν τ) stats,
      t.Follows (t.compileNode depth stats n) w (t.sites levels w n))
    (ns : List NodeId) (stats : CompileStats) :
    t.Follows (ns.foldlM (t.compileNode depth) stats) w (t.sitesAmong (t.sites levels) ns w) := by
  induction ns generalizing w stats with
  | nil => exact follows_pure stats
  | cons n ns ih' =>
      rw [List.foldlM_cons, sitesAmong]
      refine (ih n w stats).bind fun stats' v hrun => ?_
      rw [← (ih n w stats).eq_foldl hrun]
      exact ih' stats'

/-- Compiling a node is binding at its sites, of which there may be more than are visited. -/
theorem follows_compileNode {depth levels : Nat} (hlevels : depth ≤ levels) (n : NodeId)
    (stats : CompileStats) :
    t.Follows (t.compileNode depth stats n) w (t.sites levels w n) := by
  induction depth generalizing levels n w stats with
  | zero =>
      intro r w' hrun
      rcases step_run_eq_some_cases.mp hrun with ⟨_, hstuck, _⟩
      exact absurd hstuck (by simp only [Run.stuck_eq_some_iff, not_false_eq_true])
  | succ depth ih =>
      cases levels with
      | zero => exact absurd hlevels (Nat.not_succ_le_zero depth)
      | succ levels =>
          rw [compileNode, sites]
          refine (follows_compileSelf n _).bind fun stats' v hrun => ?_
          rw [← (follows_compileSelf n _).eq_foldl hrun]
          refine follows_get.bind fun u x hget => ?_
          rcases of_step_get hget with ⟨rfl, rfl⟩
          exact follows_compileAll
            (fun n w stats => ih (Nat.le_of_succ_le_succ hlevels) n stats) _ _


/-- Compiling a template is compiling its root. -/
theorem Follows.compile {depth : Nat} {root : NodeId}
    (h : t.Follows (t.compileNode depth {} root) w ss) : t.Follows (t.compile depth root) w ss := by
  have hparts : t.Follows (t.compile depth root) w ([] ++ ([] ++ (ss ++ []))) := by
    refine follows_get.bind fun u v hget => ?_
    rcases of_step_get hget with ⟨rfl, rfl⟩
    refine (follows_note _).bind fun _ x hnote => ?_
    rw [(follows_note (t := t) _).eq_foldl hnote, List.foldl_nil]
    exact h.bind fun _ _ _ => follows_note _
  rwa [List.append_nil] at hparts

/-- The same for a whole template. -/
theorem follows_compile {depth levels : Nat} (hlevels : depth ≤ levels) (root : NodeId) :
    t.Follows (t.compile depth root) w (t.sites levels w root) :=
  (follows_compileNode hlevels root {}).compile

end Follow

/-! ### Faults and effects -/

section Effect

variable {t : Template (Code ν)} {site : BindingSite} {ss : List BindingSite}

open World

theorem establish_eq (hfault : t.fault? w site = none) :
    t.establish w site = t.hear (t.draw w site) site := by
  rw [establish, hfault]

theorem exists_value {description key : String} {r : Rendering}
    (hfault : t.fault? w (.value description key r) = none) :
    ∃ value, w.pathValue? t.data key = some value := by
  rw [fault?] at hfault
  cases hvalue : w.getPath t.data key with
  | error e =>
      rw [hvalue] at hfault
      exact absurd hfault (by simp only [reduceCtorEq, not_false_eq_true])
  | ok value => exact ⟨value, (w.getPath_eq_ok_iff t.data key value).mp hvalue⟩

theorem onlyNodes_hear (w : ClientWorld ν τ) (site : BindingSite) :
    w.OnlyNodes (t.hear w site) := by
  unfold hear
  split
  · exact .refl w
  · exact .updateNode w _ _

theorem objects_attach (key : String) (r : Rendering) (shown : String) :
    (t.attach key r shown w).objects = w.objects :=
  (w.onlyNodes_render r shown).objects

theorem property?_bindPath (key : String) (r : Rendering) (shown : String) (o : ObjectId)
    (property : String) :
    (t.bindPath key r shown w).property? o property = (w.property? o property).map fun p =>
      if (o, property) ∈ w.pathFields t.data key then
        { p with registry := p.registry.add ⟨w.subscribers.size⟩ }
      else p := by
  rw [bindPath, property?_dependAll, property?_of_objects (objects_attach key r shown)]

theorem subscribers_bindPath (key : String) (r : Rendering) (shown : String) :
    (t.bindPath key r shown w).subscribers.cells.toList =
      w.subscribers.cells.toList ++ [.watcher ⟨t.data, key, .render r⟩] := by
  have hsame : (t.bindPath key r shown w).subscribers = (t.attach key r shown w).subscribers :=
    (dependAll_frame _ _ _).2.1
  have hrender : (w.render r shown).subscribers = w.subscribers :=
    (w.onlyNodes_render r shown).subscribers
  rw [hsame, attach, addSubscriber, hrender, Heap.add, Array.toList_push]

/-- Showing and watching a value does not add to the listeners. -/
theorem sameListeners_draw (w : ClientWorld ν τ) (site : BindingSite) :
    w.SameListeners (t.draw w site) := by
  unfold draw
  split
  · next key r =>
      split
      · exact .refl w
      · next value _ =>
          have hnodes : (t.bindPath key r ((w.display? value).getD "") w).nodes =
              (w.render r ((w.display? value).getD "")).nodes := (dependAll_frame _ _ _).1
          have hrender := w.sameListeners_render r ((w.display? value).getD "")
          refine ⟨?_, fun n => ?_⟩
          · rw [hnodes]
            exact hrender.grown
          · rw [World.node, hnodes]
            exact hrender.listeners n
  · exact .refl w

theorem grown_establish (w : ClientWorld ν τ) (site : BindingSite) :
    w.nodes.size ≤ (t.establish w site).nodes.size := by
  unfold establish
  split
  · exact Nat.le_refl _
  · refine Nat.le_trans (sameListeners_draw (t := t) w site).grown (Nat.le_of_eq ?_)
    unfold hear
    split
    · rfl
    · exact (size_nodes_updateNode _ _ _).symm

/-- Binding at a site writes nothing. -/
theorem sameValues_establish (w : ClientWorld ν τ) (site : BindingSite) :
    SameValues (fun _ => True) w (t.establish w site) := by
  have hdraw : SameValues (fun _ => True) w (t.draw w site) := by
    intro o _ property
    unfold draw
    split
    · split
      · rfl
      · rw [property?_bindPath, Option.map_map]
        refine Option.map_congr fun p _ => ?_
        rw [Function.comp_apply]
        split
        · rfl
        · rfl
    · rfl
  intro o _ property
  unfold establish
  split
  · rfl
  · rw [property?_of_objects (onlyNodes_hear _ site).objects]
    exact hdraw o trivial property

/-- So the faults are the ones that there are at the start. -/
theorem fault?_establish (w : ClientWorld ν τ) (site : BindingSite) :
    t.fault? (t.establish w site) = t.fault? w := by
  funext other
  cases other with
  | value description key r => rw [fault?, fault?, getPath_congr (sameValues_establish w site)]
  | event n event modifiers method => rfl

/-- Binding at sites gives the first fault of any, and the effect of the sites before it. -/
theorem bindAll_eq (ss : List BindingSite) (w : ClientWorld ν τ) :
    t.bindAll ss w =
      (match ss.findSome? (t.fault? w) with
        | none => .ok ()
        | some e => .error e,
        (ss.takeWhile fun site => (t.fault? w site).isNone).foldl t.establish w) := by
  induction ss generalizing w with
  | nil => rfl
  | cons site ss ih =>
      rw [bindAll, List.findSome?_cons, List.takeWhile_cons]
      cases hfault : t.fault? w site with
      | some e => rfl
      | none =>
          dsimp only
          rw [ih, fault?_establish]
          rfl

/-- What one site adds. -/
theorem adds_establish (hfault : t.fault? w site = none) (hlt : site.node.index < w.nodes.size) :
    t.Adds w [site] (t.establish w site) := by
  rw [establish_eq hfault]
  refine ⟨?_, fun o key => ?_, fun n => ?_⟩
  · rw [(onlyNodes_hear _ site).subscribers]
    cases site with
    | value description key r =>
        rcases exists_value hfault with ⟨value, hvalue⟩
        rw [draw, hvalue]
        exact subscribers_bindPath key r _
    | event n event modifiers method => exact (List.append_nil _).symm
  · rw [property?_of_objects (onlyNodes_hear _ site).objects]
    cases site with
    | value description path r =>
        rcases exists_value hfault with ⟨value, hvalue⟩
        rw [draw, hvalue]
        dsimp only
        rw [property?_bindPath]
        refine Option.map_congr fun p _ => ?_
        simp only [newReaders, watcher?, List.filterMap_cons, List.filterMap_nil, List.zipIdx_cons,
          List.zipIdx_nil]
        split
        · rfl
        · rfl
    | event n event modifiers method => exact Option.map_id'.symm
  · have hdraw := sameListeners_draw (t := t) w site
    unfold hear
    split
    · next hnone =>
        rw [hdraw.listeners]
        by_cases hn : site.node = n
        · simp only [hn, decide_true, List.filter_cons_of_pos, List.filter_nil,
            List.filterMap_cons, hnone, List.filterMap_nil, List.append_nil]
        · simp only [hn, decide_false, Bool.false_eq_true, not_false_eq_true,
            List.filter_cons_of_neg, List.filter_nil, List.filterMap_nil, List.append_nil]
    · next kind listener hsome =>
        rw [World.listen, node_updateNode]
        by_cases hn : site.node = n
        · subst hn
          rw [if_pos ⟨rfl, Nat.lt_of_lt_of_le hlt hdraw.grown⟩]
          simp only [hdraw.listeners, decide_true, List.filter_cons_of_pos, List.filter_nil,
            List.filterMap_cons, hsome, List.filterMap_nil]
        · rw [if_neg fun h => hn h.1, hdraw.listeners]
          simp only [hn, decide_false, Bool.false_eq_true, not_false_eq_true,
            List.filter_cons_of_neg, List.filter_nil, List.filterMap_nil, List.append_nil]

/-- The nodes of sites are there when it is their turn. -/
def Lives (t : Template (Code ν)) : ClientWorld ν τ → List BindingSite → Prop
  | _, [] => True
  | w, site :: ss => site.node.index < w.nodes.size ∧ t.Lives (t.establish w site) ss

/-- What sites add one after the other. -/
theorem Adds.cons (h : t.Adds w [site] v) (hrest : t.Adds v ss w')
    (hvalues : SameValues (fun _ => True) w v) : t.Adds w (site :: ss) w' := by
  have hsize : v.subscribers.size = w.subscribers.size + (t.watcher? site).toList.length := by
    have hlength := congrArg List.length h.watchers
    rw [List.length_append, List.length_map] at hlength
    refine hlength.trans (congrArg _ (congrArg List.length ?_))
    cases hwatcher : t.watcher? site with
    | none => simp only [List.filterMap_cons, hwatcher, List.filterMap_nil, Option.toList_none]
    | some watcher =>
        simp only [List.filterMap_cons, hwatcher, List.filterMap_nil, Option.toList_some]
  refine ⟨?_, fun o key => ?_, fun n => ?_⟩
  · rw [hrest.watchers, h.watchers, List.append_assoc, ← List.map_append, ← List.filterMap_append]
    rfl
  · have hreaders : t.newReaders w (site :: ss) (o, key) =
        t.newReaders w [site] (o, key) ++ t.newReaders v ss (o, key) := by
      have hpath : ∀ root path, v.pathFields root path = w.pathFields root path :=
        fun root path => (path_congr hvalues root path).2
      simp only [newReaders, hpath]
      cases hwatcher : t.watcher? site with
      | none =>
          rw [hwatcher] at hsize
          simp only [List.filterMap_cons, hwatcher, List.filterMap_nil, List.zipIdx_nil,
            List.nil_append, hsize, Option.toList_none, List.length_nil, Nat.add_zero]
      | some watcher =>
          rw [hwatcher] at hsize
          simp only [List.filterMap_cons, hwatcher, List.filterMap_nil, List.zipIdx_cons,
            List.zipIdx_nil, hsize, Option.toList_some, List.length_singleton]
          split
          · rfl
          · rfl
    rw [hrest.registries, h.registries, Option.map_map, hreaders]
    refine Option.map_congr fun p _ => ?_
    rw [Function.comp_apply, List.foldl_append]
  · rw [hrest.listeners, h.listeners, List.append_assoc, ← List.filterMap_append,
      ← List.filter_append]
    rfl

/-- What binding at sites adds, if nothing fails. -/
theorem adds_foldl (hfault : ∀ site ∈ ss, t.fault? w site = none) (hlives : t.Lives w ss) :
    t.Adds w ss (ss.foldl t.establish w) := by
  induction ss generalizing w with
  | nil =>
      refine ⟨(List.append_nil _).symm, fun o key => ?_, fun n => (List.append_nil _).symm⟩
      exact Option.map_id'.symm
  | cons site ss ih =>
      rcases hlives with ⟨hlt, hlives⟩
      refine (adds_establish (hfault site List.mem_cons_self) hlt).cons (ih (fun other hother => ?_)
        hlives) (sameValues_establish w site)
      rw [fault?_establish]
      exact hfault other (List.mem_cons_of_mem site hother)

theorem Lives.append {ss' : List BindingSite} (h : t.Lives w ss)
    (h' : t.Lives (ss.foldl t.establish w) ss') : t.Lives w (ss ++ ss') := by
  induction ss generalizing w with
  | nil => exact h'
  | cons site ss ih => exact ⟨h.1, ih h.2 h'⟩

theorem Lives.takeWhile (h : t.Lives w ss) (p : BindingSite → Bool) :
    t.Lives w (ss.takeWhile p) := by
  induction ss generalizing w with
  | nil => trivial
  | cons site ss ih =>
      rw [List.takeWhile_cons]
      split
      · exact ⟨h.1, ih h.2⟩
      · trivial

/-- Sites at nodes that are there. -/
theorem lives_of_lt (hlt : ∀ site ∈ ss, site.node.index < w.nodes.size) : t.Lives w ss := by
  induction ss generalizing w with
  | nil => trivial
  | cons site ss ih =>
      rw [List.forall_mem_cons] at hlt
      exact ⟨hlt.1, ih fun other hother =>
        Nat.lt_of_lt_of_le (hlt.2 other hother) (grown_establish w site)⟩

/-- Whoever subscribes once sites are bound did so before, or shows the value of a site. -/
theorem Adds.exists_site (h : t.Adds w ss w') {s : SubscriberId} {subscriber : Subscriber (Code ν)}
    (hs : w'.subscriber? s = some subscriber) :
    w.subscriber? s = some subscriber ∨
      ∃ description key r, .value description key r ∈ ss ∧
        subscriber = .watcher ⟨t.data, key, .render r⟩ := by
  rw [subscriber?_eq_getElem?] at hs ⊢
  rw [h.watchers] at hs
  by_cases hold : s.index < w.subscribers.cells.toList.length
  · rw [List.getElem?_append_left hold] at hs
    exact Or.inl hs
  · rw [List.getElem?_append_right (Nat.le_of_not_lt hold)] at hs
    rcases List.mem_map.mp (List.mem_of_getElem? hs) with ⟨watcher, hwatcher, rfl⟩
    rcases List.mem_filterMap.mp hwatcher with ⟨site, hsite, hsome⟩
    cases site with
    | value description key r =>
        rw [watcher?, Option.some.injEq] at hsome
        exact Or.inr ⟨description, key, r, hsite, congrArg _ hsome.symm⟩
    | event n event modifiers method => exact absurd hsome (Option.some_ne_none watcher).symm

/-- What comes of binding at sites one after the other. -/
theorem Follows.effect {work : Work (Code ν) (Journal τ) Unit} {r : Except CompileError Unit}
    (h : t.Follows work w ss) (hrun : work.run w = some (r, w')) (hlives : t.Lives w ss) :
    (r = .ok () ↔ ∀ site ∈ ss, t.fault? w site = none) ∧
      (∀ e, r = .error e ↔ ss.findSome? (t.fault? w) = some e) ∧
      w' = (ss.takeWhile fun site => (t.fault? w site).isNone).foldl t.establish w ∧
      t.Adds w (ss.takeWhile fun site => (t.fault? w site).isNone) w' := by
  have hbind := h r w' hrun
  rw [bindAll_eq, Prod.mk.injEq] at hbind
  rcases hbind with ⟨hresult, heffect⟩
  have hr : (r.map fun _ => ()) = r := by
    cases r with
    | ok u => rfl
    | error e => rfl
  rw [hr] at hresult
  refine ⟨?_, fun e => ?_, heffect.symm, ?_⟩
  · rw [← hresult, ← List.findSome?_eq_none_iff]
    cases ss.findSome? (t.fault? w) with
    | none => exact ⟨fun _ => rfl, fun _ => rfl⟩
    | some e => simp only [reduceCtorEq]
  · rw [← hresult]
    cases ss.findSome? (t.fault? w) with
    | none => simp only [reduceCtorEq]
    | some e' => simp only [Except.error.injEq, Option.some.injEq]
  · rw [← heffect]
    refine adds_foldl (fun site hsite => ?_) (hlives.takeWhile _)
    have hnone : (t.fault? w site).isNone = true :=
      List.mem_takeWhile_imp (p := fun site => (t.fault? w site).isNone) hsite
    exact Option.isNone_iff_eq_none.mp hnone

end Effect

end Template

theorem Directive.node_of_site? {n : NodeId} {d : Directive} {site : BindingSite}
    (h : d.site? n = some site) : site.node = n := by
  unfold Directive.site? at h
  split at h
  · injection h with h
    rw [← h]
    rfl
  · injection h with h
    rw [← h]
    rfl
  · injection h with h
    rw [← h]
    rfl
  · split at h
    · exact absurd h (by simp only [reduceCtorEq, not_false_eq_true])
    · injection h with h
      rw [← h]
      rfl
  · exact absurd h (by simp only [reduceCtorEq, not_false_eq_true])

/-- There is no expression in no text. -/
theorem Interpolation.find?_empty (markers : Markers) : Interpolation.find? markers "" = none := by
  have hempty : ∀ {marker before after : List Char},
      Text.cutAt? marker [] = some (before, after) → before = [] ∧ after = [] := by
    intro marker before after hcut
    have happend := Text.append_of_cutAt? hcut
    rw [List.append_eq_nil_iff, List.append_eq_nil_iff] at happend
    exact ⟨happend.1.1, happend.2⟩
  rw [find?]
  split
  · rfl
  · next before rest hopening =>
      obtain rfl : rest = [] := (hempty hopening).2
      split
      · rfl
      · next body after hclosing =>
          obtain rfl : body = [] := (hempty hclosing).1
          rfl

namespace Template

section Order

variable {t : Template (Code ν)} {site : BindingSite} {n : NodeId}

theorem node_of_mem_sitesAt (h : site ∈ t.sitesAt n (w.node n)) :
    site.node = n ∧ n.index < w.nodes.size := by
  have hexists : (w.node n).kind ≠ .text "" → n.index < w.nodes.size := by
    intro hkind
    by_contra hlt
    refine hkind ?_
    rw [World.node, Heap.get?_eq_none (Nat.le_of_not_lt hlt)]
    rfl
  unfold sitesAt at h
  split at h
  · next content hkind =>
      rcases List.mem_map.mp h with ⟨i, hi, rfl⟩
      refine ⟨rfl, hexists fun hempty => ?_⟩
      rw [hkind, NodeKind.text.injEq] at hempty
      rw [hempty, Interpolation.find?_empty] at hi
      exact absurd hi (by simp only [Option.toList_none, List.not_mem_nil, not_false_eq_true])
  · exact absurd h List.not_mem_nil
  · next tag hkind =>
      rcases List.mem_filterMap.mp h with ⟨d, _, hd⟩
      refine ⟨Directive.node_of_site? hd, hexists fun htext => ?_⟩
      rw [hkind] at htext
      exact absurd htext (by simp only [reduceCtorEq, not_false_eq_true])

theorem lives_sitesAt (n : NodeId) (w : ClientWorld ν τ) : t.Lives w (t.sitesAt n (w.node n)) := by
  refine lives_of_lt fun site hsite => ?_
  rw [(node_of_mem_sitesAt hsite).1]
  exact (node_of_mem_sitesAt hsite).2

/-- The nodes of all sites are there when they are met. -/
theorem lives_sites (depth : Nat) (w : ClientWorld ν τ) (n : NodeId) :
    t.Lives w (t.sites depth w n) := by
  induction depth generalizing w n with
  | zero => trivial
  | succ depth ih =>
      have hamong : ∀ (ns : List NodeId) (v : ClientWorld ν τ),
          t.Lives v (t.sitesAmong (t.sites depth) ns v) := by
        intro ns
        induction ns with
        | nil => exact fun _ => trivial
        | cons m ms ih' => exact fun v => (ih v m).append (ih' _)
      exact (lives_sitesAt n w).append (hamong _ _)

/-- Compiling is a fold over the sites of the template that stops at the first fault. It ends well
    if nothing fails at any site, and else with the first fault. Its effect is that of the
    sites in front of the first fault, one after the other, and these alone have watchers,
    registrations and listeners. -/
theorem compile_eq_bindAll {depth levels : Nat} {root : NodeId} {r : Except CompileError Unit}
    (hrun : (t.compile depth root).run w = some (r, w')) (hlevels : depth ≤ levels) :
    (r = .ok () ↔ ∀ site ∈ t.sites levels w root, t.fault? w site = none) ∧
      (∀ e, r = .error e ↔ (t.sites levels w root).findSome? (t.fault? w) = some e) ∧
      w' = ((t.sites levels w root).takeWhile fun site => (t.fault? w site).isNone).foldl
        t.establish w ∧
      t.Adds w ((t.sites levels w root).takeWhile fun site => (t.fault? w site).isNone) w' := by
  exact (follows_compile hlevels root).effect hrun (lives_sites levels w root)

end Order

end Template

/-- Data and a method's name that is not the one of any method. -/
def shouting : Template (Code Unit) where
  data := ⟨0⟩
  methods := [("whisper", .method ())]

/-- An element that shows a name in place of what stands beneath it, a text with the name, and
    a form field for the name that calls a method. -/
def shoutingWorld : ClientWorld Unit Unit :=
  (((World.start Unit ()).observeRoot (.object [("name", .string "Ada")])).2.plantTemplate
    ("<div><p v-text=\"name\"><b>x</b></p>Hi \x7b\x7b name \x7d\x7d" ++
      "<input @click=\"shout\" v-model=\"name\"></div>")).2

theorem isSome_shouting : ((shouting.compile 5 ⟨0⟩).run shoutingWorld).isSome = true := by
  decide +kernel

/-- The world after an attempt at compiling it. -/
def shoutedWorld : ClientWorld Unit Unit :=
  (((shouting.compile 5 ⟨0⟩).run shoutingWorld).get isSome_shouting).2

/-- What stands in front of the first fault is shown, and of the rest nothing is bound. -/
theorem compile_eq_bindAll_shouting :
    (shouting.compile 5 ⟨0⟩).run shoutingWorld =
        some (.error (.missingMethod "shout" "click"), shoutedWorld) ∧
      (shouting.sites 5 shoutingWorld ⟨0⟩).map BindingSite.node = [⟨1⟩, ⟨4⟩, ⟨5⟩, ⟨5⟩] ∧
      (shouting.sites 5 shoutingWorld ⟨0⟩).findSome? (shouting.fault? shoutingWorld) =
        some (.missingMethod "shout" "click") ∧
      shoutedWorld.subscribers.cells.toList =
        [.watcher ⟨⟨0⟩, "name", .render (.text ⟨1⟩)⟩,
          .watcher ⟨⟨0⟩, "name", .render (.interpolated ⟨4⟩ ⟨"Hi ", "name", ""⟩)⟩] ∧
      (shoutedWorld.node ⟨5⟩).listeners = [] ∧ (shoutedWorld.node ⟨5⟩).value = "" ∧
      shoutedWorld.textContent? ⟨1⟩ = some "Ada" ∧
      (shoutedWorld.node ⟨4⟩).kind = .text "Hi Ada" := by
  have hrun : (shouting.compile 5 ⟨0⟩).run shoutingWorld =
      some (.error (.missingMethod "shout" "click"), shoutedWorld) :=
    Run.eq_some_of_fst isSome_shouting (by decide +kernel)
  rcases Template.compile_eq_bindAll hrun (Nat.le_refl 5) with ⟨_, hfault, hworld, hadds⟩
  refine ⟨hrun, by decide +kernel, (hfault _).mp rfl, ?_, ?_, ?_, ?_, ?_⟩
  · rw [hadds.watchers]
    decide +kernel
  · rw [hadds.listeners]
    decide +kernel
  · rw [hworld]
    decide +kernel
  · rw [hworld]
    decide +kernel
  · rw [hworld]
    decide +kernel

end LiveTemplate
