import LiveTemplate.Proofs.Binding.Picturing
import LiveTemplate.Proofs.Binding.Visiting
import LiveTemplate.Proofs.View.Moving

/-!
# Compilations That Come to an End

When a walk over a view comes to an end, although it goes on among what it plants itself.

A directive that shows a value as markup puts a forest beneath its element, and the
directives in this forest take effect in turn. So one path can lead to another one: the
markup at the first has a directive for the second. If a path leads to itself, then the walk
does not come to an end. Otherwise it does: the paths to which a path leads come before
it in a well-founded order, and among the nodes that are there the walk follows the view.

## Main definitions

* `Template.Finishes`, `Template.Ends`: A part of a compilation, and a walk, come to an end.
* `Tree.insertions`: The paths whose values are put somewhere as markup.
* `Leads`: The markup at a path puts the markup at another path somewhere.

## Theorems

* `compileNode_mono`: A walk that has come to an end does so with more depth.
* `ends_of_visits`: A walk ends if it does among what is planted.
* `ends_of_acc`: A walk ends if one gets only so far from the paths that it comes by.
* `exists_compile_and_build`: Compiling and building come to an end.
* `endless_echo`: They do not if the markup that is shown is that of the element itself.
-/

namespace LiveTemplate

open Markup

variable {ν τ : Type} {u v w w' : ClientWorld ν τ}

namespace Template

variable {t : Template (Code ν)} {α β : Type} {n : NodeId} {ns all : List NodeId}

/-! ### More depth -/

theorem foldlM_mono {f g : β → α → Work (Code ν) (Journal τ) β}
    (hfg : ∀ {a b r} {w w' : ClientWorld ν τ}, (f b a).run w = some (r, w') →
      (g b a).run w = some (r, w'))
    (as : List α) {b : β} {r : Except CompileError β}
    (hrun : (as.foldlM f b).run w = some (r, w')) : (as.foldlM g b).run w = some (r, w') := by
  induction as generalizing b w with
  | nil => exact hrun
  | cons a as ih =>
      rw [List.foldlM_cons, bind_run_eq_some_cases] at hrun ⊢
      rcases hrun with ⟨e, hfirst, hr⟩ | ⟨b', v, hfirst, hrest⟩
      · exact Or.inl ⟨e, hfg hfirst, hr⟩
      · exact Or.inr ⟨b', v, hfg hfirst, ih hrest⟩

/-- A walk that has come to an end does so with more depth. -/
theorem compileNode_mono {depth levels : Nat} (hlevels : depth ≤ levels) {stats : CompileStats}
    {r : Except CompileError CompileStats}
    (hrun : (t.compileNode depth stats n).run w = some (r, w')) :
    (t.compileNode levels stats n).run w = some (r, w') := by
  induction depth generalizing levels stats n w w' r with
  | zero =>
      rcases step_run_eq_some_cases.mp hrun with ⟨_, hstuck, _⟩
      exact absurd hstuck (by simp only [Run.stuck_eq_some_iff, not_false_eq_true])
  | succ depth ih =>
      cases levels with
      | zero => exact absurd hlevels (Nat.not_succ_le_zero depth)
      | succ levels =>
          rw [compileNode, bind_run_eq_some_cases] at hrun ⊢
          rcases hrun with ⟨e, hself, hr⟩ | ⟨stats₁, v, hself, hrest⟩
          · exact Or.inl ⟨e, hself, hr⟩
          · refine Or.inr ⟨stats₁, v, hself, ?_⟩
            rw [bind_run_eq_some_cases] at hrest ⊢
            rcases hrest with ⟨e, hget, hr⟩ | ⟨x, y, hget, hchildren⟩
            · exact Or.inl ⟨e, hget, hr⟩
            · exact Or.inr ⟨x, y, hget,
                foldlM_mono (ih (Nat.le_of_succ_le_succ hlevels)) _ hchildren⟩

/-! ### Parts that come to an end -/

/-- A part of a compilation comes to an end, be it with an error. -/
def Finishes (work : Work (Code ν) (Journal τ) α) (w : ClientWorld ν τ) : Prop :=
  ∃ r w', work.run w = some (r, w')

namespace Finishes

theorem bind {work : Work (Code ν) (Journal τ) α} {next : α → Work (Code ν) (Journal τ) β}
    (h : Finishes work w)
    (hnext : ∀ a v, work.run w = some (.ok a, v) → Finishes (next a) v) :
    Finishes (work >>= next) w := by
  rcases h with ⟨r, v, hrun⟩
  cases r with
  | error e => exact ⟨.error e, v, bind_run_eq_some_cases.mpr (Or.inl ⟨e, hrun, rfl⟩)⟩
  | ok a =>
      rcases hnext a v hrun with ⟨r, w', hrest⟩
      exact ⟨r, w', bind_run_eq_some_cases.mpr (Or.inr ⟨a, v, hrun, hrest⟩)⟩

theorem pure (a : α) (w : ClientWorld ν τ) : Finishes (Pure.pure a) w :=
  ⟨.ok a, w, pure_run_eq_some_cases.mpr ⟨rfl, rfl⟩⟩

theorem throw (e : CompileError) (w : ClientWorld ν τ) :
    Finishes (MonadExcept.throw e : Work (Code ν) (Journal τ) α) w :=
  ⟨.error e, w, throw_run_eq_some_cases.mpr ⟨rfl, rfl⟩⟩

theorem change (f : ClientWorld ν τ → ClientWorld ν τ) (w : ClientWorld ν τ) :
    Finishes (step (Run.change f)) w :=
  ⟨.ok (), f w, step_run_eq_some_cases.mpr ⟨(), Run.change_eq_some_iff.mpr rfl, rfl⟩⟩

theorem get (w : ClientWorld ν τ) :
    Finishes (step MonadState.get : Work (Code ν) (Journal τ) _) w :=
  ⟨.ok w, w, step_run_eq_some_cases.mpr ⟨w, Run.get_eq_some_iff.mpr ⟨rfl, rfl⟩, rfl⟩⟩

end Finishes

/-- Two worlds have the same values of the data, and they look the same. -/
structure Agrees (t : Template (Code ν)) (u w : ClientWorld ν τ) : Prop where
  /-- Paths lead to the same values. -/
  path : ∀ path, w.pathValue? t.data path = u.pathValue? t.data path
  /-- Values look the same. -/
  display : ∀ value, w.display? value = u.display? value

namespace Agrees

theorem refl (u : ClientWorld ν τ) : t.Agrees u u :=
  ⟨fun _ => rfl, fun _ => rfl⟩

theorem foldl (h : t.Agrees u w) (ss : List BindingSite) :
    t.Agrees u (ss.foldl t.establish w) :=
  ⟨fun path => (pathValue?_foldl ss w t.data path).trans (h.path path),
    fun value => (display?_foldl ss w value).trans (h.display value)⟩

/-- Compiling does not change the data. -/
theorem follows {work : Work (Code ν) (Journal τ) α} {ss : List BindingSite} {a : α}
    (h : t.Agrees u w) (hfollows : t.Follows work w ss) (hrun : work.run w = some (.ok a, v)) :
    t.Agrees u v := by
  rw [hfollows.eq_foldl hrun]
  exact h.foldl ss

end Agrees

/-- Every value to which a path of the data leads has a plain form. -/
def Displayable (t : Template (Code ν)) (w : ClientWorld ν τ) : Prop :=
  ∀ path value, w.pathValue? t.data path = some value → ∃ shown, w.display? value = some shown

theorem Displayable.of_agrees (h : t.Displayable u) (hagrees : t.Agrees u w) :
    t.Displayable w := by
  intro path value hvalue
  rw [hagrees.path] at hvalue
  rw [hagrees.display]
  exact h path value hvalue

section Self

variable (h : t.Displayable u) (hagrees : t.Agrees u w)
include h hagrees

theorem finishes_bindValue (description key : String) (r : Rendering) :
    Finishes (t.bindValue description key r) w := by
  cases hget : w.getPath t.data key with
  | error e => exact ⟨_, w, bindValue_run_iff.mpr (Or.inl ⟨e, hget, rfl, rfl⟩)⟩
  | ok value =>
      rcases h.of_agrees hagrees key value ((w.getPath_eq_ok_iff t.data key value).mp hget)
        with ⟨shown, hshown⟩
      exact ⟨_, _, bindValue_run_iff.mpr (Or.inr ⟨value, shown, hget, hshown, rfl, rfl⟩)⟩

theorem finishes_bindDirective (d : Directive) (r : Rendering) (stats : CompileStats) :
    Finishes (t.bindDirective d r stats) w :=
  (finishes_bindValue h hagrees d.name d.expression r).bind fun _ v _ =>
    (Finishes.change _ v).bind fun _ _ _ => .pure _ _

omit h hagrees in
theorem finishes_bindEvent (n : NodeId) (d : Directive) (event : String) (modifiers : Modifiers)
    (stats : CompileStats) (w : ClientWorld ν τ) :
    Finishes (t.bindEvent n d event modifiers stats) w := by
  rw [bindEvent]
  split
  · exact (Finishes.change _ w).bind fun _ _ _ => .pure _ _
  · split
    · exact .throw _ w
    · exact (Finishes.change _ w).bind fun _ v _ =>
        (Finishes.change _ v).bind fun _ _ _ => .pure _ _

theorem finishes_applyDirective (n : NodeId) (stats : CompileStats) (d : Directive) :
    Finishes (t.applyDirective n stats d) w := by
  rw [applyDirective]
  split
  · exact finishes_bindDirective h hagrees d _ stats
  · exact finishes_bindDirective h hagrees d _ stats
  · exact (finishes_bindDirective h hagrees d _ stats).bind fun _ v _ =>
      (Finishes.change _ v).bind fun _ _ _ => .pure _ _
  · exact finishes_bindEvent n d _ _ stats w
  · exact (Finishes.change _ w).bind fun _ _ _ => .pure _ _

omit hagrees in
theorem finishes_applyDirectives (n : NodeId) (ds : List Directive) (stats : CompileStats)
    {w : ClientWorld ν τ} (hagrees : t.Agrees u w) :
    Finishes (ds.foldlM (t.applyDirective n) stats) w := by
  induction ds generalizing w stats with
  | nil => exact .pure _ w
  | cons d ds ih =>
      rw [List.foldlM_cons]
      exact (finishes_applyDirective h hagrees n stats d).bind fun stats' v hrun =>
        ih stats' (hagrees.follows (follows_applyDirective d n stats) hrun)

/-- What a node says itself comes to an end. -/
theorem finishes_compileSelf (n : NodeId) (stats : CompileStats) :
    Finishes (t.compileSelf n stats) w := by
  refine (Finishes.get w).bind fun x v hget => ?_
  rcases of_step_get hget with ⟨rfl, rfl⟩
  refine (Finishes.change _ v).bind fun _ y hnote => ?_
  have hy : y = v := (follows_note (t := t) _).eq_foldl hnote
  rw [hy]
  split
  · rw [bindText]
    split
    · exact .pure _ v
    · exact (finishes_bindValue h hagrees _ _ _).bind fun _ _ _ => .pure _ _
  · exact (Finishes.change _ v).bind fun _ _ _ => .pure _ _
  · refine (Finishes.change _ v).bind fun _ z hnoticed => ?_
    have hz : z = v := (Run.change_eq_some_iff.mp (step_run_eq_some_iff.mp hnoticed)).symm.trans
      (World.noticeAll_eq _ v)
    rw [hz]
    exact finishes_applyDirectives h n _ stats hagrees

end Self

/-! ### Walks that come to an end -/

/-- A walk that goes from one node to the next comes to an end, if it may go deep enough. -/
def Ends (t : Template (Code ν)) (w : ClientWorld ν τ) (ns : List NodeId) : Prop :=
  ∃ depth, ∀ stats, Finishes (ns.foldlM (t.compileNode depth) stats) w

theorem Ends.nil (t : Template (Code ν)) (w : ClientWorld ν τ) : t.Ends w [] :=
  ⟨0, fun stats => .pure stats w⟩

/-- A visit ends, and so does the walk among what is beneath the node then. -/
theorem Ends.node (hself : ∀ stats, Finishes (t.compileSelf n stats) w)
    (hchildren : ∀ stats stats' v, (t.compileSelf n stats).run w = some (.ok stats', v) →
      t.Ends v (v.node n).children) : t.Ends w [n] := by
  have hone : ∀ depth stats, Finishes (t.compileNode depth stats n) w →
      Finishes ([n].foldlM (t.compileNode depth) stats) w := fun depth stats hnode =>
    hnode.bind fun stats' v _ => .pure stats' v
  by_cases hok : ∃ stats stats' v, (t.compileSelf n stats).run w = some (.ok stats', v)
  · rcases hok with ⟨stats₀, stats₀', v, hrun₀⟩
    rcases hchildren stats₀ stats₀' v hrun₀ with ⟨depth, hdepth⟩
    refine ⟨depth + 1, fun stats => hone _ stats ?_⟩
    rw [compileNode]
    refine (hself _).bind fun stats₁ v₁ hrun => (Finishes.get v₁).bind fun x y hget => ?_
    rcases of_step_get hget with ⟨rfl, rfl⟩
    -- The counts do not matter to what becomes of the world.
    have hsame : y = v := by
      rw [(follows_compileSelf n _).eq_foldl hrun, (follows_compileSelf n _).eq_foldl hrun₀]
    rw [hsame]
    exact hdepth stats₁
  · refine ⟨1, fun stats => hone _ stats ?_⟩
    rw [compileNode]
    exact (hself _).bind fun stats₁ v₁ hrun => absurd ⟨_, _, _, hrun⟩ hok

theorem Ends.cons (hnode : t.Ends w [n])
    (hrest : ∀ depth stats stats' v, (t.compileNode depth stats n).run w = some (.ok stats', v) →
      t.Ends v ns) : t.Ends w (n :: ns) := by
  rcases hnode with ⟨depth, hdepth⟩
  have hfirst : ∀ stats, Finishes (t.compileNode depth stats n) w := by
    intro stats
    rcases hdepth stats with ⟨r, w', hrun⟩
    rw [List.foldlM_cons, bind_run_eq_some_cases] at hrun
    rcases hrun with ⟨e, hrun, _⟩ | ⟨stats', v, hrun, _⟩
    · exact ⟨.error e, w', hrun⟩
    · exact ⟨.ok stats', v, hrun⟩
  by_cases hok : ∃ stats stats' v, (t.compileNode depth stats n).run w = some (.ok stats', v)
  · rcases hok with ⟨stats₀, stats₀', v, hrun₀⟩
    rcases hrest depth stats₀ stats₀' v hrun₀ with ⟨levels, hlevels⟩
    refine ⟨max depth levels, fun stats => ?_⟩
    rw [List.foldlM_cons]
    rcases hfirst stats with ⟨r, v', hrun⟩
    have hmore := compileNode_mono (Nat.le_max_left depth levels) hrun
    refine Finishes.bind ⟨r, v', hmore⟩ fun stats₁ x hx => ?_
    rw [hmore, Option.some.injEq, Prod.mk.injEq] at hx
    rcases hx with ⟨rfl, rfl⟩
    have hsame : v' = v := by
      rw [(follows_compileNode (Nat.le_refl depth) n _).eq_foldl hrun,
        (follows_compileNode (Nat.le_refl depth) n _).eq_foldl hrun₀]
    rw [hsame]
    rcases hlevels stats₁ with ⟨r', w', hafter⟩
    exact ⟨r', w', foldlM_mono (compileNode_mono (Nat.le_max_right depth levels)) ns hafter⟩
  · refine ⟨depth, fun stats => ?_⟩
    rw [List.foldlM_cons]
    exact (hfirst stats).bind fun stats₁ v hrun => absurd ⟨_, _, _, hrun⟩ hok

end Template

/-! ### What markup puts somewhere -/

/-- The paths whose values are put somewhere as markup. Nothing beneath an element counts if
    the element puts something else there. -/
def Markup.Tree.insertions (markers : Markers) (ts : List Tree) : List String :=
  ((fillersAll markers ts).filter (·.kind = .html)).map (·.expression)

theorem Markup.Tree.mem_insertions {markers : Markers} {ts : List Tree} {d : Directive}
    (hd : d ∈ fillersAll markers ts) (hhtml : d.kind = .html) :
    d.expression ∈ insertions markers ts :=
  List.mem_map.mpr ⟨d, List.mem_filter.mpr ⟨hd, decide_eq_true hhtml⟩, rfl⟩

/-- The markup that is shown for one path puts the value at another one somewhere as markup.
    The other one comes first. -/
def Leads (markers : Markers) (look : String → Option String) (other path : String) : Prop :=
  ∃ shown, look path = some shown ∧ other ∈ Tree.insertions markers (parse shown)

namespace Template

section Walk

variable {t : Template (Code ν)} {n : NodeId} {ns all : List NodeId}

/-- What is shown for a path. -/
def look (t : Template (Code ν)) (w : ClientWorld ν τ) (path : String) : Option String :=
  (w.pathValue? t.data path).bind w.display?

/-- Wherever the trees are planted, a walk among them comes to an end. -/
def Manageable (t : Template (Code ν)) (u : ClientWorld ν τ) (ts : List Tree) : Prop :=
  ∀ (v : ClientWorld ν τ) low ns high, t.Agrees u v → v.Sown low ns ts high → t.Ends v ns

/-- A walk that comes to an end at a node goes on among the others, which are left alone. -/
theorem Ends.visit {first : List NodeId} (hnode : t.Ends v [n]) (h : w.Visits t.markers [n] first)
    (hlt : ∀ m ∈ first, m.index < w.nodes.size) (hnodup : first.Nodup) {S : NodeId → Prop}
    (hspares : w.Spares v S) (hout : ∀ m ∈ first, ¬S m) (hagrees : t.Agrees u v)
    (hrest : ∀ {x : ClientWorld ν τ}, w.Spares x (fun m => S m ∨ m ∈ first) → t.Agrees u x →
      t.Ends x ns) : t.Ends v (n :: ns) := by
  refine Ends.cons hnode fun depth stats stats' x hrun => ?_
  have hone : ([n].foldlM (t.compileNode depth) stats).run v = some (.ok stats', x) :=
    foldlM_cons_run_eq_some_iff.mpr ⟨stats', x, hrun, rfl⟩
  have hafter := spares_of_run (h.spared hspares hlt hout)
    (fun m hm => Nat.lt_of_lt_of_le (hlt m hm) hspares.grown) hnodup hone
  exact hrest (hspares.trans hafter fun _ _ hm => hm)
    (hagrees.follows (follows_compileNode (Nat.le_refl depth) n stats) hrun)

/-- A walk comes to an end if it does among what the elements that it comes by put beneath
    themselves. -/
theorem ends_of_visits (hdisplay : t.Displayable u) (h : w.Visits t.markers ns all)
    (hlt : ∀ n ∈ all, n.index < w.nodes.size) (hnodup : all.Nodup)
    (hfill : ∀ n ∈ all, ∀ d r value, (w.node n).filler? t.markers = some d →
      d.kind.rendering? n = some r → u.pathValue? t.data d.expression = some value →
        t.Manageable u (r.forest ((u.display? value).getD "")))
    {S : NodeId → Prop} (hspares : w.Spares v S) (hout : ∀ n ∈ all, ¬S n)
    (hagrees : t.Agrees u v) : t.Ends v ns := by
  -- The later nodes are visited in worlds in which the earlier ones have been changed.
  induction h generalizing v S with
  | nil => exact .nil t v
  | @plain n ns below rest hfiller hbelow hns ihbelow ih =>
      have hvisits := World.Visits.plain hfiller hbelow .nil
      rw [List.append_nil] at hvisits
      rw [← List.cons_append, List.forall_mem_append] at hlt hout hfill
      rw [← List.cons_append, List.nodup_append] at hnodup
      refine Ends.visit ?_ hvisits hlt.1 hnodup.1 hspares hout.1 hagrees fun hspares' hagrees' =>
        ih hlt.2 hnodup.2.1 hfill.2 hspares' (fun m hm hmem => ?_) hagrees'
      · rw [List.forall_mem_cons] at hlt hout hfill
        rw [List.nodup_cons] at hnodup
        have hloose := hspares.others n hlt.1.1 hout.1.1
        have hn' : n.index < v.nodes.size := Nat.lt_of_lt_of_le hlt.1.1 hspares.grown
        have hfiller' : (v.node n).filler? t.markers = none :=
          (Node.filler?_congr (Node.kind_of_loose hloose) (Node.attributes_of_loose hloose)).trans
            hfiller
        refine Ends.node (finishes_compileSelf hdisplay hagrees n) fun stats stats' x hrun => ?_
        have hattended := attended_of_run hn' hrun
        rw [hattended.kept hfiller', Node.children_of_loose hloose]
        refine ihbelow hlt.1.2 hnodup.1.2 hfill.1.2 (S := fun m => S m ∨ m = n)
          (hspares.trans hattended.spares fun _ _ hm => hm) (fun m hm hmem => ?_)
          (hagrees.follows (follows_compileSelf n stats) hrun)
        rcases hmem with hmem | rfl
        · exact hout.1.2 m hm hmem
        · exact hnodup.1.1 hm
      · exact hmem.elim (hout.2 m hm) fun hmem => hnodup.2.2 m hmem m hm rfl
  | @filled n ns rest d hfiller hns ih =>
      rw [← List.singleton_append, List.forall_mem_append] at hlt hout hfill
      rw [← List.singleton_append, List.nodup_append] at hnodup
      refine Ends.visit ?_ (.filled hfiller .nil) hlt.1 hnodup.1 hspares hout.1 hagrees
        fun hspares' hagrees' =>
          ih hlt.2 hnodup.2.1 hfill.2 hspares' (fun m hm hmem => ?_) hagrees'
      · rw [List.forall_mem_singleton] at hlt hout hfill
        have hloose := hspares.others n hlt.1 hout.1
        have hn' : n.index < v.nodes.size := Nat.lt_of_lt_of_le hlt.1 hspares.grown
        have hfiller' : (v.node n).filler? t.markers = some d :=
          (Node.filler?_congr (Node.kind_of_loose hloose) (Node.attributes_of_loose hloose)).trans
            hfiller
        refine Ends.node (finishes_compileSelf hdisplay hagrees n) fun stats stats' x hrun => ?_
        rcases (attended_of_run hn' hrun).filled d hfiller' with
          ⟨r, value, low, high, hr, hvalue, _, _, hsown⟩
        rw [hagrees.path] at hvalue
        rw [hagrees.display] at hsown
        exact hfill.1 d r value hfiller hr hvalue x low _ high
          (hagrees.follows (follows_compileSelf n stats) hrun) hsown
      · exact hmem.elim (hout.2 m hm) fun hmem => hnodup.2.2 m hmem m hm rfl

/-- A walk among planted trees. -/
theorem manageable_of_fillers {ts : List Tree} (hdisplay : t.Displayable u)
    (hfill : ∀ d ∈ Tree.fillersAll t.markers ts, ∀ n r value, d.kind.rendering? n = some r →
      u.pathValue? t.data d.expression = some value →
        t.Manageable u (r.forest ((u.display? value).getD ""))) : t.Manageable u ts := by
  intro v low ns high hagrees hsown
  refine ends_of_visits hdisplay (hsown.visits t.markers) (fun n hn => (hsown.lt_of_stops hn).2)
    (Tree.nodup_stopsAll _ _ _) (fun n hn d r value hfiller hr hvalue => ?_)
    (.refl v fun _ => False) (fun _ _ => id) hagrees
  rcases List.mem_map.mp hn with ⟨p, hp, rfl⟩
  rw [(hsown.isHeadOf t.markers p hp).2.filler?_eq] at hfiller
  exact hfill d (Tree.mem_fillersAll_of_stops hp hfiller) p.1 r value hr hvalue

/-- No element puts anything beneath itself in a text. -/
theorem manageable_text (hdisplay : t.Displayable u) (n : NodeId) (shown : String) :
    t.Manageable u ((Rendering.text n).forest shown) := by
  refine manageable_of_fillers hdisplay fun d hd => ?_
  rw [Tree.fillersAll_forest_text] at hd
  exact absurd hd List.not_mem_nil

/-- Directives that put something beneath their elements put a text or markup there. -/
theorem manageable_filler (hdisplay : t.Displayable u) {d : Directive} {r : Rendering}
    {value : Data} (haspect : d.kind.aspect? = some .beneath) (hr : d.kind.rendering? n = some r)
    (hhtml : d.kind = .html → t.Manageable u (parse ((u.display? value).getD ""))) :
    t.Manageable u (r.forest ((u.display? value).getD "")) := by
  cases hkind : d.kind with
  | text =>
      rw [hkind, Directive.Kind.rendering?, Option.some.injEq] at hr
      rw [← hr]
      exact manageable_text hdisplay n _
  | html =>
      rw [hkind, Directive.Kind.rendering?, Option.some.injEq] at hr
      rw [← hr]
      exact hhtml hkind
  | model | on | unknown =>
      rw [hkind] at haspect
      exact absurd haspect (by simp only [Directive.Kind.aspect?, Option.some.injEq, reduceCtorEq,
        not_false_eq_true])

/-- The markup at a path from which other paths can be reached only so often. -/
theorem manageable_of_acc (hdisplay : t.Displayable u) {path : String}
    (h : Acc (Leads t.markers (t.look u)) path) {value : Data}
    (hvalue : u.pathValue? t.data path = some value) :
    t.Manageable u (parse ((u.display? value).getD "")) := by
  induction h generalizing value with
  | intro path _ ih =>
      rcases hdisplay path value hvalue with ⟨shown, hshown⟩
      have hlook : t.look u path = some shown := by
        rw [look, hvalue]
        exact hshown
      rw [hshown, Option.getD_some]
      refine manageable_of_fillers hdisplay fun d hd n r value hr hvalue => ?_
      exact manageable_filler hdisplay (Tree.aspect?_of_fillersAll hd) hr fun hhtml =>
        ih d.expression ⟨shown, hlook, Tree.mem_insertions hd hhtml⟩ hvalue

/-- A walk comes to an end if there is no way around among the paths whose values it puts
    somewhere as markup. -/
theorem ends_of_acc (hdisplay : t.Displayable w) (h : w.Visits t.markers ns all)
    (hlt : ∀ n ∈ all, n.index < w.nodes.size) (hnodup : all.Nodup)
    (hacc : ∀ n ∈ all, ∀ d, (w.node n).filler? t.markers = some d → d.kind = .html →
      Acc (Leads t.markers (t.look w)) d.expression) : t.Ends w ns :=
  ends_of_visits hdisplay h hlt hnodup
    (fun n hn d _ _ hfiller hr hvalue => manageable_filler hdisplay
      (Node.aspect?_of_filler? hfiller) hr fun hhtml =>
        manageable_of_acc hdisplay (hacc n hn d hfiller hhtml) hvalue)
    (.refl w fun _ => False) (fun _ _ => id) (.refl w)

/-- Compiling comes to an end if the walk does. More depth does not change what comes of it. -/
theorem Ends.compile {root : NodeId} (h : t.Ends w [root]) :
    ∃ depth r w', ∀ levels, depth ≤ levels → (t.compile levels root).run w = some (r, w') := by
  rcases h with ⟨depth, hdepth⟩
  have hroot : Finishes (t.compileNode depth {} root) w := by
    rcases hdepth {} with ⟨r, w', hrun⟩
    rw [List.foldlM_cons, bind_run_eq_some_cases] at hrun
    rcases hrun with ⟨e, hrun, _⟩ | ⟨stats', x, hrun, _⟩
    · exact ⟨.error e, w', hrun⟩
    · exact ⟨.ok stats', x, hrun⟩
  rcases hroot with ⟨result, w', hrun⟩
  have hcompile : ∀ levels, depth ≤ levels →
      (t.compile levels root).run w = some (result.map fun _ => (), w') := by
    intro levels hlevels
    have hmore := compileNode_mono hlevels hrun
    refine bind_run_eq_some_cases.mpr (Or.inr ⟨w, w, ?_, ?_⟩)
    · exact step_run_eq_some_cases.mpr ⟨w, Run.get_eq_some_iff.mpr ⟨rfl, rfl⟩, rfl⟩
    · refine bind_run_eq_some_cases.mpr (Or.inr ⟨(), w, ?_, ?_⟩)
      · exact step_run_eq_some_cases.mpr ⟨(), rfl, rfl⟩
      · cases result with
        | error e => exact bind_run_eq_some_cases.mpr (Or.inl ⟨e, hmore, rfl⟩)
        | ok stats =>
            refine bind_run_eq_some_cases.mpr (Or.inr ⟨stats, w', hmore, ?_⟩)
            exact step_run_eq_some_cases.mpr ⟨(), rfl, rfl⟩
  exact ⟨depth, _, w', hcompile⟩

end Walk

end Template

/-! ### Building -/

/-- The nodes that a walk comes by are there, it comes by none of them twice, and there is no
    way around among the paths whose values they put somewhere as markup. -/
structure World.Bounded {κ σ : Type} (w : World κ σ) (markers : Markers)
    (look : String → Option String) (ns all : List NodeId) : Prop where
  /-- These are the nodes. -/
  visits : w.Visits markers ns all
  /-- They are different ones. -/
  nodup : all.Nodup
  /-- They are there. -/
  lt : ∀ n ∈ all, n.index < w.nodes.size
  /-- From each path one gets to other ones only so often. -/
  acc : ∀ n ∈ all, ∀ d, (w.node n).filler? markers = some d → d.kind = .html →
    Acc (Leads markers look) d.expression

/-- What is shown for a path of the data from which an application is built. -/
def Blueprint.look? {κ : Type} (b : Blueprint κ) (path : String) : Option String :=
  (Json.at? (segmentsOfPath path) (b.data.getD (.object []))).map Json.display

section Build

variable {b : Blueprint (Code ν)} {t : Template (Code ν)} {markers : Markers}
  {look : String → Option String} {ns ms all more : List NodeId}

namespace World

theorem Visits.append (h : w.Visits markers ns all) (h' : w.Visits markers ms more) :
    w.Visits markers (ns ++ ms) (all ++ more) := by
  induction h with
  | nil => exact h'
  | plain hfiller hbelow _ _ ih =>
      rw [List.cons_append, List.cons_append, List.append_assoc]
      exact .plain hfiller hbelow ih
  | filled hfiller _ ih => exact .filled hfiller ih

theorem onlyNodes_append (w : ClientWorld ν τ) (p c : NodeId) : w.OnlyNodes (w.append p c) := by
  unfold World.append
  split
  · exact .refl w
  · exact ((onlyNodes_detach w c).trans (.updateNode _ _ _)).trans (.updateNode _ _ _)

/-- Putting a node that stands by itself beneath another one changes the other one's children. -/
theorem rehung_append {p c : NodeId} (hc : (w.node c).parent = none) (hp : p.index < w.nodes.size) :
    w.Rehung (w.append p c) p ∧
      (((w.append p c).node p).children = (w.node p).children ∨
        ((w.append p c).node p).children = (w.node p).children ++ [c]) := by
  unfold World.append
  split
  · exact ⟨.refl w p, Or.inl rfl⟩
  · have hparent : w.parent? c = none := by
      rw [parent?, hc]
      rfl
    have hdetach : w.detach c = w.setParent c none := by
      unfold detach
      rw [hparent]
    rw [hdetach]
    have hmoved : w.Rehung ((w.setParent c none).setParent c (some p)) p :=
      (Rehung.setParent w p c none).trans (Rehung.setParent _ p c (some p))
    refine ⟨hmoved.trans (Rehung.updateChildren _ p (· ++ [c])), Or.inr ?_⟩
    have hp' : p.index < ((w.setParent c none).setParent c (some p)).nodes.size := by
      rwa [size_setParent, size_setParent]
    rw [node_updateNode, if_pos ⟨rfl, hp'⟩, children_setParent, children_setParent]

theorem Bounded.spared {S : NodeId → Prop} (h : w.Bounded markers look ns all)
    (hspares : w.Spares v S) (hout : ∀ n ∈ all, ¬S n) : v.Bounded markers look ns all where
  visits := h.visits.spared hspares h.lt hout
  nodup := h.nodup
  lt n hn := Nat.lt_of_lt_of_le (h.lt n hn) hspares.grown
  acc n hn d hfiller := by
    have hloose := hspares.others n (h.lt n hn) (hout n hn)
    refine h.acc n hn d ?_
    rw [← hfiller]
    exact (Node.filler?_congr (Node.kind_of_loose hloose) (Node.attributes_of_loose hloose)).symm

/-- A planted tree has the places from the end of what was there. -/
theorem sown_plant {tree : Tree} {root : NodeId} (hplant : World.plant tree w = (root, v)) :
    root = ⟨w.nodes.size⟩ ∧ v.Sown w.nodes.size [root] [tree] v.nodes.size := by
  have hforest : World.plantForest [tree] w =
      ([(World.plant tree w).1], (World.plant tree w).2) := rfl
  have hspans := World.spans_plantForest [tree] w
  rw [hforest, hplant] at hspans
  refine ⟨?_, (planted_plant hplant).1.stand.sown (fun n hn => hn.2) hspans⟩
  cases hspans
  rfl

/-- A planted tree. -/
theorem exists_bounded {tree : Tree} {root : NodeId} (hplant : World.plant tree w = (root, v))
    (hacc : ∀ path ∈ Tree.insertions markers [tree], Acc (Leads markers look) path) :
    ∃ all, v.Bounded markers look [root] all ∧ ∀ n ∈ all, w.nodes.size ≤ n.index := by
  rcases sown_plant hplant with ⟨_, hsown⟩
  refine ⟨_, ⟨hsown.visits markers, Tree.nodup_stopsAll _ _ _,
    fun n hn => (hsown.lt_of_stops hn).2, fun n hn d hfiller hd => ?_⟩, fun n hn => ?_⟩
  · rcases List.mem_map.mp hn with ⟨p, hp, rfl⟩
    rw [(hsown.isHeadOf markers p hp).2.filler?_eq] at hfiller
    exact hacc _ (Tree.mem_insertions (Tree.mem_fillersAll_of_stops hp hfiller) hd)
  · exact (hsown.lt_of_stops hn).1

/-- A node with a planted tree behind its children. -/
theorem Bounded.append {p c : NodeId} (h : w.Bounded markers look [p] all)
    (h' : w.Bounded markers look [c] more) (hapart : ∀ n ∈ all, n ∉ more)
    (hc : (w.node c).parent = none) : ∃ all', (w.append p c).Bounded markers look [p] all' := by
  have hp : p ∈ all := by
    cases h.visits with
    | plain => exact List.mem_cons_self
    | filled => exact List.mem_cons_self
  rcases rehung_append hc (h.lt p hp) with ⟨hrehung, hchildren⟩
  have hspares : w.Spares (w.append p c) (· = p) :=
    ⟨Nat.le_of_eq hrehung.size.symm, fun m _ hm => hrehung.others m hm⟩
  have hself : ((w.append p c).node p).filler? markers = (w.node p).filler? markers := by
    have hkind := congrArg Node.kind hrehung.self
    have hattributes := congrArg Node.attributes hrehung.self
    exact Node.filler?_congr hkind hattributes
  have hmore := h'.spared hspares fun n hn hnp => hapart p hp (hnp ▸ hn)
  have hsize : ∀ n ∈ all, n.index < (w.append p c).nodes.size := fun n hn =>
    Nat.lt_of_lt_of_le (h.lt n hn) hspares.grown
  have hkeep : ∀ n ∈ all, ∀ d, ((w.append p c).node n).filler? markers = some d → d.kind = .html →
      Acc (Leads markers look) d.expression := by
    intro n hn d hfiller
    refine h.acc n hn d ?_
    rw [← hfiller]
    by_cases hnp : n = p
    · rw [hnp, hself]
    · have hloose := hspares.others n (h.lt n hn) hnp
      exact (Node.filler?_congr (Node.kind_of_loose hloose)
        (Node.attributes_of_loose hloose)).symm
  rcases h.visits.singleton_cases with ⟨below, hfiller, rfl, hbelow⟩ | ⟨d, hfiller, rfl⟩
  · have hnodup := List.nodup_cons.mp h.nodup
    have hbelow := hbelow.spared hspares (fun n hn => h.lt n (List.mem_cons_of_mem p hn))
      fun n hn hnp => hnodup.1 (hnp ▸ hn)
    rcases hchildren with hchildren | hchildren
    · rw [← hchildren] at hbelow
      exact ⟨_, .single (hself.trans hfiller) hbelow, h.nodup, hsize, hkeep⟩
    · -- The walk comes by the planted tree after all that it came by before.
      have hbelow := hbelow.append hmore.visits
      rw [← hchildren] at hbelow
      refine ⟨_, .single (hself.trans hfiller) hbelow, ?_,
        List.forall_mem_append.mpr ⟨hsize, hmore.lt⟩,
        List.forall_mem_append.mpr ⟨hkeep, hmore.acc⟩⟩
      rw [← List.cons_append]
      exact List.nodup_append.mpr
        ⟨h.nodup, h'.nodup, fun x hx y hy hxy => hapart x hx (hxy ▸ hy)⟩
  · exact ⟨_, .filled (hself.trans hfiller) .nil, h.nodup, hsize, hkeep⟩

end World

namespace Blueprint

/-- Once there is data, building goes on with the view. -/
theorem build_of_observeRoot {data : ObjectId} (hfault : b.markers.fault? = none)
    (hobserve : w.observeRoot (b.data.getD (.object [])) = (some data, u)) (depth : Nat) :
    b.build depth w = (Run.apply b.view >>= fun
      | .error e => pure (.error e)
      | .ok root => b.compile depth data root : Run _ _ _) u := by
  rw [build, hfault]
  exact Run.bind_of_eq_some (Run.apply_eq_some_iff.mpr hobserve)

/-- Building is compiling the view, once there is data and a view. -/
theorem build_of_view {data : ObjectId} {root : NodeId} (hfault : b.markers.fault? = none)
    (hobserve : w.observeRoot (b.data.getD (.object [])) = (some data, u))
    (hview : b.view u = (.ok root, v)) (depth : Nat) :
    b.build depth w = b.compile depth data root v := by
  rw [build_of_observeRoot hfault hobserve]
  exact Run.bind_of_eq_some (Run.apply_eq_some_iff.mpr hview)

/-- Without a view there is no application. -/
theorem build_of_view_error {data : ObjectId} {e : AppError} (hfault : b.markers.fault? = none)
    (hobserve : w.observeRoot (b.data.getD (.object [])) = (some data, u))
    (hview : b.view u = (.error e, v)) (depth : Nat) :
    b.build depth w = some (.error e, v) := by
  rw [build_of_observeRoot hfault hobserve]
  exact Run.bind_of_eq_some (Run.apply_eq_some_iff.mpr hview)

/-- What becomes of an application once its template has been compiled. -/
def outcome (b : Blueprint (Code ν)) (data : ObjectId) (root : NodeId) :
    Except CompileError Unit → Except AppError (App (Code ν))
  | .error e => .error (.compile e)
  | .ok () => .ok ⟨data, root, b.methods⟩

theorem outcome_eq_ok_iff {data : ObjectId} {root : NodeId} {r : Except CompileError Unit}
    {app : App (Code ν)} :
    b.outcome data root r = .ok app ↔ r = .ok () ∧ app = ⟨data, root, b.methods⟩ := by
  cases r with
  | error e => simp only [outcome, reduceCtorEq, false_and]
  | ok _ =>
      rw [outcome, Except.ok.injEq, eq_comm]
      exact (and_iff_right rfl).symm

theorem compile_eq_some_iff {depth : Nat} {data : ObjectId} {root : NodeId}
    {r : Except AppError (App (Code ν))} :
    b.compile depth data root w = some (r, w') ↔
      ∃ result, ((⟨data, b.methods, b.markers⟩ : Template (Code ν)).compile depth root).run w =
        some (result, w') ∧ b.outcome data root result = r := by
  rw [compile, Run.bind_eq_some_iff]
  constructor
  · rintro ⟨result, v, hrun, hrest⟩
    cases result with
    | error e =>
        rcases Run.pure_eq_some_iff.mp hrest with ⟨hr, rfl⟩
        exact ⟨.error e, hrun, hr⟩
    | ok _ =>
        rcases Run.bind_eq_some_iff.mp hrest with ⟨_, x, hnotice, hpure⟩
        rcases Run.pure_eq_some_iff.mp hpure with ⟨hr, rfl⟩
        exact ⟨.ok (), Run.change_eq_some_iff.mp hnotice ▸ hrun, hr⟩
  · rintro ⟨result, hrun, rfl⟩
    refine ⟨result, w', hrun, ?_⟩
    cases result with
    | error e => exact Run.pure_eq_some_iff.mpr ⟨rfl, rfl⟩
    | ok _ => exact Run.bind_eq_some_iff.mpr ⟨(), w', rfl, Run.pure_eq_some_iff.mpr ⟨rfl, rfl⟩⟩

/-- Building comes to an end if compiling the view does. -/
theorem ends_of_compile (h : ∀ data u root v,
      w.observeRoot (b.data.getD (.object [])) = (some data, u) → b.view u = (.ok root, v) →
        ∃ depth r w', ∀ levels, depth ≤ levels →
          ((⟨data, b.methods, b.markers⟩ : Template (Code ν)).compile levels root).run v =
            some (r, w')) :
    ∃ depth r w', ∀ levels, depth ≤ levels → b.build levels w = some (r, w') := by
  cases hfault : b.markers.fault? with
  | some fault =>
      refine ⟨0, .error (.markers fault), w, fun levels _ => ?_⟩
      rw [build, hfault]
      rfl
  | none =>
      rcases hobserve : w.observeRoot (b.data.getD (.object [])) with ⟨data?, u⟩
      cases data? with
      | none =>
          refine ⟨0, .error .dataNotObject, u, fun levels _ => ?_⟩
          rw [build, hfault]
          exact Run.bind_of_eq_some (Run.apply_eq_some_iff.mpr hobserve)
      | some data =>
          rcases hview : b.view u with ⟨result, v⟩
          cases result with
          | error e =>
              exact ⟨0, .error e, v, fun levels _ =>
                build_of_view_error hfault hobserve hview levels⟩
          | ok root =>
              rcases h data u root v hobserve hview with ⟨depth, r, w', hcompile⟩
              refine ⟨depth, b.outcome data root r, w', fun levels hlevels => ?_⟩
              rw [build_of_view hfault hobserve hview]
              exact compile_eq_some_iff.mpr ⟨r, hcompile levels hlevels, rfl⟩

/-- Data that has just been observed, with a view planted since. -/
theorem look_of_observe {data : ObjectId} {methods : Methods (Code ν)}
    (hobserve : w.observeRoot (b.data.getD (.object [])) = (some data, u))
    (honly : u.OnlyNodes v) :
    (⟨data, methods, b.markers⟩ : Template (Code ν)).look v = b.look? ∧
      (⟨data, methods, b.markers⟩ : Template (Code ν)).Displayable v := by
  rcases stands_of_observeRoot hobserve honly with ⟨ids, hstands, _⟩
  have hlook : ∀ path, (v.pathValue? data path = none ∧ b.look? path = none) ∨
      ∃ value shown, v.pathValue? data path = some value ∧ v.display? value = some shown ∧
        b.look? path = some shown := by
    intro path
    rcases hstands.follow_at? (segmentsOfPath path) with ⟨hnone, hat⟩ | ⟨d, x, _, hd, hat, hx, _⟩
    · exact Or.inl ⟨hnone, by rw [look?, hat, Option.map_none]⟩
    · refine Or.inr ⟨d, x.display, hd, ?_, ?_⟩
      · rw [World.display?, hx.snapshot?_eq, Option.map_some]
      · rw [look?, hat, Option.map_some]
  constructor
  · funext path
    rw [Template.look]
    rcases hlook path with ⟨hnone, hat⟩ | ⟨value, shown, hvalue, hshown, hat⟩
    · rw [hnone, hat, Option.bind_none]
    · rw [hvalue, hat, Option.bind_some, hshown]
  · intro path value hvalue
    rcases hlook path with ⟨hnone, _⟩ | ⟨value', shown, hvalue', hshown, _⟩
    · exact absurd (hnone.symm.trans hvalue) (by simp only [reduceCtorEq, not_false_eq_true])
    · rw [Option.some.inj (hvalue.symm.trans hvalue')]
      exact ⟨shown, hshown⟩

/-- What the view has been made from: the client's node, the template, or the template beneath
    the client's node. -/
theorem view_cases {root : NodeId} (hview : b.view u = (.ok root, v)) :
    (b.mount = some root ∧ v = u) ∨
      ∃ markup tree n x, b.template = some markup ∧ Markup.template markup = .ok tree ∧
        World.plant tree u = (n, x) ∧
          (root = n ∧ v = x ∨ b.mount = some root ∧ v = x.append root n) := by
  rw [view] at hview
  cases hmarkup : b.template with
  | none =>
      cases hmount : b.mount with
      | none =>
          rw [hmarkup, hmount] at hview
          cases congrArg Prod.fst hview
      | some m =>
          rw [hmarkup, hmount, Prod.mk.injEq, Except.ok.injEq] at hview
          exact .inl ⟨congrArg some hview.1, hview.2.symm⟩
  | some markup =>
      rw [hmarkup] at hview
      dsimp only at hview
      rcases hplanted : u.plantTemplate markup with ⟨result, x⟩
      rw [hplanted] at hview
      cases result with
      | error e => cases congrArg Prod.fst hview
      | ok n =>
          rcases plantTemplate_eq_ok_iff.mp hplanted with ⟨tree, htree, hplant⟩
          refine .inr ⟨markup, tree, n, x, rfl, htree, hplant, ?_⟩
          cases hmount : b.mount with
          | none =>
              rw [hmount, Prod.mk.injEq, Except.ok.injEq] at hview
              exact .inl ⟨hview.1.symm, hview.2.symm⟩
          | some m =>
              rw [hmount, Prod.mk.injEq, Except.ok.injEq] at hview
              rcases hview with ⟨rfl, rfl⟩
              exact .inr ⟨rfl, rfl⟩

/-- The view of an application is bounded if the template and the client's node are. -/
theorem bounded_of_view {root : NodeId}
    (hmount : ∀ m, b.mount = some m → ∃ all, w.Bounded b.markers b.look? [m] all)
    (htemplate : ∀ markup tree, b.template = some markup → Markup.template markup = .ok tree →
      ∀ path ∈ Tree.insertions b.markers [tree], Acc (Leads b.markers b.look?) path)
    (hnodes : u.nodes = w.nodes) (hview : b.view u = (.ok root, v)) :
    u.OnlyNodes v ∧ ∃ all, v.Bounded b.markers b.look? [root] all := by
  have hu : w.Spares u fun _ => False :=
    ⟨Nat.le_of_eq (by rw [hnodes]), fun m _ _ => by rw [World.node, World.node, hnodes]⟩
  rcases view_cases hview with
    ⟨hm, rfl⟩ | ⟨markup, tree, n, x, hmarkup, htree, hplant, hcases⟩
  · rcases hmount root hm with ⟨all, hall⟩
    exact ⟨.refl v, all, hall.spared hu fun _ _ => id⟩
  · have hplanted := (planted_plant hplant).1
    rcases World.exists_bounded hplant (htemplate markup tree hmarkup htree) with
      ⟨new, hnew, hbehind⟩
    rcases hcases with ⟨rfl, rfl⟩ | ⟨hm, rfl⟩
    · exact ⟨hplanted.rest, new, hnew⟩
    · -- The template is put beneath the client's node, and all of it is new.
      rcases hmount root hm with ⟨all, hall⟩
      have hspared : u.Spares x fun _ => False :=
        ⟨hplanted.grown, fun p hp _ => by rw [hplanted.kept p hp]⟩
      have hx := (hall.spared hu fun _ _ => id).spared hspared fun _ _ => id
      have hapart : ∀ p ∈ all, p ∉ new := fun p hp hmem =>
        absurd (hnodes ▸ hall.lt p hp) (Nat.not_lt_of_le (hbehind p hmem))
      exact ⟨hplanted.rest.trans (World.onlyNodes_append x root n),
        hx.append hnew hapart (hplanted.parents n (List.mem_singleton_self n))⟩

end Blueprint

/-- Compiling comes to an end in a view in which a walk comes by finitely many nodes, none of them
    twice, if there is no way around among the paths whose values are put somewhere as markup: if
    none leads to itself, and none to more and more others. Building an application comes to an
    end if this is so for the template and for the client's node. -/
theorem exists_compile_and_build :
    (∀ (t : Template (Code ν)) (w : ClientWorld ν τ) (root : NodeId) (all : List NodeId),
      t.Displayable w → w.Bounded t.markers (t.look w) [root] all →
        ∃ depth r w', ∀ levels, depth ≤ levels → (t.compile levels root).run w = some (r, w')) ∧
    ∀ (b : Blueprint (Code ν)) (w : ClientWorld ν τ),
      (∀ m, b.mount = some m → ∃ all, w.Bounded b.markers b.look? [m] all) →
        (∀ markup tree, b.template = some markup → Markup.template markup = .ok tree →
          ∀ path ∈ Tree.insertions b.markers [tree], Acc (Leads b.markers b.look?) path) →
          ∃ depth r w', ∀ levels, depth ≤ levels → b.build levels w = some (r, w') := by
  constructor
  · intro t w root all hdisplay h
    exact (Template.ends_of_acc hdisplay h.visits h.lt h.nodup h.acc).compile
  · intro b w hmount htemplate
    refine b.ends_of_compile fun data u root v hobserve hview => ?_
    have hextends := (World.extends_observeValue (b.data.getD (.object [])) w).1
    rw [observeValue_of_root hobserve] at hextends
    rcases b.bounded_of_view hmount htemplate hextends.nodes hview with ⟨honly, all, hall⟩
    rcases b.look_of_observe hobserve honly with ⟨hlook, hdisplay⟩
    rw [← hlook] at hall
    exact (Template.ends_of_acc hdisplay hall.visits hall.lt hall.nodup hall.acc).compile

end Build

/-- The markup of an element that shows a value as markup. -/
def echo : String :=
  "<div v-html=\"h\"></div>"

/-- The element as a template, with markup for it. -/
def echoing (markup : String) : Blueprint (Code Unit) where
  data := some (.object [("h", .string markup), ("name", .string "Ada")])
  template := some echo

/-- A world with the data. -/
def echoData (markup : String) : ClientWorld Unit Unit :=
  ((World.start Unit ()).observeRoot ((echoing markup).data.getD (.object []))).2

/-- The world with the template as well. -/
def echoWorld (markup : String) : ClientWorld Unit Unit :=
  ((echoing markup).view (echoData markup)).2

/-- In the markup that is shown, there is another directive of this kind. -/
def nested : String :=
  "<b v-html=\"name\"></b>"

theorem acc_leads_nested :
    Acc (Leads (echoing nested).markers (echoing nested).look?) "h" := by
  have hname : ∀ other, ¬Leads (echoing nested).markers (echoing nested).look? other "name" := by
    rintro other ⟨shown, hshown, hmem⟩
    have hlook : (echoing nested).look? "name" = some "Ada" := by decide +kernel
    have hinsertions : Tree.insertions (echoing nested).markers (parse "Ada") = [] := by
      decide +kernel
    rw [← Option.some.inj (hlook.symm.trans hshown), hinsertions] at hmem
    exact absurd hmem List.not_mem_nil
  refine .intro _ ?_
  rintro other ⟨shown, hshown, hmem⟩
  have hlook : (echoing nested).look? "h" = some nested := by decide +kernel
  have hinsertions : Tree.insertions (echoing nested).markers (parse nested) = ["name"] := by
    decide +kernel
  rw [← Option.some.inj (hlook.symm.trans hshown), hinsertions] at hmem
  rw [List.mem_singleton.mp hmem]
  exact .intro _ fun other hleads => absurd hleads (hname other)

theorem exists_compile_and_build_nested :
    (∃ depth r w', ∀ levels, depth ≤ levels →
      ((⟨⟨0⟩, [], .standard⟩ : Template (Code Unit)).compile levels ⟨0⟩).run (echoWorld nested) =
        some (r, w')) ∧
    ∃ depth r w', ∀ levels, depth ≤ levels →
      (echoing nested).build levels (World.start Unit ()) = some (r, w') := by
  have hobserve : (World.start Unit () : ClientWorld Unit Unit).observeRoot
      ((echoing nested).data.getD (.object [])) = (some ⟨0⟩, echoData nested) :=
    Prod.ext (by decide +kernel) rfl
  have hview : (echoing nested).view (echoData nested) = (.ok ⟨0⟩, echoWorld nested) :=
    Prod.ext (by decide +kernel) rfl
  have hextends := (World.extends_observeValue ((echoing nested).data.getD (.object []))
    (World.start Unit () : ClientWorld Unit Unit)).1
  rw [observeValue_of_root hobserve] at hextends
  have htemplate : ∀ markup tree, (echoing nested).template = some markup →
      Markup.template markup = .ok tree →
        ∀ path ∈ Tree.insertions (echoing nested).markers [tree],
        Acc (Leads (echoing nested).markers (echoing nested).look?) path := by
    intro markup tree hmarkup htree path hmem
    have hparsed : Markup.template echo = .ok (.element "div" [("v-html", "h")] []) := by
      decide +kernel
    have hinsertions : Tree.insertions (echoing nested).markers
        [.element "div" [("v-html", "h")] []] = ["h"] := by decide +kernel
    rw [← Option.some.inj hmarkup, hparsed, Except.ok.injEq] at htree
    rw [← htree, hinsertions] at hmem
    rw [List.mem_singleton.mp hmem]
    exact acc_leads_nested
  have hmount : ∀ m, (echoing nested).mount = some m →
      ∃ all, (World.start Unit () : ClientWorld Unit Unit).Bounded (echoing nested).markers
        (echoing nested).look? [m] all :=
    fun m hm => absurd hm (by simp only [echoing, reduceCtorEq, not_false_eq_true])
  rcases Blueprint.bounded_of_view hmount htemplate hextends.nodes hview with ⟨honly, all, hall⟩
  rcases (Blueprint.look_of_observe hobserve honly :
    (⟨⟨0⟩, [], .standard⟩ : Template (Code Unit)).look _ = _ ∧ _) with ⟨hlook, hdisplay⟩
  rw [← hlook] at hall
  exact ⟨exists_compile_and_build.1 _ _ _ all hdisplay hall,
    exists_compile_and_build.2 _ _ hmount htemplate⟩

/-! ### A way around -/

namespace Template

variable {t : Template (Code ν)}

/-- Markup that puts itself somewhere is never done with. -/
theorem not_finishes_of_loop {tag path name shown : String} {attributes : Attributes}
    {children : List Tree} {value : Data}
    (hdirectives : directivesOf t.markers attributes = [⟨name, .html, path⟩])
    (hparse : parse shown = [.element tag attributes children])
    (hvalue : u.pathValue? t.data path = some value) (hshown : u.display? value = some shown)
    {depth : Nat} {n : NodeId} {tag' : String} (stats : CompileStats) (hagrees : t.Agrees u w)
    (hlt : n.index < w.nodes.size) (hkind : (w.node n).kind = .element tag')
    (hattributes : (w.node n).attributes = attributes) :
    ¬Finishes (t.compileNode depth stats n) w := by
  induction depth generalizing w n tag' stats with
  | zero =>
      rintro ⟨r, w', hrun⟩
      rcases step_run_eq_some_cases.mp hrun with ⟨_, hstuck, _⟩
      exact absurd hstuck (by simp only [Run.stuck_eq_some_iff, not_false_eq_true])
  | succ depth ih =>
      rintro ⟨r, w', hrun⟩
      rw [compileNode, bind_run_eq_some_cases] at hrun
      rcases hrun with ⟨e, hself, _⟩ | ⟨stats₁, v, hself, hrest⟩
      · have hbind := follows_compileSelf n _ _ _ hself
        have hsites : t.sitesAt n (w.node n) = [.value name path (.markup n)] := by
          rw [sitesAt, hkind, hattributes]
          dsimp only
          rw [hdirectives]
          rfl
        have hfault : t.fault? w (.value name path (.markup n)) = none := by
          rw [fault?, (w.getPath_eq_ok_iff t.data path value).mpr]
          rw [hagrees.path, hvalue]
        rw [hsites, bindAll_of_none hfault, Prod.mk.injEq] at hbind
        exact absurd hbind.1 (by simp only [Except.map, reduceCtorEq, not_false_eq_true])
      · have hfiller : (w.node n).filler? t.markers = some ⟨name, .html, path⟩ := by
          rw [Node.filler?_of_element hkind, hattributes, hdirectives]
          rfl
        rcases (attended_of_run hlt hself).filled _ hfiller with
          ⟨r', value', low, high, hr, hvalue', _, _, hsown⟩
        rw [Directive.Kind.rendering?, Option.some.injEq] at hr
        rw [hagrees.path, hvalue, Option.some.injEq] at hvalue'
        rw [← hr, ← hvalue', hagrees.display, hshown, Option.getD_some, Rendering.forest,
          hparse] at hsown
        have hv := hagrees.follows (follows_compileSelf n _) hself
        rcases bind_run_eq_some_cases.mp hrest with ⟨e, hget, _⟩ | ⟨x, y, hget, hchildren⟩
        · rcases step_run_eq_some_cases.mp hget with ⟨_, _, hok⟩
          exact absurd hok (by simp only [reduceCtorEq, not_false_eq_true])
        · rcases of_step_get hget with ⟨rfl, rfl⟩
          generalize hcs : (y.node n).children = cs at hsown hchildren
          cases hsown with
          | element hlt' hkind' hattributes' _ _ hns =>
              cases hns
              rw [List.foldlM_cons, bind_run_eq_some_cases] at hchildren
              rcases hchildren with ⟨e, hchild, _⟩ | ⟨stats₂, z, hchild, _⟩
              · exact ih stats₁ hv hlt' hkind' hattributes' ⟨_, _, hchild⟩
              · exact ih stats₁ hv hlt' hkind' hattributes' ⟨_, _, hchild⟩

theorem finishes_of_compile {depth : Nat} {root : NodeId} {r : Except CompileError Unit}
    (hrun : (t.compile depth root).run w = some (r, w')) :
    Finishes (t.compileNode depth {} root) w := by
  rcases bind_run_eq_some_cases.mp hrun with ⟨e, hget, _⟩ | ⟨x, y, hget, hrest⟩
  · rcases step_run_eq_some_cases.mp hget with ⟨_, _, hok⟩
    exact absurd hok (by simp only [reduceCtorEq, not_false_eq_true])
  · rcases of_step_get hget with ⟨rfl, rfl⟩
    rcases bind_run_eq_some_cases.mp hrest with ⟨e, hnote, _⟩ | ⟨_, z, hnote, hnode⟩
    · rcases step_run_eq_some_cases.mp hnote with ⟨_, _, hok⟩
      exact absurd hok (by simp only [reduceCtorEq, not_false_eq_true])
    · have hz : z = y := (follows_note (t := t) _).eq_foldl hnote
      rw [hz] at hnode
      rcases bind_run_eq_some_cases.mp hnode with ⟨e, hnode, _⟩ | ⟨stats, z, hnode, _⟩
      · exact ⟨_, _, hnode⟩
      · exact ⟨_, _, hnode⟩

end Template

/-- The markup that is shown can be the template itself. Then there is no end. -/
theorem endless_echo :
    ¬∃ levels r w', (echoing echo).build levels (World.start Unit ()) = some (r, w') := by
  rintro ⟨levels, r, w', hbuild⟩
  have hobserve : (World.start Unit () : ClientWorld Unit Unit).observeRoot
      ((echoing echo).data.getD (.object [])) = (some ⟨0⟩, echoData echo) :=
    Prod.ext (by decide +kernel) rfl
  have hview : (echoing echo).view (echoData echo) = (.ok ⟨0⟩, echoWorld echo) :=
    Prod.ext (by decide +kernel) rfl
  rw [Blueprint.build_of_view (by decide +kernel) hobserve hview] at hbuild
  rcases Blueprint.compile_eq_some_iff.mp hbuild with ⟨result, hrun, _⟩
  have hdirectives : directivesOf .standard [("v-html", "h")] = [⟨"v-html", .html, "h"⟩] := by
    decide +kernel
  have hparse : parse echo = [.element "div" [("v-html", "h")] []] := by decide +kernel
  have hvalue : (echoWorld echo).pathValue? ⟨0⟩ "h" = some (.plain (.string echo)) := by
    decide +kernel
  have hshown : (echoWorld echo).display? (.plain (.string echo)) = some echo := by decide +kernel
  have hlt : 0 < (echoWorld echo).nodes.size := by decide +kernel
  have hkind : ((echoWorld echo).node ⟨0⟩).kind = .element "div" := by decide +kernel
  have hattributes : ((echoWorld echo).node ⟨0⟩).attributes = [("v-html", "h")] := by decide +kernel
  exact Template.not_finishes_of_loop hdirectives hparse hvalue hshown {} (.refl _) hlt hkind
    hattributes (Template.finishes_of_compile hrun)

end LiveTemplate
