import LiveTemplate.Proofs.Binding.Building
import LiveTemplate.Proofs.Binding.Walking
import LiveTemplate.Proofs.View.Steadiness

/-!
# The View of an Application Is Its Picture

An application that has been built shows the picture of its template, and goes on
showing it.

There are two ways to a picture. One is to plant and to compile a template: every site
is rendered then, with the values that the data has. The other one is to wait until the
data has changed: the sites are rendered again when their values change, and nothing
else is touched, because the view is steady. Both end in a wired view whose sites show
the values, and such a view has one outline only.

## Main definitions

* `Template.Watched`: A site that the template asks for and that was there in the beginning.
* `Display.settled`: The display of a view that was complete and has been steady since.

## Theorems

* `ready_plant`: A template that has been planted can be walked over.
* `outline?_of_walked`: After compiling, the view is the picture.
* `wired_of_steady`: In a steady view a template stays wired.
* `outline?_of_kept`: As long as everybody is up to date, the view is the picture.
-/

namespace LiveTemplate

open Markup

variable {ν τ : Type} {t : Template (Code ν)} {w u v w' : ClientWorld ν τ} {j : Json}
  {tree : Tree} {root : NodeId} {depth : Nat}

/-- What operations hold on to does not matter to the outline. -/
theorem outline?_pins {κ σ : Type} (w : World κ σ) (pins : List Handle) (n : NodeId) :
    World.outline? { w with pins := pins } n = w.outline? n := by
  have hwithin : ∀ limit depth, World.outlineWithin? { w with pins := pins } limit depth =
      w.outlineWithin? limit depth := by
    intro limit
    induction limit with
    | zero => exact fun _ => rfl
    | succ limit ih =>
        intro depth
        funext n
        rw [World.outlineWithin?, World.outlineWithin?, ih (depth + 1)]
        rfl
  exact congrFun (hwithin _ 0) n

/-- A root that is wired, and whose sites show the values of the data, is the picture. -/
theorem outline?_of_wired {κ σ : Type} {t : Template κ} {w : World κ σ}
    {site : Rendering → String → Prop} {still : NodeId → Prop} {low high : Nat}
    (h : t.Wired w site still depth low [root] [tree] high)
    (hbears : ∀ r key, site r key → w.Bears (fun c => r.target.index < c.index) r (j.look key)) :
    w.outline? root = some (tree.picture t.markers j.look 0) := by
  have houtline := h.outline_eq w.nodes.size 0 hbears fun _ _ => Nat.le_add_left _ _
  rw [World.outline?]
  rw [Tree.pictureAll, Tree.pictureAll, List.append_nil] at houtline
  cases hroot : w.outlineWithin? w.nodes.size 0 root with
  | none =>
      rw [World.gather?, hroot] at houtline
      exact absurd houtline.symm (Option.some_ne_none _)
  | some lines =>
      simp only [World.gather?, hroot, List.append_nil] at houtline
      exact houtline

/-- A template that has been planted, with data that has been observed before. -/
theorem ready_plant (hobserve : w.observeRoot j = (some t.data, u))
    (hplant : World.plant tree u = (root, v)) (htame : tree.Tame t.markers)
    (hcalm : tree.Calm t.markers j) :
    t.Ready j v.nodes.size v root.index [root] [tree] v.nodes.size := by
  rcases planted_plant hplant with ⟨hplanted, hspans⟩
  rcases stands_of_observeRoot hobserve hplanted.rest with ⟨ids, hstands, _⟩
  refine ⟨hplanted.stand.sown (fun n hn => hn.2) hspans, Nat.le_refl _, Nat.le_refl _,
    ⟨htame, trivial⟩, ?_, ids, hstands⟩
  rw [Tree.bindingsAll_singleton]
  exact hcalm

/-- Compiling is walking over the template. -/
theorem walked_of_compile
    (hready : t.Ready j v.nodes.size v root.index [root] [tree] v.nodes.size)
    (hcompile : (t.compile depth root).run v = some (.ok (), w')) :
    t.Walked j v.nodes.size depth root.index [root] [tree] v.nodes.size v w' := by
  rcases compile_run_eq_some_ok_iff.mp hcompile with ⟨stats, hrun⟩
  have hwalk : ([root].foldlM (t.compileNode depth) {}).run v = some (.ok stats, w') :=
    Template.foldlM_cons_run_eq_some_iff.mpr ⟨stats, w', hrun, rfl⟩
  exact Template.walked_of_run hready hwalk

/-- After compiling, the view is the picture. -/
theorem outline?_of_walked {low : Nat}
    (h : t.Walked j v.nodes.size depth low [root] [tree] v.nodes.size v w') :
    w'.outline? root = some (tree.picture t.markers j.look 0) := by
  -- The nodes that sites have got lie behind all sites.
  have hplaced : t.Wired w' (fun r key => t.Site j v.nodes.size w' r key ∧
      r.target.index < v.nodes.size) (fun _ => True) depth low [root] [tree] v.nodes.size :=
    h.wired.congr ⟨Nat.le_refl _, fun _ _ _ _ => .of_loose rfl,
      fun _ _ _ _ _ => ⟨trivial, rfl⟩, fun _ _ _ _ hlt hsite => ⟨hsite, hlt⟩⟩
  refine outline?_of_wired hplaced ?_
  rintro r key ⟨⟨_, x, hx, hbears⟩, hlt⟩
  rw [Json.look_of_at? hx]
  refine hbears.frame (Nat.le_refl _) (fun _ => rfl) (fun _ => rfl) (fun _ => rfl) ?_
  exact fun c hc _ => ⟨Nat.lt_of_lt_of_le hlt hc.1, rfl, rfl, rfl⟩

/-- Where a template has room for no watcher there is none. -/
theorem Template.Stage.idle (h : t.Stage [] w) {n : NodeId} {a : Aspect}
    (hroom : (w.node n).room t.markers a = 0) : w.Idle n a := by
  rintro s r hs ha rfl
  have hcrowd := h.counted r.target a
  rw [hroom] at hcrowd
  have hone := hcrowd [s] (List.nodup_singleton s) fun s' hs' => by
    rw [List.mem_singleton.mp hs']
    exact ⟨r, hs, ha, rfl⟩
  exact absurd hone (Nat.not_succ_le_zero 0)

/-- A site that the trees ask for and that a watcher has been there for. -/
structure Template.Watched (t : Template (Code ν)) (v : ClientWorld ν τ) (ts : List Tree)
    (r : Rendering) (key : String) : Prop where
  /-- There has been a watcher. -/
  watched : ∃ s, v.subscriber? s = some (.watcher ⟨t.data, key, .render r⟩)
  /-- The trees ask for it. -/
  asks : t.Asks v ts r key

/-- A node of a template keeps in a steady view what is not bound. -/
theorem keeps_of_steady (hstage : t.Stage [] v) (hlasts : v.Lasts w) (hsteady : v.Steady w)
    {n : NodeId} (hn : n.index < v.nodes.size) : t.Keeps (v.node n) (w.node n) where
  attributes := hsteady.attributes n hn
  element tag hkind := by
    refine (hsteady.own n hn ?_).trans hkind
    rintro s r hs ha rfl
    rcases (hstage.kept.sound s r hs).2 with ⟨content, htext, _⟩ | ⟨_, _, hown⟩
    · exact absurd (hkind.symm.trans htext) nofun
    · exact hown ha
  text content hkind := by
    by_cases hidle : v.Idle n .own
    · exact ⟨content, (hsteady.own n hn hidle).trans hkind⟩
    · -- Somebody shows something here, so it is a text as long as the view lasts.
      simp only [World.Idle, not_forall, not_not] at hidle
      rcases hidle with ⟨s, r, ⟨wt, hwt, heffect⟩, ha, rfl⟩
      have hs : w.Renders s r := ⟨wt, (hlasts.renderers heffect).mpr hwt, heffect⟩
      rcases (hlasts.placed s r hs).2 with ⟨shown, htext, _⟩ | ⟨_, _, hown⟩
      · exact ⟨shown, htext⟩
      · exact absurd ha hown
  value hnone := hsteady.field n hn (hstage.idle (keyAt?_eq_none_iff.mp hnone))
  children hnone := hsteady.beneath n hn (hstage.idle (keyAt?_eq_none_iff.mp hnone))

/-- In a steady view a template stays wired. -/
theorem wired_of_steady {limit low high : Nat} {ns : List NodeId} {ts : List Tree}
    (hwired : t.Wired v (t.Site j limit v) v.Quiet depth low ns ts high)
    (htame : Tree.TameAll t.markers ts) (hstage : t.Stage [] v) (hlasts : v.Lasts w)
    (hsteady : v.Steady w) : t.Wired w (t.Watched v ts) (fun _ => True) depth low ns ts high := by
  have hasked : t.Wired v (t.Watched v ts) v.Quiet depth low ns ts high :=
    hwired.asked htame fun r key hsite hasks => ⟨hsite.watched, hasks⟩
  refine hasked.congr ?_
  refine ⟨hsteady.grown, fun n hn _ _ => keeps_of_steady hstage hlasts hsteady hn, ?_,
    fun _ _ _ _ _ hsite => hsite⟩
  exact fun n hn _ _ hquiet => ⟨trivial, hsteady.own n hn (hquiet.idle .own)⟩

/-- A text without an expression is plain. -/
theorem plainAll_text {markers : Markers} {n : NodeId} {shown : String}
    (hfind : Interpolation.find? markers shown = none) :
    Tree.PlainAll markers ((Rendering.text n).forest shown) := by
  rw [Rendering.forest]
  split
  · trivial
  · exact ⟨hfind, trivial⟩

/-- The display of a view that was complete, and has been steady since. -/
def Display.settled (v : ClientWorld ν τ) (markers : Markers) : Display ν τ :=
  steady v fun s r => ∀ wt, v.subscriber? s = some (.watcher wt) → v.FirstPlain markers wt r

/-- A view that has been compiled is settled. -/
theorem settled_of_stage (hstage : t.Stage [] w) :
    Kept (Display.settled w t.markers) [] [] (t.held w) := by
  have hkept := kept_of_stage hstage
  have hview : w.SameView (t.held w) := .of_subscribers rfl rfl
  exact hkept.redisplay (fun _ _ _ _ _ hshown => hshown)
    ⟨hkept.sound, (World.Steady.refl w).of_sameView hview⟩

/-- What a site has put beneath its element first was plain, if no such value has an
    expression. -/
theorem firstPlain_of_calm {ids : List ObjectId} {s : SubscriberId} {r : Rendering} {key : String}
    (hstands : v.Stands (.object t.data) j ids) (hcalm : tree.Calm t.markers j)
    (hs : v.subscriber? s = some (.watcher ⟨t.data, key, .render r⟩))
    (hasks : t.Asks v [tree] r key) (hr : r.aspect = .beneath) :
    ∀ wt, v.subscriber? s = some (.watcher wt) → v.FirstPlain t.markers wt r := by
  intro wt hwt d shown hd hshown
  rw [hs, Option.some.injEq, Subscriber.watcher.injEq] at hwt
  subst hwt
  rcases Template.display?_of_stands hstands hd with ⟨x, hx, hdisplay⟩
  rw [hdisplay, Option.some.injEq] at hshown
  subst hshown
  have hbound := hasks.bound
  rw [Tree.bindingsAll_singleton, hr] at hbound
  rw [hasks.text hr]
  exact plainAll_text (hcalm key x hbound hx)

/-- Everybody is up to date, so a site shows the value that there is now. -/
theorem bears_of_kept {ids : List ObjectId} {r : Rendering} {key : String} {x : Json}
    (hstage : t.Stage [] v) (hstands : v.Stands (.object t.data) j ids)
    (hcalm : tree.Calm t.markers j) (hkept : Kept (Display.settled v t.markers) [] [] w)
    (halive : w.alive (.object t.data) = true) (hwatched : t.Watched v [tree] r key)
    (hvalue : w.pathValue? t.data key = some (.plain x)) :
    w.Bears (fun c => r.target.index < c.index) r x.display := by
  rcases hwatched with ⟨⟨s, hs⟩, hasks⟩
  have hlasts : v.Lasts w := hkept.sound.1
  have hs' : w.subscriber? s = some (.watcher ⟨t.data, key, .render r⟩) :=
    (hlasts.renderers rfl).mpr hs
  have hsole : w.Sole s r := hlasts.sole (hstage.sole ⟨_, hs, rfl⟩ hasks.alone)
  have hshown := hkept.shown s _ _ hs' List.not_mem_nil List.not_mem_nil halive hvalue x rfl hsole
  by_cases hr : r.aspect = .beneath
  · rw [World.bears_beneath_iff hr]
    have hforest := (World.holds_beneath_iff hr).mp hshown
      (firstPlain_of_calm hstands hcalm hs hasks hr)
    exact hforest.mono (Nat.le_refl _) fun c hc _ => ⟨hc.1, rfl, rfl, rfl⟩
  · cases r with
    | interpolated n i => exact hshown
    | field n => exact hshown
    | text n => exact absurd rfl hr
    | markup n => exact absurd rfl hr

/-- As long as everybody is up to date, the view is the picture of the data, if everything that
    is bound is a plain value. -/
theorem outline?_of_kept {limit low high : Nat} {ids ids' : List ObjectId} {j' : Json}
    (hwired : t.Wired v (t.Site j limit v) v.Quiet depth low [root] [tree] high)
    (htame : tree.Tame t.markers) (hcalm : tree.Calm t.markers j) (hstage : t.Stage [] v)
    (hstands : v.Stands (.object t.data) j ids)
    (hkept : Kept (Display.settled v t.markers) [] [] w)
    (halive : w.alive (.object t.data) = true) (hafter : w.Stands (.object t.data) j' ids')
    (hplain : ∀ a key, (a, key) ∈ tree.bindings t.markers →
      ∃ x, w.pathValue? t.data key = some (.plain x)) :
    w.outline? root = some (tree.picture t.markers j'.look 0) := by
  have hstill := wired_of_steady hwired ⟨htame, trivial⟩ hstage hkept.sound.1 hkept.sound.2
  refine outline?_of_wired hstill fun r key hwatched => ?_
  have hbound := hwatched.asks.bound
  rw [Tree.bindingsAll_singleton] at hbound
  rcases hplain _ key hbound with ⟨x, hx⟩
  rcases Template.display?_of_stands hafter ((w.getPath_eq_ok_iff t.data key _).mpr hx) with
    ⟨x', hat, hdisplay⟩
  have hsame : some x.display = some x'.display := hdisplay
  rw [Json.look_of_at? hat, ← Option.some.inj hsame]
  exact bears_of_kept hstage hstands hcalm hkept halive hwatched hx

end LiveTemplate
