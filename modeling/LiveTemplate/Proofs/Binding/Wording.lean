import LiveTemplate.Proofs.Binding.Coursing
import LiveTemplate.Proofs.Binding.Visiting
import LiveTemplate.Proofs.Reaction.Attending
/-!
# What Texts Say at First
After an application has been built its texts show what their values look like.

A text with an expression gets a watcher when it is its turn, and shows the value at
that moment, whether it is plain or an object. From then on other sites are bound. They
make no difference to the text as long as nobody else shows anything there, since what
is shown elsewhere, or in another aspect, leaves the content of the text alone. And
nothing is written meanwhile, so the value looks the same when everything is bound.

For that each rendering has to be for a node of the right kind when it is its turn,
which is a matter of where sites come from. Besides the watchers have to be registered
where they belong, and nowhere else, or nothing could be said about later writes.

## Main definitions

* `Template.Suits`: Sites whose renderings are for the nodes that they meet.
* `Template.Worded`: Texts show what the values of the data look like.

## Theorems

* `kind_render`: Showing a value leaves the contents of other texts alone.
* `suits_sites`: The sites of a template meet nodes of the right kinds.
* `Worded.foldl`: Binding at sites keeps texts worded.
* `worded_of_start`: So they are after building.
-/

namespace LiveTemplate

variable {ν τ : Type} {w w' v : ClientWorld ν τ} {t : Template (Code ν)} {n : NodeId}
  {j : Json}

/-- What is redrawn somewhere leaves the content of a node alone, unless this is what changes. -/
theorem World.Redrawn.kind_eq {κ σ : Type} {w w' : World κ σ} {m : NodeId} {a : Aspect}
    (h : w.Redrawn w' m a) (hn : n.index < w.nodes.size) (hother : m = n → a ≠ .own) :
    (w'.node n).kind = (w.node n).kind := by
  by_cases hmn : m = n
  · subst hmn
    exact h.own (hother rfl)
  · exact Node.kind_of_loose (h.others n hn (Ne.symm hmn))

/-! ### Sites and nodes -/

/-- The site is for a node of the kind that there is. -/
def BindingSite.Meets (w : ClientWorld ν τ) : BindingSite → Prop
  | .value _ _ r => r.Fits (w.node r.target).kind
  | .event _ _ _ _ => True

/-- The site shows something as the content of the node. -/
def BindingSite.Writes (n : NodeId) : BindingSite → Prop
  | .value _ _ r => r.target = n ∧ r.aspect = .own
  | .event _ _ _ _ => False

namespace Template

/-- Each site is for a node of the kind that there is when it is its turn. -/
def Suits (t : Template (Code ν)) : ClientWorld ν τ → List BindingSite → Prop
  | _, [] => True
  | w, site :: ss => site.Meets w ∧ t.Suits (t.establish w site) ss

theorem Suits.append {ss ss' : List BindingSite} (h : t.Suits w ss)
    (h' : t.Suits (ss.foldl t.establish w) ss') : t.Suits w (ss ++ ss') := by
  induction ss generalizing w with
  | nil => exact h'
  | cons site ss ih => exact ⟨h.1, ih h.2 h'⟩

/-- Binding at a site leaves the content of a node alone, unless this is what it shows. -/
theorem kind_establish {site : BindingSite} (hlt : site.node.index < w.nodes.size)
    (hmeets : site.Meets w) (hn : n.index < w.nodes.size) (hother : ¬site.Writes n) :
    ((t.establish w site).node n).kind = (w.node n).kind := by
  have hdraw : ((t.draw w site).node n).kind = (w.node n).kind := by
    cases site with
    | event m event modifiers method => rfl
    | value description key r =>
        cases hvalue : w.pathValue? t.data key with
        | none => rw [draw, hvalue]
        | some value =>
            exact (redrawn_draw hvalue hlt hmeets).kind_eq hn fun htarget hown =>
              hother ⟨htarget, hown⟩
  unfold establish
  split
  · rfl
  · exact (parts_hear (t.draw w site) site n).1.trans hdraw

/-- The sites of an element. None of them changes what it is. -/
theorem suits_of_element {tag : String} {ss : List BindingSite} (hn : n.index < w.nodes.size)
    (hkind : (w.node n).kind = .element tag)
    (hss : ∀ site ∈ ss, site.node = n ∧ ¬site.Writes n) : t.Suits w ss := by
  induction ss generalizing w with
  | nil => trivial
  | cons site ss ih =>
      rw [List.forall_mem_cons] at hss
      rcases hss with ⟨⟨hnode, hwrites⟩, hrest⟩
      have hmeets : site.Meets w := by
        cases site with
        | event m event modifiers method => trivial
        | value description key r =>
            have htarget : r.target = n := hnode
            refine Or.inr ⟨tag, ?_, fun hown => hwrites ⟨htarget, hown⟩⟩
            rw [htarget, hkind]
      have hlt : site.node.index < w.nodes.size := by rwa [hnode]
      exact ⟨hmeets, ih (Nat.lt_of_lt_of_le hn (grown_establish w site))
        ((kind_establish hlt hmeets hn hwrites).trans hkind) hrest⟩

theorem suits_sitesAt (n : NodeId) (w : ClientWorld ν τ) : t.Suits w (t.sitesAt n (w.node n)) := by
  have hthere : ∀ site ∈ t.sitesAt n (w.node n), site.node = n ∧ n.index < w.nodes.size :=
    fun _ => node_of_mem_sitesAt
  unfold sitesAt at hthere ⊢
  split
  · next content hkind =>
      cases Interpolation.find? t.markers content with
      | none => trivial
      | some i => exact ⟨Or.inl ⟨content, hkind, rfl⟩, trivial⟩
  · trivial
  · next tag hkind =>
      rw [hkind] at hthere
      by_cases hn : n.index < w.nodes.size
      · refine suits_of_element hn hkind fun site hsite => ⟨(hthere site hsite).1, ?_⟩
        rcases List.mem_filterMap.mp hsite with ⟨d, _, hd⟩
        cases site with
        | event m event modifiers method => exact id
        | value description key r =>
            rintro ⟨_, hown⟩
            exact (Directive.Kind.of_rendering? (Directive.rendering?_of_site? hd)).2.2 hown
      · generalize (directivesOf t.markers (w.node n).attributes).filterMap (·.site? n) = ss
          at hthere ⊢
        cases ss with
        | nil => trivial
        | cons site ss => exact absurd (hthere site List.mem_cons_self).2 hn

/-- The sites of a template meet nodes of the right kinds. -/
theorem suits_sites (depth : Nat) (w : ClientWorld ν τ) (n : NodeId) :
    t.Suits w (t.sites depth w n) := by
  induction depth generalizing w n with
  | zero => trivial
  | succ depth ih =>
      have hamong : ∀ (ns : List NodeId) (v : ClientWorld ν τ),
          t.Suits v (t.sitesAmong (t.sites depth) ns v) := by
        intro ns
        induction ns with
        | nil => exact fun _ => trivial
        | cons m ms ih' => exact fun v => (ih v m).append (ih' _)
      exact (suits_sitesAt n w).append (hamong _ _)

/-! ### Binding -/

/-- A new watcher has read its value, so it is registered where it has to be. -/
theorem attends_bindPath {root : ObjectId} {key : String} {value : Data} (h : w.Attends root [])
    (hvalue : w.getPath t.data key = .ok value) (r : Rendering) (shown : String) :
    (t.bindPath key r shown w).Attends root [] := by
  have hrendered := w.onlyNodes_render r shown
  have hbefore : (w.render r shown).Attends root [] :=
    h.of_objects hrendered.objects hrendered.subscribers
  have hadded := hbefore.addSubscriber (.watcher ⟨t.data, key, .render r⟩)
  rw [congrArg Heap.size hrendered.subscribers] at hadded
  have hnew : (t.attach key r shown w).subscriber? ⟨w.subscribers.size⟩ =
      some (.watcher ⟨t.data, key, .render r⟩) :=
    subscriber?_attach.mpr (Or.inr ⟨rfl, rfl⟩)
  rcases exists_read_attach hvalue r shown with ⟨value', hread⟩
  have hsettled : ((t.attach key r shown w).readPath (some ⟨w.subscribers.size⟩) t.data
      key).2.Attends root [] := World.Attends.settle_readPath hadded hnew
  rwa [hread] at hsettled

/-- The watchers are where they belong. A text shows what its value looks like, if nobody else
    shows anything there. -/
structure Worded (t : Template (Code ν)) (j : Json) (w : ClientWorld ν τ) : Prop where
  /-- The watchers are registered where they have to be, and nowhere else. -/
  attends : w.Attends t.data []
  /-- The data stands for a plain value. -/
  stands : ∃ ids, w.Stands (.object t.data) j ids
  /-- Texts with watchers are there. -/
  there : ∀ s key n i,
    w.subscriber? s = some (.watcher ⟨t.data, key, .render (.interpolated n i)⟩) →
    n.index < w.nodes.size
  /-- They show what their values look like. -/
  words : ∀ s key n i,
    w.subscriber? s = some (.watcher ⟨t.data, key, .render (.interpolated n i)⟩) →
    w.Sole s (.interpolated n i) →
      ∃ x, j.at? (segmentsOfPath key) = some x ∧ (w.node n).kind = .text (i.render x.display)

namespace Worded

/-- Something that leaves data, watchers and the contents of nodes alone. -/
theorem frame (h : t.Worded j w) (hobjects : w'.objects = w.objects)
    (hsame : w'.subscribers = w.subscribers) (hgrown : w.nodes.size ≤ w'.nodes.size)
    (hkind : ∀ m, (w'.node m).kind = (w.node m).kind) : t.Worded j w' where
  attends := h.attends.of_objects hobjects hsame
  stands := h.stands.imp fun ids hstands => hstands.of_unwritten (.of_objects hobjects)
  there s key n i hs := by
    rw [World.subscriber?_of_subscribers hsame] at hs
    exact Nat.lt_of_lt_of_le (h.there s key n i hs) hgrown
  words s key n i hs hsole := by
    rw [World.subscriber?_of_subscribers hsame] at hs
    rw [hkind]
    refine h.words s key n i hs (hsole.of_renders fun t r ht => ?_)
    rcases ht with ⟨wt, ht, heffect⟩
    exact ⟨wt, (World.subscriber?_of_subscribers hsame t).trans ht, heffect⟩

/-- Showing and watching a value. -/
theorem bound {key : String} {r : Rendering} (h : t.Worded j w) (hbound : t.Bound key r w w')
    (hlt : r.target.index < w.nodes.size) (hattends : w'.Attends t.data []) : t.Worded j w' := by
  rcases h.stands with ⟨ids, hstands⟩
  refine ⟨hattends, ⟨ids, hstands.of_unwritten hbound.unwritten⟩, fun s key' n i hs => ?_,
    fun s key' n i hs hsole => ?_⟩
  · rcases hbound.renderers.mp hs with hold | ⟨_, hwt⟩
    · exact Nat.lt_of_lt_of_le (h.there s key' n i hold) hbound.redrawn.grown
    · rw [Watcher.mk.injEq, Effect.render.injEq] at hwt
      rw [← hwt.2.2] at hlt
      exact Nat.lt_of_lt_of_le hlt hbound.redrawn.grown
  · rcases hbound.renderers.mp hs with hold | ⟨_, hwt⟩
    · -- The watcher was there before, so what the new one shows is something else.
      have hother : r.target = n → r.aspect ≠ .own := fun htarget hown => by
        have hs' := hsole ⟨w.subscribers.size⟩ r ⟨_, hbound.renderers.mpr (Or.inr ⟨rfl, rfl⟩), rfl⟩
          hown htarget
        rw [← hs'] at hold
        exact Nat.lt_irrefl _ (World.lt_of_subscriber? hold)
      rw [hbound.redrawn.kind_eq (h.there s key' n i hold) hother]
      refine h.words s key' n i hold (hsole.of_renders fun t' r' ht => ?_)
      rcases ht with ⟨wt, ht, heffect⟩
      exact ⟨wt, hbound.renderers.mpr (Or.inl ht), heffect⟩
    · rw [Watcher.mk.injEq, Effect.render.injEq] at hwt
      rcases hwt with ⟨_, rfl, rfl⟩
      rcases hbound.bears with ⟨value, shown, hvalue, hshown, hbears⟩
      rcases display?_of_stands hstands hvalue with ⟨x, hx, hdisplay⟩
      rw [hdisplay, Option.some.injEq] at hshown
      subst hshown
      exact ⟨x, hx, hbears⟩

/-- Binding at a site. -/
theorem establish {site : BindingSite} (h : t.Worded j w)
    (hlt : site.node.index < w.nodes.size) (hmeets : site.Meets w) :
    t.Worded j (t.establish w site) := by
  have hdraw : t.fault? w site = none → t.Worded j (t.draw w site) := by
    intro hfault
    cases site with
    | event m event modifiers method => exact h
    | value description key r =>
        rcases exists_value hfault with ⟨value, hvalue⟩
        have hget := (w.getPath_eq_ok_iff t.data key value).mpr hvalue
        rcases h.stands with ⟨ids, hstands⟩
        rcases display?_of_stands hstands hget with ⟨x, _, hdisplay⟩
        rw [draw_eq hget hdisplay]
        have hrun : (t.bindValue description key r).run w =
            some (.ok (), t.bindPath key r x.display w) :=
          bindValue_run_iff.mpr (Or.inr ⟨value, x.display, hget, hdisplay, rfl, rfl⟩)
        exact h.bound (bound_bindValue hlt hmeets hrun) hlt
          (attends_bindPath h.attends hget r x.display)
  cases hfault : t.fault? w site with
  | some e =>
      rw [Template.establish, hfault]
      exact h
  | none =>
      rw [establish_eq hfault]
      have hhear := onlyNodes_hear (t := t) (t.draw w site) site
      exact (hdraw hfault).frame hhear.objects hhear.subscribers
        (spares_hear (t.draw w site) site).grown fun m => (parts_hear (t.draw w site) site m).1

/-- Binding at sites, one after the other. -/
theorem foldl {ss : List BindingSite} (h : t.Worded j w) (hlives : t.Lives w ss)
    (hsuits : t.Suits w ss) : t.Worded j (ss.foldl t.establish w) := by
  induction ss generalizing w with
  | nil => exact h
  | cons site ss ih => exact ih (h.establish hlives.1 hsuits.1) hlives.2 hsuits.2

end Worded

end Template

/-- After an application has been built in the beginning, its texts show what their values look
    like. -/
theorem worded_of_start {b : Blueprint (Code ν)} {levels : Nat} {app : App (Code ν)} {memory : τ}
    (hmount : b.mount = none) (hbuild : b.build levels (World.start ν memory) = some (.ok app, w)) :
    (⟨app.data, b.methods, b.markers⟩ : Template (Code ν)).Worded (b.data.getD (.object [])) w := by
  rcases Blueprint.built_of_build hmount hbuild with ⟨u, v, hbuilt⟩
  have hnone : ∀ s, (World.start ν memory).subscriber? s = none := subscriber?_start memory
  have hnodes := hbuilt.onlyNodes
  have hobserved := hbuilt.observed
  rcases World.stands_observeValue (b.data.getD (.object [])) (World.start ν memory) with
    ⟨ids, hstands, _⟩
  rw [hobserved] at hstands
  rcases hstands.eq_object with ⟨members, _, hmembers, _⟩
  rw [hmembers] at hobserved hstands
  have hattends : u.Attends app.data [] := World.attends_observed hobserved fun s wt hs =>
    absurd ((hnone s).symm.trans hs) nofun
  have hfresh : ∀ s, v.subscriber? s = none := fun s =>
    (World.subscriber?_of_subscribers hbuilt.subscribers s).trans (hnone s)
  have hplanted : (⟨app.data, b.methods, b.markers⟩ : Template (Code ν)).Worded
      (.object members) v := by
    refine ⟨hattends.of_objects hnodes.objects hnodes.subscribers,
      ⟨ids, hstands.of_unwritten (.of_objects hnodes.objects)⟩, ?_, ?_⟩
    · intro s key n i hs
      exact absurd ((hfresh s).symm.trans hs) nofun
    · intro s key n i hs
      exact absurd ((hfresh s).symm.trans hs) nofun
  rw [hmembers, hbuilt.bound]
  exact hplanted.foldl (Template.lives_sites levels v app.root)
    (Template.suits_sites levels v app.root)

end LiveTemplate
