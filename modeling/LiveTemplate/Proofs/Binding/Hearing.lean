import LiveTemplate.Proofs.Binding.Coursing
import LiveTemplate.Proofs.Binding.Escaping
import LiveTemplate.Proofs.Binding.Quoting
import LiveTemplate.Proofs.Reaction.Standing

/-!
# What Nodes Listen To

In a view that is built from a template every node listens to what its attributes ask for.

Listeners are made while the template is compiled, element by element, and there is one
for each directive that asks for one, in the order of the attributes. A label may have an
expression of its own, but it has no directives. What a template puts aside for a label is
never compiled, and nobody listens there, whatever its attributes say. But it is not in
the view any more, and never comes back.

So it is true of the view when it has been built, and it stays true, whatever happens.

## Main definitions

* `Template.ears`: What attributes listen to.
* `World.Responsive`: Every node in a view has the listeners that its attributes ask for.
* `World.Viewless`: There is no view yet.

## Theorems

* `tours_asked`: What is bound for directives is what the template asks for.
* `responsive_of_build`: A view that has been built is responsive.
* `Happens.responsive`: It stays so.
-/

namespace LiveTemplate

open Markup
open Relation (ReflTransGen)

variable {ν τ : Type} {l : Licence τ} {u v w w' : ClientWorld ν τ}

/-- What is bound is for a directive, and not for an expression in a text. -/
def BindingSite.ofDirective : BindingSite → Bool
  | .value _ _ (.interpolated _ _) => false
  | _ => true

/-- What a directive listens to. -/
def Directive.ear? {κ : Type} (t : Template κ) (d : Directive) : Option (String × Listener κ) :=
  match d.kind with
  | .model => some ("input", .writeBack t.data d.expression)
  | .on event modifiers =>
    if event.isEmpty then none
    else (Table.find? d.expression t.methods).map fun method =>
      (event, .handle t.data method modifiers)
  | _ => none

namespace Template

/-- What attributes listen to, in their order. -/
def ears {κ : Type} (t : Template κ) (attributes : Attributes) : List (String × Listener κ) :=
  (directivesOf t.markers attributes).filterMap (Directive.ear? t)

variable {t : Template (Code ν)} {n : NodeId} {all : List NodeId}

/-! ### Sites that listen -/

theorem ofDirective_of_listener? {site : BindingSite} {entry : String × Listener (Code ν)}
    (h : t.listener? site = some entry) : site.ofDirective = true := by
  cases site with
  | event n event modifiers method => rfl
  | value description key r =>
      cases r with
      | interpolated target i => exact nomatch h
      | text | markup | field => rfl

/-- Nothing is bound for directives at a text. -/
theorem not_ofDirective_of_text {content : String} (hkind : (w.node n).kind = .text content) :
    ∀ site ∈ t.sitesAt n (w.node n), site.ofDirective = false := by
  intro site hsite
  rw [sitesAt, hkind] at hsite
  rcases List.mem_map.mp hsite with ⟨i, _, rfl⟩
  rfl

/-- What a walk binds for directives is what the nodes ask for, in their order. -/
theorem tours_asked : t.Tours fun all ss (w _ : ClientWorld ν τ) =>
    ss.filter (·.ofDirective) = (t.asked w all).filter (·.ofDirective) where
  nil _ := rfl
  append {first rest ss ss' w v w'} h hrest hspares _ _ _ hlt hapart := by
    rw [List.filter_append, h, hrest, asked_append, List.filter_append,
      asked_spared hspares hlt fun n hn hmem => hapart n hmem hn]
  plain {n w v} _ _ := by
    rw [asked, List.flatMap_singleton]
  filled {n d shown low high below ss w v w'} _ _ _ _ _ _ _ _ hkind _ hinner := by
    have hnone : (t.asked v below).filter (·.ofDirective) = [] := by
      rw [List.filter_eq_nil_iff]
      intro site hsite
      rcases List.mem_flatMap.mp hsite with ⟨m, hm, hsite⟩
      rw [not_ofDirective_of_text (hkind m hm).2 site hsite]
      exact Bool.false_ne_true
    rw [List.filter_append, hinner, hnone, List.append_nil, asked, List.flatMap_singleton]

/-- What one of the nodes asks for. -/
theorem filter_asked (hnodup : all.Nodup) (m : NodeId) :
    (t.asked w all).filter (·.node = m) = if m ∈ all then t.sitesAt m (w.node m) else [] := by
  induction all with
  | nil => rw [if_neg List.not_mem_nil, asked, List.flatMap_nil, List.filter_nil]
  | cons n all ih =>
      rw [List.nodup_cons] at hnodup
      rw [asked_cons, List.filter_append, ih hnodup.2]
      by_cases hmn : m = n
      · subst hmn
        rw [if_neg hnodup.1, List.append_nil, if_pos List.mem_cons_self, List.filter_eq_self]
        exact fun site hsite => decide_eq_true (node_of_mem_sitesAt hsite).1
      · have hnone : (t.sitesAt n (w.node n)).filter (·.node = m) = [] := by
          rw [List.filter_eq_nil_iff]
          intro site hsite hm
          exact hmn ((of_decide_eq_true hm).symm.trans (node_of_mem_sitesAt hsite).1)
        rw [hnone, List.nil_append]
        simp only [List.mem_cons, hmn, false_or]

/-- The listeners of some sites that belong to a node are those of its directives. -/
theorem filterMap_listener? {ss ss' : List BindingSite}
    (h : ss.filter (·.ofDirective) = ss'.filter (·.ofDirective)) (m : NodeId) :
    (ss.filter (·.node = m)).filterMap t.listener? =
      (ss'.filter (·.node = m)).filterMap t.listener? := by
  have hdirectives : ∀ ss : List BindingSite, (ss.filter (·.node = m)).filterMap t.listener? =
      ((ss.filter (·.ofDirective)).filter (·.node = m)).filterMap t.listener? := by
    intro ss
    induction ss with
    | nil => rfl
    | cons site ss ih =>
        cases hsite : site.ofDirective with
        | true =>
            rw [List.filter_cons_of_pos (p := fun s : BindingSite => s.ofDirective) hsite,
              List.filter_cons, List.filter_cons]
            split
            · rw [List.filterMap_cons, List.filterMap_cons, ih]
            · exact ih
        | false =>
            have hnone : t.listener? site = none := by
              cases hlistener : t.listener? site with
              | none => rfl
              | some entry =>
                  rw [ofDirective_of_listener? hlistener] at hsite
                  exact absurd hsite Bool.false_ne_true.symm
            rw [List.filter_cons_of_neg (p := fun s : BindingSite => s.ofDirective) fun hpos =>
              Bool.false_ne_true (hsite.symm.trans hpos), List.filter_cons, ← ih]
            split
            · rw [List.filterMap_cons, hnone]
            · rfl
  rw [hdirectives ss, h, ← hdirectives ss']

theorem listener?_of_site? (n : NodeId) (d : Directive) :
    (d.site? n).bind t.listener? = d.ear? t := by
  rw [Directive.site?, Directive.ear?]
  cases d.kind with
  | text | html | model | unknown => rfl
  | on event modifiers =>
      dsimp only
      split
      · rfl
      · rfl

/-- The listeners of a node are what its attributes listen to. -/
theorem filterMap_sitesAt (htidy : w.Tidy) (n : NodeId) :
    (t.sitesAt n (w.node n)).filterMap t.listener? = t.ears (w.node n).attributes := by
  have hnone : (w.node n).kind.isElement = false → t.ears (w.node n).attributes = [] := by
    intro hkind
    rw [(htidy n hkind).2]
    rfl
  cases hkind : (w.node n).kind with
  | text content =>
      rw [hnone (by rw [hkind]; rfl), List.filterMap_eq_nil_iff]
      intro site hsite
      cases hlistener : t.listener? site with
      | none => rfl
      | some entry =>
          have hdirective := not_ofDirective_of_text hkind site hsite
          rw [ofDirective_of_listener? hlistener] at hdirective
          exact absurd hdirective Bool.false_ne_true.symm
  | comment content =>
      rw [hnone (by rw [hkind]; rfl), sitesAt, hkind]
      rfl
  | element tag =>
      rw [sitesAt, hkind, ears]
      dsimp only
      rw [List.filterMap_filterMap]
      exact congrArg (List.filterMap · _) (funext fun d => listener?_of_site? n d)

end Template

/-! ### Binding -/

namespace World

variable {t : Template (Code ν)}

/-- Values are shown as texts in what a view has become, and whoever stood by itself does so
    still. -/
structure Recaptioned (w w' : ClientWorld ν τ) : Prop where
  /-- Values are shown as texts. -/
  captioned : w'.Captioned
  /-- There may be more nodes. -/
  grown : w.nodes.size ≤ w'.nodes.size
  /-- Whoever stood by itself does so still. -/
  alone : ∀ m : NodeId, m.index < w.nodes.size → (w.node m).parent = none →
    (w'.node m).parent = none

theorem Recaptioned.refl (h : w.Captioned) : w.Recaptioned w :=
  ⟨h, Nat.le_refl _, fun _ _ halone => halone⟩

theorem Recaptioned.trans (h : w.Recaptioned v) (h' : v.Recaptioned w') : w.Recaptioned w' :=
  ⟨h'.captioned, Nat.le_trans h.grown h'.grown, fun m hm halone =>
    h'.alone m (Nat.lt_of_lt_of_le hm h.grown) (h.alone m hm halone)⟩

theorem Recaptioned.of_sameShape (h : w'.Captioned) (hsame : w.SameShape w') : w.Recaptioned w' :=
  ⟨h, Nat.le_of_eq hsame.size.symm, fun m _ halone => (hsame.place m).2.trans halone⟩

/-- A value has been shown, but not as markup. What is beneath a node is texts then. -/
theorem Captioned.render (h : w.Captioned) {r : Rendering} (hr : ∀ m, r ≠ .markup m)
    (shown : String) : w.Recaptioned (w.render r shown) ∧ (r.aspect ≠ .field →
      ∀ c ∈ ((w.render r shown).node r.target).children,
        ((w.render r shown).node c).kind.isText = true) := by
  have hrenders : ∀ s r', (w.render r shown).Renders s r' → w.Renders s r' := by
    rintro s r' ⟨wt, hs, heffect⟩
    exact ⟨wt, (subscriber?_render w r shown s).symm.trans hs, heffect⟩
  rcases redraws_render h.toLinked hr shown with ⟨hfield, hsame⟩ | ⟨_, htext⟩
  · exact ⟨.of_sameShape (h.sameShape hsame fun s r' hs => .inl (hrenders s r' hs)) hsame,
      fun hnot => absurd hfield hnot⟩
  · exact ⟨⟨h.retexted htext hrenders, htext.grown, htext.alone⟩,
      fun _ c hc => (htext.new c (htext.beneath c hc).1).1⟩

/-- A value is shown at a site. -/
theorem Captioned.draw (h : w.Captioned) {site : BindingSite}
    (hsite : ∀ description key m, site ≠ .value description key (.markup m)) :
    w.Recaptioned (t.draw w site) := by
  cases site with
  | event => exact .refl h
  | value description key r =>
      have hr : ∀ m, r ≠ .markup m := by
        rintro m rfl
        exact hsite description key m rfl
      rw [Template.draw]
      split
      · exact .refl h
      · next value _ =>
          rcases h.render hr ((w.display? value).getD "") with ⟨hshown, htexts⟩
          have hframe := dependAll_frame (some ⟨w.subscribers.size⟩)
            (w.pathFields t.data key) (t.attach key r ((w.display? value).getD "") w)
          refine hshown.trans (.of_sameShape ?_ (.of_nodes hframe.1))
          refine hshown.captioned.sameShape (.of_nodes hframe.1) ?_
          rintro s r' ⟨wt, hs, heffect⟩
          have hattached : (t.attach key r ((w.display? value).getD "") w).Renders s r' :=
            ⟨wt, (subscriber?_of_subscribers hframe.2.1 s).symm.trans hs, heffect⟩
          rcases Template.renders_attach.mp hattached with ⟨wt', hs', heffect'⟩ | ⟨_, rfl⟩
          · exact .inl ⟨wt', (subscriber?_render w r _ s).trans hs', heffect'⟩
          · exact .inr ⟨hr, htexts⟩

/-- A value is bound that is not shown as markup. -/
theorem Captioned.establish (h : w.Captioned) {site : BindingSite}
    (hsite : ∀ description key m, site ≠ .value description key (.markup m)) :
    w.Recaptioned (t.establish w site) := by
  have hdrawn := h.draw (t := t) hsite
  rw [Template.establish]
  split
  · exact .refl h
  · rw [Template.hear]
    split
    · exact hdrawn
    · next kind listener _ =>
        have hshape := SameShape.listen (t.draw w site) site.node kind listener
        exact hdrawn.trans (.of_sameShape
          (hdrawn.captioned.sameShape hshape fun s r hs => .inl hs) hshape)

/-- Binding at sites that show no markup. -/
theorem Captioned.foldl (h : w.Captioned) {sites : List BindingSite}
    (hsites : ∀ site ∈ sites, ∀ description key m, site ≠ .value description key (.markup m)) :
    w.Recaptioned (sites.foldl t.establish w) := by
  induction sites generalizing w with
  | nil => exact .refl h
  | cons site sites ih =>
      rw [List.forall_mem_cons] at hsites
      have hfirst := h.establish (t := t) hsites.1
      exact hfirst.trans (ih hfirst.captioned hsites.2)

/-! ### Views that respond -/

/-- There is no view yet. -/
structure Viewless (w : ClientWorld ν τ) : Prop where
  /-- There are no nodes. -/
  empty : w.nodes.size = 0
  /-- Nothing is shown. -/
  unshown : ∀ s r, ¬w.Renders s r

theorem viewless_start (memory : τ) : (start ν memory).Viewless where
  empty := rfl
  unshown := by
    rintro s r ⟨wt, hs, _⟩
    rw [subscriber?_start memory s] at hs
    exact nomatch hs

/-- Nodes come from templates only. -/
theorem Happens.viewless (h : w.Happens l w') (hw : w.Viewless) : w'.Viewless where
  empty := by
    cases h with
    | observe value | assign value _ =>
        exact (congrArg Heap.size (extends_observeValue value w).1.nodes).trans hw.empty
    | @watch root path name _ _ =>
        rw [watch_eq]
        exact (congrArg Heap.size (dependAll_frame (some ⟨w.subscribers.size⟩)
          (w.pathFields root path) _).1).trans hw.empty
    | @follow s wt hs =>
        exact (congrArg Heap.size (w.readPath_frame (some s) wt.root wt.path).1).trans hw.empty
    | «show» hs heffect => exact absurd ⟨_, hs, heffect⟩ (hw.unshown _ _)
    | enter n text => exact (size_nodes_updateNode w n _).trans hw.empty
    | pin | note | remember | share => exact hw.empty
  unshown s r hs := hw.unshown s r (h.renders_iff.mp hs)

/-- Programs plant no nodes. -/
theorem viewless_of_session {code : ν → Signal → Program ν τ} {patience depth : Nat}
    {memory : τ} {session : List (Program ν τ)}
    (hsession : Program.runAll ((Program.behaviour code).host patience depth) session
      (start ν memory) = some ((), w)) : w.Viewless :=
  Program.keeps_of_session (·.Viewless) (fun hw hstep => hstep.viewless hw) (viewless_start memory)
    hsession

/-- Every node in the view has the listeners that its attributes ask for, and there are the
    methods that these name. -/
structure Responsive (t : Template (Code ν)) (root : NodeId) (w : ClientWorld ν τ) : Prop
    extends World.Captioned w where
  /-- There is the root. -/
  there : root.index < w.nodes.size
  /-- It stands by itself. -/
  alone : (w.node root).parent = none
  /-- Nodes have the listeners that they ask for. -/
  tuned : ∀ m, w.InView root m → (w.node m).listeners = t.ears (w.node m).attributes
  /-- There are the methods. -/
  answered : ∀ m, w.InView root m → t.Answers (directivesOf t.markers (w.node m).attributes)

theorem Responsive.lt_of_inView {root m : NodeId} (h : w.Responsive t root)
    (hm : w.InView root m) : m.index < w.nodes.size := by
  cases hm with
  | refl => exact h.there
  | tail _ hlisted => exact lt_of_parent (h.listed _ _ hlisted)

/-- Every node in the view still has the listeners that its attributes ask for. -/
theorem Happens.responsive {root : NodeId} (h : w.Happens l w') (hview : w.Responsive t root) :
    w'.Responsive t root := by
  have hafter := h.captioned hview.toCaptioned
  have hbare : ∀ m, (w'.node m).kind.isText = true → (w'.node m).attributes = [] :=
    fun m hm => (hafter.tidy m (isElement_of_isText hm)).2
  refine { hafter with
    there := (h.attributes hview.toCaptioned hview.there).1
    alone := ?_, tuned := fun m hm => ?_, answered := fun m hm => ?_ }
  · rcases h.redraws hview.toCaptioned with hsame | ⟨s, r, _, _, htext⟩
    · exact (hsame.place root).2.trans hview.alone
    · exact htext.alone root hview.there hview.alone
  · rcases h.inView hview.toCaptioned hm with hbefore | ⟨hnew, htext⟩
    · rw [h.sameListeners.listeners, hview.tuned m hbefore,
        (h.attributes hview.toCaptioned (hview.lt_of_inView hbefore)).2]
    · rw [h.sameListeners.listeners, node_of_size_le hnew, hbare m htext]
      rfl
  · rcases h.inView hview.toCaptioned hm with hbefore | ⟨_, htext⟩
    · rw [(h.attributes hview.toCaptioned (hview.lt_of_inView hbefore)).2]
      exact hview.answered m hbefore
    · rw [hbare m htext]
      exact fun d hd => absurd hd List.not_mem_nil

end World

section Building

variable {b : Blueprint (Code ν)} {tree : Tree} {app : App (Code ν)} {levels : Nat}

/-- What is in a view that has just been built: the nodes at which the walk has stopped, and
    labels. -/
theorem mem_or_isText_of_inView {t : Template (Code ν)} {start stop : Nat} {root : NodeId}
    (hsown : v.Sown start [root] [tree] stop)
    (hlabelled : ∀ n ∈ (Tree.stopsAll t.markers start [tree]).map (·.1), t.Labelled n v w')
    (htidy : w'.Tidy) {m : NodeId} (hm : w'.InView root m) :
    m ∈ (Tree.stopsAll t.markers start [tree]).map (·.1) ∨
      v.nodes.size ≤ m.index ∧ (w'.node m).kind.isText = true := by
  have hvisits := hsown.visits t.markers
  induction hm with
  | refl => exact .inl (hvisits.subset List.mem_cons_self)
  | @tail p c _ hc ih =>
      rcases ih with hp | ⟨_, htext⟩
      · cases hfiller : (v.node p).filler? t.markers with
        | none =>
            rw [(hlabelled p hp).kept hfiller] at hc
            exact .inl (hvisits.children_subset hp hfiller hc)
        | some d =>
            have hlabel := (hlabelled p hp).label d hfiller
            have htexts := hlabel.areTexts fun t ht => Tree.isText_of_mem_labels ht
            rcases NodeKind.exists_text_of_hollow (htexts c hc).2 with ⟨content, hkind⟩
            refine .inr ⟨(hlabel.forall_ok c hc).1, ?_⟩
            rw [hkind]
            rfl
      · rw [(htidy p (World.isElement_of_isText htext)).1] at hc
        exact absurd hc List.not_mem_nil

/-- There are the methods that a node asks for, if they have been bound. -/
theorem Template.answers_of_fault {t : Template (Code ν)} {n : NodeId} (htidy : v.Tidy)
    (hfault : ∀ site ∈ t.sitesAt n (v.node n), site.ofDirective = true → t.fault? v site = none) :
    t.Answers (directivesOf t.markers (v.node n).attributes) := by
  intro d hd event modifiers hkind hevent
  cases hnode : (v.node n).kind with
  | text | comment =>
      rw [(htidy n (by rw [hnode]; rfl)).2] at hd
      exact absurd hd List.not_mem_nil
  | element tag =>
      have hsite : .event n event modifiers d.expression ∈ t.sitesAt n (v.node n) := by
        rw [sitesAt, hnode]
        refine List.mem_filterMap.mpr ⟨d, hd, ?_⟩
        rw [Directive.site?, hkind]
        exact if_neg (by rw [hevent]; exact Bool.false_ne_true)
      have hnone := hfault _ hsite rfl
      rw [fault?] at hnone
      cases hmethod : Table.find? d.expression t.methods with
      | none =>
          rw [hmethod] at hnone
          cases hnone
      | some method => exact ⟨method, rfl⟩

/-- A template that has been planted shows nothing yet, and nobody listens. -/
theorem captioned_of_plant (hw : w.Viewless) {root : NodeId} {data : ObjectId}
    (hobserve : w.observeRoot (b.data.getD (.object [])) = (some data, u))
    (hplant : World.plant tree u = (root, v)) :
    v.Captioned ∧ ∀ m, (v.node m).listeners = [] := by
  have hnodes := (World.extends_observeValue (b.data.getD (.object [])) w).1.nodes
  rw [observeValue_of_root hobserve] at hnodes
  have hempty : u.nodes.size = 0 := (congrArg Heap.size hnodes).trans hw.empty
  have hv : (World.plantUnder none tree u).2 = v := congrArg Prod.snd hplant
  have hlinked : v.Linked := hv ▸ World.linked_plantForest hempty [tree]
  have hunshown : ∀ s r, ¬v.Renders s r := by
    rintro s r ⟨wt, hs, heffect⟩
    rw [subscriber?_of_observeRoot hobserve (planted_plant hplant).1.rest] at hs
    exact hw.unshown s r ⟨wt, hs, heffect⟩
  refine ⟨{ hlinked with
    plain := fun s n => hunshown s (.markup n)
    captions := fun s r hs => absurd hs (hunshown s r) }, fun m => ?_⟩
  rw [← hv, (World.sameListeners_plantUnder none tree u).listeners,
    World.node_of_size_le (hempty ▸ Nat.zero_le _)]

/-- The listeners of a node after its sites have been bound: those that its attributes ask for,
    if the walk has come by. -/
theorem Template.listeners_of_adds {t : Template (Code ν)} {sites : List BindingSite}
    {all : List NodeId} (hadds : t.Adds v sites w')
    (hasked : sites.filter (·.ofDirective) = (t.asked v all).filter (·.ofDirective))
    (hnodup : all.Nodup) (htidy : v.Tidy) (hsilent : ∀ m, (v.node m).listeners = [])
    (m : NodeId) :
    (w'.node m).listeners = if m ∈ all then t.ears (v.node m).attributes else [] := by
  rw [hadds.listeners, hsilent, List.nil_append, filterMap_listener? hasked m,
    filter_asked hnodup m]
  split
  · exact filterMap_sitesAt htidy m
  · rfl

/-- A view that has been built is responsive. -/
theorem responsive_of_build (h : b.IsTextual tree) (hw : w.Viewless)
    (hbuild : b.build levels w = some (.ok app, w')) :
    w'.Responsive (b.forData app.data) app.root := by
  rcases h.tours_of_build hbuild with ⟨u, v, hobserve, hplant, hcompile, htours, _⟩
  have htoured := htours _ Template.tours_toured
  have hasked := htours _ Template.tours_asked
  rcases Template.effect_of_compile hcompile with ⟨hfault, heffect, hadds⟩
  rcases captioned_of_plant hw hobserve hplant with ⟨hcaptioned, hsilent⟩
  have hsown := (World.sown_plant hplant).2
  have hroot := (hsown.visits b.markers).subset List.mem_cons_self
  have hthere := (hsown.lt_of_stops hroot).2
  have hbound : v.Recaptioned w' := by
    rw [heffect]
    refine hcaptioned.foldl ?_
    rintro _ hsite description key m rfl
    rcases showsText_of_owns h hsown htoured.labelled (htoured.owned _ hsite) rfl with ⟨_, hr, _⟩
    exact nomatch hr
  have hstops : ∀ m, w'.InView app.root m →
      m ∈ (Tree.stopsAll b.markers u.nodes.size [tree]).map (·.1) ∨
        v.nodes.size ≤ m.index ∧ (w'.node m).kind.isText = true :=
    fun m hm => mem_or_isText_of_inView (t := b.forData app.data) hsown htoured.labelled
      hbound.captioned.tidy hm
  have hlisteners := Template.listeners_of_adds hadds hasked
    (Tree.nodup_stopsAll b.markers u.nodes.size [tree]) hcaptioned.tidy hsilent
  have hbare : ∀ m, (w'.node m).kind.isText = true → (w'.node m).attributes = [] :=
    fun m hm => (hbound.captioned.tidy m (World.isElement_of_isText hm)).2
  refine { hbound.captioned with
    there := Nat.lt_of_lt_of_le hthere hbound.grown
    alone := hbound.alone _ hthere ((planted_plant hplant).1.parents _ List.mem_cons_self)
    tuned := fun m hm => ?_, answered := fun m hm => ?_ }
  · rcases hstops m hm with hmem | ⟨hnew, htext⟩
    · rw [hlisteners, if_pos hmem, (htoured.labelled m hmem).attributes]
    · rw [hlisteners, if_neg fun hmem =>
        absurd (hsown.lt_of_stops hmem).2 (Nat.not_lt_of_le hnew), hbare m htext]
      rfl
  · rcases hstops m hm with hmem | ⟨_, htext⟩
    · rw [(htoured.labelled m hmem).attributes]
      refine Template.answers_of_fault hcaptioned.tidy fun site hsite hdirective => hfault site ?_
      have hin : site ∈ ((b.forData app.data).asked v
          ((Tree.stopsAll b.markers u.nodes.size [tree]).map (·.1))).filter (·.ofDirective) :=
        List.mem_filter.mpr ⟨List.mem_flatMap.mpr ⟨m, hmem, hsite⟩, hdirective⟩
      rw [← hasked] at hin
      exact (List.mem_filter.mp hin).1
    · rw [hbare m htext]
      exact fun d hd => absurd hd List.not_mem_nil

end Building

end LiveTemplate
