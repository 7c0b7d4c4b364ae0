import LiveTemplate.Proofs.Binding.Ending

/-!
# Labelled Views

What compiling makes of a view in which directives put texts beneath elements, but no
markup.

Such a text is the label of its element. It is planted while the walk is at the element,
and the walk goes on with it: if there is an expression in it, then this is bound like one
of the template. Everything else stands where it stood.

## Main definitions

* `interpolate`: A text with a value in it.
* `Template.Labelled`: What has become of a node at which a walk has stopped.
* `Template.Owns`: A binding that belongs to such a node, or to a label.
* `Template.Tours`: Something that holds of visits, and of one walk after another.
* `Tree.presented`: What becomes of a template when values look like something.
* `Blueprint.IsTextual`: An application that is built from a template without markup from
  values.

## Theorems

* `Tours.of_run`: What holds of visits holds of walks.
* `tours_toured`: What has become of a view, and what has been bound.
* `IsTextual.toured_of_build`: What becomes of a template while an application is built.
* `IsTextual.tree?_of_build`: What the view of an application reads as.
-/

namespace LiveTemplate

open Markup

variable {ν τ : Type} {u v w w' : ClientWorld ν τ}

/-- A text with what a value looks like in place of its first expression. -/
def interpolate (markers : Markers) (look : String → String) (content : String) : String :=
  match Interpolation.find? markers content with
  | none => content
  | some i => i.render (look i.key)

theorem interpolate_of_none {markers : Markers} {look : String → String} {content : String}
    (h : Interpolation.find? markers content = none) :
    interpolate markers look content = content := by
  rw [interpolate, h]

theorem interpolate_of_some {markers : Markers} {look : String → String} {content : String}
    {i : Interpolation} (h : Interpolation.find? markers content = some i) :
    interpolate markers look content = i.render (look i.key) := by
  rw [interpolate, h]

/-- What stands beneath an element after a text has been put there, and compiled. -/
def labels (markers : Markers) (look : String → String) (shown : String) : List Tree :=
  if shown.isEmpty then [] else [.text (interpolate markers look shown)]

theorem labels_of_none {markers : Markers} {look : String → String} {shown : String} (n : NodeId)
    (h : Interpolation.find? markers shown = none) :
    labels markers look shown = (Rendering.text n).forest shown := by
  rw [labels, interpolate_of_none h, Rendering.forest]

namespace Template

variable {t : Template (Code ν)} {n : NodeId} {ns all : List NodeId} {S : NodeId → Prop}

/-- What is shown for a path, and nothing if it leads nowhere. -/
def shown (t : Template (Code ν)) (w : ClientWorld ν τ) (key : String) : String :=
  (t.look w key).getD ""

theorem shown_of_value {key : String} {value : Data} (h : w.pathValue? t.data key = some value) :
    t.shown w key = (w.display? value).getD "" := by
  rw [shown, look, h, Option.bind_some]

theorem Agrees.look (h : t.Agrees u w) : t.look w = t.look u := by
  funext key
  rw [Template.look, Template.look, h.path]
  exact congrArg _ (funext h.display)

theorem Agrees.shown (h : t.Agrees u w) : t.shown w = t.shown u := by
  funext key
  rw [Template.shown, Template.shown, h.look]

/-- A walk has stopped at a node. The node is what it was, with a value in it if it is a text
    with an expression, and with a label if it is an element that puts a text beneath itself. -/
structure Labelled (t : Template (Code ν)) (n : NodeId) (w w' : ClientWorld ν τ) : Prop where
  /-- It has the attributes that it had. -/
  attributes : (w'.node n).attributes = (w.node n).attributes
  /-- It is the element or the comment that it was. -/
  kind : (∀ content, (w.node n).kind ≠ .text content) → (w'.node n).kind = (w.node n).kind
  /-- It is the text that it was, with a value in it. -/
  text : ∀ content, (w.node n).kind = .text content →
    (w'.node n).kind = .text (interpolate t.markers (t.shown w) content)
  /-- It has the children that it had. -/
  kept : (w.node n).filler? t.markers = none → (w'.node n).children = (w.node n).children
  /-- Or it has a label. -/
  label : ∀ d, (w.node n).filler? t.markers = some d →
    w'.StandFor (fun c => w.nodes.size ≤ c.index ∧ w'.IsLeaf c) (w'.node n).children
      (labels t.markers (t.shown w) (t.shown w d.expression))

/-- An element that shows a text has been visited. A walk beneath it comes by the text, which is
    new and puts nothing beneath itself. -/
theorem Attended.filled_text {d : Directive} (h : t.Attended n w v)
    (hfiller : (w.node n).filler? t.markers = some d) (htext : d.kind = .text) :
    ∃ low high below, w.nodes.size ≤ low ∧
      v.Sown low (v.node n).children ((Rendering.text n).forest (t.shown w d.expression)) high ∧
      v.Visits t.markers (v.node n).children below ∧ below.Nodup ∧
      ∀ m ∈ below, low ≤ m.index ∧ m.index < v.nodes.size ∧
        (v.node m).kind = .text (t.shown w d.expression) := by
  rcases h.filled d hfiller with ⟨r, value, low, high, hr, hvalue, hlow, _, hsown⟩
  rw [htext, Directive.Kind.rendering?, Option.some.injEq] at hr
  rw [← hr, ← shown_of_value hvalue] at hsown
  refine ⟨low, high, _, hlow, hsown, hsown.visits t.markers, Tree.nodup_stopsAll _ _ _,
    fun m hm => ⟨(hsown.lt_of_stops hm).1, (hsown.lt_of_stops hm).2, ?_⟩⟩
  rcases List.mem_map.mp hm with ⟨p, hp, rfl⟩
  have hhead := (hsown.isHeadOf t.markers p hp).2
  rw [Tree.eq_text_of_stops hp] at hhead
  exact hhead

/-- A node without a label has been visited. -/
theorem Attended.labelled (h : t.Attended n w w') (hfiller : (w.node n).filler? t.markers = none) :
    t.Labelled n w w' where
  attributes := h.attributes
  kind := h.kind
  text content hcontent := by
    rcases h.text content hcontent with ⟨hnone, hsome⟩
    cases hfind : Interpolation.find? t.markers content with
    | none => rw [interpolate_of_none hfind, hnone hfind]
    | some i =>
        rcases hsome i hfind with ⟨value, hvalue, hkind⟩
        rw [hkind, interpolate_of_some hfind, shown_of_value hvalue]
  kept := h.kept
  label d hd := by
    rw [hfiller] at hd
    exact absurd hd (by simp only [reduceCtorEq, not_false_eq_true])

/-- Before the walk has come to the node, other nodes have been changed. -/
theorem Labelled.before (h : t.Labelled n v w') (hspares : w.Spares v S)
    (hlt : n.index < w.nodes.size) (hn : ¬S n) (hagrees : t.Agrees w v) : t.Labelled n w w' := by
  have hloose := hspares.others n hlt hn
  have hkind := Node.kind_of_loose hloose
  have hfiller : (v.node n).filler? t.markers = (w.node n).filler? t.markers :=
    Node.filler?_congr hkind (Node.attributes_of_loose hloose)
  refine ⟨h.attributes.trans (Node.attributes_of_loose hloose), fun hnot => ?_,
    fun content hcontent => ?_, fun hnone => ?_, fun d hd => ?_⟩
  · rw [h.kind (by rw [hkind]; exact hnot), hkind]
  · rw [← hagrees.shown]
    exact h.text content (hkind.trans hcontent)
  · rw [h.kept (hfiller.trans hnone), Node.children_of_loose hloose]
  · rw [← hagrees.shown]
    refine (h.label d (hfiller.trans hd)).mono (Nat.le_refl _) fun c hc _ => ?_
    exact ⟨⟨Nat.le_trans hspares.grown hc.1, hc.2⟩, rfl, rfl, rfl⟩

/-- After the walk has come to the node, other nodes are changed. -/
theorem Labelled.after (h : t.Labelled n w v) (hspares : v.Spares w' S)
    (hlt : n.index < v.nodes.size) (hn : ¬S n) (hnew : ∀ c, S c → c.index < w.nodes.size) :
    t.Labelled n w w' := by
  have hloose := hspares.others n hlt hn
  have hkind := Node.kind_of_loose hloose
  refine ⟨(Node.attributes_of_loose hloose).trans h.attributes,
    fun hnot => hkind.trans (h.kind hnot),
    fun content hcontent => hkind.trans (h.text content hcontent),
    fun hnone => (Node.children_of_loose hloose).trans (h.kept hnone), fun d hd => ?_⟩
  rw [Node.children_of_loose hloose]
  refine (h.label d hd).mono hspares.grown fun c hc hclt => ?_
  have hcloose := hspares.others c hclt fun hS => absurd (hnew c hS) (Nat.not_lt_of_le hc.1)
  refine ⟨⟨hc.1, fun hleaf => ?_⟩, Node.kind_of_loose hcloose, Node.attributes_of_loose hcloose,
    Node.children_of_loose hcloose⟩
  rw [Node.kind_of_loose hcloose] at hleaf
  rw [Node.children_of_loose hcloose]
  exact hc.2 hleaf

/-- A text has been put beneath an element and compiled. -/
theorem Attended.label {d : Directive} (h : t.Attended n w v) (hlt : n.index < w.nodes.size)
    (hfiller : (w.node n).filler? t.markers = some d) {low high : Nat} {shown : String}
    (hshown : t.shown w d.expression = shown) (hlow : w.nodes.size ≤ low)
    (hsown : v.Sown low (v.node n).children ((Rendering.text n).forest shown) high)
    (hagrees : t.Agrees w v) (hspares : v.Spares w' fun m => low ≤ m.index)
    (hlabelled : ∀ c ∈ (v.node n).children, t.Labelled c v w') : t.Labelled n w w' := by
  have hn : ¬low ≤ n.index := Nat.not_le_of_lt (Nat.lt_of_lt_of_le hlt hlow)
  have hloose := hspares.others n (Nat.lt_of_lt_of_le hlt h.spares.grown) hn
  have hkind := Node.kind_of_loose hloose
  refine ⟨(Node.attributes_of_loose hloose).trans h.attributes,
    fun hnot => hkind.trans (h.kind hnot),
    fun content hcontent => ?_, fun hnone => ?_, fun d' hd' => ?_⟩
  · rw [Node.filler?_of_text hcontent] at hfiller
    exact absurd hfiller (by simp only [reduceCtorEq, not_false_eq_true])
  · rw [hfiller] at hnone
    exact absurd hnone (by simp only [reduceCtorEq, not_false_eq_true])
  · rw [hfiller, Option.some.injEq] at hd'
    subst hd'
    rw [Node.children_of_loose hloose, hshown, labels]
    rw [Rendering.forest] at hsown
    generalize (v.node n).children = cs at hsown hlabelled
    cases hempty : shown.isEmpty with
    | true =>
        rw [hempty] at hsown
        cases hsown
        exact .nil
    | false =>
        rw [hempty] at hsown
        cases hsown with
        | text hclt hckind hleaf hns =>
            cases hns
            have hc := hlabelled _ (List.mem_singleton_self _)
            have htext := hc.text _ hckind
            rw [hagrees.shown] at htext
            refine .text ⟨hlow, fun _ => ?_⟩ (Nat.lt_of_lt_of_le hclt hspares.grown) htext .nil
            rw [hc.kept (Node.filler?_of_text hckind), hleaf]

/-- A binding that is for a node at which the walk has stopped, or for a label. -/
def Owns (t : Template (Code ν)) (w : ClientWorld ν τ) (all : List NodeId) (site : BindingSite) :
    Prop :=
  (∃ n ∈ all, site ∈ t.sitesAt n (w.node n)) ∨
    ∃ description key n i, site = .value description key (.interpolated n i)

theorem sitesAt_congr {a b : Node (Code ν)} (hkind : a.kind = b.kind)
    (hattributes : a.attributes = b.attributes) : t.sitesAt n a = t.sitesAt n b := by
  rw [sitesAt, sitesAt, hkind, hattributes]

/-- Nodes that have been left alone. -/
theorem Owns.spared {more : List NodeId} {site : BindingSite} (h : t.Owns v all site)
    (hspares : w.Spares v S) (hlt : ∀ n ∈ all, n.index < w.nodes.size) (hout : ∀ n ∈ all, ¬S n)
    (hmore : ∀ n ∈ all, n ∈ more) : t.Owns w more site := by
  rcases h with ⟨n, hn, hsite⟩ | hlabel
  · have hloose := hspares.others n (hlt n hn) (hout n hn)
    rw [sitesAt_congr (Node.kind_of_loose hloose) (Node.attributes_of_loose hloose)] at hsite
    exact Or.inl ⟨n, hmore n hn, hsite⟩
  · exact Or.inr hlabel

/-- What has become of some nodes, and what has been bound for them or for labels. -/
structure Toured (t : Template (Code ν)) (all : List NodeId) (ss : List BindingSite)
    (w w' : ClientWorld ν τ) : Prop where
  /-- The nodes are labelled. -/
  labelled : ∀ n ∈ all, t.Labelled n w w'
  /-- The bindings are for them, or for labels. -/
  owned : ∀ site ∈ ss, t.Owns w all site

theorem Toured.nil (t : Template (Code ν)) (w w' : ClientWorld ν τ) : t.Toured [] [] w w' :=
  ⟨fun _ hn => absurd hn List.not_mem_nil, fun _ hsite => absurd hsite List.not_mem_nil⟩

/-- Some nodes, and then others. -/
theorem Toured.append {first rest : List NodeId} {ss ss' : List BindingSite}
    (h : t.Toured first ss w v) (hrest : t.Toured rest ss' v w')
    (hspares : w.Spares v (· ∈ first)) (hspares' : v.Spares w' (· ∈ rest))
    (hagrees : t.Agrees w v) (hlt : ∀ n ∈ first, n.index < w.nodes.size)
    (hlt' : ∀ n ∈ rest, n.index < w.nodes.size) (hapart : ∀ n ∈ first, n ∉ rest) :
    t.Toured (first ++ rest) (ss ++ ss') w w' := by
  refine ⟨List.forall_mem_append.mpr ⟨fun n hn => ?_, fun n hn => ?_⟩,
    List.forall_mem_append.mpr ⟨fun site hsite => ?_, fun site hsite => ?_⟩⟩
  · exact (h.labelled n hn).after hspares' (Nat.lt_of_lt_of_le (hlt n hn) hspares.grown)
      (hapart n hn) hlt'
  · exact (hrest.labelled n hn).before hspares (hlt' n hn) (fun hmem => hapart n hmem hn) hagrees
  · exact (h.owned site hsite).spared (.refl w fun _ => False) hlt (fun _ _ => id)
      fun n hn => List.mem_append_left rest hn
  · exact (hrest.owned site hsite).spared hspares hlt' (fun n hn hmem => hapart n hmem hn)
      fun n hn => List.mem_append_right first hn

section Walk

variable {depth : Nat} {stats stats' : CompileStats}

/-- Something that holds of visits, and of one walk after another. The texts that a walk puts
    beneath an element are visited right after the element. -/
structure Tours (t : Template (Code ν))
    (P : List NodeId → List BindingSite → ClientWorld ν τ → ClientWorld ν τ → Prop) : Prop where
  /-- Nothing has been visited. -/
  nil : ∀ w, P [] [] w w
  /-- Some nodes have been visited, and then others. -/
  append : ∀ {first rest : List NodeId} {ss ss' : List BindingSite} {w v w' : ClientWorld ν τ},
    P first ss w v → P rest ss' v w' → w.Spares v (· ∈ first) → v.Spares w' (· ∈ rest) →
      t.Agrees w v → (∀ n ∈ first, n.index < w.nodes.size) →
        (∀ n ∈ rest, n.index < w.nodes.size) → (∀ n ∈ first, n ∉ rest) →
          P (first ++ rest) (ss ++ ss') w w'
  /-- A node without a label has been visited. -/
  plain : ∀ {n : NodeId} {w v : ClientWorld ν τ}, (w.node n).filler? t.markers = none →
    t.Attended n w v → P [n] (t.sitesAt n (w.node n)) w v
  /-- An element has been visited, and the label that it has got. -/
  filled : ∀ {n : NodeId} {d : Directive} {shown : String} {low high : Nat} {below : List NodeId}
    {ss : List BindingSite} {w v w' : ClientWorld ν τ}, n.index < w.nodes.size →
      (w.node n).filler? t.markers = some d → t.shown w d.expression = shown →
        t.Attended n w v → t.Agrees w v → w.nodes.size ≤ low →
          v.Sown low (v.node n).children ((Rendering.text n).forest shown) high →
            (v.node n).children ⊆ below →
              (∀ m ∈ below, low ≤ m.index ∧ (v.node m).kind = .text shown) →
                v.Spares w' (· ∈ below) → P below ss v w' →
                  P [n] (t.sitesAt n (w.node n) ++ ss) w w'

/-- A node has been visited with what is beneath it. -/
theorem Tours.of_compileNode
    {P : List NodeId → List BindingSite → ClientWorld ν τ → ClientWorld ν τ → Prop}
    (htours : t.Tours P)
    (hbeneath : ∀ {u x : ClientWorld ν τ} {ns all : List NodeId} {stats stats' : CompileStats},
      u.Visits t.markers ns all → (∀ n ∈ all, n.index < u.nodes.size) → all.Nodup →
      (∀ n ∈ all, ∀ d, (u.node n).filler? t.markers = some d → d.kind = .text) →
      (ns.foldlM (t.compileNode depth) stats).run u = some (.ok stats', x) →
        P all (t.sitesAmong (t.sites depth) ns u) u x)
    (h : w.Visits t.markers [n] all) (hlt : ∀ n ∈ all, n.index < w.nodes.size) (hnodup : all.Nodup)
    (htext : ∀ n ∈ all, ∀ d, (w.node n).filler? t.markers = some d → d.kind = .text)
    (hrun : (t.compileNode (depth + 1) stats n).run w = some (.ok stats', w')) :
    P all (t.sites (depth + 1) w n) w w' := by
  rcases compileNode_run_iff.mp hrun with ⟨_, stats₁, v, hdepth, hself, hchildren⟩
  rw [Nat.succ.injEq] at hdepth
  subst hdepth
  have hfollows : t.Follows (t.compileSelf n { stats with nodes := stats.nodes + 1 }) w
      (t.sitesAt n (w.node n)) := follows_compileSelf n _
  have hagrees := (Agrees.refl w).follows hfollows hself
  rw [sites, ← hfollows.eq_foldl hself]
  rcases h.singleton_cases with ⟨below, hfiller, rfl, hbelow⟩ | ⟨d, hfiller, rfl⟩
  · rw [List.forall_mem_cons] at hlt htext
    rw [List.nodup_cons] at hnodup
    have hattended := attended_of_run hlt.1 hself
    have hout : ∀ m ∈ below, m ≠ n := fun m hm hmn => hnodup.1 (hmn ▸ hm)
    have hvisits : v.Visits t.markers (v.node n).children below := by
      rw [hattended.kept hfiller]
      exact hbelow.spared hattended.spares hlt.2 hout
    have hsize : ∀ m ∈ below, m.index < v.nodes.size := fun m hm =>
      Nat.lt_of_lt_of_le (hlt.2 m hm) hattended.spares.grown
    have hinner := hbeneath hvisits hsize hnodup.2 (fun m hm d hd => by
      have hloose := hattended.spares.others m (hlt.2 m hm) (hout m hm)
      rw [Node.filler?_congr (Node.kind_of_loose hloose) (Node.attributes_of_loose hloose)] at hd
      exact htext.2 m hm d hd) hchildren
    have hspares : w.Spares v (· ∈ [n]) :=
      ⟨hattended.spares.grown, fun m hm hmn => hattended.spares.others m hm fun h =>
        hmn (List.mem_singleton.mpr h)⟩
    exact htours.append (htours.plain hfiller hattended) hinner hspares
      (spares_of_run hvisits hsize hnodup.2 hchildren) hagrees
      (List.forall_mem_singleton.mpr hlt.1) hlt.2 (List.forall_mem_singleton.mpr hnodup.1)
  · rw [List.forall_mem_singleton] at hlt htext
    have hattended := attended_of_run hlt hself
    rcases hattended.filled_text hfiller (htext d hfiller) with
      ⟨low, high, below, hlow, hsown, hvisits, hnodup, hbelow⟩
    have hsize : ∀ m ∈ below, m.index < v.nodes.size := fun m hm => (hbelow m hm).2.1
    have hinner := hbeneath hvisits hsize hnodup (fun m hm d' hd' => by
      rw [Node.filler?_of_text (hbelow m hm).2.2] at hd'
      exact absurd hd' (by simp only [reduceCtorEq, not_false_eq_true])) hchildren
    exact htours.filled hlt hfiller rfl hattended hagrees hlow hsown hvisits.subset
      (fun m hm => ⟨(hbelow m hm).1, (hbelow m hm).2.2⟩)
      (spares_of_run hvisits hsize hnodup hchildren) hinner

/-- What holds of visits holds of every walk, if all that it has put beneath elements is texts. -/
theorem Tours.of_run
    {P : List NodeId → List BindingSite → ClientWorld ν τ → ClientWorld ν τ → Prop}
    (htours : t.Tours P) (h : w.Visits t.markers ns all)
    (hlt : ∀ n ∈ all, n.index < w.nodes.size) (hnodup : all.Nodup)
    (htext : ∀ n ∈ all, ∀ d, (w.node n).filler? t.markers = some d → d.kind = .text)
    (hrun : (ns.foldlM (t.compileNode depth) stats).run w = some (.ok stats', w')) :
    P all (t.sitesAmong (t.sites depth) ns w) w w' := by
  induction depth generalizing ns all stats stats' w w' with
  | zero =>
      rcases foldlM_compileNode_zero hrun with ⟨rfl, rfl⟩
      cases h
      exact htours.nil _
  | succ depth ihdepth =>
      induction ns generalizing all stats w with
      | nil =>
          cases h
          cases hrun
          exact htours.nil _
      | cons n ns ih =>
          rcases foldlM_cons_run_eq_some_iff.mp hrun with ⟨stats₂, x, hnode, hrest⟩
          have hfollows : t.Follows (t.compileNode (depth + 1) stats n) w
              (t.sites (depth + 1) w n) := follows_compileNode (Nat.le_refl (depth + 1)) n stats
          have hone : ([n].foldlM (t.compileNode (depth + 1)) stats).run w = some (.ok stats₂, x) :=
            foldlM_cons_run_eq_some_iff.mpr ⟨stats₂, x, hnode, rfl⟩
          rcases h.uncons with ⟨first, rest, rfl, hfirst, hns⟩
          rw [List.forall_mem_append] at hlt htext
          rw [List.nodup_append] at hnodup
          have hspares := spares_of_run hfirst hlt.1 hnodup.1 hone
          have hapart : ∀ m ∈ rest, m ∉ first := fun m hm hmem => hnodup.2.2 m hmem m hm rfl
          have hvisits := hns.spared hspares hlt.2 hapart
          have hsize : ∀ m ∈ rest, m.index < x.nodes.size := fun m hm =>
            Nat.lt_of_lt_of_le (hlt.2 m hm) hspares.grown
          have hafter := ih hvisits hsize hnodup.2.1 (fun m hm d hd => by
            have hloose := hspares.others m (hlt.2 m hm) (hapart m hm)
            rw [Node.filler?_congr (Node.kind_of_loose hloose)
              (Node.attributes_of_loose hloose)] at hd
            exact htext.2 m hm d hd) hrest
          rw [sitesAmong, ← hfollows.eq_foldl hnode]
          exact htours.append (htours.of_compileNode ihdepth hfirst hlt.1 hnodup.1 htext.1 hnode)
            hafter hspares (spares_of_run hvisits hsize hnodup.2.1 hrest)
            ((Agrees.refl w).follows hfollows hnode) hlt.1 hlt.2
            fun m hm hmem => hapart m hmem hm

/-- What has become of nodes, and what has been bound, is known of visits. -/
theorem tours_toured : t.Tours (t.Toured (ν := ν) (τ := τ)) where
  nil w := .nil t w w
  append h hrest hspares hspares' hagrees hlt hlt' hapart :=
    h.append hrest hspares hspares' hagrees hlt hlt' hapart
  plain {n _ _} hfiller hattended :=
    ⟨List.forall_mem_singleton.mpr (hattended.labelled hfiller),
      fun _ hsite => Or.inl ⟨n, List.mem_singleton_self n, hsite⟩⟩
  filled {n d shown low high below ss w v w'} hn hfiller hshown hattended hagrees hlow hsown hsubset
      hkind hspares hinner := by
    refine ⟨List.forall_mem_singleton.mpr ?_, List.forall_mem_append.mpr
      ⟨fun site hsite => Or.inl ⟨n, List.mem_singleton_self n, hsite⟩, fun site hsite => ?_⟩⟩
    · exact hattended.label hn hfiller hshown hlow hsown hagrees
        ⟨hspares.grown, fun m hm hlt => hspares.others m hm fun hmem => hlt (hkind m hmem).1⟩
        fun c hc => hinner.labelled c (hsubset hc)
    · rcases hinner.owned site hsite with ⟨m, hm, hsite⟩ | hlabel
      · rw [sitesAt, (hkind m hm).2] at hsite
        rcases List.mem_map.mp hsite with ⟨i, _, rfl⟩
        exact Or.inr ⟨_, _, m, i, rfl⟩
      · exact Or.inr hlabel

end Walk

end Template

namespace Markup.Tree

mutual

/-- What has become of the tree, when values look like this. -/
def presented (markers : Markers) (look : String → String) : Tree → Tree
  | text content => text (interpolate markers look content)
  | comment content => comment content
  | element tag attributes children =>
    element tag attributes <|
      match LiveTemplate.filler? (directivesOf markers attributes) with
      | none => presentedAll markers look children
      | some d => labels markers look (look d.expression)

/-- What has become of the trees of a forest. -/
def presentedAll (markers : Markers) (look : String → String) : List Tree → List Tree
  | [] => []
  | t :: ts => presented markers look t :: presentedAll markers look ts

end

end Markup.Tree

/-- Nodes at which a walk has stopped stand for what has become of the trees. -/
theorem World.Sown.presented {t : Template (Code ν)} {start stop : Nat} {ns : List NodeId}
    {ts : List Tree} (h : w.Sown start ns ts stop) (hgrown : w.nodes.size ≤ w'.nodes.size)
    (hlabelled : ∀ p ∈ Tree.stopsAll t.markers start ts, t.Labelled p.1 w w') :
    w'.StandFor (start ≤ ·.index) ns (Tree.presentedAll t.markers (t.shown w) ts) := by
  have hmono : ∀ {from' : Nat} {ns : List NodeId} {ts : List Tree} {start : Nat}, start ≤ from' →
      w'.StandFor (from' ≤ ·.index) ns ts → w'.StandFor (start ≤ ·.index) ns ts :=
    fun hle hstand => hstand.mono (Nat.le_refl _) fun c hc _ => ⟨Nat.le_trans hle hc, rfl, rfl, rfl⟩
  induction h with
  | nil => exact .nil
  | @text start stop content ns ts hlt hkind hleaf hns ih =>
      rw [Tree.stopsAll, Tree.stops, List.cons_append, List.forall_mem_cons] at hlabelled
      exact .text (Nat.le_refl _) (Nat.lt_of_lt_of_le hlt hgrown) (hlabelled.1.text content hkind)
        (hmono (Nat.le_succ start) (ih hlabelled.2))
  | @comment start stop content ns ts hlt hkind hleaf hns ih =>
      rw [Tree.stopsAll, Tree.stops, List.cons_append, List.forall_mem_cons] at hlabelled
      have hsame := hlabelled.1.kind (by
        rw [hkind]
        exact fun _ => by simp only [ne_eq, reduceCtorEq, not_false_eq_true])
      exact .comment (Nat.le_refl _) (Nat.lt_of_lt_of_le hlt hgrown) (hsame.trans hkind)
        (hmono (Nat.le_succ start) (ih hlabelled.2))
  | @element start middle stop tag attributes children ns ts hlt hkind hattributes _ hchildren hns
      ihc ih =>
      have hmiddle : middle = start + (Tree.element tag attributes children).size := by
        rw [hchildren.stop_eq, Tree.size]
        omega
      rw [hmiddle] at ih
      rw [Tree.stopsAll, Tree.stops, List.cons_append, List.forall_mem_cons,
        List.forall_mem_append] at hlabelled
      rcases hlabelled with ⟨hself, hbelow, hrest⟩
      have hsame := hself.kind (by
        rw [hkind]
        exact fun _ => by simp only [ne_eq, reduceCtorEq, not_false_eq_true])
      have hfiller : (w.node ⟨start⟩).filler? t.markers = _ := Node.filler?_of_element hkind
      rw [hattributes] at hfiller
      have hbeneath : w'.StandFor (start + 1 ≤ ·.index) (w'.node ⟨start⟩).children
          (match LiveTemplate.filler? (directivesOf t.markers attributes) with
            | none => Tree.presentedAll t.markers (t.shown w) children
            | some d => labels t.markers (t.shown w) (t.shown w d.expression)) := by
        cases hsome : LiveTemplate.filler? (directivesOf t.markers attributes) with
        | none =>
            rw [hsome] at hfiller hbelow
            rw [hself.kept hfiller]
            exact ihc hbelow
        | some d =>
            rw [hsome] at hfiller
            exact (hself.label d hfiller).mono (Nat.le_refl _) fun c hc _ =>
              ⟨Nat.le_trans hlt hc.1, rfl, rfl, rfl⟩
      rw [Tree.presentedAll, Tree.presented]
      refine .element_of_node (Nat.le_refl _) (Nat.lt_of_lt_of_le hlt hgrown) (hsame.trans hkind)
        (hself.attributes.trans hattributes) rfl (fun c hc => hbeneath.forall_ok c hc)
        (hmono (Nat.le_succ start) hbeneath) (hmono ?_ (ih hrest))
      rw [Tree.size]
      omega

/-! ### Templates without markup from values -/

namespace Markup.Tree

mutual

/-- The directives of all elements in the tree. -/
def directives (markers : Markers) : Tree → List Directive
  | text _ => []
  | comment _ => []
  | element _ attributes children =>
    directivesOf markers attributes ++ directivesAll markers children

/-- The directives of all elements in the forest. -/
def directivesAll (markers : Markers) : List Tree → List Directive
  | [] => []
  | t :: ts => directives markers t ++ directivesAll markers ts

end

/-- The directives of elements at which a walk stops. -/
theorem mem_directivesAll_of_stops {markers : Markers} {start : Nat} {ts : List Tree}
    {p : NodeId × Tree} (hp : p ∈ stopsAll markers start ts)
    {tag : String} {attributes : Attributes}
    {children : List Tree} (helement : p.2 = element tag attributes children) {d : Directive}
    (hd : d ∈ directivesOf markers attributes) : d ∈ directivesAll markers ts := by
  induction ts using forestInduction generalizing start with
  | nil => exact absurd hp List.not_mem_nil
  | text content ts ih =>
      rcases List.mem_cons.mp hp with rfl | hp
      · exact absurd helement (by simp only [reduceCtorEq, not_false_eq_true])
      · exact ih hp
  | comment content ts ih =>
      rcases List.mem_cons.mp hp with rfl | hp
      · exact absurd helement (by simp only [reduceCtorEq, not_false_eq_true])
      · exact ih hp
  | element tag' attributes' children' ts ihc ih =>
      rw [stopsAll, stops, List.cons_append, List.mem_cons, List.mem_append] at hp
      rw [directivesAll, directives, List.mem_append, List.mem_append]
      rcases hp with rfl | hp | hp
      · injection helement with _ hattributes _
        rw [hattributes]
        exact Or.inl (Or.inl hd)
      · split at hp
        · exact Or.inl (Or.inr (ihc hp))
        · exact absurd hp List.not_mem_nil
      · exact Or.inr (ih hp)

end Markup.Tree

/-- What the template of an application is compiled against, once the data has been observed. -/
def Blueprint.forData {κ : Type} (b : Blueprint κ) (data : ObjectId) : Template κ :=
  ⟨data, b.methods, b.markers⟩

/-- The application is built from a template alone, and no directive puts markup anywhere. -/
structure Blueprint.IsTextual {κ : Type} (b : Blueprint κ) (tree : Tree) : Prop where
  /-- There is no node of the client's. -/
  mount : b.mount = none
  /-- The template is the element. -/
  template : ∃ markup, b.template = some markup ∧ Markup.template markup = .ok tree
  /-- It shows values as texts. -/
  text : ∀ d ∈ tree.directives b.markers, d.kind ≠ .html

section Textual

variable {b : Blueprint (Code ν)} {tree : Tree} {root : NodeId} {app : App (Code ν)} {levels : Nat}

namespace Blueprint

/-- What an element at which a walk stops is asked to put beneath itself is a text. -/
theorem IsTextual.kind_of_mem (h : b.IsTextual tree) {start : Nat} {p : NodeId × Tree}
    (hp : p ∈ Tree.stopsAll b.markers start [tree]) {tag : String} {attributes : Attributes}
    {children : List Tree} (helement : p.2 = .element tag attributes children) {d : Directive}
    (hd : d ∈ directivesOf b.markers attributes) (haspect : d.kind.aspect? = some .beneath) :
    d.kind = .text := by
  have hmem := Tree.mem_directivesAll_of_stops hp helement hd
  rw [Tree.directivesAll, Tree.directivesAll, List.append_nil] at hmem
  cases hkind : d.kind with
  | text => rfl
  | html => exact absurd hkind (h.text d hmem)
  | model | on | unknown =>
      rw [hkind] at haspect
      exact absurd haspect (by simp only [Directive.Kind.aspect?, Option.some.injEq, reduceCtorEq,
        not_false_eq_true])

/-- So is what it puts there in the end. -/
theorem IsTextual.kind_of_stops (h : b.IsTextual tree) {start : Nat} {p : NodeId × Tree}
    (hp : p ∈ Tree.stopsAll b.markers start [tree]) {d : Directive}
    (hd : p.2.filler? b.markers = some d) : d.kind = .text := by
  cases hhead : p.2 with
  | text content =>
      rw [hhead] at hd
      exact absurd hd (by simp only [Tree.filler?, reduceCtorEq, not_false_eq_true])
  | comment content =>
      rw [hhead] at hd
      exact absurd hd (by simp only [Tree.filler?, reduceCtorEq, not_false_eq_true])
  | element tag attributes children =>
      rw [hhead, Tree.filler?] at hd
      exact h.kind_of_mem hp hhead (aspect?_of_filler? hd).1 (aspect?_of_filler? hd).2

theorem IsTextual.view_eq_ok_iff (h : b.IsTextual tree) :
    b.view u = (.ok root, v) ↔ World.plant tree u = (root, v) := by
  rcases h.template with ⟨markup, hmarkup, htree⟩
  rw [LiveTemplate.view_eq_ok_iff h.mount]
  constructor
  · rintro ⟨markup', hmarkup', hplant⟩
    rw [hmarkup, Option.some.injEq] at hmarkup'
    subst hmarkup'
    rcases plantTemplate_eq_ok_iff.mp hplant with ⟨tree', htree', hplanted⟩
    rw [Markup.template, Markup.parse] at htree
    rw [htree, Except.ok.injEq] at htree'
    rwa [htree']
  · exact fun hplanted => ⟨markup, hmarkup, plantTemplate_eq_ok_iff.mpr ⟨tree, htree, hplanted⟩⟩

/-- What a walk over the template does is done while an application is built from it. -/
theorem IsTextual.tours_of_build (h : b.IsTextual tree)
    (hbuild : b.build levels w = some (.ok app, w')) :
    ∃ u v, w.observeRoot (b.data.getD (.object [])) = (some app.data, u) ∧
      World.plant tree u = (app.root, v) ∧
      ((b.forData app.data).compile levels app.root).run v = some (.ok (), w') ∧
      (∀ P, (b.forData app.data).Tours P →
        P ((Tree.stopsAll b.markers u.nodes.size [tree]).map (·.1))
          ((b.forData app.data).sites levels v app.root) v w') ∧
      v.Spares w' (· ∈ (Tree.stopsAll b.markers u.nodes.size [tree]).map (·.1)) := by
  rcases (build_eq_some_ok_iff h.mount).mp hbuild with
    ⟨_, u, v, markup, hobserve, hmarkup, hplant, hcompile, _⟩
  have hplanted := h.view_eq_ok_iff.mp
    ((LiveTemplate.view_eq_ok_iff h.mount).mpr ⟨markup, hmarkup, hplant⟩)
  rcases World.sown_plant hplanted with ⟨_, hsown⟩
  rcases compile_run_eq_some_ok_iff.mp hcompile with ⟨stats, hnode⟩
  have hrun : ([app.root].foldlM ((b.forData app.data).compileNode levels) {}).run v =
      some (.ok stats, w') :=
    Template.foldlM_cons_run_eq_some_iff.mpr ⟨stats, w', hnode, rfl⟩
  have hsize : ∀ n ∈ (Tree.stopsAll b.markers u.nodes.size [tree]).map (·.1),
      n.index < v.nodes.size := fun n hn => (hsown.lt_of_stops hn).2
  refine ⟨u, v, hobserve, hplanted, hcompile, fun P htours => ?_,
    Template.spares_of_run (hsown.visits b.markers) hsize (Tree.nodup_stopsAll _ _ _) hrun⟩
  have htoured := htours.of_run (hsown.visits b.markers) hsize
    (Tree.nodup_stopsAll _ _ _) (fun n hn d hd => by
      rcases List.mem_map.mp hn with ⟨p, hp, rfl⟩
      rw [(hsown.isHeadOf b.markers p hp).2.filler?_eq] at hd
      exact h.kind_of_stops hp hd) hrun
  rwa [Template.sitesAmong, Template.sitesAmong, List.append_nil] at htoured

/-- What has become of a template once an application has been built from it. -/
theorem IsTextual.toured_of_build (h : b.IsTextual tree)
    (hbuild : b.build levels w = some (.ok app, w')) :
    ∃ u v, w.observeRoot (b.data.getD (.object [])) = (some app.data, u) ∧
      World.plant tree u = (app.root, v) ∧
      ((b.forData app.data).compile levels app.root).run v = some (.ok (), w') ∧
      (b.forData app.data).Toured ((Tree.stopsAll b.markers u.nodes.size [tree]).map (·.1))
        ((b.forData app.data).sites levels v app.root) v w' ∧
      v.Spares w' (· ∈ (Tree.stopsAll b.markers u.nodes.size [tree]).map (·.1)) := by
  rcases h.tours_of_build hbuild with ⟨u, v, hobserve, hplant, hcompile, htours, hspares⟩
  exact ⟨u, v, hobserve, hplant, hcompile, htours _ Template.tours_toured, hspares⟩

/-- What a view stands for once an application has been built, with the values that there are. -/
theorem IsTextual.standFor_of_build (h : b.IsTextual tree)
    (hbuild : b.build levels w = some (.ok app, w')) :
    ∃ start, w'.StandFor (start ≤ ·.index) [app.root]
      [tree.presented b.markers ((b.forData app.data).shown w')] := by
  rcases h.toured_of_build hbuild with ⟨u, v, _, hplant, hcompile, htoured, hspares⟩
  have hagrees := (Template.Agrees.refl v).follows
    (Template.follows_compile (Nat.le_refl levels) app.root) hcompile
  rw [hagrees.shown]
  exact ⟨u.nodes.size, (World.sown_plant hplant).2.presented hspares.grown fun p hp =>
    htoured.labelled p.1 (List.mem_map_of_mem hp)⟩

/-- What a view reads as once an application has been built. -/
theorem IsTextual.tree?_of_build (h : b.IsTextual tree)
    (hbuild : b.build levels w = some (.ok app, w')) :
    w'.tree? app.root =
      some (tree.presented b.markers ((b.forData app.data).shown w')) := by
  rcases h.standFor_of_build hbuild with ⟨_, hstand⟩
  exact hstand.tree?_eq

end Blueprint

end Textual

end LiveTemplate
