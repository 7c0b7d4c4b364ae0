import LiveTemplate.Proofs.Binding.Ordering
import LiveTemplate.Proofs.Binding.Walking
import Mathlib.Data.List.Induction

/-!
# Visits

What one visit does to a view, and which nodes a walk comes by.

A visit changes the node that is visited, and plants new nodes. If the directives of an
element put something beneath it, the last of them has the last word, and the walk goes on
among the new nodes. The children that were there are left behind. So a walk comes by the
nodes beneath its start that are not beneath such an element, and by new nodes; all others
it leaves alone.

## Main definitions

* `World.Spares`: Nodes that do not belong to a set have been left alone.
* `filler?`: The directive that has the last word about what is beneath an element.
* `Tree.stops`: The nodes of a planted tree at which a walk stops, with what they stand for.
* `Tree.fillers`: The directives that have the last word at such nodes.
* `Node.IsHeadOf`: A node that has what the root of a tree has.
* `Template.Tended`: Some directives of an element have taken effect.
* `World.Visits`: The nodes that a walk comes by, of those that are there.

## Theorems

* `tended_foldl`: What directives do one after the other.
* `attended_of_run`: What a visit does to a node.
* `Sown.visits`: A walk comes by the stops of a forest that has been planted.
* `spares_of_run`: What a walk leaves alone.
-/

namespace LiveTemplate

open Markup

namespace World

variable {κ σ : Type} {w w₁ w₂ : World κ σ} {S S₁ S₂ : NodeId → Prop}

/-- The nodes that do not belong to a set have been left alone. There may be more nodes. -/
structure Spares (w w' : World κ σ) (S : NodeId → Prop) : Prop where
  /-- There may be more nodes. -/
  grown : w.nodes.size ≤ w'.nodes.size
  /-- The nodes outside the set are as they were. -/
  others : ∀ m : NodeId, m.index < w.nodes.size → ¬S m → (w'.node m).loose = (w.node m).loose

namespace Spares

theorem refl (w : World κ σ) (S : NodeId → Prop) : w.Spares w S :=
  ⟨Nat.le_refl _, fun _ _ _ => rfl⟩

/-- One change after the other. The second one may change nodes that the first one has added. -/
theorem trans (h₁ : w.Spares w₁ S₁) (h₂ : w₁.Spares w₂ S₂)
    (hS : ∀ m : NodeId, m.index < w.nodes.size → S₁ m ∨ S₂ m → S m) : w.Spares w₂ S where
  grown := Nat.le_trans h₁.grown h₂.grown
  others m hm hnot := by
    rw [h₂.others m (Nat.lt_of_lt_of_le hm h₁.grown) fun h => hnot (hS m hm (Or.inr h)),
      h₁.others m hm fun h => hnot (hS m hm (Or.inl h))]

theorem sown {start stop : Nat} {ns : List NodeId} {ts : List Tree} (h : w.Spares w₁ S)
    (hsown : w.Sown start ns ts stop)
    (hout : ∀ m : NodeId, start ≤ m.index → m.index < stop → ¬S m) :
    w₁.Sown start ns ts stop :=
  hsown.congr h.grown fun m hm hlow hhigh => h.others m hm (hout m hlow hhigh)

end Spares

end World

/-! ### One visit -/

/-- The directive that has the last word about what is beneath an element. -/
def filler? (ds : List Directive) : Option Directive :=
  (ds.filter (·.kind.aspect? == some .beneath)).getLast?

theorem filler?_append {ds : List Directive} {d : Directive} :
    filler? (ds ++ [d]) = if d.kind.aspect? = some .beneath then some d else filler? ds := by
  rw [filler?, List.filter_append, List.filter_singleton]
  by_cases hd : d.kind.aspect? = some .beneath
  · rw [if_pos hd, beq_iff_eq.mpr hd, cond_true, List.getLast?_concat]
  · rw [if_neg hd, beq_eq_false_iff_ne.mpr hd, cond_false, List.append_nil, filler?]

theorem aspect?_of_filler? {ds : List Directive} {d : Directive} (h : filler? ds = some d) :
    d ∈ ds ∧ d.kind.aspect? = some .beneath := by
  have hmem := List.mem_of_getLast? h
  rw [List.mem_filter, beq_iff_eq] at hmem
  exact hmem

/-- If a directive puts something beneath an element, then one of them has the last word. -/
theorem exists_filler? {ds : List Directive} {d : Directive} (hd : d ∈ ds)
    (haspect : d.kind.aspect? = some .beneath) : ∃ d', filler? ds = some d' := by
  have hmem : d ∈ ds.filter (·.kind.aspect? == some .beneath) :=
    List.mem_filter.mpr ⟨hd, beq_iff_eq.mpr haspect⟩
  exact ⟨_, List.getLast?_eq_some_getLast (List.ne_nil_of_mem hmem)⟩

/-- The directive that has the last word about what is beneath a node. Only elements have one. -/
def Node.filler? {κ : Type} (markers : Markers) (node : Node κ) : Option Directive :=
  match node.kind with
  | .element _ => LiveTemplate.filler? (directivesOf markers node.attributes)
  | _ => none

theorem Node.filler?_congr {κ : Type} {markers : Markers} {a b : Node κ} (hkind : a.kind = b.kind)
    (hattributes : a.attributes = b.attributes) : a.filler? markers = b.filler? markers := by
  rw [filler?, filler?, hkind, hattributes]

theorem Node.filler?_of_element {κ : Type} {markers : Markers} {node : Node κ} {tag : String}
    (hkind : node.kind = .element tag) :
    node.filler? markers = LiveTemplate.filler? (directivesOf markers node.attributes) := by
  rw [filler?, hkind]

theorem Node.filler?_of_text {κ : Type} {markers : Markers} {node : Node κ} {content : String}
    (hkind : node.kind = .text content) : node.filler? markers = none := by
  rw [filler?, hkind]

theorem Node.filler?_of_comment {κ : Type} {markers : Markers} {node : Node κ} {content : String}
    (hkind : node.kind = .comment content) : node.filler? markers = none := by
  rw [filler?, hkind]

theorem Node.aspect?_of_filler? {κ : Type} {markers : Markers} {node : Node κ} {d : Directive}
    (h : node.filler? markers = some d) : d.kind.aspect? = some .beneath := by
  unfold filler? at h
  split at h
  · exact (LiveTemplate.aspect?_of_filler? h).2
  · exact absurd h (by simp only [reduceCtorEq, not_false_eq_true])

/-! ### Stops -/

namespace Markup.Tree

mutual

/-- How many nodes there are in the tree. -/
def size : Tree → Nat
  | text _ => 1
  | comment _ => 1
  | element _ _ children => sizeAll children + 1

/-- How many nodes there are in the forest. -/
def sizeAll : List Tree → Nat
  | [] => 0
  | t :: ts => size t + sizeAll ts

end

mutual

/-- The places at which a walk stops if the tree is planted from a place on, each with what
    stands there. The walk does not go on beneath an element that puts something there. -/
def stops (markers : Markers) (start : Nat) : Tree → List (NodeId × Tree)
  | text content => [(⟨start⟩, text content)]
  | comment content => [(⟨start⟩, comment content)]
  | element tag attributes children =>
    (⟨start⟩, element tag attributes children) ::
      match LiveTemplate.filler? (directivesOf markers attributes) with
      | none => stopsAll markers (start + 1) children
      | some _ => []

/-- The same for the trees of a forest, one after the other. -/
def stopsAll (markers : Markers) (start : Nat) : List Tree → List (NodeId × Tree)
  | [] => []
  | t :: ts => stops markers start t ++ stopsAll markers (start + size t) ts

end

mutual

/-- What has the last word about what is beneath the elements at which a walk stops. -/
def fillers (markers : Markers) : Tree → List Directive
  | text _ => []
  | comment _ => []
  | element _ attributes children =>
    match LiveTemplate.filler? (directivesOf markers attributes) with
    | none => fillersAll markers children
    | some d => [d]

/-- The same for the trees of a forest. -/
def fillersAll (markers : Markers) : List Tree → List Directive
  | [] => []
  | t :: ts => fillers markers t ++ fillersAll markers ts

end

/-- The directive that has the last word about what is beneath the root. -/
def filler? (markers : Markers) : Tree → Option Directive
  | element _ attributes _ => LiveTemplate.filler? (directivesOf markers attributes)
  | _ => none

theorem index_of_stops {markers : Markers} {start : Nat} {ts : List Tree} {p : NodeId × Tree}
    (hp : p ∈ stopsAll markers start ts) :
    start ≤ p.1.index ∧ p.1.index < start + sizeAll ts := by
  induction ts using forestInduction generalizing start with
  | nil => exact absurd hp List.not_mem_nil
  | text content ts ih =>
      rw [sizeAll, size]
      rcases List.mem_cons.mp hp with rfl | hp
      · exact ⟨Nat.le_refl _, by dsimp only; omega⟩
      · have hplace := ih hp
        rw [size] at hplace
        omega
  | comment content ts ih =>
      rw [sizeAll, size]
      rcases List.mem_cons.mp hp with rfl | hp
      · exact ⟨Nat.le_refl _, by dsimp only; omega⟩
      · have hplace := ih hp
        rw [size] at hplace
        omega
  | element tag attributes children ts ihc ih =>
      rw [stopsAll, stops, List.cons_append, List.mem_cons, List.mem_append] at hp
      rw [sizeAll, size]
      rcases hp with rfl | hp | hp
      · exact ⟨Nat.le_refl _, by dsimp only; omega⟩
      · split at hp
        · have hplace := ihc hp
          omega
        · exact absurd hp List.not_mem_nil
      · have hplace := ih hp
        rw [size] at hplace
        omega

/-- A walk does not stop twice at the same place. -/
theorem nodup_stopsAll (markers : Markers) (start : Nat) (ts : List Tree) :
    ((stopsAll markers start ts).map (·.1)).Nodup := by
  have hfresh : ∀ {start from' : Nat} {ts : List Tree}, start < from' →
      (⟨start⟩ : NodeId) ∉ (stopsAll markers from' ts).map (·.1) := by
    intro start from' ts hlt hmem
    rcases List.mem_map.mp hmem with ⟨p, hp, hplace⟩
    have hbound := (index_of_stops hp).1
    rw [hplace] at hbound
    exact absurd hlt (Nat.not_lt_of_le hbound)
  induction ts using forestInduction generalizing start with
  | nil => exact List.nodup_nil
  | text content ts ih => exact List.nodup_cons.mpr ⟨hfresh (Nat.lt_succ_self start), ih _⟩
  | comment content ts ih => exact List.nodup_cons.mpr ⟨hfresh (Nat.lt_succ_self start), ih _⟩
  | element tag attributes children ts ihc ih =>
      rw [stopsAll, stops, List.cons_append, List.map_cons, List.map_append]
      have hrest : (⟨start⟩ : NodeId) ∉ (stopsAll markers (start + (element tag attributes
          children).size) ts).map (·.1) := hfresh (by rw [size]; omega)
      split
      · refine List.nodup_cons.mpr ⟨?_, List.nodup_append.mpr ⟨ihc _, ih _, ?_⟩⟩
        · rw [List.mem_append]
          exact not_or.mpr ⟨hfresh (Nat.lt_succ_self start), hrest⟩
        · intro a ha b hb hab
          rcases List.mem_map.mp ha with ⟨p, hp, rfl⟩
          rcases List.mem_map.mp hb with ⟨q, hq, rfl⟩
          have hbelow := (index_of_stops hp).2
          have hbehind := (index_of_stops hq).1
          rw [hab] at hbelow
          rw [size] at hbehind
          omega
      · exact List.nodup_cons.mpr ⟨hrest, ih _⟩

/-- What has the last word about what is beneath an element puts something there. -/
theorem aspect?_of_fillersAll {markers : Markers} {ts : List Tree} {d : Directive}
    (hd : d ∈ fillersAll markers ts) : d.kind.aspect? = some .beneath := by
  induction ts using forestInduction with
  | nil => exact absurd hd List.not_mem_nil
  | text content ts ih => exact ih hd
  | comment content ts ih => exact ih hd
  | element tag attributes children ts ihc ih =>
      rw [fillersAll, fillers, List.mem_append] at hd
      rcases hd with hd | hd
      · split at hd
        · exact ihc hd
        · next d' hd' =>
            rw [List.mem_singleton.mp hd]
            exact (aspect?_of_filler? hd').2
      · exact ih hd

theorem fillersAll_forest_text (markers : Markers) (n : NodeId) (shown : String) :
    fillersAll markers ((Rendering.text n).forest shown) = [] := by
  rw [Rendering.forest]
  split <;> rfl

theorem eq_text_of_stops {markers : Markers} {start : Nat} {n : NodeId} {shown : String}
    {p : NodeId × Tree} (hp : p ∈ stopsAll markers start ((Rendering.text n).forest shown)) :
    p.2 = .text shown := by
  rw [Rendering.forest] at hp
  split at hp
  · exact absurd hp List.not_mem_nil
  · rw [List.mem_singleton.mp hp]

theorem mem_fillersAll_of_stops {markers : Markers} {start : Nat} {ts : List Tree}
    {p : NodeId × Tree} (hp : p ∈ stopsAll markers start ts) {d : Directive}
    (hd : p.2.filler? markers = some d) : d ∈ fillersAll markers ts := by
  induction ts using forestInduction generalizing start with
  | nil => exact absurd hp List.not_mem_nil
  | text content ts ih =>
      rcases List.mem_cons.mp hp with rfl | hp
      · exact absurd hd (by simp only [filler?, reduceCtorEq, not_false_eq_true])
      · exact ih hp
  | comment content ts ih =>
      rcases List.mem_cons.mp hp with rfl | hp
      · exact absurd hd (by simp only [filler?, reduceCtorEq, not_false_eq_true])
      · exact ih hp
  | element tag attributes children ts ihc ih =>
      rw [stopsAll, stops, List.cons_append, List.mem_cons, List.mem_append] at hp
      rw [fillersAll, fillers, List.mem_append]
      rcases hp with rfl | hp | hp
      · rw [filler?] at hd
        rw [hd]
        exact Or.inl (List.mem_singleton_self d)
      · cases hsome : LiveTemplate.filler? (directivesOf markers attributes) with
        | none =>
            rw [hsome] at hp
            exact Or.inl (ihc hp)
        | some d' =>
            rw [hsome] at hp
            exact absurd hp List.not_mem_nil
      · exact Or.inr (ih hp)

end Markup.Tree

/-- The node has what the root of the tree has, apart from what is beneath it. -/
def Node.IsHeadOf {κ : Type} (node : Node κ) : Tree → Prop
  | .text content => node.kind = .text content
  | .comment content => node.kind = .comment content
  | .element tag attributes _ => node.kind = .element tag ∧ node.attributes = attributes

theorem Node.IsHeadOf.filler?_eq {κ : Type} {node : Node κ} {t : Tree} (h : node.IsHeadOf t)
    (markers : Markers) : node.filler? markers = t.filler? markers := by
  cases t with
  | text content => exact filler?_of_text h
  | comment content => exact filler?_of_comment h
  | element tag attributes children =>
      rw [filler?_of_element h.1, h.2]
      rfl

theorem Directive.site?_of_rendering? {n : NodeId} {d : Directive} {r : Rendering}
    (h : d.kind.rendering? n = some r) : d.site? n = some (.value d.name d.expression r) := by
  rw [Directive.site?]
  cases hkind : d.kind with
  | text | html | model =>
      rw [hkind] at h
      injection h with h
      subst h
      rfl
  | on event modifiers =>
      rw [hkind] at h
      exact absurd h (Option.some_ne_none r).symm
  | unknown name =>
      rw [hkind] at h
      exact absurd h (Option.some_ne_none r).symm

theorem Directive.site?_of_rendering?_eq_none {n : NodeId} {d : Directive}
    (h : d.kind.rendering? n = none) : d.site? n = none ∨
      ∃ event modifiers, d.site? n = some (.event n event modifiers d.expression) := by
  rw [Directive.site?]
  cases hkind : d.kind with
  | text | html | model =>
      rw [hkind] at h
      exact absurd h (Option.some_ne_none _)
  | on event modifiers =>
      dsimp only
      split
      · exact Or.inl rfl
      · exact Or.inr ⟨event, modifiers, rfl⟩
  | unknown name => exact Or.inl rfl

theorem Directive.rendering?_of_site? {n : NodeId} {d : Directive} {description key : String}
    {r : Rendering} (h : d.site? n = some (.value description key r)) :
    d.kind.rendering? n = some r := by
  cases hr : d.kind.rendering? n with
  | none =>
      rcases site?_of_rendering?_eq_none hr with hnone | ⟨event, modifiers, hevent⟩
      · rw [hnone] at h
        exact absurd h nofun
      · rw [hevent] at h
        exact absurd h nofun
  | some r' =>
      rw [site?_of_rendering? hr, Option.some.injEq, BindingSite.value.injEq] at h
      rw [h.2.2]

/-- A site that puts something beneath its node is a directive of an element. -/
theorem Template.exists_directive_of_mem_sitesAt {ν : Type} {t : Template (Code ν)} {n : NodeId}
    {node : Node (Code ν)} {description key : String} {r : Rendering}
    (h : .value description key r ∈ t.sitesAt n node) (hr : r.aspect = .beneath) :
    ∃ tag d, node.kind = .element tag ∧ d ∈ directivesOf t.markers node.attributes ∧
      d.kind.rendering? n = some r := by
  unfold sitesAt at h
  split at h
  · rcases List.mem_map.mp h with ⟨i, _, hsite⟩
    rw [BindingSite.value.injEq] at hsite
    rw [← hsite.2.2] at hr
    exact absurd hr nofun
  · exact absurd h List.not_mem_nil
  · next tag hkind =>
      rcases List.mem_filterMap.mp h with ⟨d, hd, hsite⟩
      exact ⟨tag, d, hkind, hd, Directive.rendering?_of_site? hsite⟩

variable {ν τ : Type} {w w' v : ClientWorld ν τ}

/-- What is beneath an element after a rendering there has just been planted. -/
theorem World.sown_render {r : Rendering} (hr : r.aspect = .beneath)
    (hlt : r.target.index < w.nodes.size) (hfits : r.Fits (w.node r.target).kind)
    (shown : String) :
    (w.render r shown).Sown w.nodes.size ((w.render r shown).node r.target).children
      (r.forest shown) (w.render r shown).nodes.size := by
  have hplanted := planted_plantForest (r.forest shown) w
  have hrehung := rehung_replaceChildren (n := r.target) fun c hc => hplanted.parents c hc
  have hsown := hplanted.stand.sown (fun _ h => h.2) (spans_plantForest (r.forest shown) w)
  rw [render_eq_of_beneath hr hfits, hrehung.2 (Nat.lt_of_lt_of_le hlt hplanted.grown),
    hrehung.1.size]
  refine hsown.congr (Nat.le_of_eq hrehung.1.size.symm) fun m _ hm _ => hrehung.1.others m ?_
  intro hmr
  rw [hmr] at hm
  exact absurd hlt (Nat.not_lt_of_le hm)

namespace Template

variable {t : Template (Code ν)} {n : NodeId} {ds : List Directive} {d : Directive}

theorem nodes_draw {description key : String} {r : Rendering} {value : Data}
    (hvalue : w.pathValue? t.data key = some value) :
    (t.draw w (.value description key r)).nodes =
      (w.render r ((w.display? value).getD "")).nodes := by
  rw [draw, hvalue]
  exact (World.dependAll_frame _ _ _).1

/-- A listener for a site changes nothing else about any node. -/
theorem parts_hear (w : ClientWorld ν τ) (site : BindingSite) (m : NodeId) :
    ((t.hear w site).node m).kind = (w.node m).kind ∧
      ((t.hear w site).node m).attributes = (w.node m).attributes ∧
      ((t.hear w site).node m).children = (w.node m).children := by
  unfold hear
  split
  · exact ⟨rfl, rfl, rfl⟩
  · next kind listener _ =>
      rcases parts_listen w site.node kind listener m with ⟨h₁, h₂, h₃, _⟩
      exact ⟨h₁, h₂, h₃⟩

theorem spares_hear (w : ClientWorld ν τ) (site : BindingSite) :
    w.Spares (t.hear w site) (· = site.node) := by
  unfold hear
  split
  · exact .refl w _
  · next kind listener _ =>
      refine ⟨Nat.le_of_eq (size_listen w site.node kind listener).symm, fun m _ hm => ?_⟩
      rw [World.listen, World.node_updateNode_of_ne _ _ (Ne.symm hm)]

/-- A value has been shown and watched at a node. -/
theorem redrawn_draw {description key : String} {r : Rendering} {value : Data}
    (hvalue : w.pathValue? t.data key = some value) (hlt : r.target.index < w.nodes.size)
    (hfits : r.Fits (w.node r.target).kind) :
    w.Redrawn (t.draw w (.value description key r)) r.target r.aspect :=
  (World.redrawn_render hlt hfits _).of_nodes rfl (nodes_draw hvalue)

/-- Some directives of an element have taken effect. The last one of those that put something
    beneath it has left that there, as it has been planted. -/
structure Tended (t : Template (Code ν)) (n : NodeId) (ds : List Directive)
    (w w' : ClientWorld ν τ) : Prop where
  /-- The other nodes have been left alone. -/
  spares : w.Spares w' (· = n)
  /-- It is the element that it was. -/
  kind : (w'.node n).kind = (w.node n).kind
  /-- It has the attributes that it had. -/
  attributes : (w'.node n).attributes = (w.node n).attributes
  /-- It has the children that it had, if no directive is for them. -/
  kept : filler? ds = none → (w'.node n).children = (w.node n).children
  /-- The last directive has put something there. -/
  filled : ∀ d, filler? ds = some d → ∃ r value low high, d.kind.rendering? n = some r ∧
    w.pathValue? t.data d.expression = some value ∧ w.nodes.size ≤ low ∧ high ≤ w'.nodes.size ∧
    w'.Sown low (w'.node n).children (r.forest ((w.display? value).getD "")) high

namespace Tended

/-- Something that concerns neither the children of the element nor the other nodes. -/
theorem step (h : t.Tended n ds w v) (hv : v.Spares w' (· = n))
    (hkind : (w'.node n).kind = (v.node n).kind)
    (hattributes : (w'.node n).attributes = (v.node n).attributes)
    (hchildren : (w'.node n).children = (v.node n).children)
    (hlt : n.index < w.nodes.size) (hd : d.kind.aspect? ≠ some .beneath) :
    t.Tended n (ds ++ [d]) w w' where
  spares := h.spares.trans hv fun _ _ hm => hm.elim id id
  kind := hkind.trans h.kind
  attributes := hattributes.trans h.attributes
  kept hnone := by
    rw [filler?_append, if_neg hd] at hnone
    exact hchildren.trans (h.kept hnone)
  filled d' hd' := by
    rw [filler?_append, if_neg hd] at hd'
    rcases h.filled d' hd' with ⟨r, value, low, high, hr, hvalue, hlow, hhigh, hsown⟩
    refine ⟨r, value, low, high, hr, hvalue, hlow, Nat.le_trans hhigh hv.grown, ?_⟩
    rw [hchildren]
    refine hv.sown hsown fun m hm _ hmn => ?_
    rw [hmn] at hm
    exact absurd hlt (Nat.not_lt_of_le (Nat.le_trans hlow hm))

end Tended

theorem unwritten_establish (w : ClientWorld ν τ) (site : BindingSite) :
    w.Unwritten (t.establish w site) ∧ (t.establish w site).objects.size = w.objects.size := by
  have hdraw : w.Unwritten (t.draw w site) ∧
      (t.draw w site).objects.size = w.objects.size := by
    unfold draw
    split
    · next key r =>
        split
        · exact ⟨.refl w, rfl⟩
        · next value _ =>
            have hobjects := objects_attach (t := t) (w := w) key r ((w.display? value).getD "")
            refine ⟨(World.Unwritten.of_objects hobjects).trans
              (World.unwritten_dependAll _ _ _), ?_⟩
            rw [bindPath, (World.dependAll_frame _ _ _).2.2.2, hobjects]
    · exact ⟨.refl w, rfl⟩
  unfold establish
  split
  · exact ⟨.refl w, rfl⟩
  · have hobjects := (onlyNodes_hear (t := t) (t.draw w site) site).objects
    exact ⟨hdraw.1.trans (.of_objects hobjects), by rw [hobjects, hdraw.2]⟩

/-- Binding at sites leaves the data alone. -/
theorem unwritten_foldl (ss : List BindingSite) (w : ClientWorld ν τ) :
    w.Unwritten (ss.foldl t.establish w) ∧
      (ss.foldl t.establish w).objects.size = w.objects.size := by
  induction ss generalizing w with
  | nil => exact ⟨.refl w, rfl⟩
  | cons site ss ih =>
      have hsite := unwritten_establish (t := t) w site
      have hrest := ih (t.establish w site)
      exact ⟨hsite.1.trans hrest.1, hrest.2.trans hsite.2⟩

theorem sameValues_foldl (ss : List BindingSite) (w : ClientWorld ν τ) :
    World.SameValues (fun _ => True) w (ss.foldl t.establish w) := by
  induction ss generalizing w with
  | nil => exact fun _ _ _ => rfl
  | cons site ss ih =>
      intro o ho key
      exact (ih (t.establish w site) o ho key).trans (sameValues_establish w site o ho key)

theorem pathValue?_foldl (ss : List BindingSite) (w : ClientWorld ν τ) (root : ObjectId)
    (path : String) : (ss.foldl t.establish w).pathValue? root path = w.pathValue? root path :=
  (World.path_congr (sameValues_foldl ss w) root path).1

theorem display?_foldl (ss : List BindingSite) (w : ClientWorld ν τ) (value : Data) :
    (ss.foldl t.establish w).display? value = w.display? value :=
  (unwritten_foldl ss w).1.display?_eq (unwritten_foldl ss w).2 value

theorem fault?_foldl (ss : List BindingSite) (w : ClientWorld ν τ) :
    t.fault? (ss.foldl t.establish w) = t.fault? w := by
  induction ss generalizing w with
  | nil => rfl
  | cons site ss ih => exact (ih (t.establish w site)).trans (fault?_establish w site)

/-- A directive that shows a value takes effect. -/
theorem Tended.value {r : Rendering} (h : t.Tended n ds w v) (hlt : n.index < w.nodes.size)
    (helement : ∃ tag, (w.node n).kind = .element tag) (hr : d.kind.rendering? n = some r)
    (hpath : ∀ path, v.pathValue? t.data path = w.pathValue? t.data path)
    (hdisplay : ∀ value, v.display? value = w.display? value)
    (hfault : t.fault? v (.value d.name d.expression r) = none) :
    t.Tended n (ds ++ [d]) w (t.establish v (.value d.name d.expression r)) := by
  rcases Directive.Kind.of_rendering? hr with ⟨rfl, haspect, hown⟩
  rcases exists_value hfault with ⟨value, hvalue⟩
  rcases helement with ⟨tag, htag⟩
  have hlt' : r.target.index < v.nodes.size := Nat.lt_of_lt_of_le hlt h.spares.grown
  have hfits : r.Fits (v.node r.target).kind := Or.inr ⟨tag, by rw [h.kind, htag], hown⟩
  have hdraw : v.Redrawn (t.draw v (.value d.name d.expression r)) r.target r.aspect :=
    redrawn_draw hvalue hlt' hfits
  have hnodes : (t.draw v (.value d.name d.expression r)).nodes =
      (v.render r ((v.display? value).getD "")).nodes := nodes_draw hvalue
  rw [establish_eq hfault]
  generalize hx : t.draw v (.value d.name d.expression r) = x at hdraw hnodes
  have hparts := parts_hear (t := t) x (.value d.name d.expression r) r.target
  have hhear := spares_hear (t := t) x (.value d.name d.expression r)
  have hspares : v.Spares (t.hear x (.value d.name d.expression r)) (· = r.target) :=
    World.Spares.trans ⟨hdraw.grown, hdraw.others⟩ hhear fun _ _ hm => hm.elim id id
  by_cases hbeneath : r.aspect = .beneath
  · have hd : d.kind.aspect? = some .beneath := by rw [haspect, hbeneath]
    refine ⟨h.spares.trans hspares fun _ _ hm => hm.elim id id,
      (hparts.1.trans (hdraw.own hown)).trans h.kind,
      (hparts.2.1.trans hdraw.self.1).trans h.attributes, fun hnone => ?_, fun d' hd' => ?_⟩
    · rw [filler?_append, if_pos hd] at hnone
      exact absurd hnone (by simp only [reduceCtorEq, not_false_eq_true])
    · rw [filler?_append, if_pos hd] at hd'
      rw [← Option.some.inj hd']
      have hsown := World.sown_render hbeneath hlt' hfits ((v.display? value).getD "")
      have hx : x.Sown v.nodes.size (x.node r.target).children
          (r.forest ((v.display? value).getD "")) x.nodes.size := by
        refine World.Sown.congr (w := v.render r ((v.display? value).getD "")) ?_ ?_ ?_
        · rw [World.node, hnodes]
          exact hsown
        · rw [hnodes]
        · intro m _ _ _
          rw [World.node, World.node, hnodes]
      rw [hdisplay] at hx
      refine ⟨r, value, v.nodes.size, x.nodes.size, hr, (hpath _).symm.trans hvalue,
        h.spares.grown, hhear.grown, ?_⟩
      rw [hparts.2.2]
      refine hhear.sown hx fun m hm _ hmr => ?_
      have hmr : m = r.target := hmr
      rw [hmr] at hm
      exact absurd hlt' (Nat.not_lt_of_le hm)
  · refine h.step hspares (hparts.1.trans (hdraw.own hown)) (hparts.2.1.trans hdraw.self.1)
      (hparts.2.2.trans (hdraw.beneath hbeneath)) hlt ?_
    rw [haspect]
    exact fun hsome => hbeneath (Option.some.inj hsome)

/-- The directives of an element take effect one after the other. -/
theorem tended_foldl (hlt : n.index < w.nodes.size)
    (helement : ∃ tag, (w.node n).kind = .element tag)
    (hfault : ∀ site ∈ ds.filterMap (·.site? n), t.fault? w site = none) :
    t.Tended n ds w ((ds.filterMap (·.site? n)).foldl t.establish w) := by
  induction ds using List.reverseRecOn with
  | nil =>
      refine ⟨.refl w _, rfl, rfl, fun _ => rfl, fun d hd => ?_⟩
      exact absurd (aspect?_of_filler? hd).1 List.not_mem_nil
  | append_singleton ds d ih =>
      rw [List.filterMap_append, List.forall_mem_append] at hfault
      have h := ih hfault.1
      have hlast := hfault.2
      rw [List.filterMap_append, List.foldl_append]
      have hpath := fun path => pathValue?_foldl (t := t) (ds.filterMap (·.site? n)) w t.data path
      have hdisplay := display?_foldl (t := t) (ds.filterMap (·.site? n)) w
      rw [← fault?_foldl (ds.filterMap (·.site? n)) w] at hlast
      generalize (ds.filterMap (·.site? n)).foldl t.establish w = v at h hpath hdisplay hlast
      cases hr : d.kind.rendering? n with
      | some r =>
          have hsite := Directive.site?_of_rendering? hr
          simp only [List.filterMap_cons, List.filterMap_nil, hsite, List.foldl_cons,
            List.foldl_nil, List.forall_mem_singleton] at hlast ⊢
          exact h.value hlt helement hr hpath hdisplay hlast
      | none =>
          have hd : d.kind.aspect? ≠ some .beneath := by
            rw [Directive.Kind.aspect?_of_rendering? hr]
            exact Option.some_ne_none _ |>.symm
          rcases Directive.site?_of_rendering?_eq_none hr with hsite | ⟨event, modifiers, hsite⟩
          · simp only [List.filterMap_cons, List.filterMap_nil, hsite, List.foldl_nil]
            exact h.step (.refl v _) rfl rfl rfl hlt hd
          · simp only [List.filterMap_cons, List.filterMap_nil, hsite, List.foldl_cons,
              List.foldl_nil, List.forall_mem_singleton] at hlast ⊢
            rw [establish_eq hlast, draw]
            have hparts := parts_hear (t := t) v (.event n event modifiers d.expression) n
            exact h.step (spares_hear v _) hparts.1 hparts.2.1 hparts.2.2 hlt hd

/-- Where binding has ended well nothing has failed. -/
theorem fault?_of_bindAll {ss : List BindingSite} (h : t.bindAll ss w = (.ok (), w')) :
    ∀ site ∈ ss, t.fault? w site = none := by
  rw [bindAll_eq, Prod.mk.injEq] at h
  refine List.findSome?_eq_none_iff.mp ?_
  cases hfault : ss.findSome? (t.fault? w) with
  | none => rfl
  | some e =>
      rw [hfault] at h
      exact absurd h.1 (by simp only [reduceCtorEq, not_false_eq_true])

/-- A node has been visited: what it says itself has taken effect. -/
structure Attended (t : Template (Code ν)) (n : NodeId) (w w' : ClientWorld ν τ) : Prop where
  /-- The other nodes have been left alone. -/
  spares : w.Spares w' (· = n)
  /-- It has the attributes that it had. -/
  attributes : (w'.node n).attributes = (w.node n).attributes
  /-- It is the element or the comment that it was. -/
  kind : (∀ content, (w.node n).kind ≠ .text content) → (w'.node n).kind = (w.node n).kind
  /-- It is a text as it was one, and shows a value if there is an expression in it. -/
  text : ∀ content, (w.node n).kind = .text content →
    (Interpolation.find? t.markers content = none → (w'.node n).kind = .text content) ∧
      ∀ i, Interpolation.find? t.markers content = some i → ∃ value,
        w.pathValue? t.data i.key = some value ∧
          (w'.node n).kind = .text (i.render ((w.display? value).getD ""))
  /-- It has the children that it had, if no directive is for them. -/
  kept : (w.node n).filler? t.markers = none → (w'.node n).children = (w.node n).children
  /-- The last directive has put something there. -/
  filled : ∀ d, (w.node n).filler? t.markers = some d → ∃ r value low high,
    d.kind.rendering? n = some r ∧ w.pathValue? t.data d.expression = some value ∧
      w.nodes.size ≤ low ∧ high ≤ w'.nodes.size ∧
      w'.Sown low (w'.node n).children (r.forest ((w.display? value).getD "")) high

/-- A node for which nothing is done. -/
theorem Attended.refl (hkind : ∀ tag, (w.node n).kind ≠ .element tag)
    (htext : ∀ content, (w.node n).kind = .text content →
      Interpolation.find? t.markers content = none) : t.Attended n w w := by
  refine ⟨.refl w _, rfl, fun _ => rfl, fun content hcontent => ⟨fun _ => hcontent, ?_⟩,
    fun _ => rfl, ?_⟩
  · intro i hi
    rw [htext content hcontent] at hi
    exact absurd hi (by simp only [reduceCtorEq, not_false_eq_true])
  · intro d hd
    unfold Node.filler? at hd
    split at hd
    · next tag htag => exact absurd htag (hkind tag)
    · exact absurd hd (by simp only [reduceCtorEq, not_false_eq_true])

/-- A text in which a value takes the place of an expression. -/
theorem Attended.interpolated {content : String} {i : Interpolation} (hlt : n.index < w.nodes.size)
    (hkind : (w.node n).kind = .text content)
    (hfind : Interpolation.find? t.markers content = some i)
    (hfault : t.fault? w (.value (i.describe t.markers) i.key (.interpolated n i)) = none) :
    t.Attended n w (t.establish w (.value (i.describe t.markers) i.key (.interpolated n i))) := by
  rcases exists_value hfault with ⟨value, hvalue⟩
  have hfits : (Rendering.interpolated n i).Fits (w.node n).kind := Or.inl ⟨content, hkind, rfl⟩
  have hdraw : w.Redrawn
      (t.draw w (.value (i.describe t.markers) i.key (.interpolated n i))) n .own :=
    redrawn_draw hvalue hlt hfits
  have hshown : ((t.draw w (.value (i.describe t.markers) i.key (.interpolated n i))).node n).kind =
      .text (i.render ((w.display? value).getD "")) := by
    rw [World.node, nodes_draw hvalue]
    exact World.own_render hlt hfits _
  have heq : t.establish w (.value (i.describe t.markers) i.key (.interpolated n i)) =
      t.draw w (.value (i.describe t.markers) i.key (.interpolated n i)) := establish_eq hfault
  rw [heq]
  refine ⟨⟨hdraw.grown, hdraw.others⟩, hdraw.self.1, fun hnot => absurd hkind (hnot content), ?_,
    fun _ => hdraw.beneath (by simp only [ne_eq, reduceCtorEq, not_false_eq_true]), ?_⟩
  · intro content' hcontent'
    rw [hkind, NodeKind.text.injEq] at hcontent'
    subst hcontent'
    refine ⟨fun hnone => ?_, fun i' hi' => ?_⟩
    · rw [hfind] at hnone
      exact absurd hnone (by simp only [reduceCtorEq, not_false_eq_true])
    · rw [hfind, Option.some.injEq] at hi'
      subst hi'
      exact ⟨value, hvalue, hshown⟩
  · intro d hd
    rw [Node.filler?_of_text hkind] at hd
    exact absurd hd (by simp only [reduceCtorEq, not_false_eq_true])

/-- What the visit of a node does, if nothing fails. -/
theorem attended_of_run {stats stats' : CompileStats} (hlt : n.index < w.nodes.size)
    (hrun : (t.compileSelf n stats).run w = some (.ok stats', v)) : t.Attended n w v := by
  have hbind : t.bindAll (t.sitesAt n (w.node n)) w = (.ok (), v) :=
    follows_compileSelf n stats _ v hrun
  have hfault := fault?_of_bindAll hbind
  rw [bindAll_eq_foldl hbind]
  unfold sitesAt at hfault ⊢
  cases hkind : (w.node n).kind with
  | text content =>
      rw [hkind] at hfault
      dsimp only at hfault ⊢
      cases hfind : Interpolation.find? t.markers content with
      | none =>
          refine Attended.refl (fun tag htag => ?_) fun content' hcontent' => ?_
          · rw [hkind] at htag
            exact absurd htag (by simp only [reduceCtorEq, not_false_eq_true])
          · rw [hkind, NodeKind.text.injEq] at hcontent'
            rw [← hcontent', hfind]
      | some i =>
          rw [hfind] at hfault
          exact .interpolated hlt hkind hfind (hfault _ (List.mem_singleton_self _))
  | comment content =>
      refine Attended.refl (fun tag htag => ?_) fun content' hcontent' => ?_
      · rw [hkind] at htag
        exact absurd htag (by simp only [reduceCtorEq, not_false_eq_true])
      · rw [hkind] at hcontent'
        exact absurd hcontent' (by simp only [reduceCtorEq, not_false_eq_true])
  | element tag =>
      rw [hkind] at hfault
      have htended := tended_foldl hlt ⟨tag, hkind⟩ hfault
      refine ⟨htended.spares, htended.attributes, fun _ => htended.kind, fun content hcontent => ?_,
        fun hnone => ?_, fun d hd => ?_⟩
      · rw [hkind] at hcontent
        exact absurd hcontent (by simp only [reduceCtorEq, not_false_eq_true])
      · rw [Node.filler?_of_element hkind] at hnone
        exact htended.kept hnone
      · rw [Node.filler?_of_element hkind] at hd
        exact htended.filled d hd

end Template

/-! ### A walk -/

namespace World

/-- The nodes that a walk comes by, of those that are there: the ones that it starts from, and
    what is beneath them, unless an element puts something else there. -/
inductive Visits {κ σ : Type} (markers : Markers) (w : World κ σ) :
    List NodeId → List NodeId → Prop
  /-- There is nothing to come by. -/
  | nil : Visits markers w [] []
  /-- A node with what is beneath it. -/
  | plain {n : NodeId} {ns below rest : List NodeId}
      (hfiller : (w.node n).filler? markers = none)
      (hbelow : Visits markers w (w.node n).children below) (hns : Visits markers w ns rest) :
      Visits markers w (n :: ns) (n :: (below ++ rest))
  /-- An element that puts something beneath it. -/
  | filled {n : NodeId} {ns rest : List NodeId} {d : Directive}
      (hfiller : (w.node n).filler? markers = some d) (hns : Visits markers w ns rest) :
      Visits markers w (n :: ns) (n :: rest)

section Visits

variable {κ σ : Type} {markers : Markers} {w w' : World κ σ} {ns all : List NodeId}

/-- A walk from one node that puts nothing beneath it. -/
theorem Visits.single {n : NodeId} {below : List NodeId}
    (hfiller : (w.node n).filler? markers = none)
    (hbelow : w.Visits markers (w.node n).children below) :
    w.Visits markers [n] (n :: below) := by
  have hone := Visits.plain hfiller hbelow .nil
  rwa [List.append_nil] at hone

/-- A walk from one node comes by what is beneath it, unless something is put there. -/
theorem Visits.singleton_cases {n : NodeId} (h : w.Visits markers [n] all) :
    (∃ below, (w.node n).filler? markers = none ∧ all = n :: below ∧
        w.Visits markers (w.node n).children below) ∨
      ∃ d, (w.node n).filler? markers = some d ∧ all = [n] := by
  cases h with
  | @plain _ _ below _ hfiller hbelow hns =>
      cases hns
      exact .inl ⟨below, hfiller, by rw [List.append_nil], hbelow⟩
  | @filled _ _ _ d hfiller hns =>
      cases hns
      exact .inr ⟨d, hfiller, rfl⟩

/-- A walk goes from one node to the others. -/
theorem Visits.uncons {n : NodeId} (h : w.Visits markers (n :: ns) all) :
    ∃ first rest, all = first ++ rest ∧ w.Visits markers [n] first ∧ w.Visits markers ns rest := by
  cases h with
  | @plain _ _ below rest hfiller hbelow hns =>
      exact ⟨n :: below, rest, rfl, .single hfiller hbelow, hns⟩
  | @filled _ _ rest d hfiller hns => exact ⟨[n], rest, rfl, .filled hfiller .nil, hns⟩

/-- The walk comes by the nodes that it starts from. -/
theorem Visits.subset (h : w.Visits markers ns all) : ns ⊆ all := by
  induction h with
  | nil => exact List.nil_subset _
  | plain _ _ _ _ ih => exact List.cons_subset_cons _ (List.subset_append_of_subset_right _ ih)
  | filled _ _ ih => exact List.cons_subset_cons _ ih

/-- The walk goes on beneath a node, unless something else is put there. -/
theorem Visits.children_subset (h : w.Visits markers ns all) {n : NodeId} (hn : n ∈ all)
    (hfiller : (w.node n).filler? markers = none) : (w.node n).children ⊆ all := by
  induction h with
  | nil => exact absurd hn List.not_mem_nil
  | @plain m ns below rest _ hbelow _ ihbelow ih =>
      have hin : below ⊆ m :: (below ++ rest) :=
        List.subset_cons_of_subset m (List.subset_append_left below rest)
      have hbehind : rest ⊆ m :: (below ++ rest) :=
        List.subset_cons_of_subset m (List.subset_append_right below rest)
      rcases List.mem_cons.mp hn with rfl | hn
      · exact List.Subset.trans hbelow.subset hin
      · rcases List.mem_append.mp hn with hn | hn
        · exact List.Subset.trans (ihbelow hn) hin
        · exact List.Subset.trans (ih hn) hbehind
  | @filled m ns rest d hfilled _ ih =>
      rcases List.mem_cons.mp hn with rfl | hn
      · rw [hfiller] at hfilled
        exact absurd hfilled nofun
      · exact List.subset_cons_of_subset m (ih hn)

/-- Nodes that have been left alone. -/
theorem Visits.spared {S : NodeId → Prop} (h : w.Visits markers ns all) (hspares : w.Spares w' S)
    (hlt : ∀ n ∈ all, n.index < w.nodes.size) (hout : ∀ n ∈ all, ¬S n) :
    w'.Visits markers ns all := by
  induction h with
  | nil => exact .nil
  | @plain n ns below rest hfiller _ _ ihbelow ih =>
      rw [List.forall_mem_cons, List.forall_mem_append] at hlt hout
      have hloose := hspares.others n hlt.1 hout.1
      have hsame : (w'.node n).filler? markers = (w.node n).filler? markers :=
        Node.filler?_congr (Node.kind_of_loose hloose) (Node.attributes_of_loose hloose)
      refine .plain (hsame.trans hfiller) ?_ (ih hlt.2.2 hout.2.2)
      rw [Node.children_of_loose hloose]
      exact ihbelow hlt.2.1 hout.2.1
  | @filled n ns rest d hfiller _ ih =>
      rw [List.forall_mem_cons] at hlt hout
      have hloose := hspares.others n hlt.1 hout.1
      have hsame : (w'.node n).filler? markers = (w.node n).filler? markers :=
        Node.filler?_congr (Node.kind_of_loose hloose) (Node.attributes_of_loose hloose)
      exact .filled (hsame.trans hfiller) (ih hlt.2 hout.2)

theorem Sown.stop_eq {start stop : Nat} {ts : List Tree} (h : w.Sown start ns ts stop) :
    stop = start + Tree.sizeAll ts := by
  induction h with
  | nil => rfl
  | text _ _ _ _ ih => rw [ih, Tree.sizeAll, Tree.size, Nat.add_assoc]
  | comment _ _ _ _ ih => rw [ih, Tree.sizeAll, Tree.size, Nat.add_assoc]
  | element _ _ _ _ _ _ ihc ih =>
      rw [Tree.sizeAll, Tree.size]
      omega

/-- A walk among planted nodes comes by the ones at its stops. -/
theorem Sown.visits {start stop : Nat} {ts : List Tree} (h : w.Sown start ns ts stop)
    (markers : Markers) : w.Visits markers ns ((Tree.stopsAll markers start ts).map (·.1)) := by
  have hleaf : ∀ {n : NodeId} {ns rest : List NodeId}, (w.node n).filler? markers = none →
      (w.node n).children = [] → w.Visits markers ns rest →
      w.Visits markers (n :: ns) (n :: rest) := by
    intro n ns rest hfiller hleaf hns
    have hbelow : w.Visits markers (w.node n).children [] := by
      rw [hleaf]
      exact .nil
    exact .plain hfiller hbelow hns
  induction h with
  | nil => exact .nil
  | text _ hkind hchildren _ ih => exact hleaf (Node.filler?_of_text hkind) hchildren ih
  | comment _ hkind hchildren _ ih => exact hleaf (Node.filler?_of_comment hkind) hchildren ih
  | @element start middle stop tag attributes children ns ts _ hkind hattributes _ hchildren _ ihc
      ih =>
      have hfiller : (w.node ⟨start⟩).filler? markers = _ := Node.filler?_of_element hkind
      rw [hattributes] at hfiller
      have hmiddle : middle = start + (Tree.element tag attributes children).size := by
        rw [hchildren.stop_eq, Tree.size]
        omega
      rw [hmiddle] at ih
      rw [Tree.stopsAll, Tree.stops]
      cases hsome : LiveTemplate.filler? (directivesOf markers attributes) with
      | none =>
          rw [hsome] at hfiller
          rw [List.cons_append, List.map_cons, List.map_append]
          exact .plain hfiller ihc ih
      | some d =>
          rw [hsome] at hfiller
          rw [List.cons_append, List.map_cons, List.nil_append]
          exact .filled hfiller ih

/-- What stands at the stops among planted nodes. -/
theorem Sown.isHeadOf {start stop : Nat} {ts : List Tree} (h : w.Sown start ns ts stop)
    (markers : Markers) : ∀ p ∈ Tree.stopsAll markers start ts,
      p.1.index < w.nodes.size ∧ (w.node p.1).IsHeadOf p.2 := by
  induction h with
  | nil => exact fun p hp => absurd hp List.not_mem_nil
  | text hlt hkind _ _ ih => exact List.forall_mem_cons.mpr ⟨⟨hlt, hkind⟩, ih⟩
  | comment hlt hkind _ _ ih => exact List.forall_mem_cons.mpr ⟨⟨hlt, hkind⟩, ih⟩
  | @element start middle stop tag attributes children ns ts hlt hkind hattributes _ hchildren _
      ihc ih =>
      have hmiddle : middle = start + (Tree.element tag attributes children).size := by
        rw [hchildren.stop_eq, Tree.size]
        omega
      rw [hmiddle] at ih
      rw [Tree.stopsAll, Tree.stops, List.cons_append, List.forall_mem_cons,
        List.forall_mem_append]
      refine ⟨⟨hlt, hkind, hattributes⟩, fun p hp => ?_, ih⟩
      split at hp
      · exact ihc p hp
      · exact absurd hp List.not_mem_nil

theorem Sown.lt_of_stops {start stop : Nat} {ts : List Tree} (h : w.Sown start ns ts stop)
    {n : NodeId} (hn : n ∈ (Tree.stopsAll markers start ts).map (·.1)) :
    start ≤ n.index ∧ n.index < w.nodes.size := by
  rcases List.mem_map.mp hn with ⟨p, hp, rfl⟩
  exact ⟨(Tree.index_of_stops hp).1, (h.isHeadOf markers p hp).1⟩

end Visits

end World

namespace Template

section Walk

variable {t : Template (Code ν)} {n : NodeId} {ns all : List NodeId} {depth : Nat}
  {stats stats' : CompileStats}

/-- A node is visited with what is beneath it. All other nodes are left alone, but for new ones. -/
theorem spares_of_compileNode
    (hbeneath : ∀ {u x : ClientWorld ν τ} {ns all : List NodeId} {stats stats' : CompileStats},
      u.Visits t.markers ns all → (∀ n ∈ all, n.index < u.nodes.size) → all.Nodup →
      (ns.foldlM (t.compileNode depth) stats).run u = some (.ok stats', x) →
        u.Spares x (· ∈ all))
    (h : w.Visits t.markers [n] all) (hlt : ∀ n ∈ all, n.index < w.nodes.size) (hnodup : all.Nodup)
    (hrun : (t.compileNode (depth + 1) stats n).run w = some (.ok stats', w')) :
    w.Spares w' (· ∈ all) := by
  rcases compileNode_run_iff.mp hrun with ⟨_, stats₁, v, hdepth, hself, hchildren⟩
  rw [Nat.succ.injEq] at hdepth
  subst hdepth
  rcases h.singleton_cases with ⟨below, hfiller, rfl, hbelow⟩ | ⟨d, hfiller, rfl⟩
  · rw [List.forall_mem_cons] at hlt
    rw [List.nodup_cons] at hnodup
    have hattended := attended_of_run hlt.1 hself
    have hbelow : v.Visits t.markers (v.node n).children below := by
      rw [hattended.kept hfiller]
      exact hbelow.spared hattended.spares hlt.2 fun m hm hmn => hnodup.1 (hmn ▸ hm)
    have hinner := hbeneath hbelow
      (fun m hm => Nat.lt_of_lt_of_le (hlt.2 m hm) hattended.spares.grown) hnodup.2 hchildren
    exact hattended.spares.trans hinner fun _ _ hm => List.mem_cons.mpr hm
  · -- What has been planted beneath the element is new, and so is all that the walk comes by there.
    rw [List.forall_mem_singleton] at hlt
    have hattended := attended_of_run hlt hself
    rcases hattended.filled d hfiller with ⟨_, _, low, _, _, _, hlow, _, hsown⟩
    have hinner := hbeneath (hsown.visits t.markers) (fun m hm => (hsown.lt_of_stops hm).2)
      (Tree.nodup_stopsAll _ _ _) hchildren
    refine hattended.spares.trans hinner fun m hm hmem => ?_
    rcases hmem with hmem | hmem
    · exact List.mem_singleton.mpr hmem
    · exact absurd hm (Nat.not_lt_of_le (Nat.le_trans hlow (hsown.lt_of_stops hmem).1))

/-- The walk leaves all nodes alone but those that it comes by, and the ones that it plants. -/
theorem spares_of_run (h : w.Visits t.markers ns all) (hlt : ∀ n ∈ all, n.index < w.nodes.size)
    (hnodup : all.Nodup)
    (hrun : (ns.foldlM (t.compileNode depth) stats).run w = some (.ok stats', w')) :
    w.Spares w' (· ∈ all) := by
  -- By induction on the depth, and then on the nodes among which the walk goes on.
  induction depth generalizing ns all stats stats' w w' with
  | zero =>
      rcases foldlM_compileNode_zero hrun with ⟨_, rfl⟩
      exact .refl w' _
  | succ depth ihdepth =>
      induction ns generalizing all stats w with
      | nil =>
          rcases pure_run_eq_some_iff.mp hrun with ⟨_, rfl⟩
          exact .refl w _
      | cons n ns ih =>
          rcases foldlM_cons_run_eq_some_iff.mp hrun with ⟨stats₂, x, hnode, hrest⟩
          rcases h.uncons with ⟨first, rest, rfl, hfirst, hns⟩
          rw [List.forall_mem_append] at hlt
          rw [List.nodup_append] at hnodup
          have hspares := spares_of_compileNode ihdepth hfirst hlt.1 hnodup.1 hnode
          have hvisits := hns.spared hspares hlt.2 fun m hm hmem => hnodup.2.2 m hmem m hm rfl
          have hafter := ih hvisits
            (fun m hm => Nat.lt_of_lt_of_le (hlt.2 m hm) hspares.grown) hnodup.2.1 hrest
          exact hspares.trans hafter fun m _ hm => List.mem_append.mpr hm

end Walk

end Template

end LiveTemplate
