import LiveTemplate.Proofs.Binding.Wiring

/-!
# The Walk Over a Template

Compiling a planted template wires it, whatever else there is in the world.

The walk visits each node in its place and leaves the other places alone, so what one
visit has wired the later ones leave wired. A visit changes the node itself, and what it
puts beneath an element has places behind the template. If that is a text without an
expression, then there is nothing to be done when it is visited in turn.

The walk comes to an end without an error exactly if there are values and methods
enough. The methods that are there and the depth that was enough can be told from a
template that has been compiled before, in this world or in another one, so it can be
compiled again wherever there are values.

## Main definitions

* `Template.Passes`: Nodes outside some places have been left alone, and nothing written.
* `Template.Site`: A watcher for a value, which is in the view.
* `Template.Dressed`: Some directives of an element have taken effect.
* `Template.Ready`: A planted forest with data to be compiled against.
* `Template.Walked`: Nodes have been visited and are wired.

## Theorems

* `dressed_foldlM`: What the directives of an element do.
* `walked_of_run`: A template that has been compiled is wired.
* `exists_run_of_wired`: A template that has been compiled somewhere can be compiled.
-/

namespace LiveTemplate

open Markup

variable {ν τ : Type} {w w' w₁ w₂ : ClientWorld ν τ} {t : Template (Code ν)}

namespace Template

/-- Nodes outside some places have been left alone, and nothing has been written. -/
structure Passes (t : Template (Code ν)) (w : ClientWorld ν τ) (start stop : Nat)
    (w' : ClientWorld ν τ) : Prop extends w.Apart start stop w' where
  /-- Nothing has been written. -/
  unwritten : w.Unwritten w'
  /-- Every subscriber is still there. -/
  kept : ∀ s subscriber, w.subscriber? s = some subscriber → w'.subscriber? s = some subscriber
  /-- Every other one shows a value of the data. -/
  added : ∀ s subscriber, w'.subscriber? s = some subscriber →
    w.subscriber? s = some subscriber ∨ ∃ key r, subscriber = .watcher ⟨t.data, key, .render r⟩

namespace Passes

variable {start stop start₁ stop₁ start₂ stop₂ : Nat}

theorem refl (w : ClientWorld ν τ) (start stop : Nat) : t.Passes w start stop w :=
  ⟨World.Apart.refl w start stop, .refl w, fun _ _ hs => hs, fun _ _ hs => Or.inl hs⟩

/-- One change after the other, in places that may be different ones. -/
theorem trans (h₁ : t.Passes w start₁ stop₁ w₁) (h₂ : t.Passes w₁ start₂ stop₂ w₂)
    (hplaces : ∀ m < w.nodes.size, m < start ∨ stop ≤ m →
      (m < start₁ ∨ stop₁ ≤ m) ∧ (m < start₂ ∨ stop₂ ≤ m)) : t.Passes w start stop w₂ where
  toApart := h₁.toApart.trans h₂.toApart hplaces
  unwritten := h₁.unwritten.trans h₂.unwritten
  kept s subscriber hs := h₂.kept s subscriber (h₁.kept s subscriber hs)
  added s subscriber hs := by
    rcases h₂.added s subscriber hs with hs | hnew
    · exact h₁.added s subscriber hs
    · exact Or.inr hnew

/-- A binding leaves all nodes but its own alone. -/
theorem of_bound {key : String} {r : Rendering} (hbound : t.Bound key r w w') :
    t.Passes w r.target.index (r.target.index + 1) w' where
  toApart := World.Apart.attach hbound
  unwritten := hbound.unwritten
  kept s subscriber hs := (hbound.subscribers s subscriber).mpr (Or.inl hs)
  added s subscriber hs := by
    rcases (hbound.subscribers s subscriber).mp hs with hs | ⟨_, hnew⟩
    · exact Or.inl hs
    · exact Or.inr ⟨key, r, hnew⟩

/-- A listener changes its own node only. -/
theorem listen (w : ClientWorld ν τ) (n : NodeId) (kind : String)
    (listener : Listener (Code ν)) :
    t.Passes w n.index (n.index + 1) (w.listen n kind listener) where
  toApart := World.Apart.listen w n kind listener
  unwritten := .of_objects rfl
  kept _ _ hs := hs
  added _ _ hs := Or.inl hs

/-- Planted nodes in other places. -/
theorem sown {low high : Nat} {ns : List NodeId} {ts : List Tree} (h : t.Passes w start stop w')
    (hsown : w.Sown low ns ts high) (hout : ∀ m, low ≤ m → m < high → m < start ∨ stop ≤ m) :
    w'.Sown low ns ts high :=
  hsown.congr h.grown fun n hn hlow hhigh => h.others n hn (hout n.index hlow hhigh)

end Passes

/-! ### Sites -/

/-- A watcher shows a value of the data at a path, and the value is in the view. What is put
    beneath an element for it has places behind some limit. -/
structure Site (t : Template (Code ν)) (j : Json) (limit : Nat) (w : ClientWorld ν τ)
    (r : Rendering) (key : String) : Prop where
  /-- There is a watcher. -/
  watched : ∃ s, w.subscriber? s = some (.watcher ⟨t.data, key, .render r⟩)
  /-- There is a value, and it is in the view. -/
  shown : ∃ v, j.at? (segmentsOfPath key) = some v ∧
    w.Bears (fun c => limit ≤ c.index ∧ w.IsLeaf c) r v.display

section Site

variable {j : Json} {ids : List ObjectId} {limit : Nat} {r r' : Rendering} {key key' : String}

theorem isLeaf_of_loose {c : NodeId} (h : w.IsLeaf c)
    (hloose : (w'.node c).loose = (w.node c).loose) : w'.IsLeaf c := by
  intro hleaf
  rw [Node.kind_of_loose hloose] at hleaf
  rw [Node.children_of_loose hloose]
  exact h hleaf

/-- A site is one afterwards if its node keeps the aspect in question and the nodes behind the
    limit are as they were. -/
theorem Site.frame (h : t.Site j limit w r key) (hgrown : w.nodes.size ≤ w'.nodes.size)
    (hkept : ∀ s subscriber, w.subscriber? s = some subscriber →
      w'.subscriber? s = some subscriber)
    (hown : r.aspect = .own → (w'.node r.target).kind = (w.node r.target).kind)
    (hfield : r.aspect = .field → (w'.node r.target).value = (w.node r.target).value)
    (hbeneath : r.aspect = .beneath → (w'.node r.target).children = (w.node r.target).children)
    (hbehind : ∀ c : NodeId, limit ≤ c.index → c.index < w.nodes.size →
      (w'.node c).loose = (w.node c).loose) : t.Site j limit w' r key := by
  rcases h with ⟨⟨s, hs⟩, v, hv, hbears⟩
  refine ⟨⟨s, hkept s _ hs⟩, v, hv, hbears.frame hgrown hown hfield hbeneath ?_⟩
  rintro c ⟨hc, hleaf⟩ hlt
  have hloose := hbehind c hc hlt
  exact ⟨⟨hc, isLeaf_of_loose hleaf hloose⟩, Node.kind_of_loose hloose,
    Node.attributes_of_loose hloose, Node.children_of_loose hloose⟩

/-- A site outside the places that have changed. -/
theorem Site.pass {start stop : Nat} (h : t.Site j limit w r key)
    (hpasses : t.Passes w start stop w') (hlt : r.target.index < w.nodes.size)
    (hout : r.target.index < start ∨ stop ≤ r.target.index) (hstop : stop ≤ limit) :
    t.Site j limit w' r key := by
  have hloose := hpasses.others r.target hlt hout
  exact h.frame hpasses.grown hpasses.kept (fun _ => Node.kind_of_loose hloose)
    (fun _ => Node.value_of_loose hloose) (fun _ => Node.children_of_loose hloose)
    fun c hc hclt => hpasses.others c hclt (Or.inr (Nat.le_trans hstop hc))

/-- A site after another binding, unless both are for the same aspect of the same node. -/
theorem Site.bound (h : t.Site j limit w r' key') (hbound : t.Bound key r w w')
    (hlt : r'.target.index < w.nodes.size) (hlimit : r.target.index < limit)
    (hother : r'.target = r.target → r'.aspect ≠ r.aspect) : t.Site j limit w' r' key' := by
  have hredrawn := hbound.redrawn
  refine h.frame hredrawn.grown
    (fun s subscriber hs => (hbound.subscribers s subscriber).mpr (Or.inl hs)) ?_ ?_ ?_ ?_
  · intro ha
    by_cases htarget : r'.target = r.target
    · rw [htarget]
      exact hredrawn.own fun hown => hother htarget (ha.trans hown.symm)
    · exact Node.kind_of_loose (hredrawn.others _ hlt htarget)
  · intro ha
    by_cases htarget : r'.target = r.target
    · rw [htarget]
      exact hredrawn.field fun hfield => hother htarget (ha.trans hfield.symm)
    · exact Node.value_of_loose (hredrawn.others _ hlt htarget)
  · intro ha
    by_cases htarget : r'.target = r.target
    · rw [htarget]
      exact hredrawn.beneath fun hbeneath => hother htarget (ha.trans hbeneath.symm)
    · exact Node.children_of_loose (hredrawn.others _ hlt htarget)
  · intro c hc hclt
    refine hredrawn.others c hclt ?_
    rintro rfl
    exact absurd hlimit (Nat.not_lt_of_le hc)

/-- A site with one listener more anywhere. -/
theorem Site.listen (h : t.Site j limit w r key) (n : NodeId) (kind : String)
    (listener : Listener (Code ν)) : t.Site j limit (w.listen n kind listener) r key := by
  rcases h with ⟨hwatched, v, hv, hbears⟩
  have hsize := size_listen w n kind listener
  refine ⟨hwatched, v, hv, hbears.frame (Nat.le_of_eq hsize.symm) ?_ ?_ ?_ ?_⟩
  · exact fun _ => (parts_listen w n kind listener r.target).1
  · exact fun _ => (parts_listen w n kind listener r.target).2.2.2.1
  · exact fun _ => (parts_listen w n kind listener r.target).2.2.1
  · rintro c ⟨hc, hleaf⟩ _
    rcases parts_listen w n kind listener c with ⟨hkind, hattributes, hchildren, _, _⟩
    refine ⟨⟨hc, fun hnot => ?_⟩, hkind, hattributes, hchildren⟩
    rw [hkind] at hnot
    rw [hchildren]
    exact hleaf hnot

/-- What data that stands for a plain value has at a path: what stands for the value there. -/
theorem display?_of_stands {o : ObjectId} {d : Data} (hstands : w.Stands (.object o) j ids)
    (hd : w.getPath o key = .ok d) :
    ∃ v, j.at? (segmentsOfPath key) = some v ∧ w.display? d = some v.display := by
  have hvalue : w.follow (segmentsOfPath key) (.object o) = some d :=
    (w.getPath_eq_ok_iff o key d).mp hd
  rcases hstands.follow_at? (segmentsOfPath key) with ⟨hnone, _⟩ | ⟨d', v, _, hd', hv, hwithin, _⟩
  · rw [hnone] at hvalue
    exact absurd hvalue.symm (Option.some_ne_none d)
  · rw [hd', Option.some.injEq] at hvalue
    subst hvalue
    refine ⟨v, hv, ?_⟩
    rw [World.display?, hwithin.snapshot?_eq]
    rfl

/-- A new binding is a site. -/
theorem Site.of_bound (hbound : t.Bound key r w w') (hstands : w.Stands (.object t.data) j ids)
    (hlimit : limit ≤ w.nodes.size) : t.Site j limit w' r key := by
  rcases hbound.bears with ⟨d, shown, hd, hshown, hbears⟩
  rcases display?_of_stands hstands hd with ⟨v, hv, hdisplay⟩
  rw [hdisplay, Option.some.injEq] at hshown
  subst hshown
  refine ⟨⟨_, (hbound.subscribers _ _).mpr (Or.inr ⟨rfl, rfl⟩)⟩, v, hv, ?_⟩
  refine hbears.frame (Nat.le_refl _) (fun _ => rfl) (fun _ => rfl) (fun _ => rfl) ?_
  exact fun c hc _ => ⟨⟨Nat.le_trans hlimit hc.1, hc.2⟩, rfl, rfl, rfl⟩

/-- A binding can be made if there is a value. -/
theorem exists_bindValue {v : Json} (hstands : w.Stands (.object t.data) j ids)
    (hv : j.at? (segmentsOfPath key) = some v) (description : String) (r : Rendering) :
    ∃ w', (t.bindValue description key r).run w = some (.ok (), w') := by
  rcases hstands.follow_at? (segmentsOfPath key) with ⟨_, hnone⟩ | ⟨d, v', _, hd, hv', hwithin, _⟩
  · rw [hnone] at hv
    exact absurd hv.symm (Option.some_ne_none v)
  have hget : w.getPath t.data key = .ok d := (w.getPath_eq_ok_iff t.data key d).mpr hd
  have hdisplay : w.display? d = some v'.display := by
    rw [World.display?, hwithin.snapshot?_eq]
    rfl
  exact ⟨_, bindValue_run_iff.mpr (Or.inr ⟨d, v'.display, hget, hdisplay, rfl, rfl⟩)⟩

end Site

end Template

/-! ### Elements -/

/-- The rendering by which a directive shows a value at its element. -/
def Directive.Kind.rendering? (n : NodeId) : Directive.Kind → Option Rendering
  | text => some (.text n)
  | html => some (.markup n)
  | model => some (.field n)
  | on _ _ => none
  | unknown _ => none

theorem Directive.Kind.of_rendering? {kind : Directive.Kind} {n : NodeId} {r : Rendering}
    (h : kind.rendering? n = some r) :
    r.target = n ∧ kind.aspect? = some r.aspect ∧ r.aspect ≠ .own := by
  cases kind with
  | text | html | model =>
      injection h with h
      subst h
      exact ⟨rfl, rfl, by simp only [Rendering.aspect, ne_eq, reduceCtorEq, not_false_eq_true]⟩
  | on event modifiers =>
      exact absurd h (by simp only [rendering?, reduceCtorEq, not_false_eq_true])
  | unknown name => exact absurd h (by simp only [rendering?, reduceCtorEq, not_false_eq_true])

theorem Directive.Kind.aspect?_of_rendering? {kind : Directive.Kind} {n : NodeId}
    (h : kind.rendering? n = none) : kind.aspect? = none := by
  cases kind with
  | text | html | model =>
      exact absurd h (by simp only [rendering?, reduceCtorEq, not_false_eq_true])
  | on event modifiers => rfl
  | unknown name => rfl

theorem aspectCount_append (a : Aspect) (ds ds' : List Directive) :
    aspectCount a (ds ++ ds') = aspectCount a ds + aspectCount a ds' :=
  List.countP_append

namespace Template

/-- Some directives of an element have taken effect, and nothing else has. -/
structure Dressed (t : Template (Code ν)) (j : Json) (limit : Nat) (n : NodeId)
    (done : List Directive) (w₀ w : ClientWorld ν τ) : Prop where
  /-- The element is part of the template. -/
  lt : n.index < limit
  /-- So there it is. -/
  room : limit ≤ w₀.nodes.size
  /-- It is an element. -/
  element : ∃ tag, (w₀.node n).kind = .element tag
  /-- The data stands for a plain value. -/
  stands : ∃ ids, w₀.Stands (.object t.data) j ids
  /-- The other nodes have been left alone. -/
  passes : t.Passes w₀ n.index (n.index + 1) w
  /-- It is the element that it was. -/
  kind : (w.node n).kind = (w₀.node n).kind
  /-- It has the attributes that it had. -/
  attributes : (w.node n).attributes = (w₀.node n).attributes
  /-- There are the methods that the directives name. -/
  answers : t.Answers done
  /-- There are the sites that the directives ask for. -/
  sites : ∀ d ∈ done, ∀ r, d.kind.rendering? n = some r → t.Site j limit w r d.expression
  /-- It holds what it held, or a directive was for that. -/
  value : aspectCount .field done = 0 → (w.node n).value = (w₀.node n).value
  /-- It has the children that it had, or a directive was for that. -/
  children : aspectCount .beneath done = 0 → (w.node n).children = (w₀.node n).children

section Element

variable {j : Json} {ids : List ObjectId} {limit : Nat} {n : NodeId} {r : Rendering}
  {d : Directive} {done : List Directive} {w₀ : ClientWorld ν τ}

theorem Dressed.refl (hlt : n.index < limit) (hlimit : limit ≤ w.nodes.size)
    (helement : ∃ tag, (w.node n).kind = .element tag)
    (hstands : ∃ ids, w.Stands (.object t.data) j ids) : t.Dressed j limit n [] w w where
  lt := hlt
  room := hlimit
  element := helement
  stands := hstands
  passes := .refl w _ _
  kind := rfl
  attributes := rfl
  answers _ hd := absurd hd List.not_mem_nil
  sites _ hd := absurd hd List.not_mem_nil
  value _ := rfl
  children _ := rfl

theorem Dressed.lt_size (h : t.Dressed j limit n done w₀ w) : n.index < w.nodes.size :=
  Nat.lt_of_lt_of_le (Nat.lt_of_lt_of_le h.lt h.room) h.passes.grown

/-- A directive that shows a value, if it is the first one for its aspect. -/
theorem Dressed.bound (h : t.Dressed j limit n done w₀ w) (hr : d.kind.rendering? n = some r)
    (hfirst : aspectCount r.aspect done = 0) (hbound : t.Bound d.expression r w w') :
    t.Dressed j limit n (done ++ [d]) w₀ w' := by
  rcases Directive.Kind.of_rendering? hr with ⟨rfl, haspect, hown⟩
  have hredrawn := hbound.redrawn
  have hcount : ∀ a, aspectCount a (done ++ [d]) = 0 → aspectCount a done = 0 ∧ r.aspect ≠ a := by
    intro a ha
    rw [aspectCount_append, aspectCount_cons haspect] at ha
    refine ⟨by omega, ?_⟩
    rintro rfl
    rw [if_pos rfl] at ha
    omega
  refine ⟨h.lt, h.room, h.element, h.stands,
    h.passes.trans (.of_bound hbound) fun m _ hout => ⟨hout, hout⟩,
    (hredrawn.own hown).trans h.kind, hredrawn.self.1.trans h.attributes, ?_, ?_, ?_, ?_⟩
  · intro d' hd' event modifiers hkind hevent
    rcases List.mem_append.mp hd' with hd' | hd'
    · exact h.answers d' hd' event modifiers hkind hevent
    · rw [List.mem_singleton.mp hd'] at hkind
      rw [hkind] at hr
      exact absurd hr (by simp only [Directive.Kind.rendering?, reduceCtorEq, not_false_eq_true])
  · intro d' hd' r' hr'
    rcases List.mem_append.mp hd' with hd' | hd'
    · rcases Directive.Kind.of_rendering? hr' with ⟨htarget, haspect', _⟩
      refine (h.sites d' hd' r' hr').bound hbound ?_ h.lt fun _ hsame => ?_
      · rw [htarget]
        exact h.lt_size
      · -- Two directives for one aspect would be counted.
        rw [hsame] at haspect'
        exact absurd (List.countP_eq_zero.mp hfirst d' hd')
          (not_not_intro (beq_iff_eq.mpr haspect'))
    · rw [List.mem_singleton.mp hd'] at hr' ⊢
      rw [hr', Option.some.injEq] at hr
      subst hr
      rcases h.stands with ⟨ids, hstands⟩
      exact .of_bound hbound (hstands.of_unwritten h.passes.unwritten)
        (Nat.le_trans h.room h.passes.grown)
  · intro ha
    rcases hcount .field ha with ⟨hdone, hne⟩
    exact (hredrawn.field hne).trans (h.value hdone)
  · intro ha
    rcases hcount .beneath ha with ⟨hdone, hne⟩
    exact (hredrawn.beneath hne).trans (h.children hdone)

/-- A directive that shows nothing. -/
theorem Dressed.skip (h : t.Dressed j limit n done w₀ w) (hr : d.kind.rendering? n = none)
    (hanswer : t.Answers [d]) : t.Dressed j limit n (done ++ [d]) w₀ w := by
  have haspect := Directive.Kind.aspect?_of_rendering? hr
  have hcount : ∀ a, aspectCount a (done ++ [d]) = 0 → aspectCount a done = 0 := by
    intro a ha
    rw [aspectCount_append] at ha
    omega
  refine ⟨h.lt, h.room, h.element, h.stands, h.passes, h.kind, h.attributes, ?_, ?_,
    fun ha => h.value (hcount _ ha), fun ha => h.children (hcount _ ha)⟩
  · intro d' hd'
    rcases List.mem_append.mp hd' with hd' | hd'
    · exact h.answers d' hd'
    · exact hanswer d' hd'
  · intro d' hd' r' hr'
    rcases List.mem_append.mp hd' with hd' | hd'
    · exact h.sites d' hd' r' hr'
    · rw [List.mem_singleton.mp hd', hr] at hr'
      exact absurd hr' (by simp only [reduceCtorEq, not_false_eq_true])

/-- A listener more at the element. -/
theorem Dressed.listen (h : t.Dressed j limit n done w₀ w) (kind : String)
    (listener : Listener (Code ν)) :
    t.Dressed j limit n done w₀ (w.listen n kind listener) := by
  rcases parts_listen w n kind listener n with ⟨hkind, hattributes, hchildren, hvalue, _⟩
  exact ⟨h.lt, h.room, h.element, h.stands,
    h.passes.trans (.listen w n kind listener) fun m _ hout => ⟨hout, hout⟩,
    hkind.trans h.kind, hattributes.trans h.attributes, h.answers,
    fun d hd r hr => (h.sites d hd r hr).listen n kind listener,
    fun ha => hvalue.trans (h.value ha), fun ha => hchildren.trans (h.children ha)⟩

/-- Showing a value by a directive, if it is the first one for its aspect. -/
theorem Dressed.bind {u : Unit} (h : t.Dressed j limit n done w₀ w)
    (hr : d.kind.rendering? n = some r)
    (hfirst : ∀ a, d.kind.aspect? = some a → aspectCount a done = 0)
    (hrun : (t.bindValue d.name d.expression r).run w = some (.ok u, w')) :
    t.Dressed j limit n (done ++ [d]) w₀ w' := by
  rcases Directive.Kind.of_rendering? hr with ⟨htarget, haspect, hown⟩
  rcases h.element with ⟨tag, htag⟩
  have hlt : r.target.index < w.nodes.size := by
    rw [htarget]
    exact h.lt_size
  have hfits : r.Fits (w.node r.target).kind := by
    rw [htarget, h.kind]
    exact Or.inr ⟨tag, htag, hown⟩
  exact h.bound hr (hfirst _ haspect) (bound_bindValue hlt hfits hrun)

/-- What one directive of an element does, if it is the first one for its aspect. -/
theorem dressed_applyDirective {stats stats' : CompileStats} (h : t.Dressed j limit n done w₀ w)
    (hfirst : ∀ a, d.kind.aspect? = some a → aspectCount a done = 0)
    (hrun : (t.applyDirective n stats d).run w = some (.ok stats', w')) :
    t.Dressed j limit n (done ++ [d]) w₀ w' := by
  rcases applyDirective_run_cases hrun with
    ⟨r, hr, hbind⟩ | ⟨hkind, u, hbind, rfl⟩ | ⟨event, modifiers, method, hkind, hmethod, rfl⟩ |
      ⟨hnothing, rfl⟩
  · refine h.bind ?_ hfirst hbind
    rcases hr with ⟨hkind, rfl⟩ | ⟨hkind, rfl⟩
    · rw [hkind]
      rfl
    · rw [hkind]
      rfl
  · exact (h.bind (by rw [hkind]; rfl) hfirst hbind).listen _ _
  · refine (h.skip (by rw [hkind]; rfl) fun d' hd' _ _ _ _ => ?_).listen event _
    rw [List.mem_singleton.mp hd']
    exact ⟨method, hmethod⟩
  · -- An event without a name needs no method, and nor does an unknown directive.
    have hr : d.kind.rendering? n = none := by
      rcases hnothing with ⟨_, _, hkind, _⟩ | ⟨_, hkind⟩
      · rw [hkind]
        rfl
      · rw [hkind]
        rfl
    refine h.skip hr fun d' hd' event modifiers hkind' hevent => ?_
    rw [List.mem_singleton.mp hd'] at hkind'
    rcases hnothing with ⟨_, _, hkind, hempty⟩ | ⟨_, hkind⟩
    · rw [hkind, Directive.Kind.on.injEq] at hkind'
      rw [hkind'.1, hevent] at hempty
      exact absurd hempty Bool.false_ne_true
    · rw [hkind] at hkind'
      exact nomatch hkind'

/-- All directives of an element take effect, no two of them for the same aspect. -/
theorem dressed_foldlM {rest : List Directive} {stats stats' : CompileStats}
    (h : t.Dressed j limit n done w₀ w) (hsingle : ∀ a, aspectCount a (done ++ rest) ≤ 1)
    (hrun : (rest.foldlM (t.applyDirective n) stats).run w = some (.ok stats', w')) :
    t.Dressed j limit n (done ++ rest) w₀ w' := by
  induction rest generalizing done stats w with
  | nil =>
      rw [List.foldlM_nil, pure_run_eq_some_iff] at hrun
      rcases hrun with ⟨_, rfl⟩
      rwa [List.append_nil]
  | cons d rest ih =>
      rw [foldlM_cons_run_eq_some_iff] at hrun
      rcases hrun with ⟨stats₁, v, hself, hothers⟩
      have hdressed := dressed_applyDirective h (fun a ha => by
        have hall := hsingle a
        rw [aspectCount_append, aspectCount_cons ha, if_pos rfl] at hall
        omega) hself
      rw [List.append_cons] at hsingle ⊢
      exact ih hdressed hsingle hothers

/-- A directive takes effect if there is a value for it, or a method. -/
theorem exists_applyDirective (hstands : w.Stands (.object t.data) j ids)
    (hanswer : t.Answers [d])
    (hvalue : ∀ a, d.kind.aspect? = some a → ∃ v, j.at? (segmentsOfPath d.expression) = some v)
    (stats : CompileStats) :
    ∃ stats' w', (t.applyDirective n stats d).run w = some (.ok stats', w') := by
  have hbind : ∀ r, d.kind.rendering? n = some r →
      ∃ stats' w', (t.bindDirective d r stats).run w = some (.ok stats', w') := by
    intro r hr
    rcases hvalue _ (Directive.Kind.of_rendering? hr).2.1 with ⟨v, hv⟩
    rcases exists_bindValue hstands hv d.name r with ⟨w', hrun⟩
    exact ⟨_, w', bindDirective_run_iff.mpr ⟨hrun, rfl⟩⟩
  rw [applyDirective]
  cases hkind : d.kind with
  | text => exact hbind (.text n) (by rw [hkind]; rfl)
  | html => exact hbind (.markup n) (by rw [hkind]; rfl)
  | model =>
      rcases hbind (.field n) (by rw [hkind]; rfl) with ⟨stats₁, w', hrun⟩
      simp only [bind_run_eq_some_iff, step_run_eq_some_iff, Run.change_eq_some_iff,
        pure_run_eq_some_iff]
      exact ⟨_, _, stats₁, w', hrun, (), _, rfl, rfl, rfl⟩
  | on event modifiers =>
      cases hevent : event.isEmpty with
      | true => exact ⟨_, w, bindEvent_run_iff.mpr (.inl ⟨hevent, rfl, rfl⟩)⟩
      | false =>
          rcases hanswer d List.mem_cons_self event modifiers hkind hevent with ⟨method, hmethod⟩
          exact ⟨_, _, bindEvent_run_iff.mpr (.inr ⟨hevent, method, hmethod, rfl, rfl⟩)⟩
  | unknown name =>
      simp only [bind_run_eq_some_iff, note_run_iff, pure_run_eq_some_iff]
      exact ⟨_, w, (), w, rfl, rfl, rfl⟩

/-- All directives of an element take effect if there are values and methods for them, and no
    two of them are for the same aspect. -/
theorem exists_foldlM_applyDirective {rest : List Directive} (h : t.Dressed j limit n done w₀ w)
    (hsingle : ∀ a, aspectCount a (done ++ rest) ≤ 1)
    (hanswers : t.Answers rest)
    (hvalues : ∀ d ∈ rest, ∀ a, d.kind.aspect? = some a →
      ∃ v, j.at? (segmentsOfPath d.expression) = some v) (stats : CompileStats) :
    ∃ stats' w', (rest.foldlM (t.applyDirective n) stats).run w = some (.ok stats', w') := by
  induction rest generalizing done stats w with
  | nil => exact ⟨stats, w, rfl⟩
  | cons d rest ih =>
      have hanswer : t.Answers [d] := fun d' hd' => by
        rw [List.mem_singleton.mp hd']
        exact hanswers d List.mem_cons_self
      rcases h.stands with ⟨ids, hstands⟩
      rcases exists_applyDirective (n := n) (hstands.of_unwritten h.passes.unwritten) hanswer
        (hvalues d List.mem_cons_self) stats with ⟨stats₁, v, hself⟩
      have hdressed := dressed_applyDirective h (fun a ha => by
        have hall := hsingle a
        rw [aspectCount_append, aspectCount_cons ha, if_pos rfl] at hall
        omega) hself
      rw [List.append_cons] at hsingle
      rcases ih hdressed hsingle (fun d' hd' => hanswers d' (List.mem_cons_of_mem d hd'))
        (fun d' hd' => hvalues d' (List.mem_cons_of_mem d hd')) stats₁ with ⟨stats', w', hrest⟩
      exact ⟨stats', w', foldlM_cons_run_eq_some_iff.mpr ⟨stats₁, v, hself, hrest⟩⟩

end Element

/-! ### Nodes -/

section Walk

variable {j : Json} {ids : List ObjectId} {limit depth low middle high : Nat} {n : NodeId}
  {content : String} {stats stats' : CompileStats} {ns : List NodeId} {tree : Tree}
  {ts : List Tree}

/-- There is nothing to be done at a text without an expression. -/
theorem compileNode_text (hkind : (w.node n).kind = .text content)
    (hfind : Interpolation.find? t.markers content = none) (hleaf : (w.node n).children = []) :
    (t.compileNode (depth + 1) stats n).run w =
      some (.ok { stats with nodes := stats.nodes + 1 }, w) := by
  have hself : (t.compileSelf n { stats with nodes := stats.nodes + 1 }).run w =
      some (.ok { stats with nodes := stats.nodes + 1 }, w) :=
    (compileSelf_text_iff hkind).mpr ((bindText_of_none hfind).mpr ⟨rfl, rfl⟩)
  refine compileNode_run_iff.mpr ⟨depth, _, w, rfl, hself, ?_⟩
  rw [hleaf]
  rfl

/-- There is nothing to be done at a comment. -/
theorem compileNode_comment (hkind : (w.node n).kind = .comment content)
    (hleaf : (w.node n).children = []) :
    (t.compileNode (depth + 1) stats n).run w =
      some (.ok { stats with nodes := stats.nodes + 1 }, w) := by
  refine compileNode_run_iff.mpr ⟨depth, _, w, rfl, compileSelf_of_comment hkind, ?_⟩
  rw [hleaf]
  rfl

/-- A text without an expression beneath an element that shows it. -/
theorem foldlM_label {shown : String} (depth : Nat) (stats : CompileStats)
    (hbears : w.Bears (fun c => limit ≤ c.index ∧ w.IsLeaf c) (.text n) shown)
    (hfind : Interpolation.find? t.markers shown = none) :
    ∃ stats', ((w.node n).children.foldlM (t.compileNode (depth + 1)) stats).run w =
      some (.ok stats', w) := by
  have hstand : w.StandFor (fun c => limit ≤ c.index ∧ w.IsLeaf c) (w.node n).children
      (if shown.isEmpty then [] else [.text shown]) := hbears
  generalize (w.node n).children = cs at hstand ⊢
  split at hstand
  · cases hstand
    exact ⟨stats, rfl⟩
  · cases hstand with
    | @text c _ _ _ hok hlt hkind hns =>
        cases hns
        have hleaf := hok.2 (by rw [hkind]; rfl)
        refine ⟨{ stats with nodes := stats.nodes + 1 }, ?_⟩
        rw [foldlM_cons_run_eq_some_iff]
        exact ⟨_, w, compileNode_text hkind hfind hleaf, rfl⟩

/-- Where there is a level for what is beneath an element that shows a text, or nothing is
    beneath it. -/
theorem eq_of_foldlM_label {shown : String}
    (hbears : w.Bears (fun c => limit ≤ c.index ∧ w.IsLeaf c) (.text n) shown)
    (hfind : Interpolation.find? t.markers shown = none)
    (hrun : ((w.node n).children.foldlM (t.compileNode depth) stats).run w =
      some (.ok stats', w')) : w' = w := by
  cases depth with
  | succ depth =>
      rcases foldlM_label depth stats hbears hfind with ⟨_, hnothing⟩
      rw [hnothing, Option.some.injEq, Prod.mk.injEq] at hrun
      exact hrun.2.symm
  | zero =>
      exact (foldlM_compileNode_zero hrun).2

/-- An element all of whose directives have taken effect is furnished. -/
theorem furnished_of_dressed {tag : String} {attributes : Attributes} {w₀ : ClientWorld ν τ}
    (h : t.Dressed j limit n (directivesOf t.markers attributes) w₀ w)
    (hkind : (w₀.node n).kind = .element tag)
    (hattributes : (w₀.node n).attributes = attributes)
    (hvalue : (w₀.node n).value = attributes.formValue) :
    t.Furnished w (t.Site j limit w) n tag attributes where
  lt := h.lt_size
  kind := h.kind.trans hkind
  answers := h.answers
  plain hfield := (h.value (keyAt?_eq_none_iff.mp hfield)).trans hvalue
  field key hfield := by
    rcases exists_mem_of_keyAt? hfield with ⟨d, hd, haspect, rfl⟩
    refine h.sites d hd (.field n) ?_
    cases hmodel : d.kind with
    | model => rfl
    | _ =>
        rw [hmodel] at haspect
        exact absurd haspect (by simp only [Directive.Kind.aspect?, Option.some.injEq,
          reduceCtorEq, not_false_eq_true])
  attributes := h.attributes.trans hattributes

/-- An element that shows a text has the site for it. -/
theorem site_of_dressed {key : String} {ds : List Directive} {w₀ : ClientWorld ν τ}
    (h : t.Dressed j limit n ds w₀ w) (htame : TameDirectives ds)
    (hlabel : keyAt? .beneath ds = some key) : t.Site j limit w (.text n) key := by
  rcases exists_mem_of_keyAt? hlabel with ⟨d, hd, haspect, rfl⟩
  refine h.sites d hd (.text n) ?_
  rw [htame.text hd haspect]
  rfl

/-- A forest that has been planted, with data to be compiled against. No value that is shown as
    the text of an element has an expression. -/
structure Ready (t : Template (Code ν)) (j : Json) (limit : Nat) (w : ClientWorld ν τ) (low : Nat)
    (ns : List NodeId) (ts : List Tree) (high : Nat) : Prop where
  /-- The nodes are as they have been planted. -/
  sown : w.Sown low ns ts high
  /-- They are part of the template. -/
  le : high ≤ limit
  /-- All of the template is there. -/
  room : limit ≤ w.nodes.size
  /-- Its directives are tame. -/
  tame : Tree.TameAll t.markers ts
  /-- What is put beneath its elements has no expression. -/
  calm : ∀ key v, (Aspect.beneath, key) ∈ Tree.bindingsAll t.markers ts →
    j.at? (segmentsOfPath key) = some v → Interpolation.find? t.markers v.display = none
  /-- The data stands for a plain value. -/
  stands : ∃ ids, w.Stands (.object t.data) j ids

/-- The first node has been compiled, and it is the turn of the others. -/
theorem Ready.rest (h : t.Ready j limit w low (n :: ns) (tree :: ts) high)
    (hns : w.Sown middle ns ts high) (hpasses : t.Passes w low middle w') :
    t.Ready j limit w' middle ns ts high where
  sown := hpasses.sown hns fun _ hm _ => Or.inr hm
  le := h.le
  room := Nat.le_trans h.room hpasses.grown
  tame := h.tame.2
  calm key v hkey := h.calm key v (Tree.mem_bindingsAll_tail hkey)
  stands := h.stands.imp fun _ hstands => hstands.of_unwritten hpasses.unwritten

section Ready

variable {tag : String} {attributes : Attributes} {children : List Tree}
  (h : t.Ready j limit w low (⟨low⟩ :: ns) (.element tag attributes children :: ts) high)

include h

/-- The directives of the first node have taken effect, and it is the turn of its children. -/
theorem Ready.beneath (hmiddle : middle ≤ limit)
    (hlabel : keyAt? .beneath (directivesOf t.markers attributes) = none)
    (hdressed : t.Dressed j limit ⟨low⟩ (directivesOf t.markers attributes) w w')
    (hbeneath : w.Sown (low + 1) (w.node ⟨low⟩).children children middle) :
    t.Ready j limit w' (low + 1) (w'.node ⟨low⟩).children children middle where
  sown := by
    rw [hdressed.children (keyAt?_eq_none_iff.mp hlabel)]
    exact hdressed.passes.sown hbeneath fun _ hm _ => Or.inr hm
  le := hmiddle
  room := Nat.le_trans h.room hdressed.passes.grown
  tame := h.tame.1.2
  calm key v hkey :=
    h.calm key v (Tree.mem_bindingsAll_head (Tree.mem_bindings_children hlabel hkey))
  stands := h.stands.imp fun _ hstands => hstands.of_unwritten hdressed.passes.unwritten

/-- It is the turn of the directives of the first node. -/
theorem Ready.undressed (hlt : low < limit) (hkind : (w.node ⟨low⟩).kind = .element tag) :
    t.Dressed j limit ⟨low⟩ [] w w :=
  .refl hlt h.room ⟨tag, hkind⟩ h.stands

/-- The text that an element has got to show has no expression. -/
theorem Ready.bears {key : String}
    (hlabel : keyAt? .beneath (directivesOf t.markers attributes) = some key)
    (hdressed : t.Dressed j limit ⟨low⟩ (directivesOf t.markers attributes) w w') :
    ∃ shown, w'.Bears (fun c => limit ≤ c.index ∧ w'.IsLeaf c) (.text ⟨low⟩) shown ∧
      Interpolation.find? t.markers shown = none := by
  rcases (site_of_dressed hdressed h.tame.1.1 hlabel).shown with ⟨v, hv, hbears⟩
  rcases exists_mem_of_keyAt? hlabel with ⟨d, hd, haspect, rfl⟩
  have hmem : (Aspect.beneath, d.expression) ∈
      Tree.bindingsAll t.markers (.element tag attributes children :: ts) :=
    Tree.mem_bindingsAll_head (Tree.mem_bindings_directive hd haspect)
  exact ⟨v.display, hbears, h.calm d.expression v hmem hv⟩

/-- The directives of the first node take effect if there are values and methods for them. -/
theorem Ready.exists_dressed (hlt : low < limit) (hkind : (w.node ⟨low⟩).kind = .element tag)
    (hattributes : (w.node ⟨low⟩).attributes = attributes)
    (hanswers : t.Answers (directivesOf t.markers attributes))
    (hvalues : ∀ a key,
      (a, key) ∈ Tree.bindingsAll t.markers (.element tag attributes children :: ts) →
        ∃ x, j.at? (segmentsOfPath key) = some x) (stats : CompileStats) :
    ∃ stats₁ v, (t.compileSelf ⟨low⟩ stats).run w = some (.ok stats₁, v) ∧
      t.Dressed j limit ⟨low⟩ (directivesOf t.markers attributes) w v := by
  have hbound : ∀ d ∈ directivesOf t.markers attributes, ∀ a, d.kind.aspect? = some a →
      ∃ x, j.at? (segmentsOfPath d.expression) = some x := fun d hd a ha =>
    hvalues a d.expression (Tree.mem_bindingsAll_head (Tree.mem_bindings_directive hd ha))
  have hundressed := h.undressed hlt hkind
  rcases exists_foldlM_applyDirective hundressed h.tame.1.1.single hanswers hbound stats with
    ⟨stats₁, v, hrun⟩
  refine ⟨stats₁, v, (compileSelf_element_iff hkind).mpr ?_, ?_⟩
  · rw [hattributes]
    exact hrun
  · exact dressed_foldlM hundressed h.tame.1.1.single hrun

end Ready

/-- Nodes have been visited, with what is beneath them, and are wired. -/
structure Walked (t : Template (Code ν)) (j : Json) (limit depth low : Nat) (ns : List NodeId)
    (ts : List Tree) (high : Nat) (w w' : ClientWorld ν τ) : Prop where
  /-- The other nodes have been left alone. -/
  passes : t.Passes w low high w'
  /-- The nodes are wired. -/
  wired : t.Wired w' (t.Site j limit w') (fun n => w.Quiet n → w'.Quiet n) depth low ns ts high

/-- A root that is wired, in front of what is wired after it. -/
theorem Wired.cons {κ σ : Type} {t : Template κ} {w : World κ σ}
    {site : Rendering → String → Prop} {still : NodeId → Prop}
    (h : t.Wired w site still depth low [n] [tree] middle)
    (hns : t.Wired w site still depth middle ns ts high) :
    t.Wired w site still depth low (n :: ns) (tree :: ts) high := by
  cases h with
  | text hlt hfind hkind hstill hnil =>
      cases hnil
      exact .text hlt hfind hkind hstill hns
  | interpolated hlt hfind hkind hsite hnil =>
      cases hnil
      exact .interpolated hlt hfind hkind hsite hns
  | comment hlt hkind hstill hnil =>
      cases hnil
      exact .comment hlt hkind hstill hns
  | element helement hlabel hchildren hnil =>
      cases hnil
      exact .element helement hlabel hchildren hns
  | label helement hlabel hsite hmiddle hnil =>
      cases hnil
      exact .label helement hlabel hsite hmiddle hns

/-- What is wired in some places stays so while other ones are passed. -/
theorem Wired.pass {still : NodeId → Prop} {start stop : Nat}
    (h : t.Wired w (t.Site j limit w) still depth low ns ts high)
    (hpasses : t.Passes w start stop w')
    (hout : ∀ m, low ≤ m → m < high → m < start ∨ stop ≤ m) (hstop : stop ≤ limit) :
    t.Wired w' (t.Site j limit w') (fun n => still n ∧ (w.Quiet n → w'.Quiet n)) depth low ns ts
      high := by
  refine h.congr ⟨hpasses.grown, ?_, ?_, ?_⟩
  · exact fun n hn hlow hhigh => .of_loose (hpasses.others n hn (hout n.index hlow hhigh))
  · intro n hn hlow hhigh hstill
    have hplace := hout n.index hlow hhigh
    exact ⟨⟨hstill, hpasses.quiet n hn hplace⟩, Node.kind_of_loose (hpasses.others n hn hplace)⟩
  · exact fun r key hn hlow hhigh hsite =>
      hsite.pass hpasses hn (hout r.target.index hlow hhigh) hstop

/-- Less may be said about what is still what it was. -/
theorem Wired.weaken {κ σ : Type} {t : Template κ} {w : World κ σ}
    {site : Rendering → String → Prop} {still still' : NodeId → Prop}
    (h : t.Wired w site still depth low ns ts high)
    (himp : ∀ n : NodeId, low ≤ n.index → n.index < high → still n → still' n) :
    t.Wired w site still' depth low ns ts high :=
  h.congr ⟨Nat.le_refl _, fun _ _ _ _ => .of_loose rfl,
    fun n _ hlow hhigh hstill => ⟨himp n hlow hhigh hstill, rfl⟩, fun _ _ _ _ _ hsite => hsite⟩

/-- One node after the other. -/
theorem Walked.cons (h : t.Walked j limit depth low [n] [tree] middle w w₁)
    (hns : t.Walked j limit depth middle ns ts high w₁ w₂) (hhigh : high ≤ limit)
    (hlimit : limit ≤ w.nodes.size) :
    t.Walked j limit depth low (n :: ns) (tree :: ts) high w w₂ := by
  have hlow := h.wired.le
  have hmiddle := hns.wired.le
  have hfirst : t.Wired w₂ (t.Site j limit w₂) (fun n => w.Quiet n → w₂.Quiet n) depth low [n]
      [tree] middle :=
    (h.wired.pass hns.passes (fun m _ hm => Or.inl hm) hhigh).weaken
      fun n _ _ hstill hquiet => hstill.2 (hstill.1 hquiet)
  have hrest : t.Wired w₂ (t.Site j limit w₂) (fun n => w.Quiet n → w₂.Quiet n) depth middle ns
      ts high := by
    refine hns.wired.weaken fun n hn hstop hstill hquiet => hstill ?_
    exact h.passes.quiet n (by omega) (Or.inr hn) hquiet
  exact ⟨h.passes.trans hns.passes fun m _ hout => by omega, hfirst.cons hrest⟩

/-- A text with an expression has been visited. -/
theorem walked_interpolated {i : Interpolation} (depth : Nat) (hlt : low < w.nodes.size)
    (hlimit : limit ≤ w.nodes.size) (hkind : (w.node ⟨low⟩).kind = .text content)
    (hfind : Interpolation.find? t.markers content = some i)
    (hstands : ∃ ids, w.Stands (.object t.data) j ids)
    (hrun : (t.bindValue (i.describe t.markers) i.key (.interpolated ⟨low⟩ i)).run w =
      some (.ok (), w')) :
    t.Walked j limit (depth + 1) low [⟨low⟩] [.text content] (low + 1) w w' ∧
      (w'.node ⟨low⟩).children = (w.node ⟨low⟩).children := by
  have hbound : t.Bound i.key (.interpolated ⟨low⟩ i) w w' :=
    bound_bindValue hlt (Or.inl ⟨content, hkind, rfl⟩) hrun
  rcases hstands with ⟨ids, hstands⟩
  have hsite := Site.of_bound hbound hstands hlimit
  rcases hsite.shown with ⟨v, _, hshown⟩
  have hlt' : low < w'.nodes.size := Nat.lt_of_lt_of_le hlt hbound.redrawn.grown
  refine ⟨⟨.of_bound hbound, .interpolated hlt' hfind hshown hsite .nil⟩, ?_⟩
  exact hbound.redrawn.beneath (by
    simp only [Rendering.aspect, ne_eq, reduceCtorEq, not_false_eq_true])

/-- An element has been visited whose children have been visited, too. -/
theorem walked_element {tag : String} {attributes : Attributes} {children : List Tree}
    (hdressed : t.Dressed j limit ⟨low⟩ (directivesOf t.markers attributes) w w₁)
    (hfurnished : t.Furnished w₁ (t.Site j limit w₁) ⟨low⟩ tag attributes)
    (hlabel : keyAt? .beneath (directivesOf t.markers attributes) = none)
    (hchildren : t.Walked j limit depth (low + 1) (w₁.node ⟨low⟩).children children middle w₁ w₂)
    (hmiddle : middle ≤ limit) :
    t.Walked j limit (depth + 1) low [⟨low⟩] [.element tag attributes children] middle w w₂ := by
  have hlow := hchildren.wired.le
  have hroom := hdressed.room
  have hout : low < low + 1 ∨ middle ≤ low := Or.inl (Nat.lt_succ_self low)
  have hloose := hchildren.passes.others ⟨low⟩ hdressed.lt_size hout
  refine ⟨hdressed.passes.trans hchildren.passes fun m _ hm => by dsimp only; omega, ?_⟩
  refine .element (hfurnished.keep hchildren.passes.grown (.of_loose hloose) fun key hsite =>
    hsite.pass hchildren.passes hdressed.lt_size hout hmiddle) hlabel ?_ .nil
  rw [Node.children_of_loose hloose]
  refine hchildren.wired.weaken fun n hn hstop hstill hquiet => hstill ?_
  exact hdressed.passes.quiet n (by omega) (Or.inr hn) hquiet

/-- A text has been visited. -/
theorem walked_text (h : t.Ready j limit w low (⟨low⟩ :: ns) (.text content :: ts) high)
    (hlt : low < w.nodes.size) (hkind : (w.node ⟨low⟩).kind = .text content)
    (hleaf : (w.node ⟨low⟩).children = [])
    (hrun : (t.compileNode depth stats ⟨low⟩).run w = some (.ok stats', w')) :
    t.Walked j limit depth low [⟨low⟩] [.text content] (low + 1) w w' := by
  rcases compileNode_run_iff.mp hrun with ⟨d, _, u, rfl, hself, hchildren⟩
  cases hfind : Interpolation.find? t.markers content with
  | none =>
      rw [compileNode_text hkind hfind hleaf, Option.some.injEq, Prod.mk.injEq] at hrun
      rw [← hrun.2]
      exact ⟨.refl w _ _, .text hlt hfind hkind (fun h => h) .nil⟩
  | some i =>
      have hbind := (bindText_run_iff hfind).mp ((compileSelf_text_iff hkind).mp hself)
      rcases walked_interpolated d hlt h.room hkind hfind h.stands hbind.1 with ⟨hwalked, hsame⟩
      rw [hsame, hleaf, List.foldlM_nil, pure_run_eq_some_iff] at hchildren
      rw [← hchildren.2]
      exact hwalked

/-- A comment has been visited. -/
theorem walked_comment (hlt : low < w.nodes.size) (hkind : (w.node ⟨low⟩).kind = .comment content)
    (hleaf : (w.node ⟨low⟩).children = [])
    (hrun : (t.compileNode depth stats ⟨low⟩).run w = some (.ok stats', w')) :
    t.Walked j limit depth low [⟨low⟩] [.comment content] (low + 1) w w' := by
  rcases compileNode_run_iff.mp hrun with ⟨d, _, _, rfl, _, _⟩
  rw [compileNode_comment hkind hleaf, Option.some.injEq, Prod.mk.injEq] at hrun
  rw [← hrun.2]
  exact ⟨.refl w _ _, .comment hlt hkind (fun h => h) .nil⟩

/-- An element has been visited. What has been planted beneath it to show a text is passed
    over. -/
theorem walked_label {tag key : String} {attributes : Attributes} {children : List Tree}
    (h : t.Ready j limit w low (⟨low⟩ :: ns) (.element tag attributes children :: ts) high)
    (hdressed : t.Dressed j limit ⟨low⟩ (directivesOf t.markers attributes) w w₁)
    (hfurnished : t.Furnished w₁ (t.Site j limit w₁) ⟨low⟩ tag attributes)
    (hlabel : keyAt? .beneath (directivesOf t.markers attributes) = some key)
    (hlow : low + 1 ≤ middle)
    (hrun : ((w₁.node ⟨low⟩).children.foldlM (t.compileNode depth) stats).run w₁ =
      some (.ok stats', w')) :
    t.Walked j limit (depth + 1) low [⟨low⟩] [.element tag attributes children] middle w w' := by
  rcases h.bears hlabel hdressed with ⟨shown, hbears, hfind⟩
  rw [eq_of_foldlM_label hbears hfind hrun]
  refine ⟨hdressed.passes.trans (.refl w₁ low middle) fun m _ hm => ?_, ?_⟩
  · dsimp only
    omega
  · exact .label hfurnished hlabel (site_of_dressed hdressed h.tame.1.1 hlabel) hlow .nil

/-- A template that has been compiled is wired. -/
theorem walked_of_run (h : t.Ready j limit w low ns ts high)
    (hrun : (ns.foldlM (t.compileNode depth) stats).run w = some (.ok stats', w')) :
    t.Walked j limit depth low ns ts high w w' := by
  -- One node after the other, and for an element what is beneath it in between.
  induction ts using Tree.forestInduction generalizing w w' low high ns depth stats stats' with
  | nil =>
      cases h.sown
      rw [List.foldlM_nil, pure_run_eq_some_iff] at hrun
      rcases hrun with ⟨_, rfl⟩
      exact ⟨.refl w _ _, .nil⟩
  | text content ts ih =>
      have hsown := h.sown
      cases hsown with
      | text hlt hkind hleaf hns =>
          rcases foldlM_cons_run_eq_some_iff.mp hrun with ⟨stats₁, v, hfirst, hrest⟩
          have hwalked := walked_text h hlt hkind hleaf hfirst
          exact hwalked.cons (ih (h.rest hns hwalked.passes) hrest) h.le h.room
  | comment content ts ih =>
      have hsown := h.sown
      cases hsown with
      | comment hlt hkind hleaf hns =>
          rcases foldlM_cons_run_eq_some_iff.mp hrun with ⟨stats₁, v, hfirst, hrest⟩
          have hwalked : t.Walked j limit depth low [⟨low⟩] [.comment content] (low + 1) w v :=
            walked_comment hlt hkind hleaf hfirst
          exact hwalked.cons (ih (h.rest hns hwalked.passes) hrest) h.le h.room
  | element tag attributes children ts ihc ih =>
      have hsown := h.sown
      cases hsown with
      | @element _ middle _ _ _ _ ns _ hlt hkind hattributes hvalue hbeneath hns =>
          rcases foldlM_cons_run_eq_some_iff.mp hrun with ⟨stats₁, v, hfirst, hrest⟩
          rcases compileNode_run_iff.mp hfirst with ⟨depth, stats₂, u, rfl, hself, hchildren⟩
          have hmiddle : middle ≤ limit := Nat.le_trans hns.le h.le
          have hundressed := h.undressed (Nat.lt_of_lt_of_le hbeneath.le hmiddle) hkind
          rw [compileSelf_element_iff hkind, hattributes] at hself
          have hdressed := dressed_foldlM hundressed h.tame.1.1.single hself
          have hfurnished := furnished_of_dressed hdressed hkind hattributes hvalue
          have hwalked : t.Walked j limit (depth + 1) low [⟨low⟩]
              [.element tag attributes children] middle w v := by
            cases hlabel : keyAt? .beneath (directivesOf t.markers attributes) with
            | none =>
                have hinner := ihc (h.beneath hmiddle hlabel hdressed hbeneath) hchildren
                exact walked_element hdressed hfurnished hlabel hinner hmiddle
            | some key => exact walked_label h hdressed hfurnished hlabel hbeneath.le hchildren
          exact hwalked.cons (ih (h.rest hns hwalked.passes) hrest) h.le h.room

/-- One node after the other can be compiled: to the others it is as if nothing had happened. -/
theorem exists_run_cons (h : t.Ready j limit w low (n :: ns) (tree :: ts) high)
    (hself : w.Sown low [n] [tree] middle) (hns : w.Sown middle ns ts high)
    (hfirst : ∃ stats₁ w₁, (t.compileNode depth stats n).run w = some (.ok stats₁, w₁))
    (hrest : ∀ {v : ClientWorld ν τ} (stats₁ : CompileStats), t.Ready j limit v middle ns ts high →
      ∃ stats' w', (ns.foldlM (t.compileNode depth) stats₁).run v = some (.ok stats', w')) :
    ∃ stats' w', ((n :: ns).foldlM (t.compileNode depth) stats).run w = some (.ok stats', w') := by
  rcases hfirst with ⟨stats₁, v, hfirst⟩
  have hone : t.Ready j limit w low [n] [tree] middle := by
    refine ⟨hself, Nat.le_trans hns.le h.le, h.room, ⟨h.tame.1, trivial⟩, fun key x hkey => ?_,
      h.stands⟩
    refine h.calm key x (Tree.mem_bindingsAll_head ?_)
    rwa [Tree.bindingsAll, Tree.bindingsAll, List.append_nil] at hkey
  have hrun : ([n].foldlM (t.compileNode depth) stats).run w = some (.ok stats₁, v) :=
    foldlM_cons_run_eq_some_iff.mpr ⟨stats₁, v, hfirst, rfl⟩
  have hwalked := walked_of_run hone hrun
  rcases hrest stats₁ (h.rest hns hwalked.passes) with ⟨stats', w', hrest⟩
  exact ⟨stats', w', foldlM_cons_run_eq_some_iff.mpr ⟨stats₁, v, hfirst, hrest⟩⟩

/-- A text with an expression can be compiled if there is a value for it. -/
theorem Ready.exists_text {i : Interpolation}
    (h : t.Ready j limit w low (⟨low⟩ :: ns) (.text content :: ts) high)
    (hlt : low < w.nodes.size) (hkind : (w.node ⟨low⟩).kind = .text content)
    (hleaf : (w.node ⟨low⟩).children = [])
    (hfind : Interpolation.find? t.markers content = some i)
    (hvalue : ∃ x, j.at? (segmentsOfPath i.key) = some x) (depth : Nat) (stats : CompileStats) :
    ∃ stats' w', (t.compileNode (depth + 1) stats ⟨low⟩).run w = some (.ok stats', w') := by
  rcases hvalue with ⟨x, hx⟩
  rcases h.stands with ⟨ids, hstands⟩
  rcases exists_bindValue hstands hx (i.describe t.markers) (.interpolated ⟨low⟩ i) with
    ⟨w₁, hbind⟩
  have hsame := (walked_interpolated depth hlt h.room hkind hfind h.stands hbind).2
  have hchildren : ∀ stats',
      ((w₁.node ⟨low⟩).children.foldlM (t.compileNode depth) stats').run w₁ =
        some (.ok stats', w₁) := by
    intro stats'
    rw [hsame, hleaf]
    rfl
  exact ⟨_, w₁, compileNode_run_iff.mpr ⟨depth, _, w₁, rfl,
    (compileSelf_text_iff hkind).mpr ((bindText_run_iff hfind).mpr ⟨hbind, rfl⟩), hchildren _⟩⟩

/-- A template that has been compiled somewhere can be compiled wherever there are values, if
    there is one level more. -/
theorem exists_run_of_wired {σ : Type} {t₀ : Template (Code ν)} {v : World (Code ν) σ}
    {site : Rendering → String → Prop} {still : NodeId → Prop} {start stop levels : Nat}
    {ms : List NodeId} (hwired : t₀.Wired v site still levels start ms ts stop)
    (hmarkers : t.markers = t₀.markers) (hmethods : t.methods = t₀.methods)
    (hdepth : levels < depth) (h : t.Ready j limit w low ns ts high)
    (hvalues : ∀ a key, (a, key) ∈ Tree.bindingsAll t.markers ts →
      ∃ x, j.at? (segmentsOfPath key) = some x) (stats : CompileStats) :
    ∃ stats' w', (ns.foldlM (t.compileNode depth) stats).run w = some (.ok stats', w') := by
  induction hwired generalizing w low high ns depth stats with
  | nil =>
      have hsown := h.sown
      cases hsown
      exact ⟨stats, w, rfl⟩
  | @text levels _ _ content _ ts _ hfind _ _ _ ih =>
      have hsown := h.sown
      have hbehind := fun a key hkey => hvalues a key (Tree.mem_bindingsAll_tail hkey)
      obtain ⟨depth, rfl⟩ : ∃ d, depth = d + 1 := Nat.exists_eq_succ_of_ne_zero (by omega)
      cases hsown with
      | text hlt hkind hleaf hns =>
          rw [← hmarkers] at hfind
          exact exists_run_cons h (.text hlt hkind hleaf .nil) hns
            ⟨_, w, compileNode_text hkind hfind hleaf⟩
            fun stats₁ hrest => ih hdepth hrest hbehind stats₁
  | @interpolated levels _ _ content _ i _ ts _ hfind _ _ _ ih =>
      have hsown := h.sown
      have hbehind := fun a key hkey => hvalues a key (Tree.mem_bindingsAll_tail hkey)
      obtain ⟨depth, rfl⟩ : ∃ d, depth = d + 1 := Nat.exists_eq_succ_of_ne_zero (by omega)
      cases hsown with
      | text hlt hkind hleaf hns =>
          rw [← hmarkers] at hfind
          have hvalue := hvalues .own i.key
            (Tree.mem_bindingsAll_head (Tree.mem_bindings_text hfind))
          exact exists_run_cons h (.text hlt hkind hleaf .nil) hns
            (h.exists_text hlt hkind hleaf hfind hvalue depth stats)
            fun stats₁ hrest => ih hdepth hrest hbehind stats₁
  | comment _ _ _ _ ih =>
      have hsown := h.sown
      have hbehind := fun a key hkey => hvalues a key (Tree.mem_bindingsAll_tail hkey)
      obtain ⟨depth, rfl⟩ : ∃ d, depth = d + 1 := Nat.exists_eq_succ_of_ne_zero (by omega)
      cases hsown with
      | comment hlt hkind hleaf hns =>
          exact exists_run_cons h (.comment hlt hkind hleaf .nil) hns
            ⟨_, w, compileNode_comment hkind hleaf⟩
            fun stats₁ hrest => ih hdepth hrest hbehind stats₁
  | @element levels _ _ _ tag attributes children _ ts helement hlabel _ _ ihc ih =>
      have hsown := h.sown
      have hanswers := helement.answers
      have hbehind := fun a key hkey => hvalues a key (Tree.mem_bindingsAll_tail hkey)
      rw [← hmarkers] at hlabel hanswers
      obtain ⟨depth, rfl⟩ : ∃ d, depth = d + 1 := Nat.exists_eq_succ_of_ne_zero (by omega)
      cases hsown with
      | @element _ middle _ _ _ _ ns _ hlt hkind hattributes hvalue hbeneath hns =>
          have hmiddle : middle ≤ limit := Nat.le_trans hns.le h.le
          rcases h.exists_dressed (Nat.lt_of_lt_of_le hbeneath.le hmiddle) hkind hattributes
            (hanswers.of_methods hmethods) hvalues _ with ⟨stats₁, v, hself, hdressed⟩
          have hinner := fun a key hkey => hvalues a key
            (Tree.mem_bindingsAll_head (Tree.mem_bindings_children hlabel hkey))
          rcases ihc (Nat.lt_of_succ_lt_succ hdepth) (h.beneath hmiddle hlabel hdressed hbeneath)
            hinner stats₁ with ⟨stats₂, v', hchildren⟩
          exact exists_run_cons h (.element hlt hkind hattributes hvalue hbeneath .nil) hns
            ⟨stats₂, v', compileNode_run_iff.mpr ⟨depth, stats₁, v, rfl, hself, hchildren⟩⟩
            fun stats₁ hrest => ih hdepth hrest hbehind stats₁
  | @label levels _ _ _ tag key attributes children _ ts helement hlabel _ _ _ ih =>
      have hsown := h.sown
      have hanswers := helement.answers
      have hbehind := fun a key hkey => hvalues a key (Tree.mem_bindingsAll_tail hkey)
      rw [← hmarkers] at hlabel hanswers
      -- There may not have been a text before, so this takes the level more.
      obtain ⟨depth, rfl⟩ : ∃ d, depth = d + 1 + 1 := ⟨depth - 2, by omega⟩
      cases hsown with
      | @element _ middle _ _ _ _ ns _ hlt hkind hattributes hvalue hbeneath hns =>
          have hmiddle : middle ≤ limit := Nat.le_trans hns.le h.le
          rcases h.exists_dressed (Nat.lt_of_lt_of_le hbeneath.le hmiddle) hkind hattributes
            (hanswers.of_methods hmethods) hvalues _ with ⟨stats₁, v, hself, hdressed⟩
          rcases h.bears hlabel hdressed with ⟨shown, hbears, hfind⟩
          rcases foldlM_label depth stats₁ hbears hfind with ⟨stats₂, hchildren⟩
          exact exists_run_cons h (.element hlt hkind hattributes hvalue hbeneath .nil) hns
            ⟨stats₂, v, compileNode_run_iff.mpr ⟨depth + 1, stats₁, v, rfl, hself, hchildren⟩⟩
            fun stats₁ hrest => ih hdepth hrest hbehind stats₁

end Walk

end Template

end LiveTemplate
