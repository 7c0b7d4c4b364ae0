import LiveTemplate.Proofs.Binding.Sites

/-!
# Wired Views

The view of a compiled template, site by site.

A planted template fills places in document order, and compiling keeps the nodes in
their places. So the view and the template can be gone through together: a text with an
expression has a binding for it, an element with a directive has one for what the
directive changes, and whatever nothing is bound to is as it was planted. This is said
about sites in general, because a site is first where a watcher is, and later where a
watcher has shown a value.

If every site shows what a value looks like, then the outline of the view is the
picture of the template.

## Main definitions

* `World.Sown`: Nodes as they have been planted, in their places.
* `Template.Wired`: Nodes as a template that has been compiled, in their places.
* `Template.Carries`: What has been compiled is carried over to another world.
* `Template.Asks`: A binding that trees ask for.

## Theorems

* `StandFor.sown`: Planted nodes.
* `Wired.congr`: A template stays wired if nothing changes but what is bound.
* `Wired.asked`: All sites are ones that the trees ask for.
* `Wired.outline_eq`: A view that shows what values look like is the picture.
-/

namespace LiveTemplate

open Markup

namespace World

variable {κ σ : Type} {w w' : World κ σ}

/-- The nodes are as they have been planted for the trees, and with what is beneath them they
    fill the places from one to another. -/
inductive Sown (w : World κ σ) : Nat → List NodeId → List Tree → Nat → Prop
  /-- No nodes fill no places. -/
  | nil {start : Nat} : Sown w start [] [] start
  /-- A text. -/
  | text {start stop : Nat} {content : String} {ns : List NodeId} {ts : List Tree}
      (hlt : start < w.nodes.size) (hkind : (w.node ⟨start⟩).kind = .text content)
      (hleaf : (w.node ⟨start⟩).children = []) (hns : Sown w (start + 1) ns ts stop) :
      Sown w start (⟨start⟩ :: ns) (.text content :: ts) stop
  /-- A comment. -/
  | comment {start stop : Nat} {content : String} {ns : List NodeId} {ts : List Tree}
      (hlt : start < w.nodes.size) (hkind : (w.node ⟨start⟩).kind = .comment content)
      (hleaf : (w.node ⟨start⟩).children = []) (hns : Sown w (start + 1) ns ts stop) :
      Sown w start (⟨start⟩ :: ns) (.comment content :: ts) stop
  /-- An element, which holds what its attributes say. -/
  | element {start middle stop : Nat} {tag : String} {attributes : Attributes}
      {children : List Tree} {ns : List NodeId} {ts : List Tree} (hlt : start < w.nodes.size)
      (hkind : (w.node ⟨start⟩).kind = .element tag)
      (hattributes : (w.node ⟨start⟩).attributes = attributes)
      (hvalue : (w.node ⟨start⟩).value = attributes.formValue)
      (hchildren : Sown w (start + 1) (w.node ⟨start⟩).children children middle)
      (hns : Sown w middle ns ts stop) :
      Sown w start (⟨start⟩ :: ns) (.element tag attributes children :: ts) stop

/-- Nodes that stand for trees and are as planting leaves them. -/
theorem StandFor.sown {ok : NodeId → Prop} {ns : List NodeId} {ts : List Tree} {start stop : Nat}
    (h : w.StandFor ok ns ts) (hfresh : ∀ n, ok n → (w.node n).IsFresh)
    (hspans : w.Spans start ns stop) : w.Sown start ns ts stop := by
  induction h generalizing start stop with
  | nil =>
      cases hspans
      exact .nil
  | text hok _ hkind _ ih =>
      cases hspans with
      | cons hlt hbeneath hafter =>
          have hleaf := (hfresh _ hok).leaf (by rw [hkind]; rfl)
          rw [hleaf] at hbeneath
          cases hbeneath
          exact .text hlt hkind hleaf (ih hafter)
  | comment hok _ hkind _ ih =>
      cases hspans with
      | cons hlt hbeneath hafter =>
          have hleaf := (hfresh _ hok).leaf (by rw [hkind]; rfl)
          rw [hleaf] at hbeneath
          cases hbeneath
          exact .comment hlt hkind hleaf (ih hafter)
  | element hok _ hkind _ _ _ ihc ih =>
      cases hspans with
      | cons hlt hbeneath hafter =>
          exact .element hlt hkind rfl (hfresh _ hok).value (ihc hbeneath) (ih hafter)

namespace Sown

variable {start stop : Nat} {ns : List NodeId} {ts : List Tree}

theorem le (h : w.Sown start ns ts stop) : start ≤ stop := by
  induction h with
  | nil => exact Nat.le_refl _
  | text _ _ _ _ ih => exact Nat.le_of_lt ih
  | comment _ _ _ _ ih => exact Nat.le_of_lt ih
  | element _ _ _ _ _ _ ihc ih => exact Nat.le_trans (Nat.le_of_lt ihc) ih

/-- Nodes that are left as they were. -/
theorem congr (h : w.Sown start ns ts stop) (hgrown : w.nodes.size ≤ w'.nodes.size)
    (hsame : ∀ n : NodeId, n.index < w.nodes.size → start ≤ n.index → n.index < stop →
      (w'.node n).loose = (w.node n).loose) : w'.Sown start ns ts stop := by
  induction h with
  | nil => exact .nil
  | @text start stop content ns ts hlt hkind hleaf hns ih =>
      have hloose := hsame ⟨start⟩ hlt (Nat.le_refl _) hns.le
      exact .text (Nat.lt_of_lt_of_le hlt hgrown) ((Node.kind_of_loose hloose).trans hkind)
        ((Node.children_of_loose hloose).trans hleaf)
        (ih fun n hn hstart => hsame n hn (Nat.le_of_lt hstart))
  | @comment start stop content ns ts hlt hkind hleaf hns ih =>
      have hloose := hsame ⟨start⟩ hlt (Nat.le_refl _) hns.le
      exact .comment (Nat.lt_of_lt_of_le hlt hgrown) ((Node.kind_of_loose hloose).trans hkind)
        ((Node.children_of_loose hloose).trans hleaf)
        (ih fun n hn hstart => hsame n hn (Nat.le_of_lt hstart))
  | @element start middle stop tag attributes children ns ts hlt hkind hattributes hvalue
      hchildren hns ihc ih =>
      have hmiddle := hchildren.le
      have hstop := hns.le
      have hloose := hsame ⟨start⟩ hlt (Nat.le_refl _) (by dsimp only; omega)
      refine .element (Nat.lt_of_lt_of_le hlt hgrown) ((Node.kind_of_loose hloose).trans hkind)
        ((Node.attributes_of_loose hloose).trans hattributes)
        ((Node.value_of_loose hloose).trans hvalue) ?_
        (ih fun n hn hstart => hsame n hn (by omega))
      rw [Node.children_of_loose hloose]
      exact ihc fun n hn hstart hlt => hsame n hn (by omega) (by omega)

end Sown

end World

namespace Template

variable {κ σ : Type} {t : Template κ} {w w' : World κ σ} {site site' : Rendering → String → Prop}
  {still still' : NodeId → Prop}

/-- There are the methods that the directives name. -/
def Answers (t : Template κ) (ds : List Directive) : Prop :=
  ∀ d ∈ ds, ∀ event modifiers, d.kind = .on event modifiers → event.isEmpty = false →
    ∃ method, Table.find? d.expression t.methods = some method

theorem Answers.of_methods {t₀ : Template κ} {ds : List Directive} (h : t₀.Answers ds)
    (hmethods : t.methods = t₀.methods) : t.Answers ds := by
  intro d hd event modifiers hkind hevent
  rw [hmethods]
  exact h d hd event modifiers hkind hevent

/-- The element is as it was planted, apart from what is beneath it and from what is bound. -/
structure Furnished (t : Template κ) (w : World κ σ) (site : Rendering → String → Prop)
    (n : NodeId) (tag : String) (attributes : Attributes) : Prop where
  /-- There is the node. -/
  lt : n.index < w.nodes.size
  /-- It is the element. -/
  kind : (w.node n).kind = .element tag
  /-- There are the methods that its directives name. -/
  answers : t.Answers (directivesOf t.markers attributes)
  /-- It holds what its attributes say, or its form value is bound. -/
  plain : keyAt? .field (directivesOf t.markers attributes) = none →
    (w.node n).value = attributes.formValue
  /-- The form value is bound to the path of the directive for it. -/
  field : ∀ key, keyAt? .field (directivesOf t.markers attributes) = some key →
    site (.field n) key
  /-- It has the attributes. -/
  attributes : (w.node n).attributes = attributes

/-- The nodes are a compiled template, at most so many levels deep, and with what was planted
    beneath them they fill the places from one to another. Where a value is bound there is a
    site, and texts and comments without one are still what they were. -/
inductive Wired (t : Template κ) (w : World κ σ) (site : Rendering → String → Prop)
    (still : NodeId → Prop) : Nat → Nat → List NodeId → List Tree → Nat → Prop
  /-- No nodes fill no places. -/
  | nil {depth start : Nat} : Wired t w site still depth start [] [] start
  /-- A text without an expression. -/
  | text {depth start stop : Nat} {content : String} {ns : List NodeId} {ts : List Tree}
      (hlt : start < w.nodes.size) (hfind : Interpolation.find? t.markers content = none)
      (hkind : (w.node ⟨start⟩).kind = .text content) (hstill : still ⟨start⟩)
      (hns : Wired t w site still (depth + 1) (start + 1) ns ts stop) :
      Wired t w site still (depth + 1) start (⟨start⟩ :: ns) (.text content :: ts) stop
  /-- A text with an expression. -/
  | interpolated {depth start stop : Nat} {content shown : String} {i : Interpolation}
      {ns : List NodeId} {ts : List Tree} (hlt : start < w.nodes.size)
      (hfind : Interpolation.find? t.markers content = some i)
      (hkind : (w.node ⟨start⟩).kind = .text shown) (hsite : site (.interpolated ⟨start⟩ i) i.key)
      (hns : Wired t w site still (depth + 1) (start + 1) ns ts stop) :
      Wired t w site still (depth + 1) start (⟨start⟩ :: ns) (.text content :: ts) stop
  /-- A comment. -/
  | comment {depth start stop : Nat} {content : String} {ns : List NodeId} {ts : List Tree}
      (hlt : start < w.nodes.size) (hkind : (w.node ⟨start⟩).kind = .comment content)
      (hstill : still ⟨start⟩) (hns : Wired t w site still (depth + 1) (start + 1) ns ts stop) :
      Wired t w site still (depth + 1) start (⟨start⟩ :: ns) (.comment content :: ts) stop
  /-- An element with its children. -/
  | element {depth start middle stop : Nat} {tag : String} {attributes : Attributes}
      {children : List Tree} {ns : List NodeId} {ts : List Tree}
      (helement : t.Furnished w site ⟨start⟩ tag attributes)
      (hlabel : keyAt? .beneath (directivesOf t.markers attributes) = none)
      (hchildren : Wired t w site still depth (start + 1) (w.node ⟨start⟩).children children middle)
      (hns : Wired t w site still (depth + 1) middle ns ts stop) :
      Wired t w site still (depth + 1) start (⟨start⟩ :: ns)
        (.element tag attributes children :: ts)
        stop
  /-- An element that shows a text instead of its children. -/
  | label {depth start middle stop : Nat} {tag key : String} {attributes : Attributes}
      {children : List Tree} {ns : List NodeId} {ts : List Tree}
      (helement : t.Furnished w site ⟨start⟩ tag attributes)
      (hlabel : keyAt? .beneath (directivesOf t.markers attributes) = some key)
      (hsite : site (.text ⟨start⟩) key) (hmiddle : start < middle)
      (hns : Wired t w site still (depth + 1) middle ns ts stop) :
      Wired t w site still (depth + 1) start (⟨start⟩ :: ns)
        (.element tag attributes children :: ts)
        stop

/-- The node is as it was, apart from what is bound if it is a node of a template. -/
structure Keeps (t : Template κ) (a b : Node κ) : Prop where
  /-- It has its attributes. -/
  attributes : b.attributes = a.attributes
  /-- It is the same element. -/
  element : ∀ tag, a.kind = .element tag → b.kind = .element tag
  /-- It is a text as it was one. -/
  text : ∀ content, a.kind = .text content → ∃ shown, b.kind = .text shown
  /-- It holds what it held, or its form value is bound. -/
  value : keyAt? .field (directivesOf t.markers a.attributes) = none → b.value = a.value
  /-- It has its children, or shows a text. -/
  children : keyAt? .beneath (directivesOf t.markers a.attributes) = none →
    b.children = a.children

theorem Keeps.of_loose {a b : Node κ} (h : b.loose = a.loose) : t.Keeps a b where
  attributes := Node.attributes_of_loose h
  element _ hkind := (Node.kind_of_loose h).trans hkind
  text content hkind := ⟨content, (Node.kind_of_loose h).trans hkind⟩
  value _ := Node.value_of_loose h
  children _ := Node.children_of_loose h

theorem Furnished.keep {n : NodeId} {tag : String} {attributes : Attributes}
    (h : t.Furnished w site n tag attributes) (hgrown : w.nodes.size ≤ w'.nodes.size)
    (hkeeps : t.Keeps (w.node n) (w'.node n))
    (hsite : ∀ key, site (.field n) key → site' (.field n) key) :
    t.Furnished w' site' n tag attributes where
  lt := Nat.lt_of_lt_of_le h.lt hgrown
  kind := hkeeps.element tag h.kind
  attributes := hkeeps.attributes.trans h.attributes
  answers := h.answers
  plain hfield := (hkeeps.value (by rw [h.attributes]; exact hfield)).trans (h.plain hfield)
  field key hfield := hsite key (h.field key hfield)

/-- What has been compiled in some places is carried over from one world to another. -/
structure Carries (t : Template κ) (w : World κ σ) (site : Rendering → String → Prop)
    (still : NodeId → Prop) (w' : World κ σ) (site' : Rendering → String → Prop)
    (still' : NodeId → Prop) (start stop : Nat) : Prop where
  /-- There may be more nodes. -/
  grown : w.nodes.size ≤ w'.nodes.size
  /-- The nodes are as they were, apart from what is bound. -/
  keeps : ∀ n : NodeId, n.index < w.nodes.size → start ≤ n.index → n.index < stop →
    t.Keeps (w.node n) (w'.node n)
  /-- What is still what it was goes on being that. -/
  still : ∀ n : NodeId, n.index < w.nodes.size → start ≤ n.index → n.index < stop → still n →
    still' n ∧ (w'.node n).kind = (w.node n).kind
  /-- Sites are sites. -/
  site : ∀ r key, r.target.index < w.nodes.size → start ≤ r.target.index →
    r.target.index < stop → site r key → site' r key

theorem Carries.mono {start stop start' stop' : Nat}
    (h : t.Carries w site still w' site' still' start stop) (hstart : start ≤ start')
    (hstop : stop' ≤ stop) : t.Carries w site still w' site' still' start' stop' where
  grown := h.grown
  keeps n hn hlow hhigh := h.keeps n hn (Nat.le_trans hstart hlow) (Nat.lt_of_lt_of_le hhigh hstop)
  still n hn hlow hhigh := h.still n hn (Nat.le_trans hstart hlow) (Nat.lt_of_lt_of_le hhigh hstop)
  site r key hn hlow hhigh :=
    h.site r key hn (Nat.le_trans hstart hlow) (Nat.lt_of_lt_of_le hhigh hstop)

/-- The trees ask for this binding, and for no other one that changes the same. -/
structure Asks (t : Template κ) (w : World κ σ) (ts : List Tree) (r : Rendering) (key : String) :
    Prop where
  /-- The path is bound. -/
  bound : (r.aspect, key) ∈ Tree.bindingsAll t.markers ts
  /-- Its node has room for it alone. -/
  alone : (w.node r.target).room t.markers r.aspect = 1
  /-- It puts no markup anywhere. -/
  text : r.aspect = .beneath → r = .text r.target

section Asks

variable {n : NodeId} {r : Rendering} {tag key : String} {attributes : Attributes} {tree : Tree}
  {children ts : List Tree}

theorem Asks.tail (h : t.Asks w ts r key) : t.Asks w (tree :: ts) r key :=
  ⟨Tree.mem_bindingsAll_tail h.bound, h.alone, h.text⟩

theorem Asks.beneath (h : t.Asks w children r key)
    (hlabel : keyAt? .beneath (directivesOf t.markers attributes) = none) :
    t.Asks w (.element tag attributes children :: ts) r key :=
  ⟨Tree.mem_bindingsAll_head (Tree.mem_bindings_children hlabel h.bound), h.alone, h.text⟩

/-- A tame directive of an element asks for its binding. -/
theorem Furnished.asks (h : t.Furnished w site n tag attributes)
    (htame : TameDirectives (directivesOf t.markers attributes)) (htarget : r.target = n)
    (hown : r.aspect ≠ .own) (htext : r.aspect = .beneath → r = .text r.target)
    (hkey : keyAt? r.aspect (directivesOf t.markers attributes) = some key) :
    t.Asks w (.element tag attributes children :: ts) r key := by
  refine ⟨?_, ?_, htext⟩
  · rcases exists_mem_of_keyAt? hkey with ⟨d, hd, haspect, rfl⟩
    exact Tree.mem_bindingsAll_head (Tree.mem_bindings_directive hd haspect)
  · have hone := Nat.le_antisymm (htame.single r.aspect) (aspectCount_pos_of_keyAt? hkey)
    rw [← h.attributes, ← htarget] at hone
    cases ha : r.aspect with
    | own => exact absurd ha hown
    | beneath | field =>
        rw [ha] at hone
        exact hone

/-- An element has a site for its form value if its directive asks for one. -/
theorem Furnished.asked (h : t.Furnished w site n tag attributes)
    (htame : TameDirectives (directivesOf t.markers attributes))
    (hsite : ∀ r key, site r key → t.Asks w (.element tag attributes children :: ts) r key →
      site' r key) : t.Furnished w site' n tag attributes where
  lt := h.lt
  kind := h.kind
  answers := h.answers
  plain := h.plain
  field key hfield := hsite _ key (h.field key hfield) (h.asks htame rfl nofun nofun hfield)
  attributes := h.attributes

end Asks

namespace Wired

variable {depth start stop : Nat} {ns : List NodeId} {ts : List Tree}

theorem le (h : t.Wired w site still depth start ns ts stop) : start ≤ stop := by
  induction h with
  | nil => exact Nat.le_refl _
  | text _ _ _ _ _ ih => exact Nat.le_of_lt ih
  | interpolated _ _ _ _ _ ih => exact Nat.le_of_lt ih
  | comment _ _ _ _ ih => exact Nat.le_of_lt ih
  | element _ _ _ _ ihc ih => exact Nat.le_trans (Nat.le_of_lt ihc) ih
  | label _ _ _ hmiddle _ ih => exact Nat.le_trans (Nat.le_of_lt hmiddle) ih

theorem start_le (h : t.Wired w site still depth start ns ts stop) :
    ∀ n ∈ ns, start ≤ n.index := by
  induction h with
  | nil => exact fun n hn => absurd hn List.not_mem_nil
  | text _ _ _ _ _ ih =>
      exact List.forall_mem_cons.mpr ⟨Nat.le_refl _, fun n hn => Nat.le_of_lt (ih n hn)⟩
  | interpolated _ _ _ _ _ ih =>
      exact List.forall_mem_cons.mpr ⟨Nat.le_refl _, fun n hn => Nat.le_of_lt (ih n hn)⟩
  | comment _ _ _ _ ih =>
      exact List.forall_mem_cons.mpr ⟨Nat.le_refl _, fun n hn => Nat.le_of_lt (ih n hn)⟩
  | element _ _ hchildren _ _ ih =>
      exact List.forall_mem_cons.mpr
        ⟨Nat.le_refl _, fun n hn => Nat.le_trans (Nat.le_of_lt hchildren.le) (ih n hn)⟩
  | label _ _ _ hmiddle _ ih =>
      exact List.forall_mem_cons.mpr
        ⟨Nat.le_refl _, fun n hn => Nat.le_trans (Nat.le_of_lt hmiddle) (ih n hn)⟩

/-- Nodes that are left as they were, apart from what is bound. -/
theorem congr (h : t.Wired w site still depth start ns ts stop)
    (hcarries : t.Carries w site still w' site' still' start stop) :
    t.Wired w' site' still' depth start ns ts stop := by
  have hgrown := hcarries.grown
  induction h with
  | nil => exact .nil
  | @text depth start stop content ns ts hlt hfind hkind hplace hns ih =>
      have hstop := hns.le
      rcases hcarries.still ⟨start⟩ hlt (Nat.le_refl _) hstop hplace with ⟨hplace', hsame⟩
      exact .text (Nat.lt_of_lt_of_le hlt hgrown) hfind (hsame.trans hkind) hplace'
        (ih (hcarries.mono (Nat.le_succ start) (Nat.le_refl _)))
  | @interpolated depth start stop content shown i ns ts hlt hfind hkind hplace hns ih =>
      have hstop := hns.le
      rcases (hcarries.keeps ⟨start⟩ hlt (Nat.le_refl _) hstop).text shown hkind with
        ⟨shown', hkind'⟩
      exact .interpolated (Nat.lt_of_lt_of_le hlt hgrown) hfind hkind'
        (hcarries.site (.interpolated ⟨start⟩ i) i.key hlt (Nat.le_refl _) hstop hplace)
        (ih (hcarries.mono (Nat.le_succ start) (Nat.le_refl _)))
  | @comment depth start stop content ns ts hlt hkind hplace hns ih =>
      have hstop := hns.le
      rcases hcarries.still ⟨start⟩ hlt (Nat.le_refl _) hstop hplace with ⟨hplace', hsame⟩
      exact .comment (Nat.lt_of_lt_of_le hlt hgrown) (hsame.trans hkind) hplace'
        (ih (hcarries.mono (Nat.le_succ start) (Nat.le_refl _)))
  | @element depth start middle stop tag attributes children ns ts helement hlabel hchildren hns
      ihc ih =>
      have hmiddle := hchildren.le
      have hstart : start < stop := Nat.lt_of_lt_of_le hmiddle hns.le
      have hself := hcarries.keeps ⟨start⟩ helement.lt (Nat.le_refl _) hstart
      have hsites := fun key =>
        hcarries.site (.field ⟨start⟩) key helement.lt (Nat.le_refl _) hstart
      refine .element (helement.keep hgrown hself hsites) hlabel ?_
        (ih (hcarries.mono (Nat.le_of_lt hmiddle) (Nat.le_refl _)))
      rw [hself.children (by rw [helement.attributes]; exact hlabel)]
      exact ihc (hcarries.mono (Nat.le_succ start) hns.le)
  | @label depth start middle stop tag key attributes children ns ts helement hlabel hplace
      hmiddle hns ih =>
      have hstart : start < stop := Nat.lt_of_lt_of_le hmiddle hns.le
      have hself := hcarries.keeps ⟨start⟩ helement.lt (Nat.le_refl _) hstart
      have hsites := fun key =>
        hcarries.site (.field ⟨start⟩) key helement.lt (Nat.le_refl _) hstart
      exact .label (helement.keep hgrown hself hsites) hlabel
        (hcarries.site (.text ⟨start⟩) key helement.lt (Nat.le_refl _) hstart hplace) hmiddle
        (ih (hcarries.mono (Nat.le_of_lt hmiddle) (Nat.le_refl _)))

/-- Whatever is a site is one that the trees ask for, if they are tame. -/
theorem asked (h : t.Wired w site still depth start ns ts stop)
    (htame : Tree.TameAll t.markers ts)
    (hsite : ∀ r key, site r key → t.Asks w ts r key → site' r key) :
    t.Wired w site' still depth start ns ts stop := by
  induction h with
  | nil => exact .nil
  | text hlt hfind hkind hstill _ ih =>
      exact .text hlt hfind hkind hstill
        (ih htame.2 fun r key hs hasks => hsite r key hs hasks.tail)
  | interpolated hlt hfind hkind hs _ ih =>
      refine .interpolated hlt hfind hkind (hsite _ _ hs ⟨?_, rfl, ?_⟩)
        (ih htame.2 fun r key hs hasks => hsite r key hs hasks.tail)
      · exact Tree.mem_bindingsAll_head (Tree.mem_bindings_text hfind)
      · exact fun ha => absurd ha (by
          simp only [Rendering.aspect, reduceCtorEq, not_false_eq_true])
  | comment hlt hkind hstill _ ih =>
      exact .comment hlt hkind hstill (ih htame.2 fun r key hs hasks => hsite r key hs hasks.tail)
  | element helement hlabel _ _ ihc ih =>
      refine .element (helement.asked htame.1.1 hsite) hlabel
        (ihc htame.1.2 fun r key hs hasks => hsite r key hs (hasks.beneath hlabel))
        (ih htame.2 fun r key hs hasks => hsite r key hs hasks.tail)
  | @label _ start _ _ tag key attributes children _ ts helement hlabel hs hmiddle _ ih =>
      have hasks : t.Asks w (.element tag attributes children :: ts) (.text ⟨start⟩) key :=
        helement.asks htame.1.1 rfl (by rintro ⟨⟩) (fun _ => rfl) hlabel
      exact .label (helement.asked htame.1.1 hsite) hlabel (hsite _ _ hs hasks) hmiddle
        (ih htame.2 fun r key hs hasks => hsite r key hs hasks.tail)

section Outline

open World

variable {look : String → String}

/-- As deep as there are nodes left, there is a level for a node. -/
theorem exists_limit {start limit size : Nat} (hlt : start < size) (hroom : size ≤ start + limit) :
    ∃ k, limit = k + 1 :=
  Nat.exists_eq_succ_of_ne_zero (by omega)

theorem value_of_furnished {n : NodeId} {tag : String} {attributes : Attributes}
    (h : t.Furnished w site n tag attributes)
    (hbears : ∀ key, site (.field n) key →
      w.Bears (fun c => n.index < c.index) (.field n) (look key)) :
    (w.node n).value = ((keyAt? .field (directivesOf t.markers attributes)).map look).getD
      attributes.formValue := by
  cases hfield : keyAt? .field (directivesOf t.markers attributes) with
  | none => exact h.plain hfield
  | some key => exact hbears key (h.field key hfield)

/-- An element that shows a text has the line of this text beneath it. -/
theorem outlineWithin?_label {limit level : Nat} {n : NodeId} {shown : String}
    (hbears : w.Bears (fun c => n.index < c.index) (.text n) shown)
    (hlimit : w.nodes.size ≤ n.index + (limit + 1)) :
    gather? (w.outlineWithin? limit level) (w.node n).children =
      some (if shown.isEmpty then [] else [⟨level, .text shown⟩]) := by
  have hstand : w.StandFor (fun c => n.index < c.index) (w.node n).children
      (if shown.isEmpty then [] else [.text shown]) := hbears
  generalize (w.node n).children = cs at hstand ⊢
  split at hstand
  · next hempty =>
      cases hstand
      rw [if_pos hempty]
      rfl
  · next hempty =>
      rw [if_neg hempty]
      cases hstand with
      | @text c _ _ _ hbehind hlt hkind hns =>
          cases hns
          have hroom : w.nodes.size ≤ c.index + limit := by omega
          rcases exists_limit hlt hroom with ⟨limit, rfl⟩
          simp only [gather?, outlineWithin?, hkind, List.append_nil]

/-- If every site shows what the value at its path looks like, the view is the picture. -/
theorem outline_eq (h : t.Wired w site still depth start ns ts stop) (limit level : Nat)
    (hbears : ∀ r key, site r key → w.Bears (fun c => r.target.index < c.index) r (look key))
    (hlimit : ∀ n ∈ ns, w.nodes.size ≤ n.index + limit) :
    gather? (w.outlineWithin? limit level) ns =
      some (Tree.pictureAll t.markers look level ts) := by
  induction h generalizing limit level with
  | nil => rfl
  | @text _ start _ content _ _ hlt hfind hkind _ _ ih =>
      rw [List.forall_mem_cons] at hlimit
      have hrest := ih limit level hlimit.2
      rcases exists_limit hlt hlimit.1 with ⟨limit, rfl⟩
      have hself : w.outlineWithin? (limit + 1) level ⟨start⟩ = some [⟨level, .text content⟩] := by
        simp only [outlineWithin?, hkind]
      simp only [gather?, hself, hrest, Tree.pictureAll, Tree.picture, hfind]
  | @interpolated _ start _ _ _ i _ _ hlt hfind _ hsite _ ih =>
      rw [List.forall_mem_cons] at hlimit
      have hrest := ih limit level hlimit.2
      rcases exists_limit hlt hlimit.1 with ⟨limit, rfl⟩
      have hkind : (w.node ⟨start⟩).kind = .text (i.render (look i.key)) := hbears _ _ hsite
      have hself : w.outlineWithin? (limit + 1) level ⟨start⟩ =
          some [⟨level, .text (i.render (look i.key))⟩] := by
        simp only [outlineWithin?, hkind]
      simp only [gather?, hself, hrest, Tree.pictureAll, Tree.picture, hfind]
  | @comment _ start _ content _ _ hlt hkind _ _ ih =>
      rw [List.forall_mem_cons] at hlimit
      have hrest := ih limit level hlimit.2
      rcases exists_limit hlt hlimit.1 with ⟨limit, rfl⟩
      have hself : w.outlineWithin? (limit + 1) level ⟨start⟩ =
          some [⟨level, .comment content⟩] := by
        simp only [outlineWithin?, hkind]
      simp only [gather?, hself, hrest, Tree.pictureAll, Tree.picture]
  | @element _ start _ _ tag attributes children _ _ helement hlabel hchildren _ ihc ih =>
      rw [List.forall_mem_cons] at hlimit
      have hrest := ih limit level hlimit.2
      have hroom : w.nodes.size ≤ start + limit := hlimit.1
      rcases exists_limit helement.lt hroom with ⟨limit, rfl⟩
      have hbelow := ihc limit (level + 1) fun c hc => by
        have hbehind := hchildren.start_le c hc
        omega
      have hvalue := value_of_furnished helement fun key => hbears (.field ⟨start⟩) key
      have hself : w.outlineWithin? (limit + 1) level ⟨start⟩ =
          some (Tree.picture t.markers look level (.element tag attributes children)) := by
        simp only [outlineWithin?, helement.kind, hbelow, Option.map_some, helement.attributes,
          hvalue, Tree.picture, hlabel]
      simp only [gather?, hself, hrest, Tree.pictureAll]
  | @label _ start _ _ tag key attributes children _ _ helement hlabel hsite _ _ ih =>
      rw [List.forall_mem_cons] at hlimit
      have hrest := ih limit level hlimit.2
      have hroom : w.nodes.size ≤ start + limit := hlimit.1
      rcases exists_limit helement.lt hroom with ⟨limit, rfl⟩
      have hbelow : gather? (w.outlineWithin? limit (level + 1)) (w.node ⟨start⟩).children =
          some (if (look key).isEmpty then [] else [⟨level + 1, .text (look key)⟩]) :=
        outlineWithin?_label (hbears _ _ hsite) hroom
      have hvalue := value_of_furnished helement fun key => hbears (.field ⟨start⟩) key
      have hself : w.outlineWithin? (limit + 1) level ⟨start⟩ =
          some (Tree.picture t.markers look level (.element tag attributes children)) := by
        simp only [outlineWithin?, helement.kind, hbelow, Option.map_some, helement.attributes,
          hvalue, Tree.picture, hlabel]
      simp only [gather?, hself, hrest, Tree.pictureAll]

end Outline

end Wired

end Template

end LiveTemplate
