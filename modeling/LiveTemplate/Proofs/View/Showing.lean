import LiveTemplate.Binding.Compile
import LiveTemplate.Proofs.Reaction.Upkeep
import LiveTemplate.Proofs.View.Redrawing

/-!
# What Bindings Show

When a node shows the value of a binding, and why showing one value leaves the others
shown.

A text shows a value in place of its expression and a form field holds it. What an
element shows is a forest beneath it, and that forest has nodes of its own, which may
be bound as well: what has been put there when a template is compiled is compiled,
too. So a forest counts as shown only if no watcher shows anything in it. It was
compiled without any effect if it was plain, which means that no text in it has an
expression and no element in it has a directive. Every forest that comes later is not
compiled at all.

Two watchers that change the same aspect of the same node get in each other's way,
and then nothing is said about either. Otherwise showing a value at a node leaves
what the others show: the other aspects of the node are kept, and so are the other
nodes.

## Main definitions

* `World.Renders`: A watcher shows its value by a rendering.
* `World.Sole`: No other watcher changes the same aspect of the same node.
* `World.Quiet`: No watcher shows anything at a node.
* `Node.IsPlain`, `Tree.PlainAll`: Nothing asks for a value or a method.
* `World.Holds`: A text is shown by a rendering.
* `Display.view`: The display of the view.

## Theorems

* `Holds.of_redrawn`: What is shown elsewhere stays.
* `holds_render`: What has been rendered is shown.
* `textContent?_of_holds`, `trees?_of_holds`: What can be read off a node then.
-/

namespace LiveTemplate

open Markup

namespace Markup.Tree

mutual

/-- No text in the tree has an expression and no element in it has a directive. -/
def Plain (markers : Markers) : Tree → Prop
  | text content => Interpolation.find? markers content = none
  | comment _ => True
  | element _ attributes children =>
    directivesOf markers attributes = [] ∧ PlainAll markers children

/-- No text in the forest has an expression and no element in it has a directive. -/
def PlainAll (markers : Markers) : List Tree → Prop
  | [] => True
  | t :: ts => Plain markers t ∧ PlainAll markers ts

end

end Markup.Tree

/-- The node is no text with an expression and no element with a directive. -/
structure Node.IsPlain {κ : Type} (markers : Markers) (node : Node κ) : Prop where
  /-- As a text it has no expression. -/
  text : ∀ content, node.kind = .text content → Interpolation.find? markers content = none
  /-- As an element it has no directive. -/
  element : ∀ tag, node.kind = .element tag → directivesOf markers node.attributes = []

theorem Node.isPlain_congr {κ : Type} {markers : Markers} {a b : Node κ} (hkind : a.kind = b.kind)
    (hattributes : a.attributes = b.attributes) : a.IsPlain markers ↔ b.IsPlain markers := by
  constructor
  · rintro ⟨htext, helement⟩
    rw [hkind] at htext helement
    rw [hattributes] at helement
    exact ⟨htext, helement⟩
  · rintro ⟨htext, helement⟩
    rw [← hkind] at htext helement
    rw [← hattributes] at helement
    exact ⟨htext, helement⟩

/-- The nodes of a plain forest are plain. -/
theorem World.StandFor.plain {κ σ : Type} {markers : Markers} {w : World κ σ}
    {ok : NodeId → Prop} {ns : List NodeId} {ts : List Tree} (h : w.StandFor ok ns ts)
    (hplain : Tree.PlainAll markers ts) :
    w.StandFor (fun n => ok n ∧ (w.node n).IsPlain markers) ns ts := by
  induction h with
  | nil => exact .nil
  | text hok hlt hkind _ ih =>
      refine .text ⟨hok, ?_, ?_⟩ hlt hkind (ih hplain.2)
      · intro content hcontent
        rw [hkind] at hcontent
        injection hcontent with hcontent
        rw [← hcontent]
        exact hplain.1
      · intro tag htag
        rw [hkind] at htag
        exact absurd htag (by simp only [reduceCtorEq, not_false_eq_true])
  | comment hok hlt hkind _ ih =>
      refine .comment ⟨hok, ?_, ?_⟩ hlt hkind (ih hplain.2)
      · intro content hcontent
        rw [hkind] at hcontent
        exact absurd hcontent (by simp only [reduceCtorEq, not_false_eq_true])
      · intro tag htag
        rw [hkind] at htag
        exact absurd htag (by simp only [reduceCtorEq, not_false_eq_true])
  | element hok hlt hkind hbehind _ _ ihc ih =>
      refine .element ⟨hok, ?_, ?_⟩ hlt hkind hbehind (ihc hplain.1.2) (ih hplain.2)
      · intro content hcontent
        rw [hkind] at hcontent
        exact absurd hcontent (by simp only [reduceCtorEq, not_false_eq_true])
      · exact fun _ _ => hplain.1.1

variable {ν τ : Type}

namespace World

/-- The watcher shows its value by the rendering. -/
def Renders (w : ClientWorld ν τ) (s : SubscriberId) (r : Rendering) : Prop :=
  ∃ wt, w.subscriber? s = some (.watcher wt) ∧ wt.effect = .render r

/-- No other watcher changes the same aspect of the same node. -/
def Sole (w : ClientWorld ν τ) (s : SubscriberId) (r : Rendering) : Prop :=
  ∀ t r', w.Renders t r' → r'.aspect = r.aspect → r'.target = r.target → t = s

/-- No watcher shows anything at the node. -/
def Quiet (w : ClientWorld ν τ) (n : NodeId) : Prop :=
  ∀ s r, w.Renders s r → r.target ≠ n

/-- Every watcher that shows something does so at a node of the right kind. -/
def Placed (w : ClientWorld ν τ) : Prop :=
  ∀ s r, w.Renders s r → r.target.index < w.nodes.size ∧ r.Fits (w.node r.target).kind

/-- The rendering has put the text into the view. A forest need be there only under a
    condition. Its nodes are quiet, and they may have to be like something. -/
def Holds (w : ClientWorld ν τ) (first : Prop) (keeps : Node (Code ν) → Prop) (r : Rendering)
    (shown : String) : Prop :=
  match r with
  | .interpolated n i => (w.node n).kind = .text (i.render shown)
  | .field n => (w.node n).value = shown
  | r => first → w.StandFor (fun c => r.target.index < c.index ∧ w.Quiet c ∧ keeps (w.node c))
      (w.node r.target).children (r.forest shown)

theorem holds_beneath_iff {w : ClientWorld ν τ} {first : Prop} {keeps : Node (Code ν) → Prop}
    {r : Rendering} {shown : String} (hr : r.aspect = .beneath) :
    w.Holds first keeps r shown ↔
      (first → w.StandFor (fun c => r.target.index < c.index ∧ w.Quiet c ∧ keeps (w.node c))
        (w.node r.target).children (r.forest shown)) := by
  cases r with
  | interpolated n i =>
      exact absurd hr (by simp only [Rendering.aspect, reduceCtorEq, not_false_eq_true])
  | field n => exact absurd hr (by simp only [Rendering.aspect, reduceCtorEq, not_false_eq_true])
  | text n => exact Iff.rfl
  | markup n => exact Iff.rfl

section Frame

variable {w w' : ClientWorld ν τ} {first : Prop} {keeps : Node (Code ν) → Prop} {r : Rendering}
  {shown : String}

/-- What is shown stays, if the node keeps the aspect in question and quiet nodes are as they
    were. -/
theorem Holds.frame (h : w.Holds first keeps r shown) (hgrown : w.nodes.size ≤ w'.nodes.size)
    (hown : r.aspect = .own → (w'.node r.target).kind = (w.node r.target).kind)
    (hfield : r.aspect = .field → (w'.node r.target).value = (w.node r.target).value)
    (hbeneath : r.aspect = .beneath → (w'.node r.target).children = (w.node r.target).children)
    (hkept : ∀ c : NodeId, c.index < w.nodes.size → r.target.index < c.index → w.Quiet c →
      keeps (w.node c) → (w'.Quiet c ∧ keeps (w'.node c)) ∧
        (w'.node c).kind = (w.node c).kind ∧ (w'.node c).attributes = (w.node c).attributes ∧
        (w'.node c).children = (w.node c).children) :
    w'.Holds first keeps r shown := by
  by_cases hr : r.aspect = .beneath
  · rw [holds_beneath_iff hr] at h ⊢
    intro hfirst
    rw [hbeneath hr]
    refine (h hfirst).mono hgrown ?_
    rintro c ⟨hbehind, hquiet, hkeeps⟩ hlt
    rcases hkept c hlt hbehind hquiet hkeeps with ⟨hafter, hparts⟩
    exact ⟨⟨hbehind, hafter⟩, hparts⟩
  · cases r with
    | interpolated n i => exact (hown rfl).trans h
    | field n => exact (hfield rfl).trans h
    | text n => exact absurd rfl hr
    | markup n => exact absurd rfl hr

/-- What is shown stays when another aspect or another node is redrawn, unless that node is
    quiet and could be part of what is shown. -/
theorem Holds.of_redrawn {n : NodeId} {a : Aspect} (h : w.Holds first keeps r shown)
    (hredrawn : w.Redrawn w' n a) (hr : r.target.index < w.nodes.size)
    (hother : r.target = n → r.aspect ≠ a) (hn : w.Quiet n → ¬keeps (w.node n))
    (hquiet : ∀ c, w.Quiet c → keeps (w.node c) → w'.Quiet c)
    (hkeeps : ∀ c : NodeId, c.index < w.nodes.size → c ≠ n → keeps (w.node c) →
      keeps (w'.node c)) : w'.Holds first keeps r shown := by
  refine h.frame hredrawn.grown ?_ ?_ ?_ ?_
  · intro ha
    by_cases htarget : r.target = n
    · rw [htarget]
      exact hredrawn.own fun hown => hother htarget (ha.trans hown.symm)
    · exact Node.kind_of_loose (hredrawn.others _ hr htarget)
  · intro ha
    by_cases htarget : r.target = n
    · rw [htarget]
      exact hredrawn.field fun hfield => hother htarget (ha.trans hfield.symm)
    · exact Node.value_of_loose (hredrawn.others _ hr htarget)
  · intro ha
    by_cases htarget : r.target = n
    · rw [htarget]
      exact hredrawn.beneath fun hbeneath => hother htarget (ha.trans hbeneath.symm)
    · exact Node.children_of_loose (hredrawn.others _ hr htarget)
  · intro c hlt _ hc hck
    have hne : c ≠ n := by
      rintro rfl
      exact hn hc hck
    have hloose := hredrawn.others c hlt hne
    exact ⟨⟨hquiet c hc hck, hkeeps c hlt hne hck⟩, Node.kind_of_loose hloose,
      Node.attributes_of_loose hloose, Node.children_of_loose hloose⟩

/-- What has been rendered is shown. The nodes beneath are new, so they are quiet. -/
theorem holds_render (hplaced : w.Placed) (hlt : r.target.index < w.nodes.size)
    (hfits : r.Fits (w.node r.target).kind)
    (hkeeps : first → (w.render r shown).StandFor
        (fun c => w.nodes.size ≤ c.index) ((w.render r shown).node r.target).children
          (r.forest shown) →
      (w.render r shown).StandFor
        (fun c => w.nodes.size ≤ c.index ∧ keeps ((w.render r shown).node c))
          ((w.render r shown).node r.target).children (r.forest shown)) :
    (w.render r shown).Holds first keeps r shown := by
  by_cases hr : r.aspect = .beneath
  · rw [holds_beneath_iff hr]
    intro hfirst
    have hnew := (beneath_render hr hlt hfits shown).1.mono (Nat.le_refl _)
      fun c hc _ => ⟨hc.1, rfl, rfl, rfl⟩
    refine (hkeeps hfirst hnew).mono (Nat.le_refl _) ?_
    rintro c ⟨hnew, hc⟩ _
    refine ⟨⟨Nat.lt_of_lt_of_le hlt hnew, ?_, hc⟩, rfl, rfl, rfl⟩
    rintro s r' ⟨wt, hs, heffect⟩ rfl
    rw [subscriber?_render] at hs
    exact absurd (hplaced s r' ⟨wt, hs, heffect⟩).1 (Nat.not_lt_of_le hnew)
  · cases r with
    | interpolated n i => exact own_render hlt hfits shown
    | field n => exact field_render hlt shown
    | text n => exact absurd rfl hr
    | markup n => exact absurd rfl hr

end Frame

section Reading

variable {w : ClientWorld ν τ} {first : Prop} {keeps : Node (Code ν) → Prop} {n : NodeId}
  {shown : String}

/-- An element with a text beneath it has this text as its visible content. -/
theorem textContent?_of_standFor {tag : String} (hlt : n.index < w.nodes.size)
    (hkind : (w.node n).kind = .element tag)
    (h : w.StandFor (n.index < ·.index) (w.node n).children ((Rendering.text n).forest shown)) :
    w.textContent? n = some shown := by
  have hself : w.StandFor (fun _ => True) [n]
      [.element tag (w.node n).attributes ((Rendering.text n).forest shown)] := by
    refine .element trivial hlt hkind h.forall_ok ?_ .nil
    exact h.mono (Nat.le_refl _) fun _ _ _ => ⟨trivial, rfl, rfl, rfl⟩
  rw [textContent?, hself.tree?_eq, Option.map_some, Tree.textContent, Rendering.forest]
  split
  · next hempty =>
      rw [String.isEmpty_iff.mp hempty]
      rfl
  · rw [Tree.visibleTexts, Tree.visibleTexts, Tree.visibleText, String.append_empty]

/-- An element that shows a text has this text as its visible content. -/
theorem textContent?_of_holds (h : w.Holds first keeps (.text n) shown) (hfirst : first)
    (hlt : n.index < w.nodes.size) (hfits : (Rendering.text n).Fits (w.node n).kind) :
    w.textContent? n = some shown := by
  rcases hfits with ⟨_, _, hown⟩ | ⟨tag, htag, _⟩
  · exact absurd hown (by simp only [Rendering.aspect, reduceCtorEq, not_false_eq_true])
  · exact textContent?_of_standFor hlt htag
      ((h hfirst).mono (Nat.le_refl _) fun _ hc _ => ⟨hc.1, rfl, rfl, rfl⟩)

/-- An element that shows markup has children that read as this markup. -/
theorem trees?_of_holds (h : w.Holds first keeps (.markup n) shown) (hfirst : first) :
    w.trees? (w.node n).children = some (parse shown) :=
  (h hfirst).trees?_eq

end Reading

end World

end LiveTemplate
