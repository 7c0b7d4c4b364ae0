import LiveTemplate.Proofs.Binding.Compiling

/-!
# The Sites of a Template

Where a template shows values, read off its markup.

A text shows a value in place of its first expression, and an element shows one beneath
it, or as its form value, for a directive that asks for it. What stands beneath an
element that shows a text gives way to the text, so nothing is bound there.

If no element has two directives for the same thing, and no directive puts markup
anywhere, then the markup and the values together say what the view is like, down to
the last line. This is its picture.

## Main definitions

* `keyAt?`: The path of a directive that changes an aspect of its element.
* `TameDirectives`, `Tree.Tame`: No markup from values, and no two directives for the same.
* `Tree.bindings`: What is bound, and to which paths.
* `Tree.picture`: What the view is like.
* `Tree.Calm`: No text from a value has an expression.
* `Json.look`: What the value at a path looks like.
-/

namespace LiveTemplate

open Markup

/-- The path of the first directive that changes this aspect of its element. -/
def keyAt? (a : Aspect) (ds : List Directive) : Option String :=
  (ds.find? fun d => d.kind.aspect? == some a).map (·.expression)

section KeyAt

variable {a : Aspect} {ds : List Directive} {key : String}

theorem keyAt?_eq_none_iff : keyAt? a ds = none ↔ aspectCount a ds = 0 := by
  rw [keyAt?, Option.map_eq_none_iff, List.find?_eq_none, aspectCount, List.countP_eq_zero]

theorem exists_mem_of_keyAt? (h : keyAt? a ds = some key) :
    ∃ d ∈ ds, d.kind.aspect? = some a ∧ d.expression = key := by
  rcases Option.map_eq_some_iff.mp h with ⟨d, hd, hkey⟩
  have haspect := List.find?_some hd
  exact ⟨d, List.mem_of_find?_eq_some hd, beq_iff_eq.mp haspect, hkey⟩

theorem aspectCount_pos_of_keyAt? (h : keyAt? a ds = some key) : 0 < aspectCount a ds := by
  rcases exists_mem_of_keyAt? h with ⟨d, hd, haspect, _⟩
  exact List.countP_pos_iff.mpr ⟨d, hd, beq_iff_eq.mpr haspect⟩

end KeyAt

/-- None of the directives puts markup beneath its element, and no two of them change the
    same aspect of it. -/
structure TameDirectives (ds : List Directive) : Prop where
  /-- None of them puts markup beneath the element. -/
  html : ∀ d ∈ ds, d.kind ≠ .html
  /-- At most one shows a text there, and at most one is for the form value. -/
  single : ∀ a, aspectCount a ds ≤ 1

/-- A directive that puts something beneath its element shows a text there. -/
theorem TameDirectives.text {ds : List Directive} (h : TameDirectives ds) {d : Directive}
    (hd : d ∈ ds) (haspect : d.kind.aspect? = some .beneath) : d.kind = .text := by
  cases hkind : d.kind with
  | text => rfl
  | html => exact absurd hkind (h.html d hd)
  | _ =>
      rw [hkind] at haspect
      exact absurd haspect (by simp only [Directive.Kind.aspect?, Option.some.injEq, reduceCtorEq,
        not_false_eq_true])

namespace Markup.Tree

mutual

/-- The directives of every element in the tree are tame. -/
def Tame (markers : Markers) : Tree → Prop
  | text _ => True
  | comment _ => True
  | element _ attributes children =>
    TameDirectives (directivesOf markers attributes) ∧ TameAll markers children

/-- The directives of every element in the forest are tame. -/
def TameAll (markers : Markers) : List Tree → Prop
  | [] => True
  | t :: ts => Tame markers t ∧ TameAll markers ts

end

mutual

/-- What is bound when the tree is compiled, and to which paths. What stands beneath an element
    that shows a text gives way to the text. -/
def bindings (markers : Markers) : Tree → List (Aspect × String)
  | text content => ((Interpolation.find? markers content).map fun i => (Aspect.own, i.key)).toList
  | comment _ => []
  | element _ attributes children =>
    let ds := directivesOf markers attributes
    (ds.filterMap fun d => d.kind.aspect?.map (·, d.expression)) ++
      if (keyAt? .beneath ds).isSome then [] else bindingsAll markers children

/-- What is bound when the forest is compiled, and to which paths. -/
def bindingsAll (markers : Markers) : List Tree → List (Aspect × String)
  | [] => []
  | t :: ts => bindings markers t ++ bindingsAll markers ts

end

mutual

/-- What the view of a compiled tree is like at some depth, when the values at the paths look
    like this. -/
def picture (markers : Markers) (look : String → String) (depth : Nat) : Tree → List OutlineLine
  | text content =>
    match Interpolation.find? markers content with
    | none => [⟨depth, .text content⟩]
    | some i => [⟨depth, .text (i.render (look i.key))⟩]
  | comment content => [⟨depth, .comment content⟩]
  | element tag attributes children =>
    let ds := directivesOf markers attributes
    ⟨depth, .element tag attributes (((keyAt? .field ds).map look).getD attributes.formValue)⟩ ::
      match keyAt? .beneath ds with
      | none => pictureAll markers look (depth + 1) children
      | some key => if (look key).isEmpty then [] else [⟨depth + 1, .text (look key)⟩]

/-- What the view of a compiled forest is like. -/
def pictureAll (markers : Markers) (look : String → String) (depth : Nat) :
    List Tree → List OutlineLine
  | [] => []
  | t :: ts => picture markers look depth t ++ pictureAll markers look depth ts

end

section Bindings

variable {markers : Markers} {a : Aspect} {key content tag : String} {attributes : Attributes}
  {t : Tree} {children ts : List Tree}

theorem mem_bindingsAll_head {x : Aspect × String} (h : x ∈ bindings markers t) :
    x ∈ bindingsAll markers (t :: ts) :=
  List.mem_append_left _ h

theorem mem_bindingsAll_tail {x : Aspect × String} (h : x ∈ bindingsAll markers ts) :
    x ∈ bindingsAll markers (t :: ts) :=
  List.mem_append_right _ h

theorem mem_bindings_text {i : Interpolation} (h : Interpolation.find? markers content = some i) :
    (Aspect.own, i.key) ∈ bindings markers (text content) := by
  rw [bindings, h]
  exact List.mem_cons_self

theorem mem_bindings_directive {d : Directive} (hd : d ∈ directivesOf markers attributes)
    (haspect : d.kind.aspect? = some a) :
    (a, d.expression) ∈ bindings markers (element tag attributes children) := by
  refine List.mem_append_left _ (List.mem_filterMap.mpr ⟨d, hd, ?_⟩)
  rw [haspect]
  rfl

theorem mem_bindings_children {x : Aspect × String}
    (hlabel : keyAt? .beneath (directivesOf markers attributes) = none)
    (h : x ∈ bindingsAll markers children) :
    x ∈ bindings markers (element tag attributes children) := by
  refine List.mem_append_right _ ?_
  rw [hlabel]
  exact h

theorem bindingsAll_singleton : bindingsAll markers [t] = bindings markers t :=
  List.append_nil _

end Bindings

/-- No value of the data that is shown as the text of an element has an expression. -/
def Calm (markers : Markers) (j : Json) (t : Tree) : Prop :=
  ∀ key v, (Aspect.beneath, key) ∈ bindings markers t → j.at? (segmentsOfPath key) = some v →
    Interpolation.find? markers v.display = none

end Markup.Tree

/-- What the value at a path looks like. -/
def Json.look (j : Json) (key : String) : String :=
  ((j.at? (segmentsOfPath key)).map display).getD ""

theorem Json.look_of_at? {j v : Json} {key : String} (h : j.at? (segmentsOfPath key) = some v) :
    j.look key = v.display := by
  rw [look, h]
  rfl

end LiveTemplate
