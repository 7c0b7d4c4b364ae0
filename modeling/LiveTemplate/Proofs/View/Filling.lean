import LiveTemplate.Proofs.Markup.Scanning
import LiveTemplate.Proofs.World.Access
import LiveTemplate.View.Structure
import Mathlib.Data.List.Induction
import Mathlib.Data.List.Pairwise

/-!
# Filling in a Form Field

What the attributes and the form value of a node tell of its history.

A node starts without attributes and without a value. What has been done to it since can only
be setting and removing attributes and setting the value, and of this the node keeps three
things: the attributes in order, the value, and whether the value has been set by itself. They
are not independent of each other. The attribute called `value` sets the value too, but only as
long as nobody else has, and removing the attribute does not take the value back.

So none of them says by itself what it will be after the next step. Together they do, and so
the history is described by all of them at once: `Node.Reflects` is kept from one step to the
next.

An attribute that is set again keeps its place, and one that has been removed and is set again
comes last. Its place is therefore decided by the step that has set it first since it was last
absent, which is called its arrival here.

## Main definitions

* `FormEdit`: Setting or removing an attribute, or setting the form value.
* `FormEdit.present?`, `FormEdit.Arrives`: What becomes of an attribute.
* `FormEdit.held`: What becomes of the form value.
* `Node.Reflects`: The node tells of a history.

## Theorems

* `FormEdit.exists_arrives`: An attribute that is present has arrived.
* `Node.Reflects.edit`: One step more.
-/

namespace LiveTemplate

namespace Markup.Attributes

theorem get?_set (attributes : Attributes) (name value other : String) :
    (attributes.set name value).get? other =
      if name = other then some value else attributes.get? other := by
  induction attributes with
  | nil => simp [set, get?]
  | cons a rest ih =>
      rcases a with ⟨n, v⟩
      rw [set]
      by_cases hn : n = name
      · subst hn
        by_cases hother : n = other <;> simp [get?, hother]
      · rw [if_neg hn, get?, get?, ih]
        by_cases hother : n = other
        · subst hother
          simp [Ne.symm hn]
        · simp [hother]

theorem get?_eq_none_iff {attributes : Attributes} {name : String} :
    attributes.get? name = none ↔ name ∉ attributes.map (·.1) := by
  induction attributes with
  | nil => simp [get?]
  | cons a rest ih =>
      rcases a with ⟨n, v⟩
      rw [get?, List.map_cons, List.mem_cons, not_or, ← ih]
      by_cases hn : n = name
      · simp [hn]
      · simp [hn, Ne.symm hn]

theorem isSome_get?_iff {attributes : Attributes} {name : String} :
    (attributes.get? name).isSome = true ↔ name ∈ attributes.map (·.1) := by
  rw [← not_iff_not, Bool.not_eq_true, Option.isSome_eq_false_iff, Option.isNone_iff_eq_none,
    get?_eq_none_iff]

theorem erase_sublist (attributes : Attributes) (name : String) :
    (attributes.erase name).Sublist attributes := by
  induction attributes with
  | nil => exact List.Sublist.refl _
  | cons a rest ih =>
      rcases a with ⟨n, v⟩
      rw [erase]
      split
      · exact List.sublist_cons_self _ rest
      · exact ih.cons_cons _

theorem get?_erase {attributes : Attributes} (hnodup : (attributes.map (·.1)).Nodup)
    (name other : String) :
    (attributes.erase name).get? other = if name = other then none else attributes.get? other := by
  induction attributes with
  | nil => simp [erase, get?]
  | cons a rest ih =>
      rcases a with ⟨n, v⟩
      rw [List.map_cons, List.nodup_cons] at hnodup
      rw [erase]
      by_cases hn : n = name
      · subst hn
        by_cases hother : n = other
        · subst hother
          simpa using get?_eq_none_iff.mpr hnodup.1
        · simp [get?, hother]
      · rw [if_neg hn, get?, get?, ih hnodup.2]
        by_cases hother : n = other
        · subst hother
          simp [Ne.symm hn]
        · simp [hother]

end Markup.Attributes

/-- What can be done to the attributes and the form value of a node. -/
inductive FormEdit where
  /-- Sets an attribute. -/
  | setAttribute (name value : String)
  /-- Removes an attribute. -/
  | removeAttribute (name : String)
  /-- Sets the form value. -/
  | setValue (text : String)

namespace FormEdit

variable {κ σ : Type} {edits : List FormEdit} {e : FormEdit} {name : String} {i : Nat}

/-- Does it to a node of the view. -/
def apply (n : NodeId) : FormEdit → World κ σ → World κ σ
  | setAttribute name value, w => w.setAttribute n name value
  | removeAttribute name, w => w.removeAttribute n name
  | setValue text, w => w.setValue n text

/-- What a node is afterwards. -/
def onNode : FormEdit → Node κ → Node κ
  | setAttribute name value, node => node.withAttribute name value
  | removeAttribute name, node => { node with attributes := node.attributes.erase name }
  | setValue text, node => { node with value := text, edited := true }

theorem apply_eq_updateNode (n : NodeId) (e : FormEdit) (w : World κ σ) :
    e.apply n w = w.updateNode n e.onNode := by
  cases e <;> rfl

/-! ### Attributes in a history -/

/-- The value that an attribute gets if the step sets it, and none if the step removes it. -/
def about? (name : String) : FormEdit → Option (Option String)
  | setAttribute name' value => if name' = name then some (some value) else none
  | removeAttribute name' => if name' = name then some none else none
  | setValue _ => none

/-- The value of an attribute after a history: the one of the last step that has set it, unless it
    has been removed afterwards. -/
def present? (name : String) (edits : List FormEdit) : Option String :=
  (edits.filterMap (about? name)).getLast?.join

/-- An attribute arrives with a step that sets it while it is absent, if it has been there ever
    since. -/
structure Arrives (edits : List FormEdit) (name : String) (i : Nat) : Prop where
  /-- The step sets the attribute. -/
  set : ∃ value, edits[i]? = some (setAttribute name value)
  /-- Before the step the attribute is absent. -/
  absent : present? name (edits.take i) = none
  /-- From then on it is present. -/
  since : ∀ j, i < j → j ≤ edits.length → (present? name (edits.take j)).isSome = true

theorem present?_concat (name : String) (edits : List FormEdit) (e : FormEdit) :
    present? name (edits ++ [e]) = ((about? name e).getD (present? name edits)) := by
  rw [present?, List.filterMap_append]
  cases h : about? name e with
  | none => simp [h, present?]
  | some value => simp [h]

theorem Arrives.lt (h : Arrives edits name i) : i < edits.length := by
  obtain ⟨value, hset⟩ := h.set
  exact (List.getElem?_eq_some_iff.mp hset).1

/-- What has arrived stays as long as it is present. -/
theorem Arrives.concat (h : Arrives edits name i)
    (hpresent : (present? name (edits ++ [e])).isSome = true) : Arrives (edits ++ [e]) name i := by
  obtain ⟨value, hset⟩ := h.set
  have hlt := h.lt
  refine ⟨⟨value, ?_⟩, ?_, fun j hij hj => ?_⟩
  · rw [List.getElem?_append_left hlt, hset]
  · rw [List.take_append_of_le_length (Nat.le_of_lt hlt)]
    exact h.absent
  · rw [List.length_append, List.length_singleton] at hj
    by_cases hlast : j = edits.length + 1
    · have : (edits ++ [e]).take j = edits ++ [e] := List.take_of_length_le (by simp [hlast])
      rw [this]
      exact hpresent
    · have hj : j ≤ edits.length := by omega
      rw [List.take_append_of_le_length hj]
      exact h.since j hij hj

/-- What has been absent arrives when it is set. -/
theorem arrives_concat (h : present? name edits = none) (value : String) :
    Arrives (edits ++ [setAttribute name value]) name edits.length := by
  refine ⟨⟨value, by simp⟩, by simpa using h, fun j hlt hj => ?_⟩
  have hj : (edits ++ [setAttribute name value]).length ≤ j := by
    simpa using Nat.succ_le_of_lt hlt
  rw [List.take_of_length_le hj, present?_concat]
  simp [about?]

/-- An attribute that is present has arrived. -/
theorem exists_arrives (h : (present? name edits).isSome = true) : ∃ i, Arrives edits name i := by
  induction edits using List.reverseRecOn with
  | nil => cases h
  | append_singleton edits e ih =>
      cases hbefore : present? name edits with
      | some value =>
          obtain ⟨i, hi⟩ := ih (by simp [hbefore])
          exact ⟨i, hi.concat h⟩
      | none =>
          -- It is the last step that makes the difference.
          rw [present?_concat, hbefore] at h
          cases e with
          | setAttribute name' value =>
              by_cases hname : name' = name
              · subst hname
                exact ⟨_, arrives_concat hbefore value⟩
              · simp [about?, hname] at h
          | removeAttribute name' => by_cases hname : name' = name <;> simp [about?, hname] at h
          | setValue text => simp [about?] at h

/-! ### The form value in a history -/

/-- The value that is set by itself. -/
def entered? : FormEdit → Option String
  | setValue text => some text
  | _ => none

/-- The value that is set by an attribute. -/
def seeded? : FormEdit → Option String
  | setAttribute name value => if name = "value" then some value else none
  | _ => none

/-- The form value after a history: the last one that has been set by itself, and without one the
    last one that the attribute has ever had. -/
def held (edits : List FormEdit) : String :=
  (edits.filterMap entered?).getLast?.getD ((edits.filterMap seeded?).getLast?.getD "")

end FormEdit

/-! ### Telling of a history -/

open FormEdit in
/-- The node has the attributes and the form value that a history comes to. -/
structure Node.Reflects {κ : Type} (node : Node κ) (edits : List FormEdit) : Prop where
  /-- The names of the attributes are distinct. -/
  nodup : (node.attributes.map (·.1)).Nodup
  /-- Each attribute has the value that it was set to last, unless it has been removed since. -/
  present : ∀ name, node.attributes.get? name = present? name edits
  /-- The attributes stand in the order in which they have arrived. -/
  ordered : (node.attributes.map (·.1)).Pairwise fun a b =>
    ∃ i j, i < j ∧ Arrives edits a i ∧ Arrives edits b j
  /-- The form value is the last one that was set by itself, or the last one of the attribute. -/
  value : node.value = held edits
  /-- The node knows whether the value has been set by itself. -/
  edited : node.edited = (edits.filterMap entered?).getLast?.isSome

namespace Node.Reflects

open FormEdit

variable {κ : Type} {node : Node κ} {edits : List FormEdit}

/-- A node without attributes and without a value has no history. -/
theorem nil (hattributes : node.attributes = []) (hvalue : node.value = "")
    (hedited : node.edited = false) : node.Reflects [] where
  nodup := by simp [hattributes]
  present name := by simp [hattributes, Markup.Attributes.get?, present?]
  ordered := by simp [hattributes]
  value := by simp [hvalue, held]
  edited := by simp [hedited]

/-- The names that are there are the ones that are present. -/
theorem mem_iff (h : node.Reflects edits) {name : String} :
    name ∈ node.attributes.map (·.1) ↔ (present? name edits).isSome = true := by
  rw [← Markup.Attributes.isSome_get?_iff, h.present]

/-- Attributes that stay present stay in order. -/
theorem ordered_of_sublist (h : node.Reflects edits) {e : FormEdit} {names : List String}
    (hsub : names.Sublist (node.attributes.map (·.1)))
    (hpresent : ∀ name ∈ names, (present? name (edits ++ [e])).isSome = true) :
    names.Pairwise fun a b =>
      ∃ i j, i < j ∧ Arrives (edits ++ [e]) a i ∧ Arrives (edits ++ [e]) b j := by
  refine (h.ordered.sublist hsub).imp_of_mem ?_
  rintro a b ha hb ⟨i, j, hij, hi, hj⟩
  exact ⟨i, j, hij, hi.concat (hpresent a ha), hj.concat (hpresent b hb)⟩

/-- The attribute `value` counts for the form value until that has been set by itself. -/
theorem value_withAttribute (h : node.Reflects edits) (name value : String) :
    (node.withAttribute name value).value = held (edits ++ [.setAttribute name value]) := by
  have hedited := h.edited
  have hvalue := h.value
  simp only [Node.withAttribute, held, List.filterMap_append] at hvalue ⊢
  by_cases hname : name = "value"
  · cases hentered : (edits.filterMap entered?).getLast? with
    | none =>
        rw [hentered, Option.isSome_none] at hedited
        simp [hname, hedited, entered?, seeded?, hentered]
    | some text =>
        rw [hentered, Option.isSome_some] at hedited
        simp [hedited, hvalue, entered?, hentered]
  · simp [hname, hvalue, entered?, seeded?]

/-- Setting an attribute. -/
theorem setAttribute (h : node.Reflects edits) (name value : String) :
    (node.withAttribute name value).Reflects (edits ++ [.setAttribute name value]) := by
  have hpresent : ∀ other, (node.attributes.set name value).get? other =
      present? other (edits ++ [.setAttribute name value]) := by
    intro other
    rw [Markup.Attributes.get?_set, present?_concat, about?, h.present]
    split <;> rfl
  have hstill : ∀ other ∈ node.attributes.map (·.1),
      (present? other (edits ++ [.setAttribute name value])).isSome = true := by
    intro other hother
    rw [← hpresent, Markup.Attributes.get?_set]
    split
    · rfl
    · exact Markup.Attributes.isSome_get?_iff.mpr hother
  have hedited : (node.withAttribute name value).edited =
      ((edits ++ [FormEdit.setAttribute name value]).filterMap entered?).getLast?.isSome := by
    simp [Node.withAttribute, h.edited, entered?]
  have hordered := h.ordered_of_sublist (List.Sublist.refl _) hstill
  by_cases hmem : name ∈ node.attributes.map (·.1)
  · -- The attribute keeps its place.
    have hnames : (node.withAttribute name value).attributes.map (·.1) =
        node.attributes.map (·.1) := Markup.Attributes.names_set_of_mem hmem value
    exact ⟨hnames ▸ h.nodup, hpresent, hnames ▸ hordered, h.value_withAttribute name value, hedited⟩
  · -- It comes last, and all the others have arrived before.
    have hnames : (node.withAttribute name value).attributes.map (·.1) =
        node.attributes.map (·.1) ++ [name] := by
      rw [Node.withAttribute, Markup.Attributes.set_eq_append hmem, List.map_append,
        List.map_singleton]
    have habsent : present? name edits = none := by
      rw [← h.present, Markup.Attributes.get?_eq_none_iff]
      exact hmem
    refine ⟨?_, hpresent, ?_, h.value_withAttribute name value, hedited⟩
    · rw [hnames, ← List.concat_eq_append]
      exact h.nodup.concat hmem
    · rw [hnames, List.pairwise_append]
      refine ⟨hordered, List.pairwise_singleton _ _, fun a ha b hb => ?_⟩
      rw [List.mem_singleton.mp hb]
      obtain ⟨i, hi⟩ := exists_arrives (h.mem_iff.mp ha)
      exact ⟨i, edits.length, hi.lt, hi.concat (hstill a ha), arrives_concat habsent value⟩

/-- Removing an attribute. -/
theorem removeAttribute (h : node.Reflects edits) (name : String) :
    ({ node with attributes := node.attributes.erase name } : Node κ).Reflects
      (edits ++ [.removeAttribute name]) := by
  have hsub := (Markup.Attributes.erase_sublist node.attributes name).map (·.1)
  have hpresent : ∀ other, (node.attributes.erase name).get? other =
      present? other (edits ++ [.removeAttribute name]) := by
    intro other
    rw [Markup.Attributes.get?_erase h.nodup, present?_concat, about?, h.present]
    split <;> rfl
  refine ⟨h.nodup.sublist hsub, hpresent, h.ordered_of_sublist hsub fun other hother => ?_, ?_, ?_⟩
  · rw [← hpresent]
    exact Markup.Attributes.isSome_get?_iff.mpr hother
  · simp [h.value, held, entered?, seeded?]
  · simp [h.edited, entered?]

/-- Setting the form value. -/
theorem setValue (h : node.Reflects edits) (text : String) :
    ({ node with value := text, edited := true } : Node κ).Reflects
      (edits ++ [.setValue text]) := by
  have hpresent : ∀ name, present? name (edits ++ [.setValue text]) = present? name edits := by
    intro name
    rw [present?_concat, about?, Option.getD_none]
  refine ⟨h.nodup, fun name => (h.present name).trans (hpresent name).symm,
    h.ordered_of_sublist (List.Sublist.refl _) fun name hname => ?_, ?_, ?_⟩
  · rw [hpresent]
    exact h.mem_iff.mp hname
  · simp [held, entered?]
  · simp [entered?]

/-- One step more. -/
theorem edit (h : node.Reflects edits) (e : FormEdit) :
    (e.onNode node).Reflects (edits ++ [e]) := by
  cases e with
  | setAttribute name value => exact h.setAttribute name value
  | removeAttribute name => exact h.removeAttribute name
  | setValue text => exact h.setValue text

end Node.Reflects

end LiveTemplate
