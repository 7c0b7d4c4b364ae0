import LiveTemplate.Proofs.World.Liveness
import LiveTemplate.Store.Observe

/-!
# Freshly Observed Data

What observing data does to the world.

Observing only adds objects. The new ones hold each other and nothing from before,
and nothing from before holds any of them, so nobody can tell that they are there
until one of them is held or written somewhere. Nobody is registered with them yet.

## Main definitions

* `World.Extends`: There are new objects that have nothing to do with the old ones.
* `Data.IsNew`: A value that can only be one of the new objects.

## Theorems

* `extends_observeValue`: Observing a value only adds objects.
-/

namespace LiveTemplate

variable {κ σ : Type}

theorem Data.eq_object_of_object? {d : Data} {o : ObjectId} (h : d.object? = some o) :
    d = .object o := by
  cases d with
  | plain value => exact nomatch h
  | object x => exact congrArg Data.object (Option.some.inj h)

namespace World

theorem object_addObject (w : World κ σ) (properties : Properties) (o : ObjectId) :
    (w.addObject properties).2.object o =
      if o.index = w.objects.size then properties else w.object o := by
  simp only [object, addObject, Heap.get?_add]
  split <;> rfl

/-- What is not an object stays as it is. -/
theorem observeValue_of_ne_object {value : Json} (hvalue : ∀ members, value ≠ .object members)
    (w : World κ σ) : observeValue value w = (.plain value, w) := by
  rw [observeValue]
  exact hvalue

/-- Objects have been added that hold each other and nothing else. -/
structure Extends (w w' : World κ σ) : Prop where
  /-- There are more objects. -/
  grown : w.objects.size ≤ w'.objects.size
  /-- The objects that were there are as they were. -/
  kept : ∀ o : ObjectId, o.index < w.objects.size → w'.object o = w.object o
  /-- What the new ones hold is new. -/
  apart : ∀ o x : ObjectId, w.objects.size ≤ o.index → w'.PointsTo o x →
    w.objects.size ≤ x.index ∧ x.index < w'.objects.size
  /-- Nobody is registered with the new ones. -/
  blank : ∀ (o : ObjectId) (key : String) (p : Property), w.objects.size ≤ o.index →
    w'.property? o key = some p → p.registry = {}
  /-- Nothing else has changed. -/
  rest : { w' with objects := w.objects } = w

/-- The value holds only objects that are in the second world and not in the first. -/
def IsNew (w w' : World κ σ) (d : Data) : Prop :=
  ∀ x, d = .object x → w.objects.size ≤ x.index ∧ x.index < w'.objects.size

namespace Extends

theorem nodes {w w' : World κ σ} (h : w.Extends w') : w'.nodes = w.nodes := by
  have hpart := congrArg World.nodes h.rest
  exact hpart

theorem registries {w w' : World κ σ} (h : w.Extends w') : w'.registries = w.registries := by
  have hpart := congrArg World.registries h.rest
  exact hpart

theorem subscribers {w w' : World κ σ} (h : w.Extends w') : w'.subscribers = w.subscribers := by
  have hpart := congrArg World.subscribers h.rest
  exact hpart

theorem pins {w w' : World κ σ} (h : w.Extends w') : w'.pins = w.pins := by
  have hpart := congrArg World.pins h.rest
  exact hpart

theorem client {w w' : World κ σ} (h : w.Extends w') : w'.client = w.client := by
  have hpart := congrArg World.client h.rest
  exact hpart

theorem refl (w : World κ σ) : w.Extends w where
  grown := Nat.le_refl _
  kept _ _ := rfl
  apart _ _ ho h := absurd (lt_of_pointsTo h) (Nat.not_lt_of_le ho)
  blank _ _ _ ho hp := absurd (lt_of_property? hp) (Nat.not_lt_of_le ho)
  rest := rfl

theorem trans {w₁ w₂ w₃ : World κ σ} (h₁ : w₁.Extends w₂) (h₂ : w₂.Extends w₃) :
    w₁.Extends w₃ := by
  refine ⟨Nat.le_trans h₁.grown h₂.grown, ?_, ?_, ?_, ?_⟩
  · intro o ho
    rw [h₂.kept o (Nat.lt_of_lt_of_le ho h₁.grown), h₁.kept o ho]
  · intro o x ho hpoints
    by_cases hold : o.index < w₂.objects.size
    · have hbefore : w₂.PointsTo o x := by
        rwa [PointsTo, h₂.kept o hold] at hpoints
      have hx := h₁.apart o x ho hbefore
      exact ⟨hx.1, Nat.lt_of_lt_of_le hx.2 h₂.grown⟩
    · have hx := h₂.apart o x (Nat.le_of_not_lt hold) hpoints
      exact ⟨Nat.le_trans h₁.grown hx.1, hx.2⟩
  · intro o key p ho hp
    by_cases hold : o.index < w₂.objects.size
    · rw [property?, h₂.kept o hold, ← property?] at hp
      exact h₁.blank o key p ho hp
    · exact h₂.blank o key p (Nat.le_of_not_lt hold) hp
  · rw [← h₁.rest, ← h₂.rest]

/-- Adding an object whose properties hold only objects that are new already, and with which
    nobody is registered. -/
theorem addObject {w w' : World κ σ} (h : w.Extends w') {properties : Properties}
    (hnew : ∀ entry ∈ properties, w.IsNew w' entry.2.value ∧ entry.2.registry = {}) :
    w.Extends (w'.addObject properties).2 ∧
      w.IsNew (w'.addObject properties).2 (.object (w'.addObject properties).1) := by
  have hsize : (w'.addObject properties).2.objects.size = w'.objects.size + 1 :=
    Heap.size_add w'.objects properties
  refine ⟨⟨?_, ?_, ?_, ?_, h.rest⟩, ?_⟩
  · rw [hsize]
    exact Nat.le_succ_of_le h.grown
  · intro o ho
    have hlt := Nat.lt_of_lt_of_le ho h.grown
    rw [object_addObject, if_neg (Nat.ne_of_lt hlt), h.kept o ho]
  · intro o x ho hpoints
    rw [PointsTo, object_addObject] at hpoints
    rw [hsize]
    split at hpoints
    · rcases hpoints with ⟨entry, hentry, hvalue⟩
      have hx := (hnew entry hentry).1 x hvalue
      exact ⟨hx.1, Nat.lt_succ_of_lt hx.2⟩
    · have hx := h.apart o x ho hpoints
      exact ⟨hx.1, Nat.lt_succ_of_lt hx.2⟩
  · intro o key p ho hp
    rw [property?, object_addObject] at hp
    split at hp
    · rcases Table.exists_mem_of_find? hp with ⟨entry, hentry, rfl⟩
      exact (hnew entry hentry).2
    · exact h.blank o key p ho hp
  · intro x hx
    injection hx with hx
    rw [hsize, ← hx]
    exact ⟨h.grown, Nat.lt_succ_self _⟩

end Extends

theorem extends_observe :
    (∀ (value : Json) (w : World κ σ), w.Extends (observeValue value w).2 ∧
      w.IsNew (observeValue value w).2 (observeValue value w).1) ∧
    ∀ (members : List (String × Json)) (w : World κ σ), w.Extends (observeMembers members w).2 ∧
      ∀ entry ∈ (observeMembers members w).1,
        w.IsNew (observeMembers members w).2 entry.2.value ∧ entry.2.registry = {} := by
  refine observeValue.mutual_induct
    (fun value w => w.Extends (observeValue value w).2 ∧
      w.IsNew (observeValue value w).2 (observeValue value w).1)
    (fun members w => w.Extends (observeMembers members w).2 ∧
      ∀ entry ∈ (observeMembers members w).1,
        w.IsNew (observeMembers members w).2 entry.2.value ∧ entry.2.registry = {})
    ?_ ?_ ?_ ?_
  · intro w members properties w₁ hmembers o w₂ hobject ih
    rw [observeValue]
    simp only [hmembers, hobject] at ih ⊢
    have hadd := ih.1.addObject ih.2
    rw [hobject] at hadd
    exact hadd
  · intro w value hvalue
    rw [observeValue_of_ne_object hvalue]
    refine ⟨Extends.refl w, ?_⟩
    intro x hx
    exact absurd hx (by simp only [reduceCtorEq, not_false_eq_true])
  · intro w
    rw [observeMembers]
    exact ⟨Extends.refl w, fun entry hentry => absurd hentry List.not_mem_nil⟩
  · intro w key value members data w₁ hvalue properties w₂ hmembers ih₁ ih₂
    rw [observeMembers]
    simp only [hvalue, hmembers] at ih₁ ih₂ ⊢
    refine ⟨ih₁.1.trans ih₂.1, List.forall_mem_cons.mpr ⟨⟨?_, rfl⟩, fun entry hentry => ?_⟩⟩
    · intro x hx
      have hnew := ih₁.2 x hx
      exact ⟨hnew.1, Nat.lt_of_lt_of_le hnew.2 ih₂.1.grown⟩
    · rcases ih₂.2 entry hentry with ⟨hvalue, hblank⟩
      refine ⟨fun x hx => ?_, hblank⟩
      have hnew := hvalue x hx
      exact ⟨Nat.le_trans ih₁.1.grown hnew.1, hnew.2⟩

/-- Observing a value only adds objects, and the observed value is one of them if it is an
    object. -/
theorem extends_observeValue (value : Json) (w : World κ σ) :
    w.Extends (observeValue value w).2 ∧
      w.IsNew (observeValue value w).2 (observeValue value w).1 :=
  extends_observe.1 value w

end World

end LiveTemplate
