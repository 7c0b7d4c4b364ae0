import LiveTemplate.View.Structure
import Mathlib.Data.List.NodupEquivFin
import Mathlib.Tactic.ByContra

/-!
# Looking at a Changed World

What each elementary change of the world does to each part of it.

A change to a node, a property or a subscriber shows nowhere else, and something new
takes the next place without disturbing what is there. Every later statement about
what an operation leaves alone comes down to these equations.

## Main definitions

* `World.OnlyNodes`: Worlds that differ in their nodes only.

## Theorems

* `node_addNode`, `node_updateNode`: Nodes after a change to the nodes.
* `property?_updateProperty`: Properties after a change to one of them.
* `subscriber?_addSubscriber`: Subscribers after one more.
-/

namespace LiveTemplate

/-- Different things with places below a bound are no more than there are places. -/
theorem length_le_of_nodup {α : Type} {place : α → Nat} (hplace : Function.Injective place)
    {as : List α} (has : as.Nodup) {bound : Nat} (hlt : ∀ a ∈ as, place a < bound) :
    as.length ≤ bound := by
  have hsub : (as.map place).Subperm (List.range bound) := by
    refine List.subperm_of_subset (has.map hplace) fun i hi => ?_
    rcases List.mem_map.mp hi with ⟨a, ha, rfl⟩
    exact List.mem_range.mpr (hlt a ha)
  have hlength := hsub.length_le
  rw [List.length_map, List.length_range] at hlength
  exact hlength

@[ext]
theorem NodeId.ext {a b : NodeId} (h : a.index = b.index) : a = b := by
  cases a
  cases b
  exact congrArg NodeId.mk h

@[ext]
theorem ObjectId.ext {a b : ObjectId} (h : a.index = b.index) : a = b := by
  cases a
  cases b
  exact congrArg ObjectId.mk h

@[ext]
theorem SubscriberId.ext {a b : SubscriberId} (h : a.index = b.index) : a = b := by
  cases a
  cases b
  exact congrArg SubscriberId.mk h

namespace Heap

variable {α : Type}

theorem get?_eq_none {h : Heap α} {i : Nat} (hi : h.size ≤ i) : h.get? i = none :=
  Array.getElem?_eq_none hi

theorem exists_get? {h : Heap α} {i : Nat} (hi : i < h.size) : ∃ a, h.get? i = some a :=
  ⟨h.cells[i], Array.getElem?_eq_getElem hi⟩

end Heap

namespace Table

variable {α : Type}

theorem exists_mem_of_find? {t : Table α} {key : String} {a : α} (h : find? key t = some a) :
    ∃ entry ∈ t, entry.2 = a := by
  induction t with
  | nil => exact absurd h (by simp only [find?, reduceCtorEq, not_false_eq_true])
  | cons entry rest ih =>
      rcases entry with ⟨k, b⟩
      rw [find?] at h
      split at h
      · injection h with h
        exact ⟨(k, b), List.mem_cons_self, h⟩
      · rcases ih h with ⟨e, he, hea⟩
        exact ⟨e, List.mem_cons_of_mem _ he, hea⟩

/-- The entries after a change: the ones from before, of which one may be changed. -/
theorem mem_update {t : Table α} {key : String} {change : α → α} {entry : String × α}
    (h : entry ∈ update key change t) :
    entry ∈ t ∨ ∃ old ∈ t, entry = (old.1, change old.2) := by
  induction t with
  | nil => exact absurd h List.not_mem_nil
  | cons first rest ih =>
      rcases first with ⟨k, b⟩
      rw [update] at h
      split at h
      · rcases List.mem_cons.mp h with rfl | h
        · exact Or.inr ⟨(k, b), List.mem_cons_self, rfl⟩
        · exact Or.inl (List.mem_cons_of_mem _ h)
      · rcases List.mem_cons.mp h with rfl | h
        · exact Or.inl List.mem_cons_self
        · rcases ih h with h | ⟨old, hold, heq⟩
          · exact Or.inl (List.mem_cons_of_mem _ h)
          · exact Or.inr ⟨old, List.mem_cons_of_mem _ hold, heq⟩

end Table

namespace World

variable {κ σ : Type}

theorem node_addNode (w : World κ σ) (node : Node κ) (m : NodeId) :
    (w.addNode node).2.node m = if m.index = w.nodes.size then node else w.node m := by
  simp only [World.node, addNode, Heap.get?_add]
  split
  · rfl
  · rfl

/-- The new node is where its identity says. -/
@[simp]
theorem node_addNode_fst (w : World κ σ) (node : Node κ) :
    (w.addNode node).2.node (w.addNode node).1 = node := by
  rw [node_addNode]
  exact if_pos rfl

theorem node_addNode_of_lt (w : World κ σ) (node : Node κ) {m : NodeId}
    (hm : m.index < w.nodes.size) : (w.addNode node).2.node m = w.node m := by
  rw [node_addNode, if_neg (Nat.ne_of_lt hm)]

@[simp]
theorem size_nodes_addNode (w : World κ σ) (node : Node κ) :
    (w.addNode node).2.nodes.size = w.nodes.size + 1 :=
  Heap.size_add w.nodes node

/-- A change to a node shows at that node only, if there is such a node. -/
theorem node_updateNode (w : World κ σ) (n : NodeId) (change : Node κ → Node κ) (m : NodeId) :
    (w.updateNode n change).node m =
      if n = m ∧ m.index < w.nodes.size then change (w.node m) else w.node m := by
  simp only [World.node, updateNode, Heap.get?_update]
  by_cases hm : m.index < w.nodes.size
  · rcases Heap.exists_get? hm with ⟨node, hnode⟩
    by_cases hn : n = m
    · subst hn
      simp only [hnode, hm, and_self, if_true, Option.map_some, Option.getD_some]
    · have hindex : n.index ≠ m.index := fun h => hn (by cases n; cases m; cases h; rfl)
      simp only [hn, hindex, false_and, if_false]
  · have hnone := Heap.get?_eq_none (Nat.le_of_not_lt hm)
    simp only [hnone, hm, and_false, if_false, Option.map_none, ite_self]

theorem node_updateNode_of_ne (w : World κ σ) {n m : NodeId} (change : Node κ → Node κ)
    (h : n ≠ m) : (w.updateNode n change).node m = w.node m := by
  rw [node_updateNode, if_neg (fun hand => h hand.1)]

@[simp]
theorem size_nodes_updateNode (w : World κ σ) (n : NodeId) (change : Node κ → Node κ) :
    (w.updateNode n change).nodes.size = w.nodes.size :=
  Heap.size_update w.nodes n.index change

/-- A part of the nodes that a change keeps is the same at every node afterwards. -/
theorem node_updateNode_congr {β : Type} (part : Node κ → β) {change : Node κ → Node κ}
    (h : ∀ node, part (change node) = part node) (w : World κ σ) (n m : NodeId) :
    part ((w.updateNode n change).node m) = part (w.node m) := by
  rw [node_updateNode]
  split
  · exact h (w.node m)
  · rfl

/-- The properties of an object after a change to a property. -/
theorem object_updateProperty (w : World κ σ) (o : ObjectId) (key : String)
    (change : Property → Property) (a : ObjectId) :
    (w.updateProperty o key change).object a =
      if o = a then Table.update key change (w.object a) else w.object a := by
  simp only [object, updateProperty, Heap.get?_update]
  by_cases ho : o = a
  · subst ho
    cases w.objects.get? o.index with
    | none => simp only [Option.map_none, Option.getD_none, Table.update, ite_self]
    | some properties => simp only [if_true, Option.map_some, Option.getD_some]
  · have hindex : o.index ≠ a.index := fun h => ho (by cases o; cases a; cases h; rfl)
    simp only [ho, hindex, if_false]

/-- A change to a property shows at that property only. -/
theorem property?_updateProperty (w : World κ σ) (o : ObjectId) (key : String)
    (change : Property → Property) (o' : ObjectId) (key' : String) :
    (w.updateProperty o key change).property? o' key' =
      if o = o' ∧ key = key' then (w.property? o' key').map change else w.property? o' key' := by
  rw [property?, object_updateProperty, property?]
  by_cases ho : o = o'
  · simp only [ho, if_true, true_and, Table.find?_update]
  · simp only [ho, if_false, false_and]

@[simp]
theorem size_objects_updateProperty (w : World κ σ) (o : ObjectId) (key : String)
    (change : Property → Property) :
    (w.updateProperty o key change).objects.size = w.objects.size :=
  Heap.size_update w.objects o.index (Table.update key change)

theorem subscriber?_addSubscriber (w : World κ σ) (subscriber : Subscriber κ)
    (s : SubscriberId) :
    (w.addSubscriber subscriber).2.subscriber? s =
      if s.index = w.subscribers.size then some subscriber else w.subscriber? s :=
  Heap.get?_add w.subscribers subscriber s.index

/-- The subscribers in the order in which they came. -/
theorem subscriber?_eq_getElem? (w : World κ σ) (s : SubscriberId) :
    w.subscriber? s = w.subscribers.cells.toList[s.index]? :=
  (Array.getElem?_toList ..).symm

/-- The same subscribers. -/
theorem subscriber?_of_subscribers {w w' : World κ σ} (h : w'.subscribers = w.subscribers)
    (s : SubscriberId) : w'.subscriber? s = w.subscriber? s := by
  rw [subscriber?, h, ← subscriber?]

/-- A subscriber is one watcher at most. -/
theorem watcher_unique {w : World κ σ} {s : SubscriberId} {wt wt' : Watcher κ}
    (h : w.subscriber? s = some (.watcher wt)) (h' : w.subscriber? s = some (.watcher wt')) :
    wt' = wt := by
  rw [h] at h'
  injection h' with h'
  injection h' with h'
  exact h'.symm

/-- A subscriber has a place among the subscribers. -/
theorem lt_of_subscriber? {w : World κ σ} {s : SubscriberId} {subscriber : Subscriber κ}
    (h : w.subscriber? s = some subscriber) : s.index < w.subscribers.size := by
  by_contra hs
  rw [subscriber?, Heap.get?_eq_none (Nat.le_of_not_lt hs)] at h
  exact absurd h (by simp only [reduceCtorEq, not_false_eq_true])

/-- The place that the next subscriber gets is free. -/
theorem subscriber?_eq_none {w : World κ σ} {s : SubscriberId}
    (h : s.index = w.subscribers.size) : w.subscriber? s = none := by
  rw [subscriber?, h]
  exact Heap.get?_eq_none (Nat.le_refl _)

/-- A property belongs to an object that has a place among the objects. -/
theorem lt_of_property? {w : World κ σ} {o : ObjectId} {key : String} {p : Property}
    (h : w.property? o key = some p) : o.index < w.objects.size := by
  by_contra ho
  rw [property?, object, Heap.get?_eq_none (Nat.le_of_not_lt ho)] at h
  exact absurd h (by simp only [Option.getD_none, Table.find?, reduceCtorEq, not_false_eq_true])

theorem property?_of_objects {w w' : World κ σ} (h : w'.objects = w.objects) (o : ObjectId)
    (key : String) : w'.property? o key = w.property? o key := by
  rw [property?, object, h, ← object, ← property?]

/-- The worlds differ in their nodes only. -/
def OnlyNodes (w w' : World κ σ) : Prop :=
  { w' with nodes := w.nodes } = w

namespace OnlyNodes

theorem refl (w : World κ σ) : w.OnlyNodes w :=
  rfl

theorem trans {w₁ w₂ w₃ : World κ σ} (h₁ : w₁.OnlyNodes w₂) (h₂ : w₂.OnlyNodes w₃) :
    w₁.OnlyNodes w₃ := by
  rw [OnlyNodes] at h₁ h₂ ⊢
  rw [← h₁, ← h₂]

theorem updateNode (w : World κ σ) (n : NodeId) (change : Node κ → Node κ) :
    w.OnlyNodes (w.updateNode n change) :=
  rfl

theorem addNode (w : World κ σ) (node : Node κ) : w.OnlyNodes (w.addNode node).2 :=
  rfl

theorem foldl {α : Type} {step : World κ σ → α → World κ σ}
    (h : ∀ (w : World κ σ) a, w.OnlyNodes (step w a))
    (as : List α) (w : World κ σ) : w.OnlyNodes (as.foldl step w) := by
  induction as generalizing w with
  | nil => exact refl w
  | cons a as ih => exact (h w a).trans (ih (step w a))

theorem holding {w : World κ σ} {handles : List Handle} {change : World κ σ → World κ σ}
    (h : ∀ w : World κ σ, w.OnlyNodes (change w)) : w.OnlyNodes (w.holding handles change) := by
  have hchange := h { w with pins := handles ++ w.pins }
  rw [OnlyNodes] at hchange ⊢
  have hpins := congrArg (fun v : World κ σ => { v with pins := w.pins }) hchange
  exact hpins

theorem eq {w w' : World κ σ} (h : w.OnlyNodes w') : { w' with nodes := w.nodes } = w :=
  h

theorem objects {w w' : World κ σ} (h : w.OnlyNodes w') : w'.objects = w.objects := by
  have hpart := congrArg World.objects h.eq
  exact hpart

theorem registries {w w' : World κ σ} (h : w.OnlyNodes w') : w'.registries = w.registries := by
  have hpart := congrArg World.registries h.eq
  exact hpart

theorem subscribers {w w' : World κ σ} (h : w.OnlyNodes w') : w'.subscribers = w.subscribers := by
  have hpart := congrArg World.subscribers h.eq
  exact hpart

theorem pins {w w' : World κ σ} (h : w.OnlyNodes w') : w'.pins = w.pins := by
  have hpart := congrArg World.pins h.eq
  exact hpart

theorem client {w w' : World κ σ} (h : w.OnlyNodes w') : w'.client = w.client := by
  have hpart := congrArg World.client h.eq
  exact hpart

end OnlyNodes

end World

end LiveTemplate
