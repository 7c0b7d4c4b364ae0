import LiveTemplate.Proofs.World.Access

/-!
# Registries

What adding subscribers to a registry does to the list and to the set.

A registry knows its members twice. The list has them in the order in which they came and is
what a notification goes round; the set is what is asked before somebody is added. Nothing in
a registry forces the two to agree: a set that knows somebody who is not in the list would
keep that subscriber out for good, and a list with somebody whom the set does not know would
get that subscriber once more. They do agree as long as the registry has been empty at first
and has been filled by `add` alone, which puts a subscriber into the set always and into the
list if it was not in the set.

## Main definitions

* `Registry.Coherent`: The list and the set have the same members, and nobody is listed twice.
* `Registry.ofList`: A registry that has been filled in an order.

## Theorems

* `SubscriberSet.contains_insert`: Who is in a set with one member more.
* `Registry.mem_add`, `Registry.contains_add`: Who is listed, and who is found, after somebody
  has been added.
* `Coherent.add`, `Coherent.foldl_add`: Adding subscribers leaves the two in agreement.
-/

namespace LiveTemplate

namespace SubscriberSet

theorem not_contains_empty (s : SubscriberId) : contains {} s = false :=
  Nat.zero_testBit s.index

theorem contains_insert {members : SubscriberSet} {s t : SubscriberId} :
    (members.insert s).contains t = true ↔ members.contains t = true ∨ s = t := by
  rw [contains, insert, Nat.testBit_or, Nat.one_shiftLeft, Nat.testBit_two_pow, Bool.or_eq_true,
    decide_eq_true_iff, contains, SubscriberId.ext_iff]

/-- Somebody who is in the set cannot be added to it. -/
theorem insert_of_contains {members : SubscriberSet} {s : SubscriberId}
    (h : members.contains s = true) : members.insert s = members := by
  refine congrArg SubscriberSet.mk (Nat.eq_of_testBit_eq fun i => ?_)
  rw [Nat.testBit_or, Nat.one_shiftLeft, Nat.testBit_two_pow]
  by_cases hi : s.index = i
  · rw [← hi, ← contains, h, Bool.true_or]
  · rw [decide_eq_false hi, Bool.or_false]

end SubscriberSet

namespace Registry

variable {r : Registry} {s t : SubscriberId}

theorem add_of_contains (h : r.contains s = true) : r.add s = r := by
  rw [add, if_pos h, SubscriberSet.insert_of_contains h]

theorem contains_add : (r.add s).contains t = true ↔ r.contains t = true ∨ s = t :=
  SubscriberSet.contains_insert

/-- Registering somebody twice is registering once. -/
theorem add_add (r : Registry) (s : SubscriberId) : (r.add s).add s = r.add s :=
  add_of_contains (contains_add.mpr (.inr rfl))

theorem contains_foldl_add {ss : List SubscriberId} (h : r.contains t = true) :
    (ss.foldl add r).contains t = true := by
  induction ss generalizing r with
  | nil => exact h
  | cons s rest ih => exact ih (contains_add.mpr (.inl h))

theorem mem_add (h : t ∈ (r.add s).subscribers) : t ∈ r.subscribers ∨ t = s := by
  dsimp only [add] at h
  split at h
  · exact Or.inl h
  · rcases List.mem_append.mp h with h | h
    · exact Or.inl h
    · exact Or.inr (List.mem_singleton.mp h)

theorem mem_foldl_add {ss : List SubscriberId} (h : t ∈ (ss.foldl add r).subscribers) :
    t ∈ r.subscribers ∨ t ∈ ss := by
  induction ss generalizing r with
  | nil => exact .inl h
  | cons s rest ih =>
      rcases ih h with hbefore | hmem
      · rcases mem_add hbefore with hbefore | rfl
        · exact .inl hbefore
        · exact .inr List.mem_cons_self
      · exact .inr (List.mem_cons_of_mem s hmem)

/-- Somebody new comes behind the others. -/
theorem prefix_add (r : Registry) (s : SubscriberId) :
    r.subscribers <+: (r.add s).subscribers := by
  dsimp only [add]
  split
  · exact List.prefix_rfl
  · exact List.prefix_append _ _

theorem prefix_foldl_add (r : Registry) (ss : List SubscriberId) :
    r.subscribers <+: (ss.foldl add r).subscribers := by
  induction ss generalizing r with
  | nil => exact List.prefix_rfl
  | cons s ss ih => exact (r.prefix_add s).trans (ih (r.add s))

/-- The list and the set of a registry have the same members, and nobody is listed twice. -/
structure Coherent (r : Registry) : Prop where
  /-- Nobody is listed twice. -/
  nodup : r.subscribers.Nodup
  /-- Whoever is in the set is listed, and whoever is listed is in the set. -/
  contains_iff : ∀ s, r.contains s = true ↔ s ∈ r.subscribers

/-- Nobody is in an empty registry. -/
theorem coherent_empty : Coherent {} where
  nodup := List.nodup_nil
  contains_iff s := by
    rw [contains, SubscriberSet.not_contains_empty]
    exact iff_of_false Bool.false_ne_true List.not_mem_nil

/-- Adding somebody leaves the list and the set in agreement. -/
theorem Coherent.add (h : r.Coherent) (s : SubscriberId) : (r.add s).Coherent := by
  by_cases hs : r.contains s = true
  · rwa [add_of_contains hs]
  · -- Whoever is not in the set is not listed either, so the list gets somebody new.
    have hnew : s ∉ r.subscribers := fun hmem => hs ((h.contains_iff s).mpr hmem)
    have hlist : (r.add s).subscribers = r.subscribers ++ [s] := if_neg hs
    refine ⟨?_, fun t => ?_⟩
    · rw [hlist, List.nodup_append]
      refine ⟨h.nodup, List.nodup_singleton s, ?_⟩
      rintro t ht _ hmem rfl
      exact hnew (List.mem_singleton.mp hmem ▸ ht)
    · rw [hlist, List.mem_append, List.mem_singleton, contains_add, h.contains_iff]
      exact or_congr_right eq_comm

theorem Coherent.foldl_add (h : r.Coherent) (ss : List SubscriberId) :
    (ss.foldl Registry.add r).Coherent := by
  induction ss generalizing r with
  | nil => exact h
  | cons s rest ih => exact ih (h.add s)

/-- A registry to which subscribers have been added one after the other. -/
def ofList (ss : List SubscriberId) : Registry :=
  ss.foldl add {}

end Registry

end LiveTemplate
