import LiveTemplate.Proofs.World.Access
import LiveTemplate.World.Liveness

/-!
# What Keeps Things Alive

Being alive by its cause, and changes of the world that bring nothing back.

Liveness is computed in rounds. Each round leaves fewer things or the same ones, and
once a round leaves the same ones every later round does. There are as many rounds as
things, so what is alive at the end would outlive any number of rounds. This makes it
the largest set of things each of which is rooted or held by one of the set.

Objects are held by the client, by operations under way and by other objects, and by
nothing else. So a change under which no dead object gets a holder of one of these
kinds revives none, whatever else it does to the world.

## Main definitions

* `World.Survives`: Being left after a number of rounds.
* `World.PointsTo`: A property of an object holds another object.

## Theorems

* `alive_iff_survives`: Being alive is surviving as many rounds as there are things.
* `rooted_or_held_of_alive`: What is alive is rooted or held by something alive.
* `alive_of_supported`: What is in a set that supports itself is alive.
* `alive_object_of_change`: A change under which no dead object gets a holder.
* `alive_of_change`: The same for anything that can be held.
-/

namespace LiveTemplate

variable {κ σ : Type}

namespace World

theorem mem_holders {w : World κ σ} {g : Handle} {hs : List Handle} :
    g ∈ w.holders hs ↔ g ∈ w.handles ∧ ∃ h ∈ hs, h ∈ w.owned g := by
  simp only [holders, List.mem_filter, List.any_eq_true, List.contains_iff_mem]
  constructor
  · rintro ⟨hg, h, howned, hmem⟩
    exact ⟨hg, h, hmem, howned⟩
  · rintro ⟨hg, h, hmem, howned⟩
    exact ⟨hg, h, howned, hmem⟩

theorem mem_handles_object {w : World κ σ} {o : ObjectId} :
    .object o ∈ w.handles ↔ o.index < w.objects.size := by
  simp only [handles, List.mem_append, List.mem_map, List.mem_range, Handle.object.injEq,
    reduceCtorEq, and_false, exists_false, or_false]
  constructor
  · rintro ⟨i, hi, rfl⟩
    exact hi
  · intro h
    exact ⟨o.index, h, rfl⟩

theorem mem_handles_registry {w : World κ σ} {r : RegistryId} :
    .registry r ∈ w.handles ↔ r.index < w.registries.size := by
  simp only [handles, List.mem_append, List.mem_map, List.mem_range, Handle.registry.injEq,
    reduceCtorEq, and_false, exists_false, false_or, or_false]
  constructor
  · rintro ⟨i, hi, rfl⟩
    exact hi
  · intro h
    exact ⟨r.index, h, rfl⟩

theorem mem_handles_subscriber {w : World κ σ} {s : SubscriberId} :
    .subscriber s ∈ w.handles ↔ s.index < w.subscribers.size := by
  simp only [handles, List.mem_append, List.mem_map, List.mem_range, Handle.subscriber.injEq,
    reduceCtorEq, and_false, exists_false, false_or, or_false]
  constructor
  · rintro ⟨i, hi, rfl⟩
    exact hi
  · intro h
    exact ⟨s.index, h, rfl⟩

theorem mem_handles_node {w : World κ σ} {n : NodeId} :
    .node n ∈ w.handles ↔ n.index < w.nodes.size := by
  simp only [handles, List.mem_append, List.mem_map, List.mem_range, Handle.node.injEq,
    reduceCtorEq, and_false, exists_false, false_or]
  constructor
  · rintro ⟨i, hi, rfl⟩
    exact hi
  · intro h
    exact ⟨n.index, h, rfl⟩

variable [Client σ]

/-- The thing is left after a number of rounds. -/
def Survives (w : World κ σ) : Nat → Handle → Prop
  | 0, _ => True
  | k + 1, h => w.rooted h = true ∨ ∃ g ∈ w.handles, h ∈ w.owned g ∧ Survives w k g

theorem outlive_eq_true_iff {w : World κ σ} {k : Nat} {hs : List Handle} :
    w.outlive k hs = true ↔ ∃ h ∈ hs, w.Survives k h := by
  induction k generalizing hs with
  | zero =>
      cases hs with
      | nil => simp only [outlive, Bool.false_eq_true, List.not_mem_nil, false_and, exists_false]
      | cons h hs =>
          simp only [outlive, true_iff]
          exact ⟨h, List.mem_cons_self, trivial⟩
  | succ k ih =>
      cases hs with
      | nil => simp only [outlive, Bool.false_eq_true, List.not_mem_nil, false_and, exists_false]
      | cons h hs =>
          rw [outlive, Bool.or_eq_true, ih, List.any_eq_true]
          constructor
          · rintro (⟨x, hx, hrooted⟩ | ⟨g, hg, hsurvives⟩)
            · exact ⟨x, hx, Or.inl hrooted⟩
            · rcases mem_holders.mp hg with ⟨hhandle, x, hx, howned⟩
              exact ⟨x, hx, Or.inr ⟨g, hhandle, howned, hsurvives⟩⟩
          · rintro ⟨x, hx, hrooted | ⟨g, hhandle, howned, hsurvives⟩⟩
            · exact Or.inl ⟨x, hx, hrooted⟩
            · exact Or.inr ⟨g, mem_holders.mpr ⟨hhandle, x, hx, howned⟩, hsurvives⟩
          · exact fun hnil => absurd hnil (List.cons_ne_nil h hs)

/-- Being alive is surviving as many rounds as there are things. -/
theorem alive_iff_survives {w : World κ σ} {h : Handle} :
    w.alive h = true ↔ w.Survives w.handles.length h := by
  rw [alive, outlive_eq_true_iff]
  simp only [List.mem_singleton, exists_eq_left]

/-- A round brings nothing back. -/
theorem survives_of_succ {w : World κ σ} {k : Nat} {h : Handle} (hs : w.Survives (k + 1) h) :
    w.Survives k h := by
  induction k generalizing h with
  | zero => exact trivial
  | succ k ih =>
      rcases hs with hrooted | ⟨g, hhandle, howned, hg⟩
      · exact Or.inl hrooted
      · exact Or.inr ⟨g, hhandle, howned, ih hg⟩

/-- After a round that leaves the same things every round does. -/
theorem survives_succ_of_stable {w : World κ σ} {j : Nat}
    (hstable : ∀ h ∈ w.handles, w.Survives j h → w.Survives (j + 1) h) {k : Nat} (hk : j ≤ k) :
    ∀ h ∈ w.handles, w.Survives k h → w.Survives (k + 1) h := by
  induction hk with
  | refl => exact hstable
  | step _ ih =>
      intro h _ hs
      rcases hs with hrooted | ⟨g, hhandle, howned, hg⟩
      · exact Or.inl hrooted
      · exact Or.inr ⟨g, hhandle, howned, ih g hhandle hg⟩

/-- The things left after a number of rounds. -/
def survivors (w : World κ σ) (k : Nat) : List Handle :=
  w.handles.filter fun h => w.outlive k [h]

theorem mem_survivors {w : World κ σ} {k : Nat} {h : Handle} :
    h ∈ w.survivors k ↔ h ∈ w.handles ∧ w.Survives k h := by
  rw [survivors, List.mem_filter, outlive_eq_true_iff]
  simp only [List.mem_singleton, exists_eq_left]

theorem survivors_sublist (w : World κ σ) (k : Nat) :
    (w.survivors (k + 1)).Sublist (w.survivors k) := by
  have hfilter : w.survivors (k + 1) =
      (w.survivors k).filter fun h => w.outlive (k + 1) [h] := by
    rw [survivors, survivors, List.filter_filter]
    refine List.filter_congr ?_
    intro h _
    cases hs : w.outlive (k + 1) [h] with
    | false => rw [Bool.false_and]
    | true =>
        rw [outlive_eq_true_iff] at hs
        rcases hs with ⟨x, hx, hs⟩
        rw [Bool.true_and, eq_comm, outlive_eq_true_iff]
        exact ⟨x, hx, survives_of_succ hs⟩
  rw [hfilter]
  exact List.filter_sublist

/-- Some round among the first ones leaves the same things: there are not enough things for
    each of them to leave fewer. -/
theorem exists_stable (w : World κ σ) :
    ∃ j ≤ w.handles.length, ∀ h ∈ w.handles, w.Survives j h → w.Survives (j + 1) h := by
  by_contra hnone
  have hshrink : ∀ j, j ≤ w.handles.length →
      (w.survivors (j + 1)).length < (w.survivors j).length := by
    intro j hj
    refine Nat.lt_of_not_le fun hle => hnone ⟨j, hj, ?_⟩
    have heq := (w.survivors_sublist j).eq_of_length_le hle
    intro h hh hs
    have hmem : h ∈ w.survivors j := mem_survivors.mpr ⟨hh, hs⟩
    rw [← heq] at hmem
    exact (mem_survivors.mp hmem).2
  have hcount : ∀ j, j ≤ w.handles.length + 1 →
      (w.survivors j).length + j ≤ w.handles.length := by
    intro j
    induction j with
    | zero => exact fun _ => List.length_filter_le _ _
    | succ j ih =>
        intro hj
        have hprev := ih (Nat.le_of_succ_le hj)
        have hlt := hshrink j (Nat.le_of_succ_le_succ hj)
        omega
  have hlast := hcount _ (Nat.le_refl _)
  omega

/-- What is alive is rooted or held by something alive. -/
theorem rooted_or_held_of_alive {w : World κ σ} {h : Handle} (hmem : h ∈ w.handles)
    (halive : w.alive h = true) :
    w.rooted h = true ∨ ∃ g ∈ w.handles, h ∈ w.owned g ∧ w.alive g = true := by
  rcases w.exists_stable with ⟨j, hj, hstable⟩
  rw [alive_iff_survives] at halive
  rcases survives_succ_of_stable hstable hj h hmem halive with hrooted | ⟨g, hg, howned, hs⟩
  · exact Or.inl hrooted
  · exact Or.inr ⟨g, hg, howned, alive_iff_survives.mpr hs⟩

/-- What is in a set whose members are rooted or held by members is alive. -/
theorem alive_of_supported {w : World κ σ} {S : Handle → Prop}
    (hS : ∀ h, S h → w.rooted h = true ∨ ∃ g ∈ w.handles, h ∈ w.owned g ∧ S g) {h : Handle}
    (hh : S h) : w.alive h = true := by
  rw [alive_iff_survives]
  generalize w.handles.length = k
  induction k generalizing h with
  | zero => exact trivial
  | succ k ih =>
      rcases hS h hh with hrooted | ⟨g, hg, howned, hSg⟩
      · exact Or.inl hrooted
      · exact Or.inr ⟨g, hg, howned, ih hSg⟩

theorem alive_of_rooted {w : World κ σ} {h : Handle} (hrooted : w.rooted h = true) :
    w.alive h = true := by
  have hS : ∀ x, x = h → w.rooted x = true ∨ ∃ g ∈ w.handles, x ∈ w.owned g ∧ g = h := by
    rintro x rfl
    exact Or.inl hrooted
  exact alive_of_supported hS rfl

theorem rooted_eq_true_iff {w : World κ σ} {h : Handle} :
    w.rooted h = true ↔ h ∈ w.pins ∨ h ∈ Client.held w.client := by
  rw [rooted, Bool.or_eq_true, List.contains_iff_mem, List.contains_iff_mem]

/-- What operations hold on to is alive. -/
theorem alive_of_mem_pins {w : World κ σ} {h : Handle} (hpin : h ∈ w.pins) :
    w.alive h = true :=
  alive_of_rooted (rooted_eq_true_iff.mpr (Or.inl hpin))

/-- What the client holds on to is alive. -/
theorem alive_of_mem_held {w : World κ σ} {h : Handle} (hheld : h ∈ Client.held w.client) :
    w.alive h = true :=
  alive_of_rooted (rooted_eq_true_iff.mpr (Or.inr hheld))

/-- Holding on to more things keeps everything alive that is. -/
theorem alive_pins {w : World κ σ} {handles : List Handle} {h : Handle}
    (halive : w.alive h = true) :
    World.alive { w with pins := handles ++ w.pins } h = true := by
  rw [alive_iff_survives] at halive ⊢
  have hmore : ∀ k g, w.Survives k g →
      World.Survives { w with pins := handles ++ w.pins } k g := by
    intro k
    induction k with
    | zero => exact fun _ _ => trivial
    | succ k ih =>
        rintro g (hrooted | ⟨x, hx, howned, hs⟩)
        · refine Or.inl ?_
          rw [rooted_eq_true_iff] at hrooted ⊢
          rcases hrooted with hpin | hheld
          · exact Or.inl (List.mem_append_right _ hpin)
          · exact Or.inr hheld
        · exact Or.inr ⟨x, hx, howned, ih x hs⟩
  exact hmore _ _ halive

/-- What something alive holds is alive. -/
theorem alive_of_owned {w : World κ σ} {g h : Handle} (hg : g ∈ w.handles)
    (halive : w.alive g = true) (howned : h ∈ w.owned g) : w.alive h = true := by
  rw [alive_iff_survives] at halive ⊢
  exact survives_of_succ (Or.inr ⟨g, hg, howned, halive⟩)

omit [Client σ] in
/-- A property of the object holds the other object. -/
def PointsTo (w : World κ σ) (o x : ObjectId) : Prop :=
  ∃ entry ∈ w.object o, entry.2.value = .object x

omit [Client σ] in
/-- Only objects hold objects. -/
theorem object_mem_owned_iff {w : World κ σ} {g : Handle} {x : ObjectId} :
    .object x ∈ w.owned g ↔ ∃ o, g = .object o ∧ w.PointsTo o x := by
  cases g with
  | object o =>
      simp only [owned, List.mem_flatMap, Property.owned, Registry.owned, List.mem_append,
        List.mem_map, reduceCtorEq, and_false, exists_false, or_false, Handle.object.injEq,
        exists_eq_left', PointsTo]
      constructor
      · rintro ⟨entry, hentry, howned⟩
        refine ⟨entry, hentry, ?_⟩
        cases hvalue : entry.2.value with
        | plain v =>
            rw [hvalue] at howned
            exact absurd howned List.not_mem_nil
        | object y =>
            rw [hvalue, Data.owned, List.mem_singleton] at howned
            injection howned with howned
            rw [howned]
      · rintro ⟨entry, hentry, hvalue⟩
        refine ⟨entry, hentry, ?_⟩
        rw [hvalue, Data.owned, List.mem_singleton]
  | registry r =>
      simp only [owned, Registry.owned, List.mem_map, reduceCtorEq, and_false, exists_false,
        false_and]
  | subscriber s =>
      simp only [reduceCtorEq, false_and, exists_false, iff_false, owned]
      cases w.subscriber? s with
      | none => exact List.not_mem_nil
      | some subscriber =>
          cases subscriber with
          | probe callback => exact List.not_mem_nil
          | watcher watcher =>
              cases heffect : watcher.effect with
              | call callback =>
                  simp only [Option.map_some, Option.getD_some, Subscriber.owned, heffect,
                    Effect.owned, List.not_mem_nil, not_false_eq_true]
              | render r =>
                  simp only [Option.map_some, Option.getD_some, Subscriber.owned, heffect,
                    Effect.owned, List.mem_singleton, reduceCtorEq, not_false_eq_true]
  | node n =>
      simp only [owned, List.mem_map, reduceCtorEq, and_false, exists_false, false_and]

omit [Client σ] in
theorem pointsTo_of_objects {w w' : World κ σ} (h : w'.objects = w.objects) (o x : ObjectId) :
    w'.PointsTo o x ↔ w.PointsTo o x := by
  rw [PointsTo, object, h, ← object, ← PointsTo]

omit [Client σ] in
theorem lt_of_pointsTo {w : World κ σ} {o x : ObjectId} (h : w.PointsTo o x) :
    o.index < w.objects.size := by
  by_contra ho
  rcases h with ⟨entry, hentry, _⟩
  rw [object, Heap.get?_eq_none (Nat.le_of_not_lt ho)] at hentry
  exact absurd hentry List.not_mem_nil

/-- An object in a set whose members are rooted or held by members is alive. -/
theorem alive_object_of_supported {w : World κ σ} {S : ObjectId → Prop}
    (hS : ∀ x, S x → w.rooted (.object x) = true ∨ ∃ o, w.PointsTo o x ∧ S o) {x : ObjectId}
    (hx : S x) : w.alive (.object x) = true := by
  refine alive_of_supported (S := fun h => ∃ y, h = .object y ∧ S y) ?_ ⟨x, rfl, hx⟩
  rintro h ⟨y, rfl, hy⟩
  rcases hS y hy with hrooted | ⟨o, hpoints, ho⟩
  · exact Or.inl hrooted
  · exact Or.inr ⟨.object o, mem_handles_object.mpr (lt_of_pointsTo hpoints),
      object_mem_owned_iff.mpr ⟨o, rfl, hpoints⟩, o, rfl, ho⟩

theorem rooted_or_pointedTo_of_alive {w : World κ σ} {x : ObjectId}
    (hx : x.index < w.objects.size) (h : w.alive (.object x) = true) :
    w.rooted (.object x) = true ∨ ∃ o, w.PointsTo o x ∧ w.alive (.object o) = true := by
  rcases rooted_or_held_of_alive (mem_handles_object.mpr hx) h with hrooted | ⟨g, _, howned, hg⟩
  · exact Or.inl hrooted
  · rcases object_mem_owned_iff.mp howned with ⟨o, rfl, hpoints⟩
    exact Or.inr ⟨o, hpoints, hg⟩

theorem alive_of_pointsTo {w : World κ σ} {o x : ObjectId} (hpoints : w.PointsTo o x)
    (h : w.alive (.object o) = true) : w.alive (.object x) = true :=
  alive_of_owned (mem_handles_object.mpr (lt_of_pointsTo hpoints)) h
    (object_mem_owned_iff.mpr ⟨o, rfl, hpoints⟩)

/-- A change under which no object that was dead gets a holder brings none back. -/
theorem alive_object_of_change {w w' : World κ σ}
    (hsize : w.objects.size ≤ w'.objects.size)
    (hrooted : ∀ x : ObjectId, x.index < w.objects.size → w'.rooted (.object x) = true →
      w.alive (.object x) = true)
    (hpoints : ∀ o x : ObjectId, x.index < w.objects.size → w'.PointsTo o x →
      w.PointsTo o x ∨ w.alive (.object x) = true) {x : ObjectId}
    (hx : x.index < w.objects.size) (h : w'.alive (.object x) = true) :
    w.alive (.object x) = true := by
  -- What was there and is alive now, together with what was alive, supports itself.
  refine alive_object_of_supported (S := fun y => y.index < w.objects.size ∧
    (w'.alive (.object y) = true ∨ w.alive (.object y) = true)) ?_ ⟨hx, Or.inl h⟩
  have hbefore : ∀ y : ObjectId, y.index < w.objects.size → w.alive (.object y) = true →
      w.rooted (.object y) = true ∨ ∃ o, w.PointsTo o y ∧ o.index < w.objects.size ∧
        (w'.alive (.object o) = true ∨ w.alive (.object o) = true) := by
    intro y hy halive
    rcases rooted_or_pointedTo_of_alive hy halive with hroot | ⟨o, hpoint, ho⟩
    · exact Or.inl hroot
    · exact Or.inr ⟨o, hpoint, lt_of_pointsTo hpoint, Or.inr ho⟩
  rintro y ⟨hy, hnow | halive⟩
  · rcases rooted_or_pointedTo_of_alive (Nat.lt_of_lt_of_le hy hsize) hnow with
      hroot | ⟨o, hpoint, ho⟩
    · exact hbefore y hy (hrooted y hy hroot)
    · rcases hpoints o y hy hpoint with hpoint | halive
      · exact Or.inr ⟨o, hpoint, lt_of_pointsTo hpoint, Or.inl ho⟩
      · exact hbefore y hy halive
  · exact hbefore y hy halive

/-- With the same objects nothing is alive that was not, unless it is held on to now. -/
theorem alive_object_of_objects {w w' : World κ σ} (hobjects : w'.objects = w.objects)
    (hrooted : ∀ x : ObjectId, x.index < w.objects.size → w'.rooted (.object x) = true →
      w.alive (.object x) = true) {x : ObjectId} (hx : x.index < w.objects.size)
    (h : w'.alive (.object x) = true) : w.alive (.object x) = true :=
  alive_object_of_change (Nat.le_of_eq (congrArg Heap.size hobjects).symm) hrooted
    (fun o x _ hpoints => Or.inl ((pointsTo_of_objects hobjects o x).mp hpoints)) hx h

/-- A change under which nothing that was dead gets a holder brings nothing back. -/
theorem alive_of_change {w w' : World κ σ} (hgrown : ∀ h ∈ w.handles, h ∈ w'.handles)
    (hrooted : ∀ h ∈ w.handles, w'.rooted h = true → w.alive h = true)
    (howned : ∀ g, ∀ h ∈ w.handles, h ∈ w'.owned g →
      h ∈ w.owned g ∧ g ∈ w.handles ∨ w.alive h = true) {h : Handle} (hmem : h ∈ w.handles)
    (halive : w'.alive h = true) : w.alive h = true := by
  -- As for objects: what was there and is alive now supports itself, with what was alive.
  refine alive_of_supported (S := fun x => x ∈ w.handles ∧
    (w'.alive x = true ∨ w.alive x = true)) ?_ ⟨hmem, Or.inl halive⟩
  have hbefore : ∀ x ∈ w.handles, w.alive x = true → w.rooted x = true ∨
      ∃ g ∈ w.handles, x ∈ w.owned g ∧ g ∈ w.handles ∧
        (w'.alive g = true ∨ w.alive g = true) := by
    intro x hx hlives
    rcases rooted_or_held_of_alive hx hlives with hroot | ⟨g, hg, hown, hgalive⟩
    · exact Or.inl hroot
    · exact Or.inr ⟨g, hg, hown, hg, Or.inr hgalive⟩
  rintro x ⟨hx, hnow | hlives⟩
  · rcases rooted_or_held_of_alive (hgrown x hx) hnow with hroot | ⟨g, _, hown, hgalive⟩
    · exact hbefore x hx (hrooted x hx hroot)
    · rcases howned g x hx hown with ⟨hown, hg⟩ | hlives
      · exact Or.inr ⟨g, hg, hown, hg, Or.inl hgalive⟩
      · exact hbefore x hx hlives
  · exact hbefore x hx hlives

end World

end LiveTemplate
