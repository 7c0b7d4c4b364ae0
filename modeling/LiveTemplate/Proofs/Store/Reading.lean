import LiveTemplate.Proofs.Store.Observation
import LiveTemplate.Proofs.Store.Trail

/-!
# Observed Data as Plain Data

Objects that stand for a plain value, none of them in two places.

Plain data has a value at some paths and can be written there. Observed data is a net
of objects, and in general a write to one of them shows wherever it is held. But a
value that has just been observed is a tree: each of its objects is held in one place.
`Denotes` says what plain data some entries stand for and lists the objects that they
are made of, so being a tree is a matter of that list having no duplicates.

What entries stand for depends on the values of the listed objects only. Subscribers
may come and go, and other objects may change.

## Main definitions

* `Json.at?`, `Json.replaceAt`: The value at a path of plain data, and another one there.
* `World.values`: The values of an object, whoever is subscribed to them.
* `World.Denotes`, `World.Stands`: Observed data that stands for plain data.

## Theorems

* `Stands.snapshot?_eq`: The plain form of what stands for plain data.
* `Stands.follow_at?`: Paths lead to what stands for the value there.
* `stands_observeValue`: What has been observed stands for what it was observed from.
-/

namespace LiveTemplate

namespace Table

variable {α β : Type}

/-- A table with the entries changed. -/
def mapValues (f : α → β) (t : Table α) : Table β :=
  t.map fun entry => (entry.1, f entry.2)

theorem find?_mapValues (f : α → β) (key : String) (t : Table α) :
    find? key (mapValues f t) = (find? key t).map f := by
  induction t with
  | nil => rfl
  | cons entry rest ih =>
      rcases entry with ⟨k, a⟩
      simp only [mapValues, List.map_cons, find?]
      split
      · rfl
      · exact ih

/-- A change that ends in the same value is the same change. -/
theorem update_congr {key : String} {t : Table α} {a : α} (h : find? key t = some a)
    {f g : α → α} (hfg : f a = g a) : update key f t = update key g t := by
  induction t with
  | nil => rfl
  | cons entry rest ih =>
      rcases entry with ⟨k, b⟩
      rw [find?] at h
      simp only [update]
      split
      · next hk =>
          rw [if_pos hk] at h
          injection h with h
          rw [h, hfg]
      · next hk =>
          rw [if_neg hk] at h
          rw [ih h]

/-- Putting the same value in its own place changes nothing. -/
theorem update_of_find? {key : String} {t : Table α} {a : α} (h : find? key t = some a) :
    update key (fun _ => a) t = t := by
  induction t with
  | nil => rfl
  | cons entry rest ih =>
      rcases entry with ⟨k, b⟩
      rw [find?] at h
      simp only [update]
      split
      · next hk =>
          rw [if_pos hk] at h
          injection h with h
          rw [h]
      · next hk =>
          rw [if_neg hk] at h
          rw [ih h]

/-- A change that shows in the changed entries as another one. -/
theorem mapValues_update {key : String} {t : Table α} {f : α → β} {change : α → α} {g : β → β}
    (h : ∀ a, f (change a) = g (f a)) :
    mapValues f (update key change t) = update key g (mapValues f t) := by
  induction t with
  | nil => rfl
  | cons entry rest ih =>
      rcases entry with ⟨k, b⟩
      simp only [mapValues, List.map_cons, update] at ih ⊢
      split
      · rw [List.map_cons, h]
      · rw [List.map_cons, ih]

/-- A change that does not show in the changed entries. -/
theorem mapValues_update_of_same {key : String} {t : Table α} {f : α → β} {change : α → α}
    (h : ∀ a, f (change a) = f a) : mapValues f (update key change t) = mapValues f t := by
  rw [mapValues_update (g := id) h]
  cases hb : find? key (mapValues f t) with
  | some b => exact (update_congr (g := fun _ => b) hb rfl).trans (update_of_find? hb)
  | none =>
      induction t with
      | nil => rfl
      | cons entry rest ih =>
          rcases entry with ⟨k, c⟩
          simp only [mapValues, List.map_cons, find?] at hb ih
          split at hb
          · exact absurd hb (Option.some_ne_none _)
          · next hk => simp only [mapValues, List.map_cons, update, if_neg hk, ih hb]

end Table

namespace Json

/-- The value is an object. -/
def isObject : Json → Bool
  | object _ => true
  | _ => false

/-- The value to which segments lead. An empty segment leads nowhere. -/
def at? : List String → Json → Option Json
  | [], j => some j
  | segment :: segments, object members =>
    if segment.isEmpty then none
    else
      match Table.find? segment members with
      | none => none
      | some j => at? segments j
  | _ :: _, _ => none

/-- The value with another one in the place to which segments lead. -/
def replaceAt (v : Json) : List String → Json → Json
  | [], _ => v
  | segment :: segments, object members =>
    object (Table.update segment (replaceAt v segments) members)
  | _ :: _, j => j

end Json

namespace World

variable {κ σ : Type} {w w' : World κ σ}

/-- The values of an object under their keys. -/
def values (w : World κ σ) (o : ObjectId) : Table Data :=
  Table.mapValues Property.value (w.object o)

theorem values_updateProperty (w : World κ σ) (o : ObjectId) (key : String)
    (change : Property → Property) (a : ObjectId) :
    (w.updateProperty o key change).values a =
      if o = a then Table.mapValues Property.value (Table.update key change (w.object a))
      else w.values a := by
  rw [values, object_updateProperty]
  split
  · rfl
  · rfl

/-- A change that keeps the value of a property. -/
theorem values_updateProperty_of_same (w : World κ σ) (o : ObjectId) (key : String)
    {change : Property → Property} (h : ∀ p, (change p).value = p.value) (a : ObjectId) :
    (w.updateProperty o key change).values a = w.values a := by
  rw [values_updateProperty, Table.mapValues_update_of_same h, ← values, ite_self]

theorem find?_values (w : World κ σ) (o : ObjectId) (key : String) :
    Table.find? key (w.values o) = (w.property? o key).map Property.value :=
  Table.find?_mapValues Property.value key (w.object o)

/-- The entries stand for the members, and consist of the objects. -/
inductive Denotes (w : World κ σ) : Table Data → Table Json → List ObjectId → Prop
  /-- No entries stand for no members. -/
  | nil : Denotes w [] [] []
  /-- A plain value stands for itself. -/
  | plain {key : String} {v : Json} {ds : Table Data} {ms : Table Json} {ids : List ObjectId}
      (hv : v.isObject = false) (h : Denotes w ds ms ids) :
      Denotes w ((key, .plain v) :: ds) ((key, v) :: ms) ids
  /-- An object stands for its members. -/
  | object {key : String} {o : ObjectId} {inner : Table Json} {ds : Table Data} {ms : Table Json}
      {ids ids' : List ObjectId} (ho : o.index < w.objects.size)
      (hinner : Denotes w (w.values o) inner ids) (h : Denotes w ds ms ids') :
      Denotes w ((key, .object o) :: ds) ((key, .object inner) :: ms) (o :: (ids ++ ids'))

/-- The value stands for the plain value, and consists of the objects. -/
def Stands (w : World κ σ) (d : Data) (j : Json) (ids : List ObjectId) : Prop :=
  w.Denotes [("", d)] [("", j)] ids

theorem stands_plain {v : Json} (hv : v.isObject = false) : w.Stands (.plain v) v [] :=
  .plain hv .nil

theorem stands_object {o : ObjectId} {inner : Table Json} {ids : List ObjectId}
    (ho : o.index < w.objects.size) (hinner : w.Denotes (w.values o) inner ids) :
    w.Stands (.object o) (.object inner) (o :: ids) := by
  have h : w.Stands (.object o) (.object inner) (o :: (ids ++ [])) := .object ho hinner .nil
  rwa [List.append_nil] at h

theorem Stands.eq_plain {v j : Json} {ids : List ObjectId} (h : w.Stands (.plain v) j ids) :
    j = v ∧ ids = [] ∧ v.isObject = false := by
  cases h with
  | plain hv h =>
      cases h
      exact ⟨rfl, rfl, hv⟩

theorem Stands.eq_object {o : ObjectId} {j : Json} {ids : List ObjectId}
    (h : w.Stands (.object o) j ids) :
    ∃ inner rest, j = .object inner ∧ ids = o :: rest ∧ o.index < w.objects.size ∧
      w.Denotes (w.values o) inner rest := by
  cases h with
  | object ho hinner h =>
      cases h
      exact ⟨_, _, rfl, by rw [List.append_nil], ho, hinner⟩

namespace Denotes

variable {ds : Table Data} {ms : Table Json} {ids : List ObjectId}

theorem lt_size (h : w.Denotes ds ms ids) : ∀ o ∈ ids, o.index < w.objects.size := by
  induction h with
  | nil => exact fun o ho => absurd ho List.not_mem_nil
  | plain _ _ ih => exact ih
  | object ho _ _ ihi ih =>
      exact List.forall_mem_cons.mpr ⟨ho, List.forall_mem_append.mpr ⟨ihi, ih⟩⟩

/-- Only the values of the objects matter. -/
theorem congr (h : w.Denotes ds ms ids) (hgrown : w.objects.size ≤ w'.objects.size)
    (hsame : ∀ o ∈ ids, w'.values o = w.values o) : w'.Denotes ds ms ids := by
  induction h with
  | nil => exact .nil
  | plain hv _ ih => exact .plain hv (ih hsame)
  | @object key o inner ds ms ids ids' ho _ _ ihi ih =>
      rw [List.forall_mem_cons, List.forall_mem_append] at hsame
      have hinner := ihi hsame.2.1
      rw [← hsame.1] at hinner
      exact .object (Nat.lt_of_lt_of_le ho hgrown) hinner (ih hsame.2.2)

/-- One more entry in front. -/
theorem cons {key : String} {d : Data} {j : Json} {first : List ObjectId}
    (hfirst : w.Stands d j first) (h : w.Denotes ds ms ids) :
    w.Denotes ((key, d) :: ds) ((key, j) :: ms) (first ++ ids) := by
  cases d with
  | plain v =>
      rcases hfirst.eq_plain with ⟨rfl, rfl, hv⟩
      exact .plain hv h
  | object o =>
      rcases hfirst.eq_object with ⟨inner, rest, rfl, rfl, ho, hinner⟩
      exact .object ho hinner h

/-- The first entry and the ones after it. -/
theorem of_cons {key : String} {d : Data} (h : w.Denotes ((key, d) :: ds) ms ids) :
    ∃ j rest first ids', ms = (key, j) :: rest ∧ ids = first ++ ids' ∧ w.Stands d j first ∧
      w.Denotes ds rest ids' := by
  cases h with
  | plain hv h => exact ⟨_, _, [], _, rfl, rfl, stands_plain hv, h⟩
  | object ho hinner h => exact ⟨_, _, _ :: _, _, rfl, rfl, stands_object ho hinner, h⟩

/-- Entries stand for nothing else, and consist of nothing else. -/
theorem functional {ms' : Table Json} {ids' : List ObjectId} (h : w.Denotes ds ms ids)
    (h' : w.Denotes ds ms' ids') : ms = ms' ∧ ids = ids' := by
  induction h generalizing ms' ids' with
  | nil =>
      cases h'
      exact ⟨rfl, rfl⟩
  | plain _ _ ih =>
      cases h' with
      | plain _ h' =>
          rcases ih h' with ⟨rfl, rfl⟩
          exact ⟨rfl, rfl⟩
  | object _ _ _ ihi ih =>
      cases h' with
      | object _ hinner' h' =>
          rcases ihi hinner' with ⟨rfl, rfl⟩
          rcases ih h' with ⟨rfl, rfl⟩
          exact ⟨rfl, rfl⟩

/-- The values of an object that is part of some entries stand for something, too. -/
theorem of_mem (h : w.Denotes ds ms ids) {o : ObjectId} (ho : o ∈ ids) :
    ∃ inner rest, w.Denotes (w.values o) inner rest ∧ (o :: rest).Sublist ids := by
  induction h with
  | nil => exact absurd ho List.not_mem_nil
  | plain _ _ ih => exact ih ho
  | @object key a inner ds ms ids ids' _ hinner _ ihi ih =>
      rcases List.mem_cons.mp ho with rfl | ho
      · exact ⟨inner, ids, hinner, List.Sublist.cons_cons o (List.sublist_append_left ids ids')⟩
      · rcases List.mem_append.mp ho with ho | ho
        · rcases ihi ho with ⟨inner', rest, hrest, hsub⟩
          exact ⟨inner', rest, hrest, (hsub.trans (List.sublist_append_left ids ids')).cons a⟩
        · rcases ih ho with ⟨inner', rest, hrest, hsub⟩
          exact ⟨inner', rest, hrest, (hsub.trans (List.sublist_append_right ids ids')).cons a⟩

/-- No object is part of its own values. -/
theorem not_mem {o : ObjectId} (h : w.Denotes (w.values o) ms ids) : o ∉ ids := by
  intro ho
  rcases h.of_mem ho with ⟨inner, rest, hrest, hsub⟩
  rcases hrest.functional h with ⟨_, rfl⟩
  exact Nat.not_succ_le_self rest.length hsub.length_le

/-- As deep as there are objects besides the ones above the entries have a plain form. -/
theorem members?_eq (h : w.Denotes ds ms ids) {above : List ObjectId} (habove : above.Nodup)
    (hthere : ∀ o ∈ above, o.index < w.objects.size) (hapart : ∀ o ∈ above, o ∉ ids)
    {depth : Nat} (hdepth : w.objects.size ≤ depth + above.length) {properties : Properties}
    (hproperties : Table.mapValues Property.value properties = ds) :
    members? (w.snapshotWithin? depth) properties = some ms := by
  induction h generalizing above depth properties with
  | nil =>
      cases properties with
      | nil => rfl
      | cons entry rest => exact absurd hproperties (List.cons_ne_nil _ _)
  | plain hv _ ih =>
      cases properties with
      | nil => exact absurd hproperties.symm (List.cons_ne_nil _ _)
      | cons entry rest =>
          rcases entry with ⟨key, p⟩
          simp only [Table.mapValues, List.map_cons, List.cons.injEq, Prod.mk.injEq] at hproperties
          rcases hproperties with ⟨⟨rfl, hp⟩, hrest⟩
          simp only [members?, hp, snapshotWithin?, ih habove hthere hapart hdepth hrest]
  | @object key o inner ds ms ids ids' ho hinner _ ihi ih =>
      cases properties with
      | nil => exact absurd hproperties.symm (List.cons_ne_nil _ _)
      | cons entry rest =>
          rcases entry with ⟨key, p⟩
          simp only [Table.mapValues, List.map_cons, List.cons.injEq, Prod.mk.injEq] at hproperties
          rcases hproperties with ⟨⟨rfl, hp⟩, hrest⟩
          -- The object is one more that is above its own values.
          have hout : o ∉ above := fun hmem => hapart o hmem List.mem_cons_self
          have habove' : (o :: above).Nodup := List.nodup_cons.mpr ⟨hout, habove⟩
          have hthere' : ∀ a ∈ o :: above, a.index < w.objects.size :=
            List.forall_mem_cons.mpr ⟨ho, hthere⟩
          have hroom := length_le_of_nodup (fun _ _ => ObjectId.ext) habove' hthere'
          rw [List.length_cons] at hroom
          have hinside : ∀ a ∈ o :: above, a ∉ ids := List.forall_mem_cons.mpr
            ⟨hinner.not_mem, fun a ha hmem =>
              hapart a ha (List.mem_cons_of_mem o (List.mem_append_left ids' hmem))⟩
          have hbeside : ∀ a ∈ above, a ∉ ids' := fun a ha hmem =>
            hapart a ha (List.mem_cons_of_mem o (List.mem_append_right ids hmem))
          cases depth with
          | zero => omega
          | succ depth =>
              have hsize : w.objects.size ≤ depth + (o :: above).length := by
                rw [List.length_cons]
                omega
              have hsnapshot : w.snapshotWithin? (depth + 1) p.value = some (.object inner) := by
                rw [hp, snapshotWithin?, ihi habove' hthere' hinside hsize rfl, Option.map_some]
              rw [members?, hsnapshot, ih habove hthere hbeside hdepth hrest]

/-- The entry under a key, what it stands for, and what the others are made of. Another value
    in its place stands for another one. -/
theorem focus {key : String} (h : w.Denotes ds ms ids) {d : Data}
    (hd : Table.find? key ds = some d) :
    ∃ j before within after, ids = before ++ (within ++ after) ∧ Table.find? key ms = some j ∧
      w.Stands d j within ∧
      ∀ {w' : World κ σ} {d' : Data} {v : Json} {new : List ObjectId},
        w.objects.size ≤ w'.objects.size →
        (∀ o ∈ before ++ after, w'.values o = w.values o) → w'.Stands d' v new →
          w'.Denotes (Table.update key (fun _ => d') ds) (Table.update key (fun _ => v) ms)
            (before ++ (new ++ after)) := by
  induction ds generalizing ms ids with
  | nil => exact absurd hd (Option.some_ne_none d).symm
  | cons entry rest ih =>
      rcases entry with ⟨k, first⟩
      rcases h.of_cons with ⟨j, members, before, ids', rfl, rfl, hfirst, hrest⟩
      rw [Table.find?] at hd
      split at hd
      · next hk =>
          injection hd with hd
          subst hd
          refine ⟨j, [], before, ids', rfl, by rw [Table.find?, if_pos hk], hfirst, ?_⟩
          intro w' d' v new hgrown hsame hnew
          rw [Table.update, if_pos hk, Table.update, if_pos hk, List.nil_append]
          exact Denotes.cons hnew (hrest.congr hgrown hsame)
      · next hk =>
          rcases ih hrest hd with ⟨j', before', within, after, rfl, hj', hwithin, hchange⟩
          refine ⟨j', before ++ before', within, after, by rw [List.append_assoc],
            by rw [Table.find?, if_neg hk, hj'], hwithin, ?_⟩
          intro w' d' v new hgrown hsame hnew
          rw [Table.update, if_neg hk, Table.update, if_neg hk, List.append_assoc]
          rw [List.append_assoc, List.forall_mem_append] at hsame
          exact Denotes.cons (Denotes.congr hfirst hgrown hsame.1) (hchange hgrown hsame.2 hnew)

theorem find?_eq_none {key : String} (h : w.Denotes ds ms ids)
    (hd : Table.find? key ds = none) : Table.find? key ms = none := by
  induction ds generalizing ms ids with
  | nil =>
      cases h
      rfl
  | cons entry rest ih =>
      rcases entry with ⟨k, first⟩
      rcases h.of_cons with ⟨j, members, before, ids', rfl, rfl, _, hrest⟩
      rw [Table.find?] at hd ⊢
      split at hd
      · exact absurd hd (Option.some_ne_none first)
      · next hk => rw [if_neg hk, ih hrest hd]

end Denotes

namespace Stands

variable {d : Data} {j : Json} {ids : List ObjectId}

/-- What stands for a plain value has it as its plain form. -/
theorem snapshot?_eq (h : w.Stands d j ids) : w.snapshot? d = some j := by
  rw [snapshot?]
  cases d with
  | plain v =>
      rcases h.eq_plain with ⟨rfl, _, _⟩
      rw [snapshotWithin?]
  | object o =>
      rcases h.eq_object with ⟨inner, rest, rfl, rfl, _, hinner⟩
      have hmembers : members? (w.snapshotWithin? w.objects.size) (w.object o) = some inner :=
        hinner.members?_eq List.nodup_nil (fun a ha => absurd ha List.not_mem_nil)
          (fun a ha => absurd ha List.not_mem_nil) (Nat.le_refl w.objects.size) rfl
      rw [snapshotWithin?, hmembers, Option.map_some]

/-- A path leads to something exactly if there is a value at the path, and then to what stands
    for that value. -/
theorem follow_at? (h : w.Stands d j ids) (segments : List String) :
    (w.follow segments d = none ∧ j.at? segments = none) ∨
      ∃ d' j' within, w.follow segments d = some d' ∧ j.at? segments = some j' ∧
        w.Stands d' j' within ∧ within.Sublist ids := by
  induction segments generalizing d j ids with
  | nil => exact Or.inr ⟨d, j, ids, rfl, by rw [Json.at?], h, List.Sublist.refl ids⟩
  | cons segment segments ih =>
      cases d with
      | plain v =>
          rcases h.eq_plain with ⟨rfl, _, hv⟩
          refine Or.inl ⟨rfl, ?_⟩
          cases j with
          | object members => exact absurd hv.symm Bool.false_ne_true
          | _ => rfl
      | object o =>
          rcases h.eq_object with ⟨inner, rest, rfl, rfl, _, hinner⟩
          rw [follow, Json.at?]
          by_cases hempty : segment.isEmpty = true
          · rw [if_pos hempty, if_pos hempty]
            exact Or.inl ⟨rfl, rfl⟩
          · rw [if_neg hempty, if_neg hempty]
            have hvalue := w.find?_values o segment
            cases hp : w.property? o segment with
            | none =>
                rw [hp] at hvalue
                rw [hinner.find?_eq_none hvalue]
                exact Or.inl ⟨rfl, rfl⟩
            | some p =>
                rw [hp] at hvalue
                rcases hinner.focus hvalue with ⟨j', before, within, after, rfl, hj', hwithin, _⟩
                rw [hj']
                rcases ih hwithin with hnone | ⟨d', j'', inside, hd', hj'', hinside, hsub⟩
                · exact Or.inl hnone
                · refine Or.inr ⟨d', j'', inside, hd', hj'', hinside, hsub.trans ?_⟩
                  refine List.Sublist.cons _ ?_
                  exact (List.sublist_append_left within after).trans
                    (List.sublist_append_right before _)

end Stands

theorem values_of_object {w w' : World κ σ} {o : ObjectId} (h : w'.object o = w.object o) :
    w'.values o = w.values o := by
  rw [values, h, ← values]

/-- What has been observed stands for what it was observed from, and is new. -/
theorem denotes_observe :
    (∀ (value : Json) (w : World κ σ), ∃ ids,
      (observeValue value w).2.Stands (observeValue value w).1 value ids ∧ ids.Nodup ∧
        ∀ o ∈ ids, w.objects.size ≤ o.index) ∧
    ∀ (members : List (String × Json)) (w : World κ σ), ∃ ids,
      (observeMembers members w).2.Denotes
          (Table.mapValues Property.value (observeMembers members w).1) members ids ∧ ids.Nodup ∧
        ∀ o ∈ ids, w.objects.size ≤ o.index := by
  refine observeValue.mutual_induct
    (fun value w => ∃ ids,
      (observeValue value w).2.Stands (observeValue value w).1 value ids ∧ ids.Nodup ∧
        ∀ o ∈ ids, w.objects.size ≤ o.index)
    (fun members w => ∃ ids,
      (observeMembers members w).2.Denotes
          (Table.mapValues Property.value (observeMembers members w).1) members ids ∧ ids.Nodup ∧
        ∀ o ∈ ids, w.objects.size ≤ o.index)
    ?_ ?_ ?_ ?_
  · intro w members properties w₁ hmembers o w₂ hobject ih
    have hgrown := (extends_observe.2 members w).1.grown
    rw [observeValue]
    simp only [hmembers, hobject] at ih hgrown ⊢
    rcases ih with ⟨ids, hdenotes, hnodup, hnew⟩
    have ho : (w₁.addObject properties).1 = o := congrArg Prod.fst hobject
    have hw₂ : (w₁.addObject properties).2 = w₂ := congrArg Prod.snd hobject
    have hsize : w₂.objects.size = w₁.objects.size + 1 := by
      rw [← hw₂]
      exact Heap.size_add w₁.objects properties
    have hindex : o.index = w₁.objects.size := by
      rw [← ho]
      rfl
    have hlook : ∀ a, w₂.object a = if a.index = w₁.objects.size then properties
        else w₁.object a := by
      intro a
      rw [← hw₂]
      exact object_addObject w₁ properties a
    have hvalues : w₂.values o = Table.mapValues Property.value properties := by
      rw [World.values, hlook, if_pos hindex]
    have hold : ∀ a ∈ ids, w₂.values a = w₁.values a := by
      intro a ha
      exact values_of_object (by rw [hlook, if_neg (Nat.ne_of_lt (hdenotes.lt_size a ha))])
    have hinner := hdenotes.congr (hsize ▸ Nat.le_succ _) hold
    rw [← hvalues] at hinner
    refine ⟨o :: ids, stands_object (by omega) hinner, List.nodup_cons.mpr ⟨?_, hnodup⟩, ?_⟩
    · intro hmem
      have hlt := hdenotes.lt_size o hmem
      omega
    · exact List.forall_mem_cons.mpr ⟨by omega, hnew⟩
  · intro w value hvalue
    have hv : value.isObject = false := by
      cases value with
      | object members => exact absurd rfl (hvalue members)
      | _ => rfl
    rw [observeValue_of_ne_object hvalue]
    exact ⟨[], stands_plain hv, List.nodup_nil, fun o ho => absurd ho List.not_mem_nil⟩
  · intro w
    rw [observeMembers]
    exact ⟨[], .nil, List.nodup_nil, fun o ho => absurd ho List.not_mem_nil⟩
  · intro w key value members data w₁ hvalue properties w₂ hmembers ih₁ ih₂
    have hextends₁ := (extends_observe.1 value w).1
    have hextends₂ := (extends_observe.2 members w₁).1
    rw [observeMembers]
    simp only [hvalue, hmembers] at ih₁ ih₂ hextends₁ hextends₂ ⊢
    rcases ih₁ with ⟨first, hfirst, hnodup₁, hnew₁⟩
    rcases ih₂ with ⟨rest, hrest, hnodup₂, hnew₂⟩
    have hkept := Denotes.congr hfirst hextends₂.grown fun o ho =>
      values_of_object (hextends₂.kept o (Denotes.lt_size hfirst o ho))
    refine ⟨first ++ rest, Denotes.cons hkept hrest, ?_, List.forall_mem_append.mpr ⟨hnew₁, ?_⟩⟩
    · refine List.nodup_append.mpr ⟨hnodup₁, hnodup₂, ?_⟩
      rintro o ho _ ho' rfl
      exact Nat.not_lt_of_le (hnew₂ o ho') (Denotes.lt_size hfirst o ho)
    · exact fun o ho => Nat.le_trans hextends₁.grown (hnew₂ o ho)

/-- What has been observed stands for what it was observed from, and is new. -/
theorem stands_observeValue (value : Json) (w : World κ σ) :
    ∃ ids, (observeValue value w).2.Stands (observeValue value w).1 value ids ∧ ids.Nodup ∧
      ∀ o ∈ ids, w.objects.size ≤ o.index :=
  denotes_observe.1 value w

end World

end LiveTemplate
