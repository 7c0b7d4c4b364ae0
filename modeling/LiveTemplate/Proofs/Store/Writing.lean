import LiveTemplate.Proofs.Store.Reading

/-!
# Writing to Observed Data

A write to observed data is a write to the plain data that it stands for.

In a tree there is one way to each object. So a property that is written is in one
place of the plain data, and everything beside the way there consists of other objects
and stays what it was. What is written must not be in the tree already, which what has
just been observed is not.

## Theorems

* `resolve_cases`: A path leads to an object that may have its last segment, or nowhere.
* `Stands.focus`: The value of a property, and what another one in its place makes of the tree.
* `Stands.write`: A write replaces the value at one path.
* `Stands.follow_inj`: There is one way to each object.
-/

namespace LiveTemplate

/-- A part of distinct things is exchanged for others that were not among them. -/
theorem nodup_exchange {α : Type} {before within after new : List α}
    (h : (before ++ (within ++ after)).Nodup) (hnew : new.Nodup)
    (hapart : ∀ a ∈ new, a ∈ within ∨ a ∉ before ++ (within ++ after)) :
    (before ++ (new ++ after)).Nodup := by
  rw [List.nodup_append, List.nodup_append] at h ⊢
  rcases h with ⟨hbefore, ⟨_, hafter, hright⟩, hleft⟩
  refine ⟨hbefore, ⟨hnew, hafter, ?_⟩, ?_⟩
  · rintro a ha b hb rfl
    rcases hapart a ha with hmem | hout
    · exact hright a hmem a hb rfl
    · exact hout (List.mem_append_right _ (List.mem_append_right _ hb))
  · rintro a ha b hb rfl
    rcases List.mem_append.mp hb with hb | hb
    · rcases hapart a hb with hmem | hout
      · exact hleft a ha a (List.mem_append_left _ hmem) rfl
      · exact hout (List.mem_append_left _ ha)
    · exact hleft a ha a (List.mem_append_right _ hb) rfl

namespace World

variable {κ σ : Type} {w w' : World κ σ}

theorem follow_append (w : World κ σ) (first rest : List String) (d : Data) :
    w.follow (first ++ rest) d = (w.follow first d).bind (w.follow rest) := by
  induction first generalizing d with
  | nil => rfl
  | cons segment segments ih =>
      cases d with
      | plain v => rfl
      | object o =>
          rw [List.cons_append, follow, follow]
          split
          · rfl
          · cases w.property? o segment with
            | none => rfl
            | some p => exact ih p.value

/-- What a way that begins with a segment goes through. -/
theorem follow_cons_eq_some {segment : String} {segments : List String} {d d' : Data}
    (h : w.follow (segment :: segments) d = some d') :
    ∃ o p, d = .object o ∧ segment.isEmpty = false ∧ w.property? o segment = some p ∧
      w.follow segments p.value = some d' := by
  cases d with
  | plain v => exact absurd h.symm (Option.some_ne_none d')
  | object o =>
      rw [follow] at h
      split at h
      · exact absurd h.symm (Option.some_ne_none d')
      · next hne =>
          cases hp : w.property? o segment with
          | none =>
              rw [hp] at h
              exact absurd h.symm (Option.some_ne_none d')
          | some p =>
              rw [hp] at h
              exact ⟨o, p, rfl, Bool.eq_false_iff.mpr hne, hp, h⟩

/-- A path leads to an object that may have its last segment as a key, or nowhere. -/
theorem resolve_cases [Client σ] (w : World κ σ) (root : ObjectId) (path : String) :
    (∃ e, w.resolve none root path = (.error e, w) ∧ w.pathValue? root path = none) ∨
      ∃ init key o, segmentsOfPath path = init ++ [key] ∧
        w.resolve none root path = (.ok (o, key), w) ∧ key.isEmpty = false ∧
        w.follow init (.object root) = some (.object o) := by
  rw [resolve, pathValue?, segmentsOfPath]
  dsimp only
  generalize (pathSegments path).1 = segment
  generalize (pathSegments path).2 = segments
  induction segments generalizing segment root with
  | nil =>
      rw [resolveFrom, follow]
      split
      · exact Or.inl ⟨_, rfl, rfl⟩
      · next hne => exact Or.inr ⟨[], segment, root, rfl, rfl, Bool.eq_false_iff.mpr hne, rfl⟩
  | cons next segments ih =>
      rw [resolveFrom, follow]
      split
      · exact Or.inl ⟨_, rfl, rfl⟩
      · next hne =>
          cases hp : w.property? root segment with
          | none =>
              simp only [readProperty, hp]
              exact Or.inl ⟨_, rfl, trivial⟩
          | some p =>
              cases hvalue : p.value with
              | plain v =>
                  simp only [readProperty, hp, hvalue]
                  exact Or.inl ⟨_, rfl, rfl⟩
              | object inner =>
                  simp only [readProperty, hp, hvalue]
                  rcases ih inner next with hnone | ⟨init, key, o, hsegments, hrun, hkey, hfollow⟩
                  · exact Or.inl hnone
                  · refine Or.inr ⟨segment :: init, key, o, ?_, hrun, hkey, ?_⟩
                    · rw [hsegments, List.cons_append]
                    · rw [follow, if_neg hne]
                      simp only [hp, hvalue]
                      exact hfollow

/-- The values after a write. -/
theorem values_write (w : World κ σ) (o : ObjectId) (key : String) (d : Data) (a : ObjectId) :
    (w.updateProperty o key fun p => { p with value := d }).values a =
      if a = o then Table.update key (fun _ => d) (w.values a) else w.values a := by
  rw [values_updateProperty]
  by_cases ha : o = a
  · rw [if_pos ha, if_pos ha.symm]
    exact Table.mapValues_update fun _ => rfl
  · rw [if_neg ha, if_neg (Ne.symm ha)]

theorem size_write (w : World κ σ) (o : ObjectId) (key : String) (d : Data) :
    w.objects.size ≤ (w.updateProperty o key fun p => { p with value := d }).objects.size :=
  Nat.le_of_eq (size_objects_updateProperty w o key _).symm

namespace Stands

variable {d : Data} {j : Json} {ids : List ObjectId}

/-- A write to an object leaves alone what it is no part of. -/
theorem written_elsewhere (h : w.Stands d j ids) {o : ObjectId} (ho : o ∉ ids) (key : String)
    (new : Data) : (w.updateProperty o key fun p => { p with value := new }).Stands d j ids := by
  refine Denotes.congr h (w.size_write o key new) fun a ha => ?_
  rw [values_write, if_neg]
  rintro rfl
  exact ho ha

/-- An object to which a way leads is in the tree. -/
theorem mem_of_follow (h : w.Stands d j ids) {segments : List String} {o : ObjectId}
    (hfollow : w.follow segments d = some (.object o)) : o ∈ ids := by
  rcases h.follow_at? segments with ⟨hnone, _⟩ | ⟨d', j', within, hd', _, hwithin, hsub⟩
  · rw [hnone] at hfollow
    exact absurd hfollow.symm (Option.some_ne_none _)
  · rw [hd', Option.some.injEq] at hfollow
    subst hfollow
    rcases hwithin.eq_object with ⟨inner, rest, _, rfl, _⟩
    exact hsub.subset List.mem_cons_self

/-- The value of a property of an object in a tree is a tree inside, of which the object is no
    part. With a value made of other things in its place the object stands for another one. -/
theorem focus {a : ObjectId} (h : w.Stands (.object a) j ids) (hnodup : ids.Nodup)
    {segment : String} {q : Property} (hq : w.property? a segment = some q) :
    ∃ inner j' within, j = .object inner ∧ Table.find? segment inner = some j' ∧
      w.Stands q.value j' within ∧ within.Nodup ∧ (∀ x ∈ within, x ∈ ids ∧ x ≠ a) ∧
      ∀ {w' : World κ σ} {new : Data} {v : Json} {fresh : List ObjectId},
        w.objects.size ≤ w'.objects.size →
        w'.values a = Table.update segment (fun _ => new) (w.values a) →
        (∀ x ∈ ids, x ≠ a → x ∉ within → w'.values x = w.values x) →
        w'.Stands new v fresh → fresh.Nodup → (∀ x ∈ fresh, x ∈ within ∨ x ∉ ids) →
        ∃ ids', w'.Stands (.object a) (.object (Table.update segment (fun _ => v) inner)) ids' ∧
          ids'.Nodup ∧ ∀ x ∈ ids', x ∈ ids ∨ x ∈ fresh := by
  rcases h.eq_object with ⟨inner, rest, rfl, rfl, ha, hinner⟩
  rcases List.nodup_cons.mp hnodup with ⟨hself, hrest⟩
  have hvalue : Table.find? segment (w.values a) = some q.value := by
    rw [find?_values, hq, Option.map_some]
  rcases hinner.focus hvalue with ⟨j', before, within, after, rfl, hj', hwithin, hchange⟩
  rcases List.nodup_append.mp hrest with ⟨_, hbehind, hleft⟩
  rcases List.nodup_append.mp hbehind with ⟨hnodup', _, hright⟩
  have hinside : ∀ x ∈ within, x ∈ before ++ (within ++ after) := fun x hx =>
    List.mem_append_right _ (List.mem_append_left _ hx)
  refine ⟨inner, j', within, rfl, hj', hwithin, hnodup', fun x hx =>
    ⟨List.mem_cons_of_mem a (hinside x hx), fun hxa => hself (hxa ▸ hinside x hx)⟩, ?_⟩
  intro w' new v fresh hgrown hnewValue hbeside hnew hfresh hapart
  have hsame : ∀ x ∈ before ++ after, w'.values x = w.values x := by
    intro x hx
    have hmem : x ∈ before ++ (within ++ after) := by
      rw [List.mem_append] at hx
      exact hx.elim (List.mem_append_left _) fun hx =>
        List.mem_append_right _ (List.mem_append_right _ hx)
    refine hbeside x (List.mem_cons_of_mem a hmem) (fun hxa => hself (hxa ▸ hmem)) fun hxw => ?_
    rcases List.mem_append.mp hx with hx | hx
    · exact hleft x hx x (List.mem_append_left _ hxw) rfl
    · exact hright x hxw x hx rfl
  have hchanged := hchange hgrown hsame hnew
  rw [← hnewValue] at hchanged
  refine ⟨a :: (before ++ (fresh ++ after)), stands_object (Nat.lt_of_lt_of_le ha hgrown) hchanged,
    List.nodup_cons.mpr ⟨fun hmem => ?_, nodup_exchange hrest hfresh fun x hx =>
      (hapart x hx).imp_right fun hout hmem => hout (List.mem_cons_of_mem a hmem)⟩, ?_⟩
  · simp only [List.mem_append, not_or] at hmem hself
    rcases hmem with hmem | hmem | hmem
    · exact hself.1 hmem
    · exact (hapart a hmem).elim hself.2.1 fun hout => hout List.mem_cons_self
    · exact hself.2.2 hmem
  · intro x hx
    simp only [List.mem_cons, List.mem_append] at hx ⊢
    tauto

/-- A write to a property replaces the value at one path. -/
theorem write {init : List String} {key : String} (h : w.Stands d j ids) (hnodup : ids.Nodup)
    {o : ObjectId} (hfollow : w.follow init d = some (.object o)) {p : Property}
    (hp : w.property? o key = some p) {new : Data} {v : Json} {fresh : List ObjectId}
    (hgrown : w.objects.size ≤ w'.objects.size)
    (hvalues : ∀ a, w'.values a =
      if a = o then Table.update key (fun _ => new) (w.values a) else w.values a)
    (hnew : w'.Stands new v fresh) (hfresh : fresh.Nodup) (hapart : ∀ a ∈ fresh, a ∉ ids) :
    ∃ ids', w'.Stands d (Json.replaceAt v (init ++ [key]) j) ids' ∧ ids'.Nodup ∧
      ∀ a ∈ ids', a ∈ ids ∨ a ∈ fresh := by
  have hother : ∀ a, a ≠ o → w'.values a = w.values a := fun a ha => by rw [hvalues, if_neg ha]
  induction init generalizing d j ids with
  | nil =>
      injection hfollow with hfollow
      subst hfollow
      rcases h.focus hnodup hp with ⟨inner, j', within, rfl, hj', _, _, _, hchange⟩
      have hself := hvalues o
      rw [if_pos rfl] at hself
      have hupdate : Table.update key (Json.replaceAt v []) inner =
          Table.update key (fun _ => v) inner := Table.update_congr hj' (by rw [Json.replaceAt])
      rw [List.nil_append, Json.replaceAt, hupdate]
      exact hchange hgrown hself (fun a _ ha _ => hother a ha) hnew hfresh
        fun a ha => Or.inr (hapart a ha)
  | cons segment init ih =>
      rcases follow_cons_eq_some hfollow with ⟨a, q, rfl, _, hq, hrest⟩
      rcases h.focus hnodup hq with ⟨inner, j', within, rfl, hj', hwithin, hnodup', hsub, hchange⟩
      rcases ih hwithin hnodup' hrest (fun x hx hxw => hapart x hx (hsub x hxw).1) with
        ⟨ids', hinside, hids', hmem⟩
      -- The object that is written is inside, so this one keeps its values, and so does
      -- everything beside the way.
      have ho : o ∈ within := hwithin.mem_of_follow hrest
      have hself : w'.values a = Table.update segment (fun _ => q.value) (w.values a) := by
        have hvalue : Table.find? segment (w.values a) = some q.value := by
          rw [find?_values, hq, Option.map_some]
        rw [Table.update_of_find? hvalue, hother a (hsub o ho).2.symm]
      have hupdate : Table.update segment (Json.replaceAt v (init ++ [key])) inner =
          Table.update segment (fun _ => Json.replaceAt v (init ++ [key]) j') inner :=
        Table.update_congr hj' rfl
      rcases hchange hgrown hself (fun x _ _ hx => hother x fun hxo => hx (hxo ▸ ho)) hinside hids'
        (fun x hx => (hmem x hx).imp_right (hapart x)) with ⟨ids'', hstands, hids'', hmem'⟩
      rw [List.cons_append, Json.replaceAt, hupdate]
      exact ⟨ids'', hstands, hids'', fun x hx => (hmem' x hx).elim Or.inl fun hx =>
        (hmem x hx).imp_left fun hx => (hsub x hx).1⟩

end Stands

/-- Entries with another value in them that stands for something stand for something. -/
theorem Denotes.exists_update {ds : Table Data} {ms : Table Json} {ids : List ObjectId}
    (h : w.Denotes ds ms ids) (key : String) {new : Data} {v : Json} {fresh : List ObjectId}
    (hnew : w.Stands new v fresh) :
    ∃ ms' ids', w.Denotes (Table.update key (fun _ => new) ds) ms' ids' := by
  induction ds generalizing ms ids with
  | nil => exact ⟨[], [], .nil⟩
  | cons entry rest ih =>
      rcases entry with ⟨k, first⟩
      rcases h.of_cons with ⟨j, members, before, ids', rfl, rfl, hfirst, hrest⟩
      rw [Table.update]
      split
      · exact ⟨_, _, Denotes.cons hnew hrest⟩
      · rcases ih hrest with ⟨ms', ids'', hupdated⟩
        exact ⟨_, _, Denotes.cons hfirst hupdated⟩

/-- What stands for something does so after any write of something that stands for something,
    no matter where that shows. -/
theorem Denotes.exists_write {ds : Table Data} {ms : Table Json} {ids : List ObjectId}
    (h : w.Denotes ds ms ids) {o : ObjectId} {key : String} {new : Data} {v : Json}
    {fresh : List ObjectId} (hgrown : w.objects.size ≤ w'.objects.size)
    (hvalues : ∀ a, w'.values a =
      if a = o then Table.update key (fun _ => new) (w.values a) else w.values a)
    (hnew : w'.Stands new v fresh) : ∃ ms' ids', w'.Denotes ds ms' ids' := by
  induction h with
  | nil => exact ⟨[], [], .nil⟩
  | plain hv _ ih =>
      rcases ih with ⟨ms', ids', h'⟩
      exact ⟨_, _, .plain hv h'⟩
  | @object k a inner ds ms ids ids' ha _ _ ihi ih =>
      rcases ihi with ⟨inner', within, hinner'⟩
      rcases ih with ⟨ms', ids'', h'⟩
      have hself : ∃ inner'' within', w'.Denotes (w'.values a) inner'' within' := by
        rw [hvalues]
        split
        · exact hinner'.exists_update key hnew
        · exact ⟨inner', within, hinner'⟩
      rcases hself with ⟨inner'', within', hself⟩
      exact ⟨_, _, .object (Nat.lt_of_lt_of_le ha hgrown) hself h'⟩

/-- The values under different keys have no object in common. -/
theorem Denotes.apart {ds : Table Data} {ms : Table Json} {ids : List ObjectId}
    (h : w.Denotes ds ms ids) (hnodup : ids.Nodup) {key key' : String} (hne : key ≠ key')
    {d d' : Data} (hd : Table.find? key ds = some d) (hd' : Table.find? key' ds = some d') :
    ∃ j within j' within', w.Stands d j within ∧ w.Stands d' j' within' ∧
      ∀ o ∈ within, o ∉ within' := by
  induction ds generalizing ms ids with
  | nil => exact absurd hd (Option.some_ne_none d).symm
  | cons entry rest ih =>
      rcases entry with ⟨k, first⟩
      rcases h.of_cons with ⟨j, members, before, ids', rfl, rfl, hfirst, hrest⟩
      rcases List.nodup_append.mp hnodup with ⟨_, hnodup', hapart⟩
      rw [Table.find?] at hd hd'
      by_cases hk : k = key
      · rw [if_pos hk] at hd
        rw [if_neg fun hk' => hne (hk.symm.trans hk')] at hd'
        injection hd with hd
        subst hd
        rcases hrest.focus hd' with ⟨j', before', within', after', rfl, _, hwithin', _⟩
        refine ⟨j, before, j', within', hfirst, hwithin', fun o ho ho' => ?_⟩
        exact hapart o ho o (List.mem_append_right _ (List.mem_append_left _ ho')) rfl
      · rw [if_neg hk] at hd
        by_cases hk' : k = key'
        · rw [if_pos hk'] at hd'
          injection hd' with hd'
          subst hd'
          rcases hrest.focus hd with ⟨j', before', within', after', rfl, _, hwithin', _⟩
          refine ⟨j', within', j, before, hwithin', hfirst, fun o ho ho' => ?_⟩
          exact hapart o ho' o (List.mem_append_right _ (List.mem_append_left _ ho)) rfl
        · rw [if_neg hk'] at hd'
          exact ih hrest hnodup' hd hd'

/-- In a tree there is one way to each object. -/
theorem Stands.follow_inj {d : Data} {j : Json} {ids : List ObjectId} (h : w.Stands d j ids)
    (hnodup : ids.Nodup) {segments segments' : List String} {o : ObjectId}
    (hfollow : w.follow segments d = some (.object o))
    (hfollow' : w.follow segments' d = some (.object o)) : segments = segments' := by
  have hreturn : ∀ {j : Json} {ids : List ObjectId}, w.Stands (.object o) j ids → ids.Nodup →
      ∀ segment segments, w.follow (segment :: segments) (.object o) ≠ some (.object o) := by
    intro j ids h hnodup segment segments hfollow
    rcases follow_cons_eq_some hfollow with ⟨a, q, ha, _, hq, hrest⟩
    injection ha with ha
    subst ha
    rcases h.focus hnodup hq with ⟨_, _, within, _, _, hwithin, _, hsub, _⟩
    exact (hsub o (hwithin.mem_of_follow hrest)).2 rfl
  induction segments generalizing d j ids segments' with
  | nil =>
      injection hfollow with hfollow
      subst hfollow
      cases segments' with
      | nil => rfl
      | cons segment' segments' => exact absurd hfollow' (hreturn h hnodup segment' segments')
  | cons segment segments ih =>
      cases segments' with
      | nil =>
          injection hfollow' with hfollow'
          subst hfollow'
          exact absurd hfollow (hreturn h hnodup segment segments)
      | cons segment' segments' =>
          rcases follow_cons_eq_some hfollow with ⟨a, q, rfl, _, hq, hrest⟩
          rcases follow_cons_eq_some hfollow' with ⟨a', q', ha', _, hq', hrest'⟩
          injection ha' with ha'
          subst ha'
          by_cases hsegment : segment = segment'
          · subst hsegment
            rw [hq, Option.some.injEq] at hq'
            subst hq'
            rcases h.focus hnodup hq with ⟨_, _, within, _, _, hwithin, hnodup', _⟩
            rw [ih hwithin hnodup' hrest hrest']
          · rcases h.eq_object with ⟨inner, rest, rfl, rfl, _, hinner⟩
            have hvalue : Table.find? segment (w.values a) = some q.value := by
              rw [find?_values, hq, Option.map_some]
            have hvalue' : Table.find? segment' (w.values a) = some q'.value := by
              rw [find?_values, hq', Option.map_some]
            rcases hinner.apart (List.nodup_cons.mp hnodup).2 hsegment hvalue hvalue' with
              ⟨_, within, _, within', hwithin, hwithin', hapart⟩
            exact absurd (hwithin'.mem_of_follow hrest')
              (hapart o (hwithin.mem_of_follow hrest))

end World

end LiveTemplate
