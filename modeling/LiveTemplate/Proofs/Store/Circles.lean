import LiveTemplate.Proofs.Store.Observation
import LiveTemplate.Proofs.Store.Trail
import Mathlib.Logic.Relation

/-!
# Objects in a Circle

Which values have a plain form.

Taking the plain form of an object follows its properties, and goes on for ever if an object is
got to from itself. This is the only thing that can go wrong: there are finitely many objects,
so whoever goes deeper than that has been somewhere twice. Observing a value never closes a
circle, as the objects that it adds hold only objects that were added before them.

## Main definitions

* `World.Circular`: An object that can be got to from itself.
* `World.Straight`: A value from which no circular object can be got to.
* `World.Acyclic`: A world without circular objects.

## Theorems

* `isSome_snapshotWithin?_succ_iff`: An object has a plain form one level above what it holds.
* `snapshot?_eq_some_of_within`: If any depth gives a plain form, then it is the plain form.
* `isSome_snapshot?_iff`: The straight values are the ones that have a plain form.
* `acyclic_observeValue`: Observing closes no circle.
-/

namespace LiveTemplate

open Relation (ReflTransGen TransGen)

variable {κ σ : Type}

namespace World

variable {w w' : World κ σ}

/-- The object can be got to from itself. -/
def Circular (w : World κ σ) (x : ObjectId) : Prop :=
  TransGen w.PointsTo x x

/-- No circular object can be got to from the value. -/
def Straight (w : World κ σ) (d : Data) : Prop :=
  ∀ o x, d = .object o → ReflTransGen w.PointsTo o x → ¬w.Circular x

/-- No object can be got to from itself. -/
def Acyclic (w : World κ σ) : Prop :=
  ∀ x, ¬w.Circular x

theorem straight_plain (w : World κ σ) (value : Json) : w.Straight (.plain value) := by
  intro o x hd
  cases hd

/-! ### Plain forms -/

theorem isSome_members?_iff {form? : Data → Option Json} {properties : Properties} :
    (members? form? properties).isSome = true ↔
      ∀ entry ∈ properties, (form? entry.2.value).isSome = true := by
  induction properties with
  | nil => simp [members?]
  | cons entry rest ih =>
      rcases entry with ⟨key, p⟩
      rw [List.forall_mem_cons, ← ih, members?]
      cases form? p.value with
      | none => simp
      | some value => cases members? form? rest <;> simp

theorem members?_mono {form? form'? : Data → Option Json}
    (h : ∀ d j, form? d = some j → form'? d = some j) {properties : Properties}
    {members : List (String × Json)} (hmembers : members? form? properties = some members) :
    members? form'? properties = some members := by
  induction properties generalizing members with
  | nil => exact hmembers
  | cons entry rest ih =>
      rcases entry with ⟨key, p⟩
      rw [members?] at hmembers ⊢
      split at hmembers
      · next value others hvalue hothers =>
          rw [h _ _ hvalue, ih hothers]
          exact hmembers
      · cases hmembers

/-- Going deeper does not change a plain form. -/
theorem snapshotWithin?_mono {depth depth' : Nat} (hle : depth ≤ depth') {d : Data} {j : Json}
    (h : w.snapshotWithin? depth d = some j) : w.snapshotWithin? depth' d = some j := by
  induction depth generalizing depth' d j with
  | zero =>
      cases d with
      | plain value =>
          rw [snapshotWithin?] at h ⊢
          exact h
      | object o => cases h
  | succ depth ih =>
      cases d with
      | plain value =>
          rw [snapshotWithin?] at h ⊢
          exact h
      | object o =>
          cases depth' with
          | zero => omega
          | succ depth' =>
              rw [snapshotWithin?, Option.map_eq_some_iff] at h
              rcases h with ⟨members, hmembers, rfl⟩
              have hdeeper := members?_mono (fun d j => ih (Nat.le_of_succ_le_succ hle)) hmembers
              rw [snapshotWithin?, hdeeper, Option.map_some]

/-- An object has a plain form one level above the objects that it holds. -/
theorem isSome_snapshotWithin?_succ_iff {depth : Nat} {o : ObjectId} :
    (w.snapshotWithin? (depth + 1) (.object o)).isSome = true ↔
      ∀ x, w.PointsTo o x → (w.snapshotWithin? depth (.object x)).isSome = true := by
  rw [snapshotWithin?, Option.isSome_map, isSome_members?_iff]
  constructor
  · rintro h x ⟨entry, hentry, hvalue⟩
    have := h entry hentry
    rwa [hvalue] at this
  · intro h entry hentry
    cases hvalue : entry.2.value with
    | plain value => simp [snapshotWithin?]
    | object x => exact h x ⟨entry, hentry, hvalue⟩

/-- An object that leads into a circle has no plain form, however deep one goes: it holds another
    object that leads into the circle. -/
theorem snapshotWithin?_eq_none {o x : ObjectId} (hway : ReflTransGen w.PointsTo o x)
    (hcircular : w.Circular x) (depth : Nat) : w.snapshotWithin? depth (.object o) = none := by
  induction depth generalizing o with
  | zero => rfl
  | succ depth ih =>
      have hnext : ∃ b, w.PointsTo o b ∧ ReflTransGen w.PointsTo b x := by
        rcases ReflTransGen.cases_head hway with rfl | hstep
        · exact TransGen.head'_iff.mp hcircular
        · exact hstep
      obtain ⟨b, hb, hrest⟩ := hnext
      rw [← Option.not_isSome_iff_eq_none, isSome_snapshotWithin?_succ_iff]
      intro h
      have hsome := h b hb
      rw [ih hrest] at hsome
      cases hsome

/-- Objects that are above each other and not in a circle are all different, so no more of them
    can be above an object than there are, and the others are the room that is left beneath
    it. -/
theorem isSome_snapshotWithin? {o : ObjectId} {above : List ObjectId}
    (hnodup : (o :: above).Nodup) (habove : ∀ a ∈ above, TransGen w.PointsTo a o)
    (hfree : w.Straight (.object o)) {depth : Nat}
    (hdepth : w.objects.size < depth + above.length) :
    (w.snapshotWithin? depth (.object o)).isSome = true := by
  induction depth generalizing o above with
  | zero =>
      have hthere : ∀ a ∈ above, a.index < w.objects.size := by
        intro a ha
        obtain ⟨b, hb, _⟩ := TransGen.head'_iff.mp (habove a ha)
        exact lt_of_pointsTo hb
      have hroom := length_le_of_nodup (fun _ _ => ObjectId.ext) hnodup.of_cons hthere
      omega
  | succ depth ih =>
      refine isSome_snapshotWithin?_succ_iff.mpr fun x hx => ?_
      have hnot : x ∉ o :: above := by
        intro hmem
        rcases List.mem_cons.mp hmem with rfl | hmem
        · exact hfree x x rfl .refl (.single hx)
        · exact hfree o x rfl (.single hx) ((habove x hmem).tail hx)
      have habove' : ∀ a ∈ o :: above, TransGen w.PointsTo a x := by
        intro a ha
        rcases List.mem_cons.mp ha with rfl | ha
        · exact .single hx
        · exact (habove a ha).tail hx
      have hfree' : w.Straight (.object x) := by
        rintro _ y ⟨⟩ hway
        exact hfree o y rfl (.head hx hway)
      have hdepth' : w.objects.size < depth + (o :: above).length := by
        rw [List.length_cons]
        omega
      exact ih (List.nodup_cons.mpr ⟨hnot, hnodup⟩) habove' hfree' hdepth'

/-- The values with a plain form are the ones that lead into no circle. -/
theorem isSome_snapshot?_iff {d : Data} : (w.snapshot? d).isSome = true ↔ w.Straight d := by
  rw [snapshot?]
  cases d with
  | plain value => simp [snapshotWithin?, straight_plain]
  | object o =>
      constructor
      · rintro hsome _ x ⟨⟩ hway hcircular
        rw [snapshotWithin?_eq_none hway hcircular] at hsome
        cases hsome
      · intro hfree
        have hnil : ∀ a ∈ ([] : List ObjectId), TransGen w.PointsTo a o := by simp
        exact isSome_snapshotWithin? (List.nodup_singleton o) hnil hfree (by simp)

/-- If some depth is enough for a plain form, then this is the plain form of the value. -/
theorem snapshot?_eq_some_of_within {depth : Nat} {d : Data} {j : Json}
    (h : w.snapshotWithin? depth d = some j) : w.snapshot? d = some j := by
  have hfree : w.Straight d := by
    rintro o x rfl hway hcircular
    rw [snapshotWithin?_eq_none hway hcircular] at h
    cases h
  obtain ⟨j', hj'⟩ := Option.isSome_iff_exists.mp (isSome_snapshot?_iff.mpr hfree)
  have hdeep := snapshotWithin?_mono (Nat.le_max_left depth (w.objects.size + 1)) h
  have hdeep' := snapshotWithin?_mono (Nat.le_max_right depth (w.objects.size + 1)) hj'
  rw [hj', ← hdeep', hdeep]

/-! ### Observing -/

/-- A new object holds only objects that were added before it. -/
theorem downward_observe :
    (∀ (value : Json) (w : World κ σ) (o x : ObjectId), w.objects.size ≤ o.index →
      (observeValue value w).2.PointsTo o x → x.index < o.index) ∧
    ∀ (members : List (String × Json)) (w : World κ σ) (o x : ObjectId),
      w.objects.size ≤ o.index → (observeMembers members w).2.PointsTo o x →
        x.index < o.index := by
  have hnone : ∀ (w : World κ σ) (o x : ObjectId), w.objects.size ≤ o.index →
      w.PointsTo o x → x.index < o.index := fun w o x ho hx =>
    absurd (lt_of_pointsTo hx) (Nat.not_lt_of_le ho)
  refine observeValue.mutual_induct
    (fun value w => ∀ o x : ObjectId, w.objects.size ≤ o.index →
      (observeValue value w).2.PointsTo o x → x.index < o.index)
    (fun members w => ∀ o x : ObjectId, w.objects.size ≤ o.index →
      (observeMembers members w).2.PointsTo o x → x.index < o.index)
    ?_ ?_ ?_ ?_
  · intro w members properties w₁ hmembers o w₂ hobject ih a x ha hx
    have hnew := (extends_observe.2 members w).2
    have hw₂ : (w₁.addObject properties).2 = w₂ := congrArg Prod.snd hobject
    rw [observeValue] at hx
    simp only [hmembers, hobject] at ih hnew hx
    by_cases hlast : a.index = w₁.objects.size
    · -- The object itself comes last, and holds what its members were observed as.
      rw [PointsTo, ← hw₂, object_addObject, if_pos hlast] at hx
      obtain ⟨entry, hentry, hvalue⟩ := hx
      rw [hlast]
      exact ((hnew entry hentry).1 x hvalue).2
    · refine ih a x ha ?_
      rwa [PointsTo, ← hw₂, object_addObject, if_neg hlast] at hx
  · intro w value hvalue
    rw [observeValue_of_ne_object hvalue]
    exact hnone w
  · intro w
    rw [observeMembers]
    exact hnone w
  · intro w key value members data w₁ hvalue properties w₂ hmembers ih₁ ih₂ o x ho hx
    have hextends := (extends_observe.2 members w₁).1
    rw [observeMembers] at hx
    simp only [hvalue, hmembers] at ih₁ ih₂ hextends hx
    by_cases hold : o.index < w₁.objects.size
    · refine ih₁ o x ho ?_
      rwa [PointsTo, ← hextends.kept o hold]
    · exact ih₂ o x (Nat.le_of_not_lt hold) hx

/-- Observing closes no circle. -/
theorem acyclic_observeValue (h : w.Acyclic)
    (hclosed : ∀ o x, w.PointsTo o x → x.index < w.objects.size) (value : Json) :
    (observeValue value w).2.Acyclic := by
  have hextends := (extends_observeValue value w).1
  have hstep : ∀ {a b : ObjectId}, (observeValue value w).2.PointsTo a b →
      w.PointsTo a b ∧ b.index < w.objects.size ∨
        w.objects.size ≤ a.index ∧ w.objects.size ≤ b.index ∧ b.index < a.index := by
    intro a b hab
    by_cases ha : a.index < w.objects.size
    · rw [PointsTo, hextends.kept a ha, ← PointsTo] at hab
      exact .inl ⟨hab, hclosed a b hab⟩
    · have ha := Nat.le_of_not_lt ha
      exact .inr ⟨ha, (hextends.apart a b ha hab).1, downward_observe.1 value w a b ha hab⟩
  -- So a way stays among the old objects, or goes down among the new ones.
  have hway : ∀ {a b : ObjectId}, TransGen (observeValue value w).2.PointsTo a b →
      TransGen w.PointsTo a b ∧ b.index < w.objects.size ∨
        w.objects.size ≤ b.index ∧ b.index < a.index := by
    intro a b hab
    induction hab with
    | single hab =>
        rcases hstep hab with ⟨hold, hb⟩ | ⟨_, hb, hlt⟩
        · exact .inl ⟨.single hold, hb⟩
        · exact .inr ⟨hb, hlt⟩
    | @tail b c _ hbc ih =>
        rcases hstep hbc with ⟨hold, hc⟩ | ⟨hb, hc, hlt⟩
        · rcases ih with ⟨hab, _⟩ | ⟨hb, _⟩
          · exact .inl ⟨hab.tail hold, hc⟩
          · exact absurd (lt_of_pointsTo hold) (Nat.not_lt_of_le hb)
        · rcases ih with ⟨_, hb'⟩ | ⟨_, hlt'⟩
          · omega
          · exact .inr ⟨hc, Nat.lt_trans hlt hlt'⟩
  intro x hx
  rcases hway hx with ⟨hold, _⟩ | ⟨_, hlt⟩
  · exact h x hold
  · exact Nat.lt_irrefl _ hlt

end World

end LiveTemplate
