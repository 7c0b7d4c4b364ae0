import LiveTemplate.Proofs.Number.Value
import LiveTemplate.Proofs.Reaction.Program
import LiveTemplate.Proofs.Reaction.Running

/-!
# Writes of the Same Value

When a written value counts as the one that is there.

Values are compared structurally, and numbers at the top by the numbers they stand for:
integers exactly, floats exactly, and an integer with a float by the float that the
integer is rounded to. Where the rounding changes nothing this is equality of numbers.
An integer that no float has is different: it counts as the same as a float nearest to
it, two such integers can be the same as one float and not as each other, and a write
of the float over the integer is dropped.

## Main definitions

* `Number.value`: The number that an integer or a float stands for.
* `Number.InRange`: The integers of at most 64 bits, and all floats.
* `Number.Comparable`: No integer that no float has meets a float.

## Main statements

* `Number.same_iff`: Equality of comparable numbers is equality of values.
* `Number.same_rounded`: An integer is the same as the floats of one nearest number.
* `same_plain_spec`: The laws of equality for writes, and what a write of a number does.
-/

namespace LiveTemplate

namespace Number

/-- The number that an integer or a float stands for. -/
def value : Number → ℚ
  | int i => i
  | float x => x.value

/-- The integers of at most 64 bits, with a sign or without, and all floats. -/
def InRange : Number → Prop
  | int i => -2 ^ 63 ≤ i ∧ i ≤ 2 ^ 64 - 1
  | float _ => True

/-- Two numbers that can be compared without rounding: both are integers, or each of them is
    a number that a float has. -/
inductive Comparable : Number → Number → Prop where
  /-- Two integers. -/
  | integers (i j : ℤ) : Comparable (int i) (int j)
  /-- Two numbers of the format. -/
  | floats {a b : Number} (x y : Binary64) (hx : x.value = a.value) (hy : y.value = b.value) :
    Comparable a b

/-- The integers up to `2 ^ 53` can be compared with everything. -/
theorem comparable_of_natAbs_le {i : ℤ} (hi : i.natAbs ≤ 2 ^ 53) (b : Number) :
    (int i).Comparable b := by
  cases b with
  | int j => exact .integers i j
  | float y =>
      rcases Binary64.exists_of_natAbs_le hi with ⟨x, hx⟩
      exact .floats x y hx rfl

/-! ### Equality of one kind -/

theorem equal_refl (a : Number) : a.equal a = true := by
  cases a <;> simp [equal, Binary64.sameValue_iff]

theorem equal_comm (a b : Number) : a.equal b = b.equal a := by
  cases a <;> cases b <;> simp [equal, Bool.beq_comm, Binary64.sameValue_comm]

theorem equal_trans {a b c : Number} (h : a.equal b = true) (h' : b.equal c = true) :
    a.equal c = true := by
  cases a <;> cases b <;> cases c <;> simp_all [equal, Binary64.sameValue_iff]

/-! ### Equality for writes -/

theorem same_integers (i j : ℤ) : (int i).same (int j) = true ↔ i = j := by
  simp [same]

theorem same_floats (x y : Binary64) : (float x).same (float y) = true ↔ x.value = y.value := by
  simp [same, toFloat?, Binary64.sameValue_iff]

theorem same_mixed {i : ℤ} {x : Binary64} (h : Binary64.ofInt? i = some x) (y : Binary64) :
    (int i).same (float y) = true ↔ x.value = y.value := by
  simp [same, toFloat?, h, Binary64.sameValue_iff]

theorem same_comm (a b : Number) : a.same b = b.same a := by
  cases a with
  | int i =>
      cases b with
      | int j => exact Bool.beq_comm
      | float y =>
          cases h : Binary64.ofInt? i <;> simp [same, toFloat?, h, Binary64.sameValue_comm]
  | float x =>
      cases b with
      | int j =>
          cases h : Binary64.ofInt? j <;> simp [same, toFloat?, h, Binary64.sameValue_comm]
      | float y => exact Binary64.sameValue_comm x y

/-- Numbers that are equal inside arrays are the same for writes. -/
theorem same_of_equal {a b : Number} (h : a.equal b = true) : a.same b = true := by
  cases a <;> cases b <;> first | exact h | exact absurd h Bool.false_ne_true

theorem same_refl (a : Number) : a.same a = true := by
  cases a with
  | int i => exact (same_integers i i).mpr rfl
  | float x => exact (same_floats x x).mpr rfl

/-- An integer in range is rounded to a float. -/
theorem InRange.exists_ofInt? {i : ℤ} (h : (int i).InRange) :
    ∃ x, Binary64.ofInt? i = some x := by
  rcases h with ⟨hlow, hhigh⟩
  refine Option.isSome_iff_exists.mp (Binary64.isSome_ofInt? ?_)
  -- The logarithm of zero is zero, and `Nat.log2_lt` is about the others.
  by_cases hzero : i.natAbs = 0
  · simp [hzero]
  · have hbits : i.natAbs.log2 < 64 := (Nat.log2_lt hzero).mpr (by omega)
    omega

/-- An integer is the same as the floats of one number, and no float is nearer to it. -/
theorem same_rounded {i : ℤ} (h : (int i).InRange) :
    ∃ x : Binary64, (∀ y : Binary64, |(i : ℚ) - x.value| ≤ |(i : ℚ) - y.value|) ∧
      ∀ y : Binary64, (int i).same (float y) = true ↔ y.value = x.value := by
  rcases h.exists_ofInt? with ⟨x, hx⟩
  refine ⟨x, Binary64.nearest_ofInt? hx, fun y => ?_⟩
  rw [same_mixed hx, eq_comm]

/-- An integer that some float has is the same as the floats of its value. -/
theorem same_exact {i : ℤ} (h : (int i).InRange) {x : Binary64} (hx : x.value = i)
    (y : Binary64) : (int i).same (float y) = true ↔ (i : ℚ) = y.value := by
  rcases h.exists_ofInt? with ⟨z, hz⟩
  rw [same_mixed hz, Binary64.value_of_ofInt? hz hx]

/-- Comparable numbers are the same exactly if they have the same value. -/
theorem same_iff {a b : Number} (ha : a.InRange) (hb : b.InRange) (h : a.Comparable b) :
    a.same b = true ↔ a.value = b.value := by
  cases h with
  | integers i j => rw [same_integers, value, value, Int.cast_inj]
  | floats x y hx hy =>
      cases a with
      | int i =>
          cases b with
          | int j => rw [same_integers, value, value, Int.cast_inj]
          | float z => exact same_exact ha hx z
      | float z =>
          cases b with
          | int j => rw [same_comm, same_exact hb hy z, eq_comm, value, value]
          | float z' => exact same_floats z z'

/-- Numbers of one value are the same, whichever kind they are. -/
theorem same_of_value_eq {a b : Number} (ha : a.InRange) (hb : b.InRange)
    (h : a.value = b.value) : a.same b = true := by
  refine (same_iff ha hb ?_).mpr h
  cases a with
  | int i =>
      cases b with
      | int j => exact .integers i j
      | float y => exact .floats y y h.symm rfl
  | float x => exact .floats x x rfl h

end Number

namespace Json

/-- A number is in range. Nothing is asked of other values. -/
def InRange : Json → Prop
  | number a => a.InRange
  | _ => True

/-- Two numbers are comparable. Nothing is asked of other values. -/
def Comparable : Json → Json → Prop
  | number a, number b => a.Comparable b
  | _, _ => True

-- The comparison recurs through items and members, and so do its laws.
mutual

theorem equal_refl : ∀ u : Json, u.equal u = true
  | null => rfl
  | bool b => by simp [equal]
  | number a => a.equal_refl
  | string s => by simp [equal]
  | array items => equalItems_refl items
  | object members => equalMembers_refl members

theorem equalItems_refl : ∀ us : List Json, equalItems us us = true
  | [] => rfl
  | u :: us => by simp [equalItems, equal_refl u, equalItems_refl us]

theorem equalMembers_refl : ∀ us : List (String × Json), equalMembers us us = true
  | [] => rfl
  | (key, u) :: us => by simp [equalMembers, equal_refl u, equalMembers_refl us]

end

mutual

theorem equal_comm : ∀ u v : Json, u.equal v = v.equal u
  | null, v => by cases v <;> rfl
  | bool b, v => by cases v <;> simp [equal, Bool.beq_comm]
  | number a, v => by cases v <;> simp [equal, Number.equal_comm]
  | string s, v => by cases v <;> simp [equal, Bool.beq_comm]
  | array us, v => by
      cases v with
      | array vs => exact equalItems_comm us vs
      | _ => rfl
  | object us, v => by
      cases v with
      | object vs => exact equalMembers_comm us vs
      | _ => rfl

theorem equalItems_comm : ∀ us vs : List Json, equalItems us vs = equalItems vs us
  | [], vs => by cases vs <;> rfl
  | _ :: _, [] => rfl
  | u :: us, v :: vs => by rw [equalItems, equalItems, equal_comm u v, equalItems_comm us vs]

theorem equalMembers_comm :
    ∀ us vs : List (String × Json), equalMembers us vs = equalMembers vs us
  | [], vs => by cases vs <;> rfl
  | _ :: _, [] => rfl
  | (key, u) :: us, (key', v) :: vs => by
      rw [equalMembers, equalMembers, equal_comm u v, equalMembers_comm us vs, Bool.beq_comm]

end

mutual

theorem equal_trans : ∀ {u v t : Json}, u.equal v = true → v.equal t = true → u.equal t = true
  | null, v, t, h, h' => by cases v <;> cases t <;> simp_all [equal]
  | bool b, v, t, h, h' => by cases v <;> cases t <;> simp_all [equal]
  | number a, v, t, h, h' => by
      cases v <;> cases t <;> simp only [equal, Bool.false_eq_true] at h h' ⊢
      exact Number.equal_trans h h'
  | string s, v, t, h, h' => by cases v <;> cases t <;> simp_all [equal]
  | array us, v, t, h, h' => by
      cases v <;> cases t <;> simp only [equal, Bool.false_eq_true] at h h' ⊢
      exact equalItems_trans h h'
  | object us, v, t, h, h' => by
      cases v <;> cases t <;> simp only [equal, Bool.false_eq_true] at h h' ⊢
      exact equalMembers_trans h h'

theorem equalItems_trans : ∀ {us vs ts : List Json},
    equalItems us vs = true → equalItems vs ts = true → equalItems us ts = true
  | [], vs, ts, h, h' => by cases vs <;> cases ts <;> simp_all [equalItems]
  | u :: us, vs, ts, h, h' => by
      cases vs <;> cases ts <;> simp only [equalItems, Bool.and_eq_true, Bool.false_eq_true] at *
      exact ⟨equal_trans h.1 h'.1, equalItems_trans h.2 h'.2⟩

theorem equalMembers_trans : ∀ {us vs ts : List (String × Json)},
    equalMembers us vs = true → equalMembers vs ts = true → equalMembers us ts = true
  | [], vs, ts, h, h' => by cases vs <;> cases ts <;> simp_all [equalMembers]
  | (key, u) :: us, vs, ts, h, h' => by
      cases vs <;> cases ts <;>
        simp only [equalMembers, Bool.and_eq_true, Bool.false_eq_true, beq_iff_eq] at *
      exact ⟨⟨h.1.1.trans h'.1.1, equal_trans h.1.2 h'.1.2⟩, equalMembers_trans h.2 h'.2⟩

end

theorem same_refl (u : Json) : u.same u = true := by
  cases u with
  | number a => exact a.same_refl
  | _ => exact equal_refl _

theorem same_comm (u v : Json) : u.same v = v.same u := by
  cases u <;> cases v <;> first | exact Number.same_comm _ _ | exact equal_comm _ _

theorem same_of_equal {u v : Json} (h : u.equal v = true) : u.same v = true := by
  cases u <;> cases v <;> first | exact Number.same_of_equal h | exact h

/-- Only numbers are compared in another way than inside arrays. -/
theorem equal_of_same {u v : Json} (h : u.same v = true) (hv : ∀ b, v ≠ number b) :
    u.equal v = true := by
  cases u <;> cases v <;> first | exact h | exact absurd rfl (hv _)

/-- Equality for writes is transitive as long as nothing is rounded. -/
theorem same_trans {u v t : Json} (hu : u.InRange) (hv : v.InRange) (ht : t.InRange)
    (huv : u.Comparable v) (hvt : v.Comparable t) (h : u.same v = true) (h' : v.same t = true) :
    u.same t = true := by
  -- A number in the middle stands between numbers, whose values are equal.
  by_cases hnumber : ∃ b, v = number b
  · rcases hnumber with ⟨b, rfl⟩
    cases u <;> simp only [same, equal, Bool.false_eq_true] at h
    cases t <;> simp only [same, equal, Bool.false_eq_true] at h'
    rw [Number.same_iff hu hv huv] at h
    rw [Number.same_iff hv ht hvt] at h'
    exact Number.same_of_value_eq hu ht (h.trans h')
  · -- Otherwise nothing is rounded, and it is compared as inside of arrays.
    have hother := not_exists.mp hnumber
    rw [same_comm] at h'
    have hequal := equal_of_same h' hother
    rw [equal_comm] at hequal
    exact same_of_equal (equal_trans (equal_of_same h hother) hequal)

end Json

namespace Host

variable {κ σ : Type} [Client σ] {w : World κ σ}

/-- A write of the value that is there does nothing, and any other write changes the property
    and notifies its subscribers. -/
theorem setProperty_eq (host : Host κ σ) {o : ObjectId} {key : String} {p : Property}
    (hp : w.property? o key = some p) (value : Data) :
    host.setProperty o key value w =
      if p.value.same value = true then some (.ok false, w)
      else (host.notify p.registry >>= fun _ => pure (.ok true))
        (w.updateProperty o key fun p => { p with value }) := by
  unfold setProperty
  rw [Run.bind_of_eq_some (Run.get_eq w), hp]
  dsimp only
  split
  · rfl
  · rw [Run.bind_of_eq_some (a := ()) (Run.change_eq_some_iff.mpr rfl)]

end Host

/-- The laws of equality for writes. It is reflexive and symmetric, transitive as long as
    nothing is rounded, and between comparable numbers it is equality of the numbers they
    stand for, so that a write of a different number is never dropped; the integers up to
    `2 ^ 53` are comparable with every number. An integer counts as the floats of one
    number to which no float is nearer. -/
theorem same_plain_spec {κ σ : Type} [Client σ] (host : Host κ σ) :
    (∀ u : Json, (Data.plain u).same (.plain u) = true) ∧
      (∀ u v : Json, (Data.plain u).same (.plain v) = (Data.plain v).same (.plain u)) ∧
      (∀ u v t : Json, u.InRange → v.InRange → t.InRange → u.Comparable v → v.Comparable t →
        (Data.plain u).same (.plain v) = true → (Data.plain v).same (.plain t) = true →
        (Data.plain u).same (.plain t) = true) ∧
      (∀ a b : Number, a.InRange → b.InRange → a.Comparable b →
        ((Data.plain (.number a)).same (.plain (.number b)) = true ↔ a.value = b.value)) ∧
      (∀ (w : World κ σ) (o : ObjectId) (key : String) (p : Property) (a b : Number),
        w.property? o key = some p → p.value = .plain (.number a) →
        a.InRange → b.InRange → a.Comparable b →
        host.setProperty o key (.plain (.number b)) w =
          if a.value = b.value then some (.ok false, w)
          else (host.notify p.registry >>= fun _ => pure (.ok true))
            (w.updateProperty o key fun p => { p with value := .plain (.number b) })) ∧
      (∀ i : ℤ, i.natAbs ≤ 2 ^ 53 → ∀ b : Number, (Number.int i).Comparable b) ∧
      (∀ i : ℤ, (Number.int i).InRange → ∃ x : Binary64,
        (∀ y : Binary64, |(i : ℚ) - x.value| ≤ |(i : ℚ) - y.value|) ∧
          ∀ y : Binary64,
            (Data.plain (.number (.int i))).same (.plain (.number (.float y))) = true ↔
              y.value = x.value) := by
  refine ⟨Json.same_refl, Json.same_comm, fun u v t => Json.same_trans, fun a b => Number.same_iff,
    ?_, fun i => Number.comparable_of_natAbs_le, fun i => Number.same_rounded⟩
  intro w o key p a b hp hvalue ha hb hcomparable
  have hsame : p.value.same (.plain (.number b)) = true ↔ a.value = b.value := by
    rw [hvalue]
    exact Number.same_iff ha hb hcomparable
  rw [host.setProperty_eq hp]
  simp only [hsame]

/-- A world of one object with one property, which is an integer. -/
def World.counter (i : ℤ) : ClientWorld Unit Unit :=
  (World.observeValue (.object [("n", .number (.int i))]) { client := { memory := () } }).2

/-- A host that answers no calls. -/
def Host.silent : Host (Code Unit) (Journal Unit) :=
  ⟨fun _ _ => Run.stuck, 0⟩

/-- The float `3`. -/
def Binary64.three : Binary64 :=
  ⟨false, 3 * 2 ^ 51, -51, by decide +kernel⟩

/-- The float `2 ^ 53`. -/
def Binary64.large : Binary64 :=
  ⟨false, 2 ^ 52, 1, by decide +kernel⟩

/-- The float `3` is no news where the integer is. -/
theorem same_plain_spec_three :
    Host.silent.setProperty ⟨0⟩ "n" (.plain (.number (.float .three))) (World.counter 3) =
      some (.ok false, World.counter 3) := by
  rcases same_plain_spec Host.silent with ⟨_, _, _, _, hwrite, hsmall, _⟩
  have hvalue : (Number.int 3).value = (Number.float .three).value := by
    norm_num [Number.value, Binary64.value, Binary64.sign, Binary64.three]
  rw [hwrite (World.counter 3) ⟨0⟩ "n" ⟨.plain (.number (.int 3)), {}⟩ (.int 3) (.float .three)
    rfl rfl ⟨by norm_num, by norm_num⟩ trivial (hsmall 3 (by norm_num) _), if_pos hvalue]

/-- The integer after `2 ^ 53` is no float. It is the same as the float `2 ^ 53`, which is a
    different number, and a write of that one is dropped; so it is not transitive either,
    since the float is the same as the integer `2 ^ 53`. -/
theorem same_large :
    (Data.plain (.number (.int (2 ^ 53 + 1)))).same (.plain (.number (.float .large))) = true ∧
      (Number.int (2 ^ 53 + 1)).value ≠ (Number.float .large).value ∧
      Host.silent.setProperty ⟨0⟩ "n" (.plain (.number (.float .large)))
        (World.counter (2 ^ 53 + 1)) = some (.ok false, World.counter (2 ^ 53 + 1)) ∧
      (Data.plain (.number (.float .large))).same (.plain (.number (.int (2 ^ 53)))) = true ∧
      (Data.plain (.number (.int (2 ^ 53 + 1)))).same (.plain (.number (.int (2 ^ 53)))) =
        false := by
  have hsame :
      (Data.plain (.number (.int (2 ^ 53 + 1)))).same (.plain (.number (.float .large))) =
        true := by
    decide +kernel
  refine ⟨hsame, ?_, ?_, by decide +kernel, by decide +kernel⟩
  · norm_num [Number.value, Binary64.value, Binary64.sign, Binary64.large]
  · rw [Host.setProperty_eq _ (p := ⟨.plain (.number (.int (2 ^ 53 + 1))), {}⟩) rfl, if_pos hsame]

end LiveTemplate
