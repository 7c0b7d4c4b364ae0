import LiveTemplate.Number.Basic
import Mathlib.Algebra.Order.Field.Power
import Mathlib.Algebra.Order.Field.Rat
import Mathlib.Tactic.FieldSimp
import Mathlib.Tactic.Linarith
import Mathlib.Tactic.Positivity
import Mathlib.Tactic.Ring

/-!
# The Values of Numbers

The number that a float stands for, as a fraction, and what the rounding of an integer
does to it.

A number other than zero has one representation, so floats are the same value exactly
if they stand for the same number. An integer is rounded to a multiple of its last
place, the place of the 53rd of its binary digits, and no float is nearer: the floats
from the leading digit on are multiples of the last place as well, and those below
the leading digit are further away than the leading digit itself.

## Main definitions

* `Binary64.value`: The number that a float stands for.
* `Binary64.lastPlace`: The place of the last digit that an integer keeps.

## Main statements

* `Binary64.sameValue_iff`: Floats are the same value if they stand for the same number.
* `Binary64.isSome_ofInt?`: Integers below the format's largest numbers are rounded to a float.
* `Binary64.nearest_ofInt?`: No float is nearer to an integer than the one it is rounded to.
* `Binary64.exists_of_natAbs_le`: The integers up to `2 ^ 53` are numbers of the format.
-/

namespace LiveTemplate

namespace Binary64

/-- The sign as a factor. -/
def sign (negative : Bool) : ℚ :=
  if negative then -1 else 1

/-- The number that a float stands for. -/
def value (x : Binary64) : ℚ :=
  sign x.negative * (x.significand * 2 ^ x.exponent)

theorem abs_sign (negative : Bool) : |sign negative| = 1 := by
  cases negative <;> simp [sign]

theorem sign_mul_sign (negative : Bool) : sign negative * sign negative = 1 := by
  cases negative <;> norm_num [sign]

theorem sign_inj {a b : Bool} (h : sign a = sign b) : a = b := by
  revert h
  cases a <;> cases b <;> norm_num [sign]

theorem abs_value (x : Binary64) : |x.value| = x.significand * 2 ^ x.exponent := by
  have hpos : (0 : ℚ) ≤ x.significand * 2 ^ x.exponent := by positivity
  rw [value, abs_mul, abs_sign, one_mul, abs_of_nonneg hpos]

/-! ### One representation -/

/-- Digits with a larger exponent are full, so the number is too large for a smaller one. -/
theorem le_of_scaled_eq {m m' : ℕ} {e e' : ℤ} (h : Canonical m e) (h' : Canonical m' e')
    (heq : (m : ℚ) * 2 ^ e = m' * 2 ^ e') : e' ≤ e := by
  rcases h with ⟨hm, he, _, _⟩
  rcases h' with ⟨_, _, _, hfull⟩
  by_contra hlt
  -- The smaller exponent is not the least one, so only the other digits have to be full.
  have hm' : 2 ^ 52 ≤ m' := hfull.resolve_left (by omega)
  obtain ⟨k, rfl⟩ : ∃ k : ℕ, e' = e + 1 + k := ⟨(e' - e - 1).toNat, by omega⟩
  have hscaled : (m : ℚ) = m' * (2 * 2 ^ k) := by
    have hne : (2 : ℚ) ^ e ≠ 0 := by positivity
    rw [zpow_add₀ two_ne_zero, zpow_add₀ two_ne_zero, zpow_one, zpow_natCast] at heq
    refine mul_right_cancel₀ hne (heq.trans ?_)
    ring
  have hnat : m = m' * (2 * 2 ^ k) := by exact_mod_cast hscaled
  have hbig : 2 ^ 52 * (2 * 1) ≤ m' * (2 * 2 ^ k) :=
    Nat.mul_le_mul hm' (Nat.mul_le_mul_left 2 Nat.one_le_two_pow)
  have hm : m < 2 ^ 53 := hm
  omega

/-- A number has one representation. -/
theorem eq_of_scaled_eq {m m' : ℕ} {e e' : ℤ} (h : Canonical m e) (h' : Canonical m' e')
    (heq : (m : ℚ) * 2 ^ e = m' * 2 ^ e') : m = m' ∧ e = e' := by
  have hexponent : e = e' :=
    le_antisymm (le_of_scaled_eq h' h heq.symm) (le_of_scaled_eq h h' heq)
  subst hexponent
  have hne : (2 : ℚ) ^ e ≠ 0 := by positivity
  exact ⟨by exact_mod_cast mul_right_cancel₀ hne heq, rfl⟩

/-- Two floats are the same value exactly if they stand for the same number. -/
theorem sameValue_iff {x y : Binary64} : x.sameValue y = true ↔ x.value = y.value := by
  simp only [sameValue, Bool.and_eq_true, Bool.or_eq_true, beq_iff_eq]
  constructor
  · rintro ⟨⟨hsignificand, hexponent⟩, hsign | hzero⟩
    · rw [value, value, hsign, hsignificand, hexponent]
    · -- The two zeros have different signs and one value.
      have hzero' : y.significand = 0 := hsignificand ▸ hzero
      simp [value, hzero, hzero']
  · intro h
    have habs := congrArg abs h
    rw [abs_value, abs_value] at habs
    rcases eq_of_scaled_eq x.canonical y.canonical habs with ⟨hsignificand, hexponent⟩
    refine ⟨⟨hsignificand, hexponent⟩, or_iff_not_imp_right.mpr fun hne => ?_⟩
    -- The signs can be read off a number that is not zero.
    have hpos : (0 : ℚ) < x.significand * 2 ^ x.exponent := by
      have hsig : 0 < x.significand := Nat.pos_of_ne_zero hne
      positivity
    rw [value, value, ← habs] at h
    exact sign_inj (mul_right_cancel₀ (ne_of_gt hpos) h)

theorem sameValue_comm (x y : Binary64) : x.sameValue y = y.sameValue x := by
  rw [Bool.eq_iff_iff, sameValue_iff, sameValue_iff, eq_comm]

/-! ### The digits of an integer -/

/-- The nearest integer is half a unit away at most. -/
theorem divideToEven_spec (num : ℕ) {den : ℕ} (hden : 0 < den) :
    2 * (divideToEven num den * den) ≤ 2 * num + den ∧
      2 * num ≤ 2 * (divideToEven num den * den) + den := by
  have hdiv : den * (num / den) + num % den = num := Nat.div_add_mod num den
  have hmod : num % den < den := Nat.mod_lt num hden
  rw [Nat.mul_comm] at hdiv
  unfold divideToEven
  -- Only the quotient and the remainder matter, so that the rest is linear.
  generalize num / den = q at *
  generalize num % den = r at *
  dsimp only
  split
  · next hup =>
      simp only [Bool.or_eq_true, Bool.and_eq_true, decide_eq_true_eq, beq_iff_eq] at hup
      rw [Nat.add_mul, Nat.one_mul]
      omega
  · next hdown =>
      simp only [Bool.or_eq_true, decide_eq_true_eq, not_or] at hdown
      omega

/-- A fraction that is scaled down is divided by a power of two. -/
theorem scaleDown_spec (num : ℕ) {den : ℕ} (hden : 0 < den) (e : ℤ) :
    0 < (scaleDown num den e).2 ∧
      ((scaleDown num den e).1 : ℚ) * (den * 2 ^ e) = num * (scaleDown num den e).2 := by
  unfold scaleDown
  split
  · next he =>
      rcases Int.eq_ofNat_of_zero_le he with ⟨k, rfl⟩
      refine ⟨Nat.mul_pos hden (Nat.two_pow_pos k), ?_⟩
      simp only [Int.toNat_natCast, Nat.pow_eq, zpow_natCast]
      push_cast
      ring
  · next he =>
      obtain ⟨k, rfl⟩ : ∃ k : ℕ, e = -k := ⟨(-e).toNat, by omega⟩
      refine ⟨hden, ?_⟩
      have hne : (2 : ℚ) ^ k ≠ 0 := by positivity
      simp only [neg_neg, Int.toNat_natCast, Nat.pow_eq, zpow_neg, zpow_natCast]
      push_cast
      field_simp

/-- The leading binary digit of an integer. -/
theorem leadingDigit_spec {n : ℕ} (hn : n ≠ 0) :
    (2 : ℚ) ^ (n.log2 : ℤ) ≤ n ∧ (n : ℚ) < 2 ^ (n.log2 : ℤ) * 2 := by
  have hlow : 2 ^ n.log2 ≤ n := Nat.log2_self_le hn
  have hhigh : n < 2 ^ (n.log2 + 1) := Nat.lt_log2_self
  rw [Nat.pow_succ] at hhigh
  rw [zpow_natCast]
  exact ⟨by exact_mod_cast hlow, by exact_mod_cast hhigh⟩

/-- With `k` places dropped from the leading digit, the digits before the point are `k + 1`. -/
theorem scaled_bounds {n num den : ℕ} (hn : n ≠ 0) (hden : 0 < den) {k : ℕ}
    (hscaled : (num : ℚ) * 2 ^ ((n.log2 : ℤ) - k) = n * den) :
    den * 2 ^ k ≤ num ∧ num < den * 2 ^ k * 2 := by
  have hleading : (2 : ℚ) ^ (n.log2 : ℤ) = 2 ^ k * 2 ^ ((n.log2 : ℤ) - k) := by
    rw [← zpow_natCast, ← zpow_add₀ two_ne_zero]
    congr 1
    ring
  have hunit : (0 : ℚ) < 2 ^ ((n.log2 : ℤ) - k) := by positivity
  have hden : (0 : ℚ) < den := by exact_mod_cast hden
  rcases leadingDigit_spec hn with ⟨hlow, hhigh⟩
  rw [hleading] at hlow hhigh
  have hlow := mul_le_mul_of_nonneg_right hlow hden.le
  have hhigh := mul_lt_mul_of_pos_right hhigh hden
  rw [← hscaled] at hlow hhigh
  have hatLeast : (den : ℚ) * 2 ^ k ≤ num := by
    refine le_of_mul_le_mul_right (le_trans (le_of_eq ?_) hlow) hunit
    ring
  have hbelow : (num : ℚ) < den * 2 ^ k * 2 := by
    refine lt_of_mul_lt_mul_right (lt_of_lt_of_eq hhigh ?_) hunit.le
    ring
  exact ⟨by exact_mod_cast hatLeast, by exact_mod_cast hbelow⟩

/-- The place of the last digit that an integer keeps. -/
def lastPlace (n : ℕ) : ℤ :=
  n.log2 - 52

/-- An integer is rounded at its last place. -/
theorem exponentOf_one {n : ℕ} (hn : n ≠ 0) : exponentOf n 1 = lastPlace n := by
  have hlog : (1 : ℕ).log2 = 0 := rfl
  unfold exponentOf lastPlace
  rw [hlog]
  rcases scaleDown_spec n one_pos (n.log2 - (0 : ℕ) - 53) with ⟨hden, hscaled⟩
  rcases hfraction : scaleDown n 1 (n.log2 - (0 : ℕ) - 53) with ⟨num, den⟩
  rw [hfraction] at hden hscaled
  -- One place further down there is one digit too many.
  have hfull : ¬num < den * Nat.pow 2 53 := by
    rw [Nat.cast_one, one_mul, Nat.cast_zero, sub_zero] at hscaled
    exact not_lt.mpr (scaled_bounds hn hden hscaled).1
  dsimp only
  rw [hfraction]
  dsimp only
  rw [if_neg hfull]
  omega

/-- Carrying a digit over changes the digits and not the number. -/
theorem carry_scaled (rounded : ℕ) (e : ℤ) :
    ((carry rounded e).1 : ℚ) * 2 ^ (carry rounded e).2 = rounded * 2 ^ e := by
  have hfull : ((Nat.pow 2 53 : ℕ) : ℚ) = (Nat.pow 2 52 : ℕ) * 2 := by norm_num
  unfold carry
  split
  · next hcarried =>
      rw [hcarried, hfull, zpow_add₀ two_ne_zero, zpow_one]
      ring
  · rfl

/-- A packed number has the sign and the digits that it is packed from. -/
theorem pack?_eq_some {negative : Bool} {digits : ℕ × ℤ} {x : Binary64}
    (h : pack? negative digits = some x) :
    x.value = sign negative * (digits.1 * 2 ^ digits.2) := by
  unfold pack? at h
  split at h
  · cases h
    rfl
  · cases h

/-! ### Rounding an integer -/

/-- An integer in units of its last place, rounded. -/
def rounded (n : ℕ) : ℕ :=
  divideToEven (scaleDown n 1 (lastPlace n)).1 (scaleDown n 1 (lastPlace n)).2

theorem nearest?_one (negative : Bool) {n : ℕ} (hn : n ≠ 0) :
    nearest? negative n 1 = pack? negative (carry (rounded n) (lastPlace n)) := by
  unfold nearest? rounded
  rw [exponentOf_one hn]

/-- The rounded integer has 53 digits or, when they are carried over, the least number with
    54, and it is half a unit of the last place away at most. -/
theorem rounded_spec {n : ℕ} (hn : n ≠ 0) :
    (2 ^ 52 ≤ rounded n ∧ rounded n ≤ 2 ^ 53) ∧
      2 * |(n : ℚ) - rounded n * 2 ^ lastPlace n| ≤ 2 ^ lastPlace n := by
  rcases scaleDown_spec n one_pos (lastPlace n) with ⟨hden, hscaled⟩
  unfold rounded
  -- From here on the integer is a fraction in units of its last place.
  generalize (scaleDown n 1 (lastPlace n)).1 = num at *
  generalize (scaleDown n 1 (lastPlace n)).2 = den at *
  rw [Nat.cast_one, one_mul] at hscaled
  rcases divideToEven_spec num hden with ⟨hlow, hhigh⟩
  generalize divideToEven num den = r at *
  constructor
  · have hbounds := scaled_bounds hn hden hscaled
    constructor
    · by_contra hlt
      nlinarith [hbounds.1]
    · by_contra hlt
      nlinarith [hbounds.2]
  · generalize lastPlace n = e at *
    have hunit : (0 : ℚ) < 2 ^ e := by positivity
    have hden : (0 : ℚ) < den := by exact_mod_cast hden
    have hlow : 2 * ((r : ℚ) * den) ≤ 2 * num + den := by exact_mod_cast hlow
    have hhigh : 2 * (num : ℚ) ≤ 2 * (r * den) + den := by exact_mod_cast hhigh
    have hhalf : 2 * |(num : ℚ) - r * den| ≤ den := by
      rcases abs_cases ((num : ℚ) - r * den) with ⟨habs, _⟩ | ⟨habs, _⟩ <;> linarith
    -- In units of the last place, the distance is that of a quotient from its rounding.
    have hdistance : |(n : ℚ) - r * 2 ^ e| * den = |(num : ℚ) - r * den| * 2 ^ e := by
      have hproduct : ((n : ℚ) - r * 2 ^ e) * den = ((num : ℚ) - r * den) * 2 ^ e := by
        rw [sub_mul, sub_mul, hscaled]
        ring
      have habs := congrArg abs hproduct
      rwa [abs_mul, abs_mul, abs_of_pos hden, abs_of_pos hunit] at habs
    refine le_of_mul_le_mul_right ?_ hden
    calc 2 * |(n : ℚ) - r * 2 ^ e| * den
        = 2 * |(num : ℚ) - r * den| * 2 ^ e := by rw [mul_assoc, hdistance, mul_assoc]
      _ ≤ den * 2 ^ e := mul_le_mul_of_nonneg_right hhalf hunit.le
      _ = 2 ^ e * den := mul_comm _ _

/-- No multiple of a unit is nearer than one that is half a unit away at most. -/
theorem nearest_multiple {a u : ℚ} {r : ℤ} (hu : 0 < u) (hhalf : 2 * |a - r * u| ≤ u) (k : ℤ) :
    |a - r * u| ≤ |a - k * u| := by
  by_cases hk : k = r
  · rw [hk]
  · -- Two multiples are a unit apart, and one half of it is used up.
    have hstep : (1 : ℚ) ≤ |(k : ℚ) - r| := by
      exact_mod_cast Int.one_le_abs (sub_ne_zero.mpr hk)
    have hunits : u ≤ |(k : ℚ) * u - r * u| := by
      rw [← sub_mul, abs_mul, abs_of_pos hu]
      exact le_mul_of_one_le_left hu.le hstep
    have htriangle : |(k : ℚ) * u - r * u| ≤ |a - k * u| + |a - r * u| := by
      rw [abs_sub_comm a (k * u)]
      exact abs_sub_le _ _ _
    linarith

theorem rounded_nearest {n : ℕ} (hn : n ≠ 0) (k : ℤ) :
    |(n : ℚ) - rounded n * 2 ^ lastPlace n| ≤ |(n : ℚ) - k * 2 ^ lastPlace n| := by
  have hunit : (0 : ℚ) < 2 ^ lastPlace n := by positivity
  simpa using nearest_multiple (r := rounded n) hunit (by simpa using (rounded_spec hn).2) k

/-- A float is a multiple of every place up to that of its last digit. -/
theorem exists_multiple {y : Binary64} {e : ℤ} (he : e ≤ y.exponent) :
    ∃ k : ℤ, y.value = k * 2 ^ e := by
  obtain ⟨j, hj⟩ : ∃ j : ℕ, y.exponent = j + e := ⟨(y.exponent - e).toNat, by omega⟩
  have habs : (y.significand : ℚ) * 2 ^ y.exponent = (y.significand * 2 ^ j : ℕ) * 2 ^ e := by
    rw [hj, zpow_add₀ two_ne_zero, zpow_natCast, ← mul_assoc]
    norm_cast
  rw [value, habs]
  cases y.negative
  · exact ⟨(y.significand * 2 ^ j : ℕ), by simp [sign]⟩
  · exact ⟨-(y.significand * 2 ^ j : ℕ), by simp [sign]⟩

/-- A sign can be taken to the other side of a distance. -/
theorem abs_sign_mul_sub (negative : Bool) (a b : ℚ) :
    |sign negative * a - b| = |a - sign negative * b| := by
  have hfactor : sign negative * a - b = sign negative * (a - sign negative * b) := by
    rw [mul_sub, ← mul_assoc, sign_mul_sign, one_mul]
  rw [hfactor, abs_mul, abs_sign, one_mul]

/-- No float is nearer to an integer than its nearest multiple of the last place. -/
theorem nearest_rounded {n : ℕ} (hn : n ≠ 0) (negative : Bool) (y : Binary64) :
    |(n : ℚ) - rounded n * 2 ^ lastPlace n| ≤ |(n : ℚ) - sign negative * y.value| := by
  have hmultiple := rounded_nearest hn
  by_cases he : lastPlace n ≤ y.exponent
  · rcases exists_multiple he with ⟨k, hk⟩
    cases negative
    · simpa [sign, hk] using hmultiple k
    · simpa [sign, hk] using hmultiple (-k)
  · -- The float is smaller than the leading digit, which is a multiple of the last place.
    have hleading : (2 : ℚ) ^ (n.log2 : ℤ) = (2 ^ 52 : ℤ) * 2 ^ lastPlace n := by
      rw [Int.cast_pow, ← zpow_natCast, Int.cast_ofNat, ← zpow_add₀ two_ne_zero, lastPlace]
      congr 1
      push_cast
      ring
    have hsmall : |sign negative * y.value| ≤ 2 ^ (n.log2 : ℤ) := by
      have hplace : (2 : ℚ) ^ (y.exponent + 1) ≤ 2 ^ lastPlace n :=
        zpow_le_zpow_right₀ one_le_two (by omega)
      have hdigits : (y.significand : ℚ) ≤ 2 ^ 53 := by
        have hbelow : y.significand < 2 ^ 53 := y.canonical.1
        exact_mod_cast hbelow.le
      rw [abs_mul, abs_sign, one_mul, abs_value, hleading]
      rw [zpow_add₀ two_ne_zero, zpow_one] at hplace
      have hpositive : (0 : ℚ) < 2 ^ y.exponent := by positivity
      calc (y.significand : ℚ) * 2 ^ y.exponent
          ≤ 2 ^ 53 * 2 ^ y.exponent := mul_le_mul_of_nonneg_right hdigits hpositive.le
        _ = 2 ^ 52 * (2 ^ y.exponent * 2) := by ring
        _ ≤ (2 ^ 52 : ℤ) * 2 ^ lastPlace n := by
          push_cast
          exact mul_le_mul_of_nonneg_left hplace (by positivity)
    have hatLeast := (leadingDigit_spec hn).1
    have hnear := hmultiple (2 ^ 52)
    rw [← hleading, abs_of_nonneg (sub_nonneg.mpr hatLeast)] at hnear
    have hbelow := le_abs_self (sign negative * y.value)
    have hfar := le_abs_self ((n : ℚ) - sign negative * y.value)
    linarith

theorem value_zero (negative : Bool) : (zero negative).value = 0 := by
  simp [value, zero]

/-- An integer is its sign and its size. -/
theorem sign_mul_natAbs (i : ℤ) : sign (decide (i < 0)) * (i.natAbs : ℚ) = i := by
  rw [Nat.cast_natAbs, Int.cast_abs]
  by_cases hi : i < 0
  · have hneg : (i : ℚ) < 0 := by exact_mod_cast hi
    simp [sign, hi, abs_of_neg hneg]
  · have hnonneg : (0 : ℚ) ≤ i := by exact_mod_cast not_lt.mp hi
    simp [sign, hi, abs_of_nonneg hnonneg]

/-- No float is nearer to an integer than the one that it is rounded to. -/
theorem nearest_ofInt? {i : ℤ} {x : Binary64} (h : ofInt? i = some x) (y : Binary64) :
    |(i : ℚ) - x.value| ≤ |(i : ℚ) - y.value| := by
  unfold ofInt? at h
  split at h
  · next hzero =>
      cases h
      simp [hzero, value_zero]
  · next hne =>
      have hn : i.natAbs ≠ 0 := Int.natAbs_ne_zero.mpr hne
      rw [nearest?_one _ hn] at h
      have hvalue := pack?_eq_some h
      rw [carry_scaled] at hvalue
      rw [hvalue, ← sign_mul_natAbs i, ← mul_sub, abs_mul, abs_sign, one_mul, abs_sign_mul_sub]
      exact nearest_rounded hn _ y

/-- An integer that some float has is not changed by the rounding. -/
theorem value_of_ofInt? {i : ℤ} {x y : Binary64} (h : ofInt? i = some x) (hy : y.value = i) :
    x.value = i := by
  have hnear := nearest_ofInt? h y
  rw [hy, sub_self, abs_zero] at hnear
  exact (sub_eq_zero.mp (abs_nonpos_iff.mp hnear)).symm

/-- An integer below the format's largest numbers is rounded to a float. -/
theorem isSome_ofInt? {i : ℤ} (hi : i.natAbs.log2 < 1023) : (ofInt? i).isSome = true := by
  unfold ofInt?
  split
  · rfl
  · next hne =>
      have hn : i.natAbs ≠ 0 := Int.natAbs_ne_zero.mpr hne
      have hbounds := (rounded_spec hn).1
      have hcanonical : Canonical (carry (rounded i.natAbs) (lastPlace i.natAbs)).1
          (carry (rounded i.natAbs) (lastPlace i.natAbs)).2 := by
        unfold carry
        split
        -- A digit that is carried over leaves the least digits with the next exponent.
        · refine ⟨Nat.pow_lt_pow_right one_lt_two (Nat.lt_succ_self 52), ?_, ?_, Or.inr le_rfl⟩ <;>
            dsimp only [lastPlace] <;> omega
        · next hcarried =>
            refine ⟨lt_of_le_of_ne hbounds.2 hcarried, ?_, ?_, Or.inr hbounds.1⟩ <;>
              dsimp only [lastPlace] <;> omega
      rw [nearest?_one _ hn, pack?, dif_pos hcanonical]
      rfl

/-- A multiple of the last place is a number of the format. -/
theorem exists_of_multiple {i : ℤ} (hi : i.natAbs.log2 < 1023) {k : ℤ}
    (hk : (i.natAbs : ℚ) = k * 2 ^ lastPlace i.natAbs) : ∃ x : Binary64, x.value = i := by
  by_cases hzero : i = 0
  · exact ⟨zero false, by rw [value_zero, hzero, Int.cast_zero]⟩
  · have hn : i.natAbs ≠ 0 := Int.natAbs_ne_zero.mpr hzero
    rcases Option.isSome_iff_exists.mp (isSome_ofInt? hi) with ⟨x, hx⟩
    have hnear := rounded_nearest hn k
    rw [← hk, sub_self, abs_zero, abs_nonpos_iff, sub_eq_zero] at hnear
    rw [ofInt?, if_neg hzero, nearest?_one _ hn] at hx
    refine ⟨x, ?_⟩
    rw [pack?_eq_some hx, carry_scaled, ← hnear, sign_mul_natAbs]

/-- The integers of at most 53 digits, and the next one, are numbers of the format. -/
theorem exists_of_natAbs_le {i : ℤ} (hi : i.natAbs ≤ 2 ^ 53) : ∃ x : Binary64, x.value = i := by
  -- All but the last of these integers have their last place at or below the point.
  by_cases hfull : i.natAbs = 2 ^ 53
  · have hlog : i.natAbs.log2 = 53 := by rw [hfull, Nat.log2_two_pow]
    refine exists_of_multiple (k := 2 ^ 52) (by omega) ?_
    rw [lastPlace, hlog, hfull]
    norm_num
  · by_cases hzero : i.natAbs = 0
    · exact exists_of_multiple (k := 0) (by simp [hzero]) (by simp [hzero])
    · have hlog : i.natAbs.log2 < 53 := (Nat.log2_lt hzero).mpr (by omega)
      obtain ⟨j, hj⟩ : ∃ j : ℕ, lastPlace i.natAbs = -j :=
        ⟨(-lastPlace i.natAbs).toNat, by unfold lastPlace; omega⟩
      refine exists_of_multiple (k := i.natAbs * 2 ^ j) (by omega) ?_
      rw [hj, zpow_neg, zpow_natCast, Int.cast_mul, Int.cast_natCast, Int.cast_pow, Int.cast_ofNat]
      field_simp

end Binary64

end LiveTemplate
