import Mathlib.Algebra.Order.Field.Power
import Mathlib.Tactic.FieldSimp
import Mathlib.Tactic.Linarith
import Mathlib.Tactic.Positivity
import Mathlib.Tactic.Ring
import VolumeStore.Decimal.Double

/-!
# The nearest number of double precision

A positive quotient is read as a finite number in its normal form, at most half a unit of the last
place away from it.
-/

namespace VolumeStore.Double

/-! ## Rounding to a whole number -/

theorem roundHalfEven_nearest (num den : Nat) (hd : 0 < den) :
    2 * num ≤ 2 * (den * roundHalfEven num den) + den ∧
      2 * (den * roundHalfEven num den) ≤ 2 * num + den ∧
      (2 * num = 2 * (den * roundHalfEven num den) + den ∨
        2 * (den * roundHalfEven num den) = 2 * num + den → roundHalfEven num den % 2 = 0) := by
  have hdiv : den * (num / den) + num % den = num := Nat.div_add_mod num den
  have hmod : num % den < den := Nat.mod_lt num hd
  by_cases h : 2 * (num % den) < den ∨ (2 * (num % den) = den ∧ num / den % 2 = 0)
  · rw [roundHalfEven, if_pos h]
    omega
  · rw [roundHalfEven, if_neg h, Nat.mul_add, Nat.mul_one]
    omega

theorem abs_div_sub_roundHalfEven_le (num den : Nat) (hd : 0 < den) :
    |(num / den : ℚ) - roundHalfEven num den| ≤ 1 / 2 := by
  obtain ⟨hlow, hhigh, -⟩ := roundHalfEven_nearest num den hd
  have hd' : (0 : ℚ) < den := by exact_mod_cast hd
  have hlow' : (2 * num : ℚ) ≤ 2 * (den * roundHalfEven num den) + den := by exact_mod_cast hlow
  have hhigh' : (2 * (den * roundHalfEven num den) : ℚ) ≤ 2 * num + den := by exact_mod_cast hhigh
  rw [abs_le, neg_le_sub_iff_le_add, sub_le_iff_le_add]
  constructor
  · rw [← sub_le_iff_le_add, le_div_iff₀ hd']
    linarith
  · rw [div_le_iff₀ hd']
    linarith

theorem le_of_abs_sub_le_half {y : ℚ} {m k : Nat} (h : |y - m| ≤ 1 / 2) (hk : y < k) : m ≤ k := by
  have hm : (m : ℚ) < k + 1 := by linarith [(abs_le.mp h).1]
  exact Nat.lt_succ_iff.mp (by exact_mod_cast hm)

theorem abs_sub_le_abs_sub {y : ℚ} {m : Nat} (h : |y - m| ≤ 1 / 2) (k : Nat) :
    |y - m| ≤ |y - k| := by
  by_cases hk : k = m
  · rw [hk]
  · have hone : (1 : ℚ) ≤ |(k : ℚ) - m| := by
      have : (1 : Int) ≤ |(k : Int) - m| := Int.one_le_abs (by omega)
      exact_mod_cast this
    have htriangle : |(k : ℚ) - m| ≤ |k - y| + |y - m| := abs_sub_le _ _ _
    rw [abs_sub_comm (k : ℚ) y] at htriangle
    linarith

/-! ## Scaling -/

theorem scaleDown_pos (num : Nat) {den : Nat} (hd : 0 < den) (e : Int) :
    0 < (scaleDown num den e).2 := by
  simp only [scaleDown, Nat.shiftLeft_eq]
  positivity

theorem scaleDown_div (num den : Nat) (e : Int) :
    ((scaleDown num den e).1 : ℚ) / (scaleDown num den e).2 = num / den / 2 ^ e := by
  have hpow : (2 : ℚ) ^ e = 2 ^ e.toNat / 2 ^ (-e).toNat := by
    rw [← zpow_natCast, ← zpow_natCast, ← zpow_sub₀ two_ne_zero]
    congr 1
    omega
  simp only [scaleDown, Nat.shiftLeft_eq]
  push_cast
  rw [hpow]
  field_simp

theorem zpow_log2_le {n : Nat} (hn : 0 < n) : (2 : ℚ) ^ (n.log2 : Int) ≤ n := by
  rw [zpow_natCast]
  exact_mod_cast Nat.log2_self_le hn.ne'

theorem lt_zpow_log2 (n : Nat) : (n : ℚ) < 2 ^ (n.log2 + 1 : Int) := by
  rw [← Nat.cast_succ, zpow_natCast]
  exact_mod_cast Nat.lt_log2_self

variable {num den : Nat}

theorem div_mem_of_log2 (hn : 0 < num) (hd : 0 < den) (k : Int) :
    (2 : ℚ) ^ (k - 1) < num / den / 2 ^ (num.log2 - den.log2 - k : Int) ∧
      (num / den / 2 ^ (num.log2 - den.log2 - k : Int) : ℚ) < 2 ^ (k + 1) := by
  have hd' : (0 : ℚ) < den := by exact_mod_cast hd
  have htwo : (2 : ℚ) ≠ 0 := two_ne_zero
  rw [lt_div_iff₀ (by positivity), div_lt_iff₀ (by positivity), lt_div_iff₀ hd', div_lt_iff₀ hd',
    ← zpow_add₀ htwo, ← zpow_add₀ htwo]
  -- Each of the two numbers lies between a power of two and the next one.
  constructor
  · calc (2 : ℚ) ^ (k - 1 + (num.log2 - den.log2 - k : Int)) * den
        < 2 ^ (k - 1 + (num.log2 - den.log2 - k : Int)) * 2 ^ (den.log2 + 1 : Int) := by
          gcongr
          exact lt_zpow_log2 den
      _ = 2 ^ (num.log2 : Int) := by rw [← zpow_add₀ htwo]; congr 1; omega
      _ ≤ num := zpow_log2_le hn
  · calc (num : ℚ) < 2 ^ (num.log2 + 1 : Int) := lt_zpow_log2 num
      _ = 2 ^ (k + 1 + (num.log2 - den.log2 - k : Int)) * 2 ^ (den.log2 : Int) := by
          rw [← zpow_add₀ htwo]; congr 1; omega
      _ ≤ 2 ^ (k + 1 + (num.log2 - den.log2 - k : Int)) * den := by
          gcongr
          exact zpow_log2_le hd

theorem floor_scaleDown_lt_iff (num : Nat) (hd : 0 < den) (e : Int) (k : Nat) :
    (scaleDown num den e).1 / (scaleDown num den e).2 < 1 <<< k ↔
      (num / den / 2 ^ e : ℚ) < 2 ^ (k : Int) := by
  have hpos : 0 < (scaleDown num den e).2 := scaleDown_pos num hd e
  have hpos' : (0 : ℚ) < (scaleDown num den e).2 := by exact_mod_cast hpos
  rw [← scaleDown_div, Nat.one_shiftLeft, Nat.div_lt_iff_lt_mul hpos, div_lt_iff₀ hpos',
    zpow_natCast]
  exact_mod_cast Iff.rfl

theorem exponentOf_eq_max (hn : 0 < num) (hd : 0 < den) :
    ∃ e, exponentOf num den = max minExponent e ∧
      (2 : ℚ) ^ (precision - 1 : Int) ≤ num / den / 2 ^ e ∧
      (num / den / 2 ^ e : ℚ) < 2 ^ (precision : Int) := by
  obtain ⟨hlow, hhigh⟩ := div_mem_of_log2 hn hd precision
  have hfloor := floor_scaleDown_lt_iff num hd (num.log2 - den.log2 - precision : Int) precision
  unfold exponentOf
  simp only
  split
  case isTrue h => exact ⟨_, rfl, hlow.le, hfloor.mp h⟩
  case isFalse h =>
    refine ⟨_, rfl, ?_, ?_⟩
    · rw [zpow_add_one₀ two_ne_zero, ← div_div, le_div_iff₀ two_pos,
        ← zpow_add_one₀ two_ne_zero, sub_add_cancel]
      exact not_lt.mp (mt hfloor.mpr h)
    · rw [zpow_add_one₀ two_ne_zero, ← div_div, div_lt_iff₀ two_pos,
        ← zpow_add_one₀ two_ne_zero]
      exact hhigh

/-! ## The nearest number -/

structure IsFormat (m : Nat) (e : Int) : Prop where
  significand_lt : m < 2 ^ precision
  minExponent_le : minExponent ≤ e
  le_maxExponent : e ≤ maxExponent

/-- Half a unit above the greatest finite number: from here on numbers are infinite. -/
def overflow : ℚ :=
  (2 ^ precision - 1 / 2) * 2 ^ maxExponent

theorem two_pow_precision : (2 : ℚ) ^ precision = 2 ^ (precision - 1) * 2 :=
  pow_succ 2 (precision - 1)

/-- A positive number rounded at one unit: all of full precision, unless the unit is the least. -/
structure Rounded (x : ℚ) (m : Nat) (e : Int) : Prop where
  minExponent_le : minExponent ≤ e
  significand_le : m ≤ 2 ^ precision
  close : |x / 2 ^ e - m| ≤ 1 / 2
  full : e = minExponent ∨ 2 ^ (precision - 1) ≤ x / 2 ^ e

theorem exists_rounded (hn : 0 < num) (hd : 0 < den) (negative : Bool) :
    ∃ m e, Rounded (num / den) m e ∧
      ofQuotient negative num den =
        if m = 2 ^ precision then
          if maxExponent < e + 1 then infinite negative
          else finite negative (2 ^ (precision - 1)) (e + 1)
        else if maxExponent < e then infinite negative else finite negative m e := by
  obtain ⟨e₁, he, hlow, hhigh⟩ := exponentOf_eq_max hn hd
  have hround := abs_div_sub_roundHalfEven_le (scaleDown num den (exponentOf num den)).1 _
    (scaleDown_pos num hd (exponentOf num den))
  rw [scaleDown_div] at hround
  refine ⟨_, exponentOf num den, ⟨he ▸ le_max_left _ _, ?_, hround, ?_⟩, ?_⟩
  -- The scaled value lies below `2 ^ precision`, so rounding does not go past that.
  · refine le_of_abs_sub_le_half hround ?_
    have hmono : (2 : ℚ) ^ e₁ ≤ 2 ^ exponentOf num den :=
      zpow_le_zpow_right₀ one_le_two (he ▸ le_max_right _ _)
    calc (num / den / 2 ^ exponentOf num den : ℚ) ≤ num / den / 2 ^ e₁ := by gcongr
      _ < 2 ^ (precision : Int) := hhigh
      _ = ((2 ^ precision : Nat) : ℚ) := by rw [zpow_natCast]; push_cast; rfl
  -- Unless the exponent is the least one, the scaled value fills all bits.
  · obtain hmax | hmax := le_total e₁ minExponent
    · exact .inl (he.trans (max_eq_left hmax))
    · have hpower : (2 : ℚ) ^ (precision - 1 : Int) = 2 ^ (precision - 1) := by
        norm_num [precision]
      rw [he, max_eq_right hmax, ← hpower]
      exact .inr hlow
  · simp only [ofQuotient, Nat.one_shiftLeft]
    split <;> rfl

theorem Rounded.nearest {x : ℚ} {m m' : Nat} {e e' : Int} (h : Rounded x m e)
    (h' : IsFormat m' e') : |x - m * 2 ^ e| ≤ |x - m' * 2 ^ e'| := by
  have hunit : (0 : ℚ) < 2 ^ e := by positivity
  have hscale (k : ℚ) : |x - k * 2 ^ e| = |x / 2 ^ e - k| * 2 ^ e := by
    rw [← abs_of_pos hunit, ← abs_mul, abs_of_pos hunit, sub_mul, div_mul_cancel₀ _ hunit.ne']
  -- Whole numbers of units first: the significand is the nearest one.
  have hgrid (k : Nat) : |x - m * 2 ^ e| ≤ |x - k * 2 ^ e| := by
    rw [hscale, hscale]
    exact mul_le_mul_of_nonneg_right (abs_sub_le_abs_sub h.close k) hunit.le
  obtain he | he := le_or_gt e e'
  · have hmultiple : (m' : ℚ) * 2 ^ e' = ((m' * 2 ^ (e' - e).toNat : Nat) : ℚ) * 2 ^ e := by
      push_cast
      rw [mul_assoc, ← zpow_natCast, Int.toNat_of_nonneg (by omega), ← zpow_add₀ two_ne_zero,
        sub_add_cancel]
    rw [hmultiple]
    exact hgrid _
  · -- With a smaller unit the other number lies below the least significand of full precision.
    have hfull : 2 ^ (precision - 1) * 2 ^ e ≤ x := by
      obtain hmin | hfull := h.full
      · have := h'.minExponent_le
        omega
      · rwa [le_div_iff₀ hunit] at hfull
    have hbelow : (m' : ℚ) * 2 ^ e' ≤ 2 ^ (precision - 1) * 2 ^ e := by
      calc (m' : ℚ) * 2 ^ e' ≤ 2 ^ precision * 2 ^ e' := by
            gcongr
            exact_mod_cast h'.significand_lt.le
        _ = 2 ^ (precision - 1) * 2 ^ (e' + 1) := by
            rw [zpow_add_one₀ two_ne_zero, two_pow_precision]
            ring
        _ ≤ 2 ^ (precision - 1) * 2 ^ e := by
            gcongr
            · exact one_le_two
            · omega
    calc |x - m * 2 ^ e| ≤ |x - (2 ^ (precision - 1) : Nat) * 2 ^ e| := hgrid _
      _ = x - 2 ^ (precision - 1) * 2 ^ e := by
          push_cast
          exact abs_of_nonneg (sub_nonneg.mpr hfull)
      _ ≤ x - m' * 2 ^ e' := by linarith
      _ ≤ |x - m' * 2 ^ e'| := le_abs_self _

/-- A quotient that comes to a finite number comes to a number of the format, and no other one lies
nearer. -/
theorem ofQuotient_nearest {negative sign : Bool} {m : Nat} {e : Int} (hn : 0 < num) (hd : 0 < den)
    (h : ofQuotient negative num den = finite sign m e) :
    sign = negative ∧ IsFormat m e ∧ ∀ m' e', IsFormat m' e' →
      |(num / den : ℚ) - m * 2 ^ e| ≤ |(num / den : ℚ) - m' * 2 ^ e'| := by
  obtain ⟨m₀, e₀, hr, heq⟩ := exists_rounded hn hd negative
  rw [heq] at h
  split at h
  case isTrue hcarry =>
    -- The rounded significand needs one bit more, so the unit doubles.
    split at h
    · cases h
    next hmax =>
    cases h
    have hvalue : ((2 ^ (precision - 1) : Nat) : ℚ) * (2 : ℚ) ^ (e₀ + 1) = m₀ * (2 : ℚ) ^ e₀ := by
      rw [hcarry, zpow_add_one₀ two_ne_zero]
      push_cast
      rw [two_pow_precision]
      ring
    refine ⟨rfl, ⟨by decide, ?_, not_lt.mp hmax⟩, fun m' e' h' => ?_⟩
    · have := hr.minExponent_le
      omega
    · rw [hvalue]
      exact hr.nearest h'
  case isFalse hcarry =>
    split at h
    · cases h
    next hmax =>
    cases h
    exact ⟨rfl, ⟨lt_of_le_of_ne hr.significand_le hcarry, hr.minExponent_le, not_lt.mp hmax⟩,
      fun m' e' h' => hr.nearest h'⟩

theorem overflow_le_of_ofQuotient {negative sign : Bool} (hn : 0 < num) (hd : 0 < den)
    (h : ofQuotient negative num den = infinite sign) : overflow ≤ num / den := by
  obtain ⟨m₀, e₀, hr, heq⟩ := exists_rounded hn hd negative
  have hunit : (0 : ℚ) < 2 ^ e₀ := by positivity
  rw [heq] at h
  split at h
  -- Rounding went up to the next power of two, which is at most half a unit above the value.
  case isTrue hcarry =>
    split at h
    next hmax =>
      have hlow : (2 ^ precision - 1 / 2 : ℚ) ≤ num / den / 2 ^ e₀ := by
        have hclose := (abs_le.mp hr.close).1
        rw [hcarry] at hclose
        push_cast at hclose
        linarith
      have hmono : (2 : ℚ) ^ maxExponent ≤ 2 ^ e₀ := zpow_le_zpow_right₀ one_le_two (by omega)
      rw [le_div_iff₀ hunit] at hlow
      refine le_trans (mul_le_mul_of_nonneg_left hmono ?_) hlow
      norm_num [precision]
    · cases h
  -- Without a carry it is the exponent itself that is too large.
  case isFalse hcarry =>
    split at h
    next hmax =>
      have hmin : e₀ ≠ minExponent := by
        rintro rfl
        exact absurd hmax (by decide)
      have hlow := hr.full.resolve_left hmin
      have hmono : (2 : ℚ) ^ (maxExponent + 1) ≤ 2 ^ e₀ := zpow_le_zpow_right₀ one_le_two (by omega)
      rw [le_div_iff₀ hunit] at hlow
      have hmax' : (0 : ℚ) < 2 ^ maxExponent := by positivity
      calc overflow ≤ 2 ^ precision * 2 ^ maxExponent := by
            rw [overflow]
            gcongr
            norm_num
        _ = 2 ^ (precision - 1) * 2 ^ (maxExponent + 1) := by
            rw [zpow_add_one₀ two_ne_zero, two_pow_precision]
            ring
        _ ≤ 2 ^ (precision - 1) * 2 ^ e₀ := by gcongr
        _ ≤ num / den := hlow
    · cases h

theorem IsFormat.lt_overflow {m : Nat} {e : Int} (h : IsFormat m e) :
    (m * 2 ^ e : ℚ) < overflow := by
  have hm : (m : ℚ) + 1 ≤ 2 ^ precision := by exact_mod_cast h.significand_lt
  have hmono : (2 : ℚ) ^ e ≤ 2 ^ maxExponent := zpow_le_zpow_right₀ one_le_two h.le_maxExponent
  have hpos : (0 : ℚ) < 2 ^ maxExponent := by positivity
  calc (m * 2 ^ e : ℚ) ≤ m * 2 ^ maxExponent := mul_le_mul_of_nonneg_left hmono m.cast_nonneg
    _ < overflow := mul_lt_mul_of_pos_right (by linarith) hpos

/-! ## Decimal numbers -/

theorem cast_mul_pow_div (digits : Nat) (exponent : Int) :
    ((digits * Nat.pow 10 exponent.toNat : Nat) : ℚ) / (Nat.pow 10 (-exponent).toNat : Nat) =
      digits * 10 ^ exponent := by
  have hpow : (10 : ℚ) ^ exponent = 10 ^ exponent.toNat / 10 ^ (-exponent).toNat := by
    rw [← zpow_natCast, ← zpow_natCast, ← zpow_sub₀ (by norm_num)]
    congr 1
    omega
  simp only [Nat.pow_eq]
  push_cast
  rw [hpow, mul_div_assoc]

/-- The number that some digits and an exponent stand for is below the power of ten that their
count gives, and not below the tenth of it. -/
theorem digits_mul_bounds {digits : Nat} (hd : digits ≠ 0) (exponent : Int) :
    (10 : ℚ) ^ ((Nat.toDigits 10 digits).length + exponent - 1) ≤ digits * 10 ^ exponent ∧
      (digits * 10 ^ exponent : ℚ) < 10 ^ ((Nat.toDigits 10 digits).length + exponent) := by
  have hsize : 0 < (Nat.toDigits 10 digits).length := Nat.length_toDigits_pos
  have hunit : (0 : ℚ) < 10 ^ exponent := by positivity
  have hten : (10 : ℚ) ≠ 0 := by norm_num
  -- In whole numbers first: `k` digits lie between two powers of ten.
  have hlow : 10 ^ ((Nat.toDigits 10 digits).length - 1) ≤ digits := by
    by_contra hlt
    obtain hone | hmore := Nat.eq_or_lt_of_le (Nat.succ_le_of_lt hsize)
    · rw [← hone] at hlt
      exact hlt (Nat.pos_of_ne_zero hd)
    · have := (Nat.length_toDigits_le_iff (by decide) (by omega)).mpr (not_le.mp hlt)
      omega
  have hhigh : digits < 10 ^ (Nat.toDigits 10 digits).length :=
    (Nat.length_toDigits_le_iff (by decide) hsize).mp le_rfl
  generalize (Nat.toDigits 10 digits).length = k at *
  have hlow' : (10 : ℚ) ^ (k - 1 : Int) ≤ digits := by
    have hk : (k - 1 : Int) = ((k - 1 : Nat) : Int) := by omega
    rw [hk, zpow_natCast]
    exact_mod_cast hlow
  have hhigh' : (digits : ℚ) < 10 ^ (k : Int) := by
    rw [zpow_natCast]
    exact_mod_cast hhigh
  constructor
  · rw [show (k + exponent - 1 : Int) = k - 1 + exponent by omega, zpow_add₀ hten]
    exact mul_le_mul_of_nonneg_right hlow' hunit.le
  · rw [zpow_add₀ hten]
    exact mul_lt_mul_of_pos_right hhigh' hunit

theorem nearest_zero {x : ℚ} (hx : 0 ≤ x) (hsmall : 2 * x ≤ 2 ^ minExponent) {m' : Nat} {e' : Int}
    (h' : IsFormat m' e') : |x - (0 : Nat) * 2 ^ minExponent| ≤ |x - m' * 2 ^ e'| := by
  rw [Nat.cast_zero, zero_mul, sub_zero, abs_of_nonneg hx]
  obtain rfl | hm := Nat.eq_zero_or_pos m'
  · rw [Nat.cast_zero, zero_mul, sub_zero, abs_of_nonneg hx]
  · have hunit : (2 : ℚ) ^ minExponent ≤ 2 ^ e' := zpow_le_zpow_right₀ one_le_two h'.minExponent_le
    have hone : (1 : ℚ) ≤ m' := by exact_mod_cast hm
    have hpos : (0 : ℚ) < 2 ^ e' := by positivity
    have hother : (2 : ℚ) ^ e' ≤ m' * 2 ^ e' := le_mul_of_one_le_left hpos.le hone
    rw [abs_sub_comm]
    exact le_trans (by linarith) (le_abs_self _)

theorem isFormat_zero : IsFormat 0 minExponent :=
  ⟨by decide, le_rfl, by decide⟩

theorem two_mul_ten_zpow_le {k : Int} (hk : k ≤ -decimalRange) :
    2 * (10 : ℚ) ^ k ≤ 2 ^ minExponent := by
  have hten : (10 : ℚ) ^ k ≤ 2 ^ k := by
    obtain ⟨n, rfl⟩ : ∃ n : Nat, k = -n := ⟨(-k).toNat, by unfold decimalRange at hk; omega⟩
    rw [zpow_neg, zpow_neg, zpow_natCast, zpow_natCast]
    gcongr
    norm_num
  calc 2 * (10 : ℚ) ^ k ≤ 2 * 2 ^ k := by gcongr
    _ = 2 ^ (k + 1) := by rw [zpow_add_one₀ two_ne_zero, mul_comm]
    _ ≤ 2 ^ minExponent := by
      refine zpow_le_zpow_right₀ one_le_two ?_
      unfold decimalRange at hk
      unfold minExponent
      omega

theorem overflow_le_ten_zpow {k : Int} (hk : decimalRange ≤ k) : overflow ≤ 10 ^ k := by
  have hmax : (0 : ℚ) < 2 ^ maxExponent := by positivity
  calc overflow ≤ 2 ^ (precision : Int) * 2 ^ maxExponent := by
        rw [overflow, zpow_natCast]
        exact mul_le_mul_of_nonneg_right (by linarith) hmax.le
    _ = 2 ^ (precision + maxExponent : Int) := (zpow_add₀ two_ne_zero _ _).symm
    _ ≤ 2 ^ k := by
      refine zpow_le_zpow_right₀ one_le_two ?_
      unfold decimalRange at hk
      unfold maxExponent precision
      omega
    _ ≤ 10 ^ k := by
      obtain ⟨n, rfl⟩ : ∃ n : Nat, k = n := ⟨k.toNat, by unfold decimalRange at hk; omega⟩
      rw [zpow_natCast, zpow_natCast]
      gcongr
      norm_num

/-- The three ways of a decimal number other than zero: it is out of range on either side, or it is
read as a quotient. -/
theorem ofDecimal_cases {digits : Nat} (hd : digits ≠ 0) (negative : Bool) (exponent : Int) :
    (ofDecimal negative digits exponent = infinite negative ∧
        overflow ≤ digits * 10 ^ exponent) ∨
      (ofDecimal negative digits exponent = finite negative 0 minExponent ∧
        2 * (digits * 10 ^ exponent) ≤ (2 : ℚ) ^ minExponent) ∨
      ∃ num den : Nat, 0 < num ∧ 0 < den ∧ (num / den : ℚ) = digits * 10 ^ exponent ∧
        ofDecimal negative digits exponent = ofQuotient negative num den := by
  obtain ⟨hlow, hhigh⟩ := digits_mul_bounds hd exponent
  simp only [ofDecimal, if_neg hd]
  -- Exponents far out of the range are sorted out before a quotient is formed.
  split
  case isTrue hlarge =>
    exact .inl ⟨rfl, le_trans (overflow_le_ten_zpow (by omega)) hlow⟩
  case isFalse =>
    split
    case isTrue hsmall =>
      refine .inr (.inl ⟨rfl, le_trans ?_ (two_mul_ten_zpow_le hsmall.le)⟩)
      linarith
    case isFalse =>
      refine .inr (.inr ⟨_, _, ?_, ?_, cast_mul_pow_div digits exponent, rfl⟩)
      · exact Nat.mul_pos (Nat.pos_of_ne_zero hd) (Nat.pow_pos (by decide))
      · exact Nat.pow_pos (by decide)

/-- A decimal number that comes to a finite number comes to a number of the format, and no other one
lies nearer. -/
theorem ofDecimal_nearest {negative sign : Bool} {digits m : Nat} {exponent e : Int}
    (h : ofDecimal negative digits exponent = finite sign m e) :
    sign = negative ∧ IsFormat m e ∧ ∀ m' e', IsFormat m' e' →
      |(digits * 10 ^ exponent : ℚ) - m * 2 ^ e| ≤
        |(digits * 10 ^ exponent : ℚ) - m' * 2 ^ e'| := by
  obtain rfl | hd := eq_or_ne digits 0
  · cases h
    refine ⟨rfl, isFormat_zero, fun m' e' h' => nearest_zero (by simp) ?_ h'⟩
    rw [Nat.cast_zero, zero_mul, mul_zero]
    positivity
  obtain ⟨hinf, -⟩ | ⟨hzero, hsmall⟩ | ⟨num, den, hn, hden, hvalue, hquotient⟩ :=
    ofDecimal_cases hd negative exponent
  · cases hinf.symm.trans h
  · cases hzero.symm.trans h
    exact ⟨rfl, isFormat_zero, fun m' e' h' => nearest_zero (by positivity) hsmall h'⟩
  · rw [← hvalue]
    exact ofQuotient_nearest hn hden (hquotient.symm.trans h)

/-- A decimal number that comes to infinity lies beyond all numbers of the format. -/
theorem overflow_le_of_ofDecimal {negative sign : Bool} {digits : Nat} {exponent : Int}
    (h : ofDecimal negative digits exponent = infinite sign) :
    overflow ≤ digits * 10 ^ exponent := by
  obtain rfl | hd := eq_or_ne digits 0
  · cases h
  obtain ⟨-, hlarge⟩ | ⟨hzero, -⟩ | ⟨num, den, hn, hden, hvalue, hquotient⟩ :=
    ofDecimal_cases hd negative exponent
  · exact hlarge
  · cases hzero.symm.trans h
  · rw [← hvalue]
    exact overflow_le_of_ofQuotient hn hden (hquotient.symm.trans h)

theorem ofDecimal_ne_nan (negative : Bool) (digits : Nat) (exponent : Int) :
    ofDecimal negative digits exponent ≠ nan := by
  obtain rfl | hd := eq_or_ne digits 0
  · rintro ⟨⟩
  obtain ⟨h, -⟩ | ⟨h, -⟩ | ⟨num, den, hn, hden, -, h⟩ := ofDecimal_cases hd negative exponent
  · simp [h]
  · simp [h]
  · obtain ⟨m, e, -, hq⟩ := exists_rounded hn hden negative
    rw [h, hq]
    split <;> split <;> simp

theorem ofDecimal_exact {digits m' : Nat} {exponent e' : Int} (h' : IsFormat m' e')
    (hx : (digits * 10 ^ exponent : ℚ) = m' * 2 ^ e') (negative : Bool) :
    ∃ m e, ofDecimal negative digits exponent = finite negative m e ∧
      (m * 2 ^ e : ℚ) = m' * 2 ^ e' := by
  cases h : ofDecimal negative digits exponent with
  | nan => exact (ofDecimal_ne_nan _ _ _ h).elim
  | infinite sign =>
    have hlarge := overflow_le_of_ofDecimal h
    rw [hx] at hlarge
    exact (hlarge.not_gt h'.lt_overflow).elim
  | finite sign m e =>
    obtain ⟨rfl, -, hnearest⟩ := ofDecimal_nearest h
    have hzero := hnearest m' e' h'
    rw [hx, sub_self, abs_zero] at hzero
    exact ⟨m, e, rfl, (sub_eq_zero.mp (abs_nonpos_iff.mp hzero)).symm⟩

/-! ## Whole numbers -/

theorem toWord_finite {m n : Nat} {e : Int} (hn : n < UInt64.size) (h : (m * 2 ^ e : ℚ) = n) :
    (finite false m e).toWord.toNat = n := by
  have hpos : 0 < (scaleDown m 1 (-e)).2 := scaleDown_pos m one_pos (-e)
  have hdiv := scaleDown_div m 1 (-e)
  rw [Nat.cast_one, div_one, zpow_neg, div_inv_eq_mul, h, div_eq_iff (by positivity)] at hdiv
  have hnum : (scaleDown m 1 (-e)).1 = n * (scaleDown m 1 (-e)).2 := by exact_mod_cast hdiv
  simp only [toWord, hnum]
  generalize (scaleDown m 1 (-e)).2 = d at hpos
  have hround : (2 * (n * d) + d) / (2 * d) = n := by
    rw [show 2 * (n * d) + d = d + n * (2 * d) by ring, Nat.add_mul_div_right _ _ (by omega),
      Nat.div_eq_of_lt (by omega), zero_add]
  rw [hround, Nat.min_eq_left (by omega), UInt64.toNat_ofNat_of_lt' hn]

/-- A whole number below `2 ^ 53` is read from its decimal digits, with a point or without, as
itself. -/
theorem toWord_ofDecimal {digits n : Nat} {exponent : Int} (hn : n < 2 ^ precision)
    (h : (digits * 10 ^ exponent : ℚ) = n) :
    (ofDecimal false digits exponent).toWord.toNat = n := by
  have hformat : IsFormat n 0 := ⟨hn, by decide, by decide⟩
  obtain ⟨m, e, hf, hvalue⟩ := ofDecimal_exact hformat (by rw [h, zpow_zero, mul_one]) false
  rw [hf]
  refine toWord_finite (lt_trans hn (by decide)) ?_
  rw [hvalue, zpow_zero, mul_one]

end VolumeStore.Double
