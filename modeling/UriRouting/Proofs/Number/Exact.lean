import UriRouting.Number.Basic
import Mathlib.Algebra.Order.Field.Rat
import Mathlib.Tactic.FieldSimp
import Mathlib.Tactic.Positivity
import Mathlib.Tactic.Ring

/-!
# Exact sums of numbers

Rounding leaves an integer as it is if its magnitude has at most 53 bits (`value_ofQuotient`), for
the significand that is rounded is then an integer already. So a sum of numbers is exact wherever it
is such an integer (`value_add`), and what is kept of it as a word is the word of the exact sum
(`toInt32_of_value`).
-/

namespace UriRouting

namespace Number

/-- The value of a finite number. -/
def value? : Number → Option ℚ
  | finite m e => some (m * 2 ^ e)
  | _ => none

/-- A power of two as a rational number. -/
theorem cast_powTwo (n : ℕ) : (powTwo n : ℚ) = 2 ^ n := Nat.cast_pow 2 n

/-- A power of two with an exponent that is not negative. -/
theorem cast_powTwo_toNat {e : ℤ} (h : 0 ≤ e) : (powTwo e.toNat : ℚ) = 2 ^ e := by
  rw [cast_powTwo, ← zpow_natCast, Int.toNat_of_nonneg h]

/-- A power of two is positive. -/
theorem powTwo_pos (n : ℕ) : 0 < powTwo n := Nat.two_pow_pos n

/-- Powers of two grow with the exponent. -/
theorem pow_le_powTwo {m n : ℕ} (h : m ≤ n) : 2 ^ m ≤ powTwo n := Nat.pow_le_pow_right two_pos h

/-- Moving factors of two into the exponent keeps the value. -/
theorem value_reduce (m : ℕ) (e : ℤ) :
    ((reduce m e).1 : ℚ) * 2 ^ (reduce m e).2 = m * 2 ^ e := by
  fun_induction reduce m e with
  | case1 m e h ih =>
    have hm : m = m / 2 * 2 := (Nat.div_mul_cancel (Nat.dvd_of_mod_eq_zero h.2)).symm
    rw [ih, zpow_add_one₀ two_ne_zero]
    conv_rhs => rw [hm]
    push_cast
    ring
  | case2 => simp
  | case3 => rfl

/-- Scaling keeps the denominator positive. -/
theorem scale_pos (num : ℕ) {den : ℕ} (hden : 0 < den) (shift : ℤ) :
    0 < (scale num den shift).2 := by
  rw [scale]
  split_ifs
  · exact hden
  · exact Nat.mul_pos hden (powTwo_pos _)

/-- Scaling multiplies a quotient by the power of two. -/
theorem cast_scale (num : ℕ) {den : ℕ} (hden : 0 < den) (shift : ℤ) :
    ((scale num den shift).1 : ℚ) = num / den * 2 ^ shift * (scale num den shift).2 := by
  have hden' : (den : ℚ) ≠ 0 := by positivity
  rw [scale]
  split_ifs with h
  · rw [Nat.cast_mul, cast_powTwo_toNat h]
    field_simp
  · rw [Nat.cast_mul, cast_powTwo_toNat (by omega), zpow_neg]
    field_simp

/-- A quotient that scaling makes an integer has no remainder then. -/
theorem scale_eq_mul {num den k : ℕ} {shift : ℤ} (hden : 0 < den)
    (h : (num : ℚ) / den * 2 ^ shift = k) :
    (scale num den shift).1 = k * (scale num den shift).2 := by
  have hscale := cast_scale num hden shift
  rw [h] at hscale
  exact_mod_cast hscale

/-- A quotient without remainder is not rounded. -/
theorem divRound_mul {n d : ℕ} (hd : 0 < d) : divRound (n * d) d = n := by
  simp [divRound, Nat.mul_div_cancel n hd, hd]

/-- The significand of a quotient below `2 ^ 53` is rounded at an exponent that is not positive. -/
theorem roundingExponent_nonpos {num den : ℕ} (hnum : num ≠ 0)
    (h : num < 2 ^ 53 * den) : roundingExponent num den ≤ 0 := by
  have hlog : num.log2 < den.log2 + 54 := by
    rw [Nat.log2_lt hnum]
    calc num < 2 ^ 53 * den := h
      _ < 2 ^ 53 * 2 ^ (den.log2 + 1) := Nat.mul_lt_mul_of_pos_left Nat.lt_log2_self (by positivity)
      _ = 2 ^ (den.log2 + 54) := by rw [← Nat.pow_add]; congr 1; omega
  have hleast : leastExponent ≤ 0 := by decide
  simp only [roundingExponent]
  obtain hguess | hguess : (num.log2 : ℤ) - den.log2 - 53 < 0 ∨
      (num.log2 : ℤ) - den.log2 - 53 = 0 := by omega
  · split_ifs <;> omega
  · have hbelow : (scale num den (-0)).1 < powTwo 53 * (scale num den (-0)).2 := by
      simpa [scale, powTwo] using h
    rw [hguess, if_pos hbelow]
    split_ifs
    · exact hleast
    · exact le_rfl

/-- A significand of an integer, at an exponent that is not positive. -/
theorem cast_mul_powTwo {e : ℤ} (he : e ≤ 0) (k : ℕ) :
    ((k * powTwo (-e).toNat : ℕ) : ℚ) = k * 2 ^ (-e) := by
  rw [Nat.cast_mul, cast_powTwo_toNat (by omega)]

/-- At such an exponent the significand of an integer is not rounded, as it is an integer too. -/
theorem divRound_scale {k den : ℕ} {e : ℤ} (hden : 0 < den) (he : e ≤ 0) :
    divRound (scale (k * den) den (-e)).1 (scale (k * den) den (-e)).2 =
      k * powTwo (-e).toNat := by
  have hden' : (den : ℚ) ≠ 0 := by positivity
  have hquotient : ((k * den : ℕ) : ℚ) / den * 2 ^ (-e) = (k * powTwo (-e).toNat : ℕ) := by
    rw [cast_mul_powTwo he, Nat.cast_mul, mul_div_cancel_right₀ _ hden']
  rw [scale_eq_mul hden hquotient, divRound_mul (scale_pos _ hden _)]

/-- A significand with a sign as a rational number. -/
theorem cast_signed (negative : Bool) (m : ℕ) :
    (signed negative m : ℚ) = (if negative then -1 else 1) * m := by
  cases negative <;> simp [signed]

/-- An integer below `2 ^ 53`, given as a quotient, is not rounded. -/
theorem value_ofQuotient (negative : Bool) {k den : ℕ} (hden : 0 < den) (hk : k < 2 ^ 53) :
    (ofQuotient negative (k * den) den).value? = some (signed negative k : ℚ) := by
  by_cases hzero : k = 0
  · simp [hzero, ofQuotient, value?, signed]
  have hnum : k * den ≠ 0 := Nat.mul_ne_zero hzero hden.ne'
  have hexponent : roundingExponent (k * den) den ≤ 0 :=
    roundingExponent_nonpos hnum (Nat.mul_lt_mul_of_pos_right hk hden)
  simp only [ofQuotient, if_neg hnum]
  generalize roundingExponent (k * den) den = e at hexponent ⊢
  have hvalue : ((k * powTwo (-e).toNat : ℕ) : ℚ) * 2 ^ e = k := by
    rw [cast_mul_powTwo hexponent, zpow_neg, inv_mul_cancel_right₀ (zpow_ne_zero e two_ne_zero)]
  rw [divRound_scale hden hexponent]
  have hfinite : ¬ powTwo 1024 * (scale (k * powTwo (-e).toNat) 1 e).2 ≤
      (scale (k * powTwo (-e).toNat) 1 e).1 := by
    rw [scale_eq_mul Nat.one_pos (k := k) (by rw [Nat.cast_one, div_one, hvalue]), Nat.not_le]
    exact Nat.mul_lt_mul_of_pos_right (hk.trans_le (pow_le_powTwo (by decide)))
      (scale_pos _ Nat.one_pos _)
  rw [if_neg hfinite, value?, cast_signed, cast_signed, mul_assoc, value_reduce, hvalue]

/-- The sign and the magnitude of an integer. -/
theorem signed_natAbs (n : ℤ) : signed (n < 0) n.natAbs = n := by
  rw [signed]
  split_ifs with h
  · have hneg : n < 0 := of_decide_eq_true h
    omega
  · have hnonneg : ¬ n < 0 := fun hneg => h (decide_eq_true hneg)
    omega

/-- A magnitude below a bound, as a natural number. -/
theorem natAbs_lt_of_abs_lt {n : ℤ} (h : |n| < 2 ^ 53) : n.natAbs < 2 ^ 53 := by
  rw [Int.abs_eq_natAbs] at h
  exact_mod_cast h

/-- An integer whose magnitude is below `2 ^ 53` is a number. -/
theorem value_ofInt {n : ℤ} (h : |n| < 2 ^ 53) : (ofInt n).value? = some (n : ℚ) := by
  have hvalue := value_ofQuotient (n < 0) Nat.one_pos (natAbs_lt_of_abs_lt h)
  rwa [mul_one, signed_natAbs] at hvalue

/-- A significand times a power of two is not rounded if the product is such an integer. -/
theorem value_round {s e n : ℤ} (hn : (s : ℚ) * 2 ^ e = n) (h : |n| < 2 ^ 53) :
    (round s e).value? = some (n : ℚ) := by
  have hpow : (0 : ℚ) < 2 ^ e := zpow_pos two_pos e
  have hsign : decide (s < 0) = decide (n < 0) := by
    rw [decide_eq_decide, ← not_le, ← not_le, not_iff_not, ← Int.cast_nonneg_iff (R := ℚ),
      ← Int.cast_nonneg_iff (R := ℚ) (n := n), ← hn, mul_nonneg_iff_of_pos_right hpow]
  have hmagnitude : (s.natAbs : ℚ) * 2 ^ e = n.natAbs := by
    rw [Nat.cast_natAbs, Nat.cast_natAbs, Int.cast_abs, Int.cast_abs, ← hn, abs_mul,
      abs_of_pos hpow]
  have hquotient : (scale s.natAbs 1 e).1 = n.natAbs * (scale s.natAbs 1 e).2 :=
    scale_eq_mul Nat.one_pos (by rw [Nat.cast_one, div_one, hmagnitude])
  simp only [round]
  rw [hquotient, value_ofQuotient _ (scale_pos _ Nat.one_pos _) (natAbs_lt_of_abs_lt h), hsign,
    signed_natAbs]

/-- A significand at a lower exponent is larger, and its value is the same. -/
theorem mul_powTwo_sub {low e : ℤ} (h : low ≤ e) (m : ℤ) :
    ((m * powTwo (e - low).toNat : ℤ) : ℚ) * 2 ^ low = m * 2 ^ e := by
  rw [Int.cast_mul, Int.cast_natCast, cast_powTwo_toNat (by omega), mul_assoc,
    ← zpow_add₀ two_ne_zero, sub_add_cancel]

/-- A sum is exact if it is an integer whose magnitude is below `2 ^ 53`. -/
theorem value_add {x y : Number} {a b : ℚ} {n : ℤ} (hx : x.value? = some a) (hy : y.value? = some b)
    (hn : a + b = n) (h : |n| < 2 ^ 53) : (x.add y).value? = some (n : ℚ) := by
  cases x with
  | infinite => cases hx
  | undefined => cases hx
  | finite m e =>
    cases y with
    | infinite => cases hy
    | undefined => cases hy
    | finite p f =>
      obtain rfl := Option.some.inj hx
      obtain rfl := Option.some.inj hy
      refine value_round ?_ h
      rw [Int.cast_add, add_mul, mul_powTwo_sub (by split_ifs <;> omega),
        mul_powTwo_sub (by split_ifs <;> omega), hn]

/-- Behind these integers there are some that are no numbers, and a sum can be one of them. -/
example : (ofInt (2 ^ 53)).add (ofInt 1) = ofInt (2 ^ 53) := by decide +kernel

/-- The integer part of an integer is the integer. -/
theorem truncate_of_value {x : Number} {n : ℤ} (h : x.value? = some (n : ℚ)) : x.truncate = n := by
  cases x with
  | infinite => cases h
  | undefined => cases h
  | finite m e =>
    have hvalue : (m : ℚ) * 2 ^ e = n := Option.some.inj h
    rw [truncate]
    split_ifs with he
    · rw [← cast_powTwo_toNat he] at hvalue
      exact_mod_cast hvalue
    · have hcast : (m : ℚ) = n * (powTwo (-e).toNat : ℕ) := by
        rw [cast_powTwo_toNat (by omega), ← hvalue, zpow_neg,
          mul_inv_cancel_right₀ (zpow_ne_zero e two_ne_zero)]
      have hm : m = n * (powTwo (-e).toNat : ℕ) := by exact_mod_cast hcast
      rw [hm, Int.mul_tdiv_cancel _ (Int.natCast_ne_zero.2 (powTwo_pos _).ne')]

/-- The word of a number that is an integer. -/
theorem toInt32_of_value {x : Number} {n : ℤ} (h : x.value? = some (n : ℚ)) :
    x.toInt32 = Int32.ofInt n := by
  rw [toInt32, truncate_of_value h]

end Number

end UriRouting
