import EsOptimizer.Number.Shortest
import Mathlib.Algebra.Order.Field.Power
import Mathlib.Algebra.Order.Field.Rat
import Mathlib.Tactic.FieldSimp
import Mathlib.Tactic.Linarith
import Mathlib.Tactic.NormNum.Pow
import Mathlib.Tactic.Positivity
import Mathlib.Tactic.Ring

/-!
# The nearest number

A number owns the fractions in its rounding interval. `ofFraction` gives each fraction to the number
that owns it, and so does `ofDecimal`, whose cut-offs lie outside all these intervals.

Fractions are compared as rationals. With `m` for the significand of the owner and `q` for its
exponent, a fraction in the interval is near `m * 2 ^ q`, and it has the size of the owner's binade,
except that below a power of two it has the size of the binade below.
-/

namespace EsOptimizer
namespace Number

/-! ## Fractions as rationals -/

namespace Fraction

def value (a : Fraction) : ℚ := a.num / a.den

variable {a b : Fraction}

theorem mul_zpow_eq (x : ℚ) {b : ℕ} (hb : b ≠ 0) (e : ℤ) :
    x * (b : ℚ) ^ e = x * (b : ℚ) ^ e.toNat / (b : ℚ) ^ (-e).toNat := by
  have hb' : (b : ℚ) ≠ 0 := Nat.cast_ne_zero.mpr hb
  rw [mul_div_assoc, ← zpow_natCast, ← zpow_natCast, ← zpow_sub₀ hb']
  congr 2
  omega

theorem value_scaled (n : ℕ) (e : ℤ) : (scaled n e).value = n * 2 ^ e := by
  have h := mul_zpow_eq n (b := 2) (by norm_num) e
  simp only [Nat.cast_ofNat] at h
  rw [h]
  simp [value, scaled]

theorem value_decimal (n : ℕ) (e : ℤ) : (decimal n e).value = n * 10 ^ e := by
  have h := mul_zpow_eq n (b := 10) (by norm_num) e
  simp only [Nat.cast_ofNat] at h
  rw [h]
  simp [value, decimal]

theorem scaled_den_pos (n : ℕ) (e : ℤ) : 0 < (scaled n e).den := Nat.pow_pos (by norm_num)

theorem decimal_den_pos (n : ℕ) (e : ℤ) : 0 < (decimal n e).den := Nat.pow_pos (by norm_num)

theorem le_iff (ha : 0 < a.den) (hb : 0 < b.den) : a.le b = true ↔ a.value ≤ b.value := by
  have ha' : (0 : ℚ) < a.den := Nat.cast_pos.mpr ha
  have hb' : (0 : ℚ) < b.den := Nat.cast_pos.mpr hb
  rw [value, value, div_le_div_iff₀ ha' hb', le, decide_eq_true_eq]
  exact_mod_cast Iff.rfl

theorem lt_iff (ha : 0 < a.den) (hb : 0 < b.den) : a.lt b = true ↔ a.value < b.value := by
  have ha' : (0 : ℚ) < a.den := Nat.cast_pos.mpr ha
  have hb' : (0 : ℚ) < b.den := Nat.cast_pos.mpr hb
  rw [value, value, div_lt_div_iff₀ ha' hb', lt, decide_eq_true_eq]
  exact_mod_cast Iff.rfl

/-- Sizes of numerator and denominator give the size of the fraction up to one. -/
theorem value_between_log2 (hn : 0 < a.num) (hd : 0 < a.den) :
    (2 : ℚ) ^ ((Nat.log2 a.num : ℤ) - Nat.log2 a.den - 1) ≤ a.value ∧
      a.value < (2 : ℚ) ^ ((Nat.log2 a.num : ℤ) - Nat.log2 a.den + 1) := by
  have hd' : (0 : ℚ) < a.den := Nat.cast_pos.mpr hd
  have hnlo : (2 : ℚ) ^ (Nat.log2 a.num) ≤ a.num := by
    exact_mod_cast Nat.log2_self_le (Nat.ne_of_gt hn)
  have hnhi : (a.num : ℚ) < 2 ^ (Nat.log2 a.num + 1) := by exact_mod_cast Nat.lt_log2_self
  have hdlo : (2 : ℚ) ^ (Nat.log2 a.den) ≤ a.den := by
    exact_mod_cast Nat.log2_self_le (Nat.ne_of_gt hd)
  have hdhi : (a.den : ℚ) < 2 ^ (Nat.log2 a.den + 1) := by exact_mod_cast Nat.lt_log2_self
  rw [value]
  constructor
  · rw [sub_sub, zpow_sub₀ (by norm_num), zpow_natCast,
      show ((Nat.log2 a.den : ℤ) + 1) = ((Nat.log2 a.den + 1 : ℕ) : ℤ) by push_cast; ring,
      zpow_natCast]
    exact div_le_div₀ (by positivity) hnlo hd' hdhi.le
  · rw [sub_add_eq_add_sub, zpow_sub₀ (by norm_num), zpow_natCast,
      show ((Nat.log2 a.num : ℤ) + 1) = ((Nat.log2 a.num + 1 : ℕ) : ℤ) by push_cast; ring,
      zpow_natCast]
    exact div_lt_div₀ hnhi hdlo (by positivity) (by positivity)

theorem binaryExponent_spec (hn : 0 < a.num) (hd : 0 < a.den) :
    (2 : ℚ) ^ a.binaryExponent ≤ a.value ∧ a.value < (2 : ℚ) ^ (a.binaryExponent + 1) := by
  obtain ⟨hlo, hhi⟩ := value_between_log2 hn hd
  have hle := le_iff (a := scaled 1 ((Nat.log2 a.num : ℤ) - Nat.log2 a.den)) (b := a)
    (scaled_den_pos _ _) hd
  rw [value_scaled, Nat.cast_one, one_mul] at hle
  rw [binaryExponent]
  split
  · exact ⟨hle.mp ‹_›, hhi⟩
  · rw [sub_add_cancel]
    exact ⟨hlo, not_le.mp fun h => ‹¬_› (hle.mpr h)⟩

end Fraction

/-! ## Rounding to whole numbers -/

/-- A quotient within a half of a whole number rounds to it, on the half if the number is even. -/
theorem roundDiv_eq {num den m : ℕ} (hden : 0 < den) (hlo : 2 * m * den ≤ 2 * num + den)
    (hhi : 2 * num ≤ (2 * m + 1) * den)
    (htie : m % 2 = 0 ∨ 2 * m * den < 2 * num + den ∧ 2 * num < (2 * m + 1) * den) :
    roundDiv num den = m := by
  have hdiv : den * (num / den) + num % den = num := Nat.div_add_mod num den
  have hmod : num % den < den := Nat.mod_lt num hden
  rw [roundDiv]
  generalize num / den = k at *
  generalize num % den = r at *
  have hup : m ≤ k + 1 := by
    by_contra hbig
    have : den * (k + 2) ≤ den * m := Nat.mul_le_mul_left den (by omega)
    nlinarith
  have hdown : k ≤ m := by
    by_contra hbig
    have : den * (m + 1) ≤ den * k := Nat.mul_le_mul_left den (by omega)
    nlinarith
  obtain rfl | rfl : k = m ∨ m = k + 1 := by omega
  · -- the quotient is not below the number
    have hr : 2 * r ≤ den := by nlinarith
    rcases htie with heven | ⟨-, hlt⟩
    · grind
    · have : 2 * r < den := by nlinarith
      grind
  · -- the quotient is below the number
    have hr : den ≤ 2 * r := by nlinarith
    rcases htie with heven | ⟨hlt, -⟩
    · grind
    · have : den < 2 * r := by nlinarith
      grind

/-! ## The parts of a number -/

section

variable {x : Number}

/-- A finite number above zero. -/
structure IsPositive (x : Number) : Prop where
  finite : x.isFinite = true
  sign : x.isNegative = false
  nonzero : x.isZero = false

theorem fraction_lt (x : Number) : x.fraction < 2 ^ 52 := Nat.mod_lt _ (by norm_num)

theorem exponent_ge (x : Number) : -1074 ≤ x.exponent := by
  rw [exponent]
  omega

theorem significand_lt (x : Number) : x.significand < 2 ^ 53 := by
  have h := fraction_lt x
  rw [significand, Nat.pow_eq]
  split <;> omega

namespace IsPositive

theorem biasedExponent_lt (h : x.IsPositive) : x.biasedExponent < 2047 := by
  have hlt : x.biasedExponent < 2048 := Nat.mod_lt _ (by norm_num)
  have hne : x.biasedExponent ≠ 2047 := by simpa [isFinite] using h.finite
  omega

theorem significand_pos (h : x.IsPositive) : 0 < x.significand := by
  have hnonzero := h.nonzero
  simp only [isZero, Bool.and_eq_false_iff, beq_eq_false_iff_ne] at hnonzero
  rw [significand, Nat.pow_eq]
  split <;> omega

theorem exponent_le (h : x.IsPositive) : x.exponent ≤ 971 := by
  have := h.biasedExponent_lt
  rw [exponent]
  omega

theorem bits_eq (h : x.IsPositive) : x.bits.toNat = x.biasedExponent * 2 ^ 52 + x.fraction := by
  have hsign := h.sign
  simp only [isNegative, Nat.pow_eq, decide_eq_false_iff_not] at hsign
  rw [biasedExponent, fraction, Nat.pow_eq, Nat.pow_eq]
  omega

/-- The pattern of a number counts the numbers below it. -/
theorem pattern (h : x.IsPositive) :
    x.bits.toNat = (x.exponent + 1074).toNat * 2 ^ 52 + x.significand := by
  rw [h.bits_eq, exponent, significand, Nat.pow_eq]
  split <;> omega

theorem pattern_lt (h : x.IsPositive) : x.bits.toNat < 2047 * 2 ^ 52 := by
  have hexponent := h.biasedExponent_lt
  have hfraction := fraction_lt x
  rw [h.bits_eq]
  omega

end IsPositive

/-- Only the numbers nearest to zero have few significant bits. -/
theorem exponent_of_significand_lt (h : x.significand < 2 ^ 52) : x.exponent = -1074 := by
  rw [significand, Nat.pow_eq] at h
  rw [exponent]
  split at h <;> omega

/-! ## Intervals -/

/-- The fractions that round to a number. -/
def Owns (x : Number) (v : ℚ) : Prop :=
  if x.roundingInterval.2.2 then
    x.roundingInterval.1.value ≤ v ∧ v ≤ x.roundingInterval.2.1.value
  else x.roundingInterval.1.value < v ∧ v < x.roundingInterval.2.1.value

/-- How far the interval of a number reaches down, in quarters of the last place. -/
def reachBelow (x : Number) : ℕ := if x.fraction = 0 ∧ 1 < x.biasedExponent then 1 else 2

theorem reachBelow_eq (x : Number) :
    x.reachBelow = 2 ∨ x.reachBelow = 1 ∧ x.significand = 2 ^ 52 := by
  rw [reachBelow, significand, Nat.pow_eq]
  split
  · right
    rw [if_neg (by omega)]
    omega
  · exact .inl rfl

theorem reachBelow_le (x : Number) : x.reachBelow ≤ 2 := by
  have := reachBelow_eq x
  omega

theorem value_low (h : x.IsPositive) : x.roundingInterval.1.value =
    (x.significand - x.reachBelow / 4 : ℚ) * 2 ^ x.exponent := by
  have hle : x.reachBelow ≤ 4 * x.significand := by
    have hreach := x.reachBelow_le
    have hpos := h.significand_pos
    omega
  show (Fraction.scaled (4 * x.significand - x.reachBelow) _).value = _
  rw [Fraction.value_scaled, zpow_sub₀ (by norm_num), Nat.cast_sub hle]
  push_cast
  ring

theorem value_high (x : Number) :
    x.roundingInterval.2.1.value = (x.significand + 1 / 2 : ℚ) * 2 ^ x.exponent := by
  show (Fraction.scaled _ _).value = _
  rw [Fraction.value_scaled, zpow_sub₀ (by norm_num)]
  push_cast
  ring

/-- The gap below a power of two is half as wide, except below the first. -/
theorem reachBelow_eq_one (hm : x.significand = 2 ^ 52) (he : x.exponent ≠ -1074) :
    x.reachBelow = 1 := by
  rw [significand, Nat.pow_eq] at hm
  rw [exponent] at he
  rw [reachBelow, if_pos]
  split at hm <;> omega

theorem Owns.low (hx : x.IsPositive) {v : ℚ} (h : x.Owns v) :
    (x.significand - x.reachBelow / 4 : ℚ) * 2 ^ x.exponent ≤ v := by
  rw [← value_low hx]
  unfold Owns at h
  split at h
  · exact h.1
  · exact h.1.le

theorem Owns.high {v : ℚ} (h : x.Owns v) :
    v ≤ (x.significand + 1 / 2 : ℚ) * 2 ^ x.exponent := by
  rw [← value_high]
  unfold Owns at h
  split at h
  · exact h.2
  · exact h.2.le

/-- The ends of the interval belong to a number with an even significand. -/
theorem Owns.strict (hx : x.IsPositive) {v : ℚ} (h : x.Owns v) : x.significand % 2 = 0 ∨
    (x.significand - x.reachBelow / 4 : ℚ) * 2 ^ x.exponent < v ∧
      v < (x.significand + 1 / 2 : ℚ) * 2 ^ x.exponent := by
  rw [← value_low hx, ← value_high]
  unfold Owns at h
  split at h
  · rename_i heven
    exact .inl (eq_of_beq heven)
  · exact .inr h

theorem Owns.of_lt (hx : x.IsPositive) {v : ℚ}
    (hlo : (x.significand - x.reachBelow / 4 : ℚ) * 2 ^ x.exponent < v)
    (hhi : v < (x.significand + 1 / 2 : ℚ) * 2 ^ x.exponent) : x.Owns v := by
  rw [← value_low hx] at hlo
  rw [← value_high] at hhi
  unfold Owns
  split
  · exact ⟨hlo.le, hhi.le⟩
  · exact ⟨hlo, hhi⟩

/-! ## Rounding to the owner -/

variable {a : Fraction}

/-- A fraction within a half of `m * 2 ^ q` is rounded to `m` on the grid of spacing `2 ^ q`. -/
theorem roundDiv_scaled {m : ℕ} {q : ℤ} (hd : 0 < a.den) (hlo : (m - 1 / 2 : ℚ) * 2 ^ q ≤ a.value)
    (hhi : a.value ≤ (m + 1 / 2 : ℚ) * 2 ^ q)
    (htie : m % 2 = 0 ∨ (m - 1 / 2 : ℚ) * 2 ^ q < a.value ∧ a.value < (m + 1 / 2 : ℚ) * 2 ^ q) :
    roundDiv (a.num * Nat.pow 2 (-q).toNat) (a.den * Nat.pow 2 q.toNat) = m := by
  have hd' : (0 : ℚ) < a.den := Nat.cast_pos.mpr hd
  have hpow := Fraction.mul_zpow_eq (m - 1 / 2) (b := 2) (by norm_num) q
  have hpow' := Fraction.mul_zpow_eq (m + 1 / 2) (b := 2) (by norm_num) q
  rw [Nat.cast_ofNat] at hpow hpow'
  rw [hpow] at hlo htie
  rw [hpow'] at hhi htie
  rw [Fraction.value] at hlo hhi htie
  rw [Nat.pow_eq, Nat.pow_eq]
  generalize (-q).toNat = k at *
  generalize q.toNat = l at *
  rw [div_le_div_iff₀ (by positivity) hd'] at hlo
  rw [div_le_div_iff₀ hd' (by positivity)] at hhi
  rw [div_lt_div_iff₀ (by positivity) hd', div_lt_div_iff₀ hd' (by positivity)] at htie
  refine roundDiv_eq (by positivity) ?_ ?_ (htie.imp_right fun ⟨hlo, hhi⟩ => ⟨?_, ?_⟩)
  · have : (2 * m * (a.den * 2 ^ l) : ℚ) ≤ 2 * (a.num * 2 ^ k) + a.den * 2 ^ l := by linarith
    exact_mod_cast this
  · have : (2 * (a.num * 2 ^ k) : ℚ) ≤ (2 * m + 1) * (a.den * 2 ^ l) := by linarith
    exact_mod_cast this
  · have : (2 * m * (a.den * 2 ^ l) : ℚ) < 2 * (a.num * 2 ^ k) + a.den * 2 ^ l := by linarith
    exact_mod_cast this
  · have : (2 * (a.num * 2 ^ k) : ℚ) < (2 * m + 1) * (a.den * 2 ^ l) := by linarith
    exact_mod_cast this

/-- The grid on which an owned fraction is rounded: that of its owner, or the one for the binade
below. -/
theorem grid_of_owned (hx : x.IsPositive) (hn : 0 < a.num) (hd : 0 < a.den) (h : x.Owns a.value) :
    max (a.binaryExponent - 52) (-1074) = x.exponent ∨
      max (a.binaryExponent - 52) (-1074) = x.exponent - 1 ∧ x.significand = 2 ^ 52 ∧
        x.reachBelow = 1 ∧ a.value < 2 ^ 53 * 2 ^ (x.exponent - 1) := by
  obtain ⟨hbelow, habove⟩ := Fraction.binaryExponent_spec hn hd
  have hlow := h.low hx
  have hexp := exponent_ge x
  have hunit : (0 : ℚ) < 2 ^ x.exponent := by positivity
  have htop : a.binaryExponent < x.exponent + 53 := by
    have hm : (x.significand : ℚ) + 1 ≤ 2 ^ 53 := by exact_mod_cast significand_lt x
    have : (2 : ℚ) ^ a.binaryExponent < 2 ^ (x.exponent + 53) := by
      calc (2 : ℚ) ^ a.binaryExponent ≤ (x.significand + 1 / 2) * 2 ^ x.exponent :=
            hbelow.trans h.high
        _ < 2 ^ 53 * 2 ^ x.exponent := by nlinarith
        _ = 2 ^ (x.exponent + 53) := by rw [zpow_add₀ (by norm_num), mul_comm]; rfl
    exact (zpow_lt_zpow_iff_right₀ (by norm_num)).mp this
  by_cases hsize : x.exponent + 52 ≤ a.binaryExponent
  · exact .inl (by omega)
  by_cases hfirst : x.exponent = -1074
  · exact .inl (by omega)
  -- below the owner's binade, and so the owner is a power of two
  right
  have hlt : a.value < 2 ^ 53 * 2 ^ (x.exponent - 1) := by
    calc a.value < 2 ^ (a.binaryExponent + 1) := habove
      _ ≤ 2 ^ (53 + (x.exponent - 1)) := zpow_le_zpow_right₀ (by norm_num) (by omega)
      _ = 2 ^ 53 * 2 ^ (x.exponent - 1) := by rw [zpow_add₀ (by norm_num)]; rfl
  have hhalf : (2 : ℚ) ^ x.exponent = 2 * 2 ^ (x.exponent - 1) := by
    rw [zpow_sub₀ (by norm_num)]
    ring
  have hunit' : (0 : ℚ) < 2 ^ (x.exponent - 1) := by positivity
  have hreach : (x.reachBelow : ℚ) ≤ 2 := by exact_mod_cast reachBelow_le x
  have hm : x.significand = 2 ^ 52 := by
    have hge : 2 ^ 52 ≤ x.significand := by
      by_contra hsmall
      exact hfirst (exponent_of_significand_lt (by omega))
    have hle : (x.significand : ℚ) < 2 ^ 52 + 1 := by
      by_contra hbig
      nlinarith
    have hle' : x.significand < 2 ^ 52 + 1 := by exact_mod_cast hle
    omega
  have hbottom : x.exponent - 1 + 52 < a.binaryExponent + 1 := by
    have hm' : (x.significand : ℚ) = 2 ^ 52 := by exact_mod_cast hm
    have : (2 : ℚ) ^ (x.exponent - 1 + 52) < 2 ^ (a.binaryExponent + 1) := by
      calc (2 : ℚ) ^ (x.exponent - 1 + 52) = 2 ^ 52 * 2 ^ (x.exponent - 1) := by
            rw [zpow_add₀ (by norm_num), mul_comm]
            rfl
        _ ≤ (x.significand - x.reachBelow / 4) * 2 ^ x.exponent := by nlinarith
        _ < 2 ^ (a.binaryExponent + 1) := hlow.trans_lt habove
    exact (zpow_lt_zpow_iff_right₀ (by norm_num)).mp this
  exact ⟨by omega, hm, reachBelow_eq_one hm hfirst, hlt⟩

/-- A fraction is rounded to the number that owns it. -/
theorem ofFraction_eq (hx : x.IsPositive) (hn : 0 < a.num) (hd : 0 < a.den)
    (h : x.Owns a.value) : ofFraction a = x := by
  have hlow := h.low hx
  have hhigh := h.high
  have hstrict := h.strict hx
  have hexp := exponent_ge x
  have hunit : (0 : ℚ) < 2 ^ x.exponent := by positivity
  have hreach : (x.reachBelow : ℚ) ≤ 2 := by exact_mod_cast reachBelow_le x
  -- the pattern is that of the owner, and so not infinite
  suffices hpattern : (max (a.binaryExponent - 52) (-1074) + 1074).toNat * 2 ^ 52 +
      roundDiv (a.num * Nat.pow 2 (-max (a.binaryExponent - 52) (-1074)).toNat)
        (a.den * Nat.pow 2 (max (a.binaryExponent - 52) (-1074)).toNat) = x.bits.toNat by
    rw [ofFraction, if_neg hn.ne', Nat.pow_eq, hpattern, if_pos hx.pattern_lt]
    simp
  rw [hx.pattern]
  rcases grid_of_owned hx hn hd h with hgrid | ⟨hgrid, hm, hone, hlt⟩ <;> rw [hgrid]
  · rw [roundDiv_scaled hd (m := x.significand) (by nlinarith) hhigh
      (hstrict.imp_right fun ⟨hlo, hhi⟩ => ⟨by nlinarith, hhi⟩)]
  · have hm' : (x.significand : ℚ) = 2 ^ 52 := by exact_mod_cast hm
    have hhalf : (2 : ℚ) ^ x.exponent = 2 * 2 ^ (x.exponent - 1) := by
      rw [zpow_sub₀ (by norm_num)]
      ring
    have hunit' : (0 : ℚ) < 2 ^ (x.exponent - 1) := by positivity
    rw [hm', hone, hhalf] at hlow
    rw [roundDiv_scaled hd (m := 2 ^ 53) (by push_cast; nlinarith) (by push_cast; nlinarith)
      (.inl (by norm_num)), hm]
    omega

/-! ## Decimals -/

theorem length_toDigits_bounds {n : ℕ} (hn : 0 < n) :
    10 ^ ((Nat.toDigits 10 n).length - 1) ≤ n ∧ n < 10 ^ (Nat.toDigits 10 n).length := by
  have hpos : 0 < (Nat.toDigits 10 n).length := Nat.length_toDigits_pos
  refine ⟨?_, (Nat.length_toDigits_le_iff (by norm_num) hpos).mp le_rfl⟩
  by_contra hsmall
  rcases Nat.eq_zero_or_pos ((Nat.toDigits 10 n).length - 1) with hone | hmore
  · rw [hone] at hsmall
    omega
  · have := (Nat.length_toDigits_le_iff (by norm_num) hmore).mpr (not_le.mp hsmall)
    omega

theorem two_zpow_le_ten_zpow : (2 : ℚ) ^ (1200 : ℤ) ≤ 10 ^ (400 : ℤ) :=
  calc (2 : ℚ) ^ (1200 : ℤ) = (2 ^ 3) ^ 400 := by rw [← pow_mul]; rfl
    _ ≤ 10 ^ 400 := pow_le_pow_left₀ (by norm_num) (by norm_num) 400
    _ = 10 ^ (400 : ℤ) := rfl

/-- Where the cut-offs are, no number owns anything. -/
theorem Owns.between (hx : x.IsPositive) {v : ℚ} (h : x.Owns v) :
    (10 : ℚ) ^ (-400 : ℤ) ≤ v ∧ v < 10 ^ (400 : ℤ) := by
  have hunit : (0 : ℚ) < 2 ^ x.exponent := by positivity
  have hreach : (x.reachBelow : ℚ) ≤ 2 := by exact_mod_cast reachBelow_le x
  have hmlo : (1 : ℚ) ≤ x.significand := by exact_mod_cast hx.significand_pos
  have hmhi : (x.significand : ℚ) + 1 ≤ 2 ^ 53 := by exact_mod_cast significand_lt x
  constructor
  · calc (10 : ℚ) ^ (-400 : ℤ) ≤ 2 ^ (-1200 : ℤ) := by
          rw [zpow_neg, zpow_neg]
          exact inv_anti₀ (by positivity) two_zpow_le_ten_zpow
      _ ≤ 2 ^ (-1 + x.exponent) :=
        zpow_le_zpow_right₀ (by norm_num) (by have := exponent_ge x; omega)
      _ = 1 / 2 * 2 ^ x.exponent := by rw [zpow_add₀ (by norm_num)]; norm_num
      _ ≤ v := le_trans (by nlinarith) (h.low hx)
  · calc v ≤ (x.significand + 1 / 2) * 2 ^ x.exponent := h.high
      _ < 2 ^ 53 * 2 ^ x.exponent := by nlinarith
      _ = 2 ^ (53 + x.exponent) := by rw [zpow_add₀ (by norm_num)]; rfl
      _ ≤ 2 ^ (1200 : ℤ) :=
        zpow_le_zpow_right₀ (by norm_num) (by have := hx.exponent_le; omega)
      _ ≤ 10 ^ (400 : ℤ) := two_zpow_le_ten_zpow

theorem ofDecimal_eq (hx : x.IsPositive) {n : ℕ} {e : ℤ} (h : x.Owns (n * 10 ^ e)) :
    ofDecimal n e = x := by
  obtain ⟨hlo, hhi⟩ := h.between hx
  have hunit : (0 : ℚ) < 10 ^ e := by positivity
  have hn : 0 < n := by
    rcases Nat.eq_zero_or_pos n with rfl | hn
    · rw [Nat.cast_zero, zero_mul] at hlo
      exact absurd hlo (by norm_num)
    · exact hn
  obtain ⟨hdlo, hdhi⟩ := length_toDigits_bounds hn
  have hlen : 0 < (Nat.toDigits 10 n).length := Nat.length_toDigits_pos
  have hsmall : ¬ ((Nat.toDigits 10 n).length : ℤ) + e < -400 := fun hcut => by
    have hdhi' : (n : ℚ) < 10 ^ (Nat.toDigits 10 n).length := by exact_mod_cast hdhi
    refine absurd hlo (not_le.mpr ?_)
    calc (n * 10 ^ e : ℚ) < 10 ^ (Nat.toDigits 10 n).length * 10 ^ e := by gcongr
      _ = 10 ^ (((Nat.toDigits 10 n).length : ℤ) + e) := by
        rw [zpow_add₀ (by norm_num), zpow_natCast]
      _ ≤ 10 ^ (-400 : ℤ) := zpow_le_zpow_right₀ (by norm_num) (by omega)
  have hbig : ¬ 400 < ((Nat.toDigits 10 n).length : ℤ) + e := fun hcut => by
    have hdlo' : (10 : ℚ) ^ ((Nat.toDigits 10 n).length - 1) ≤ n := by exact_mod_cast hdlo
    refine absurd hhi (not_lt.mpr ?_)
    calc (10 : ℚ) ^ (400 : ℤ) ≤ 10 ^ (((((Nat.toDigits 10 n).length - 1 : ℕ)) : ℤ) + e) :=
          zpow_le_zpow_right₀ (by norm_num) (by omega)
      _ = 10 ^ ((Nat.toDigits 10 n).length - 1) * 10 ^ e := by
        rw [zpow_add₀ (by norm_num), zpow_natCast]
      _ ≤ n * 10 ^ e := by gcongr
  rw [ofDecimal, if_neg hn.ne', if_neg hsmall, if_neg hbig]
  exact ofFraction_eq hx (Nat.mul_pos hn (Nat.pow_pos (by norm_num)))
    (Fraction.decimal_den_pos n e) (by rwa [Fraction.value_decimal])

end

end Number
end EsOptimizer
