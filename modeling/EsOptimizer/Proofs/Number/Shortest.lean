import EsOptimizer.Number.Text
import EsOptimizer.Proofs.Number.Nearest
import Mathlib.Data.List.TakeWhile

/-!
# Seventeen digits suffice

The decimal that `shortest` finds rounds to the number it was made for. A grid of seventeen digits is
finer than the interval of a number is wide, so the search does not fail.
-/

namespace EsOptimizer
namespace Number

variable {x : Number} {e : ℤ} {d : ℕ}

/-! ## Points of a grid -/

theorem owns_iff (p : Fraction) (hp : 0 < p.den) :
    (if x.roundingInterval.2.2 then
      x.roundingInterval.1.le p && p.le x.roundingInterval.2.1
    else x.roundingInterval.1.lt p && p.lt x.roundingInterval.2.1) = true ↔ x.Owns p.value := by
  have hlow : 0 < x.roundingInterval.1.den := Fraction.scaled_den_pos _ _
  have hhigh : 0 < x.roundingInterval.2.1.den := Fraction.scaled_den_pos _ _
  unfold Owns
  split
  · rw [Bool.and_eq_true, Fraction.le_iff hlow hp, Fraction.le_iff hp hhigh]
  · rw [Bool.and_eq_true, Fraction.lt_iff hlow hp, Fraction.lt_iff hp hhigh]

/-- The point of the grid of spacing `10 ^ e` below the number. -/
def down (x : Number) (e : ℤ) : ℕ :=
  let v := Fraction.scaled x.significand x.exponent
  v.num * Nat.pow 10 (-e).toNat / (v.den * Nat.pow 10 e.toNat)

theorem onGrid_some (h : x.onGrid e = some d) : x.Owns (d * 10 ^ e) := by
  rw [← Fraction.value_decimal, ← owns_iff _ (Fraction.decimal_den_pos d e)]
  unfold onGrid at h
  dsimp only at h
  split at h
  · split at h <;> cases h <;> assumption
  · cases h
    assumption
  · cases h
    assumption
  · cases h

theorem onGrid_none (h : x.onGrid e = none) :
    ¬ x.Owns (x.down e * 10 ^ e) ∧ ¬ x.Owns ((x.down e + 1 : ℕ) * 10 ^ e) := by
  rw [← Fraction.value_decimal, ← Fraction.value_decimal,
    ← owns_iff _ (Fraction.decimal_den_pos _ e), ← owns_iff _ (Fraction.decimal_den_pos _ e),
    Bool.not_eq_true, Bool.not_eq_true]
  unfold onGrid at h
  dsimp only at h
  split at h
  · split at h <;> cases h
  · cases h
  · cases h
  · exact ⟨‹_›, ‹_›⟩

theorem down_bounds (x : Number) (e : ℤ) : (x.down e * 10 ^ e : ℚ) ≤ x.significand * 2 ^ x.exponent ∧
    (x.significand * 2 ^ x.exponent : ℚ) < (x.down e + 1 : ℕ) * 10 ^ e := by
  rw [← Fraction.value_scaled]
  unfold down
  dsimp only
  generalize hv : Fraction.scaled x.significand x.exponent = v
  have hden : 0 < v.den := hv ▸ Fraction.scaled_den_pos _ _
  have hden' : (0 : ℚ) < v.den := Nat.cast_pos.mpr hden
  have hstep : 0 < v.den * Nat.pow 10 e.toNat := Nat.mul_pos hden (Nat.pow_pos (by norm_num))
  have hlo := Nat.div_mul_le_self (v.num * Nat.pow 10 (-e).toNat) (v.den * Nat.pow 10 e.toNat)
  have hhi := Nat.lt_mul_of_div_lt (Nat.lt_add_one
    (v.num * Nat.pow 10 (-e).toNat / (v.den * Nat.pow 10 e.toNat))) hstep
  generalize v.num * Nat.pow 10 (-e).toNat / (v.den * Nat.pow 10 e.toNat) = k at *
  have hpow := fun n : ℚ => Fraction.mul_zpow_eq n (b := 10) (by norm_num) e
  simp only [Nat.cast_ofNat] at hpow
  rw [hpow, hpow, Fraction.value]
  rw [Nat.pow_eq, Nat.pow_eq] at hlo hhi
  generalize (-e).toNat = i at *
  generalize e.toNat = j at *
  constructor
  · rw [div_le_div_iff₀ (by positivity) hden']
    have : (k * (v.den * 10 ^ j) : ℚ) ≤ v.num * 10 ^ i := by exact_mod_cast hlo
    linarith
  · rw [div_lt_div_iff₀ hden' (by positivity)]
    have : (v.num * 10 ^ i : ℚ) < (k + 1 : ℕ) * (v.den * 10 ^ j) := by exact_mod_cast hhi
    linarith

/-! ## The search -/

/-- The decimal point of a fraction stands at most one place behind its first digit. -/
theorem zpow_decimalPoint_le {a : Fraction} (hn : 0 < a.num) (hd : 0 < a.den) :
    (10 : ℚ) ^ (decimalPoint a - 1) ≤ a.value := by
  have hd' : (0 : ℚ) < a.den := Nat.cast_pos.mpr hd
  have hle := Fraction.le_iff (a := Fraction.decimal 1
    ((Nat.toDigits 10 a.num).length - (Nat.toDigits 10 a.den).length)) (b := a)
    (Fraction.decimal_den_pos _ _) hd
  rw [Fraction.value_decimal, Nat.cast_one, one_mul] at hle
  rw [decimalPoint]
  split
  · rw [add_sub_cancel_right]
    exact hle.mp ‹_›
  · have hnum : (10 : ℚ) ^ ((Nat.toDigits 10 a.num).length - 1) ≤ a.num := by
      exact_mod_cast (length_toDigits_bounds hn).1
    have hden : (a.den : ℚ) < 10 ^ (Nat.toDigits 10 a.den).length := by
      exact_mod_cast (length_toDigits_bounds hd).2
    have hlen : 0 < (Nat.toDigits 10 a.num).length := Nat.length_toDigits_pos
    rw [show ((Nat.toDigits 10 a.num).length : ℤ) - (Nat.toDigits 10 a.den).length - 1 =
      ((Nat.toDigits 10 a.num).length - 1 : ℕ) - ((Nat.toDigits 10 a.den).length : ℕ) by omega,
      zpow_sub₀ (by norm_num), zpow_natCast, zpow_natCast, Fraction.value]
    exact div_le_div₀ (by positivity) hnum hd' hden.le

/-- A grid of seventeen digits has a point in the interval. -/
theorem onGrid_ne_none (hx : x.IsPositive) (he : (10 : ℚ) ^ (e + 16) ≤ x.significand * 2 ^ x.exponent) :
    x.onGrid e ≠ none := by
  intro hnone
  obtain ⟨hdown, hup⟩ := onGrid_none hnone
  obtain ⟨hle, hlt⟩ := down_bounds x e
  have hunit : (0 : ℚ) < 2 ^ x.exponent := by positivity
  have hreach : (1 : ℚ) ≤ x.reachBelow := by
    rcases reachBelow_eq x with h | ⟨h, -⟩ <;> rw [h] <;> norm_num
  have hm : (x.significand : ℚ) < 2 ^ 53 := by exact_mod_cast significand_lt x
  -- the neighbours on the grid lie on both sides of the interval
  have hbelow : (x.down e * 10 ^ e : ℚ) ≤ (x.significand - x.reachBelow / 4) * 2 ^ x.exponent := by
    by_contra hin
    exact hdown (.of_lt hx (not_le.mp hin) (by nlinarith))
  have habove : (x.significand + 1 / 2 : ℚ) * 2 ^ x.exponent ≤ (x.down e + 1 : ℕ) * 10 ^ e := by
    by_contra hin
    exact hup (.of_lt hx (by nlinarith) (not_le.mp hin))
  rw [zpow_add₀ (by norm_num)] at he
  push_cast at habove
  have hwide : (1 / 2 + x.reachBelow / 4 : ℚ) * 2 ^ x.exponent ≤ 10 ^ e := by linarith
  have hten : ((10 : ℚ) ^ (16 : ℤ)) = 10 ^ 16 := rfl
  rw [hten] at he
  have : (10 : ℚ) ^ 16 * (1 / 2 + x.reachBelow / 4) ≤ x.significand := by
    by_contra hbig
    nlinarith
  rcases reachBelow_eq x with h | ⟨h, hpower⟩
  · rw [h] at this
    norm_num at this hm
    linarith
  · rw [h, hpower] at this
    norm_num at this

/-! ## The decimal -/

/-- The digits as a whole number. -/
def Decimal.mantissa (d : Decimal) : ℕ := natOfDigits (d.digits.map digitChar)

def Decimal.value (d : Decimal) : ℚ := d.mantissa * 10 ^ (d.point - d.digits.length)

theorem natOfDigits_eq_ofDigitChars (cs : List Char) :
    natOfDigits cs = Nat.ofDigitChars 10 cs 0 := by
  rw [natOfDigits, Nat.ofDigitChars_eq_foldl]
  congr
  funext n c
  rw [Nat.mul_comm]

theorem natOfDigits_toDigits (n : ℕ) : natOfDigits (Nat.toDigits 10 n) = n := by
  rw [natOfDigits_eq_ofDigitChars, Nat.ofDigitChars_ten_toDigits]

theorem natOfDigits_append_zeros (cs : List Char) (k : ℕ) :
    natOfDigits (cs ++ List.replicate k '0') = natOfDigits cs * 10 ^ k := by
  rw [natOfDigits_eq_ofDigitChars, natOfDigits_eq_ofDigitChars, Nat.ofDigitChars_append,
    Nat.ofDigitChars_replicate_zero, Nat.mul_comm]

theorem natOfDigits_zeros_append (k : ℕ) (cs : List Char) :
    natOfDigits (List.replicate k '0' ++ cs) = natOfDigits cs := by
  rw [natOfDigits_eq_ofDigitChars, natOfDigits_eq_ofDigitChars, Nat.ofDigitChars_append,
    Nat.ofDigitChars_replicate_zero, Nat.mul_zero]

theorem map_digitChar_digitsOf (n : ℕ) : (digitsOf n).map digitChar = Nat.toDigits 10 n := by
  rw [digitsOf, List.map_map]
  refine (List.map_congr_left fun c hc => ?_).trans (List.map_id _)
  have hdigit := Char.isDigit_iff_toNat.mp
    (Nat.isDigit_of_mem_toDigits (by norm_num) (by norm_num) hc)
  show Char.ofNat ('0'.toNat + (c.toNat - '0'.toNat)) = c
  rw [Nat.add_sub_cancel' hdigit.1, Char.ofNat_toNat]

theorem digitsOf_lt {n d : ℕ} (hd : d ∈ digitsOf n) : d < 10 := by
  obtain ⟨c, hc, rfl⟩ := List.mem_map.mp hd
  have hdigit := Char.isDigit_iff_toNat.mp
    (Nat.isDigit_of_mem_toDigits (by norm_num) (by norm_num) hc)
  have h : c.toNat ≤ 57 := hdigit.2
  show c.toNat - 48 < 10
  omega

theorem trimZeros_append (ds : List ℕ) : ∃ k, trimZeros ds ++ List.replicate k 0 = ds := by
  refine ⟨(ds.reverse.takeWhile (· == 0)).length, ?_⟩
  have hzeros : ds.reverse.takeWhile (· == 0) =
      List.replicate (ds.reverse.takeWhile (· == 0)).length 0 :=
    List.eq_replicate_iff.mpr ⟨rfl, fun d hd =>
      eq_of_beq (List.mem_takeWhile_imp (p := (· == 0)) hd)⟩
  have hsplit := List.takeWhile_append_dropWhile (p := (· == 0)) (l := ds.reverse)
  rw [trimZeros, ← List.reverse_replicate, ← hzeros, ← List.reverse_append, hsplit,
    List.reverse_reverse]

/-- The search finds a point of some grid. -/
theorem exists_hit (hx : x.IsPositive) : ∃ n i : ℕ, x.Owns (n * 10 ^
      (decimalPoint (Fraction.scaled x.significand x.exponent) - (i + 1 : ℕ))) ∧
    x.shortest = ⟨trimZeros (digitsOf n), decimalPoint (Fraction.scaled x.significand x.exponent) +
      ((digitsOf n).length - (i + 1 : ℕ) : ℤ)⟩ := by
  rw [shortest]
  dsimp only
  split
  · rename_i hnone
    -- the last grid has seventeen digits
    have hlast := List.findSome?_eq_none_iff.mp hnone 16 (by simp)
    rw [Option.map_eq_none_iff] at hlast
    refine absurd hlast (onGrid_ne_none hx ?_)
    rw [← Fraction.value_scaled, show ∀ p : ℤ, p - (16 + 1 : ℕ) + 16 = p - 1 by intro p; omega]
    exact zpow_decimalPoint_le (Nat.mul_pos hx.significand_pos (Nat.pow_pos (by norm_num)))
      (Fraction.scaled_den_pos _ _)
  · rename_i n i hhit
    obtain ⟨j, -, hj⟩ := List.exists_of_findSome?_eq_some hhit
    obtain ⟨m, hgrid, hm⟩ := Option.map_eq_some_iff.mp hj
    cases hm
    exact ⟨n, i, onGrid_some hgrid, rfl⟩

/-- The shortest decimal rounds to the number. -/
theorem owns_shortest (hx : x.IsPositive) : x.Owns x.shortest.value := by
  obtain ⟨n, i, howns, heq⟩ := exists_hit hx
  obtain ⟨k, hk⟩ := trimZeros_append (digitsOf n)
  suffices hvalue : x.shortest.value = n * 10 ^
      (decimalPoint (Fraction.scaled x.significand x.exponent) - (i + 1 : ℕ)) by rwa [hvalue]
  have hn : n = natOfDigits ((trimZeros (digitsOf n)).map digitChar) * 10 ^ k := by
    conv_lhs => rw [← natOfDigits_toDigits n, ← map_digitChar_digitsOf, ← hk]
    rw [List.map_append, List.map_replicate]
    exact natOfDigits_append_zeros _ k
  have hlength : (digitsOf n).length = (trimZeros (digitsOf n)).length + k := by
    conv_lhs => rw [← hk, List.length_append, List.length_replicate]
  rw [heq, Decimal.value, Decimal.mantissa, hlength]
  conv_rhs => rw [hn]
  push_cast
  rw [mul_assoc, ← zpow_natCast, ← zpow_add₀ (by norm_num)]
  congr 2
  omega

/-- The digits of the shortest decimal. -/
theorem shortest_digits (hx : x.IsPositive) :
    x.shortest.digits ≠ [] ∧ ∀ d ∈ x.shortest.digits, d < 10 := by
  constructor
  · intro hnil
    have hpos := ((owns_shortest hx).between hx).1
    rw [Decimal.value, Decimal.mantissa, hnil] at hpos
    simp [natOfDigits] at hpos
    exact absurd hpos (not_le.mpr (by positivity))
  · obtain ⟨n, i, -, heq⟩ := exists_hit hx
    obtain ⟨k, hk⟩ := trimZeros_append (digitsOf n)
    intro d hd
    rw [heq] at hd
    exact digitsOf_lt (hk ▸ List.mem_append_left _ hd)

end Number
end EsOptimizer
