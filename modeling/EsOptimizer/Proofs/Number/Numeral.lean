import EsOptimizer.Proofs.Number.Shortest

/-!
# Numerals

The text of a finite number that is not negative is a numeral: digits, perhaps a point with more
digits, perhaps an exponent. Read as a decimal, it gives the number back.
-/

namespace EsOptimizer
namespace Number

/-- A decimal as it is written. -/
structure Numeral where
  whole : List Char
  /-- The digits behind the point, if there is one. -/
  part : Option (List Char)
  /-- Whether the exponent is negative, and its digits. -/
  exponent : Option (Bool × List Char)

namespace Numeral

def partChars (n : Numeral) : List Char :=
  match n.part with
  | none => []
  | some ds => '.' :: ds

def exponentChars (n : Numeral) : List Char :=
  match n.exponent with
  | none => []
  | some (negative, ds) => 'e' :: (if negative then '-' else '+') :: ds

def chars (n : Numeral) : List Char := n.whole ++ n.partChars ++ n.exponentChars

/-- All the digits, as a whole number. -/
def mantissa (n : Numeral) : ℕ := natOfDigits (n.whole ++ n.part.getD [])

/-- The power of ten for the last digit of the mantissa. -/
def scale (n : Numeral) : ℤ :=
  (match n.exponent with
    | none => 0
    | some (negative, ds) => if negative then -(natOfDigits ds : ℤ) else natOfDigits ds) -
  (n.part.getD []).length

/-- A run of digits that is not empty. -/
def IsRun (ds : List Char) : Prop := ds ≠ [] ∧ ∀ c ∈ ds, isDigit c = true

structure IsProper (n : Numeral) : Prop where
  whole : IsRun n.whole
  part : ∀ ds ∈ n.part, IsRun ds
  exponent : ∀ p ∈ n.exponent, IsRun p.2

theorem IsProper.exists_cons {n : Numeral} (h : n.IsProper) :
    ∃ x cs, n.chars = x :: cs ∧ isDigit x = true := by
  obtain ⟨hne, hdigits⟩ := h.whole
  obtain ⟨x, cs, hwhole⟩ := List.exists_cons_of_ne_nil hne
  exact ⟨x, cs ++ n.partChars ++ n.exponentChars, by rw [chars, hwhole]; rfl,
    hdigits x (by simp [hwhole])⟩

theorem IsRun.exists_getLast? {ds : List Char} (h : IsRun ds) :
    ∃ x, ds.getLast? = some x ∧ isDigit x = true :=
  ⟨ds.getLast h.1, List.getLast?_eq_some_getLast h.1, h.2 _ (List.getLast_mem h.1)⟩

/-- A numeral ends with a digit. -/
theorem IsProper.exists_getLast? {n : Numeral} (h : n.IsProper) :
    ∃ x, n.chars.getLast? = some x ∧ isDigit x = true := by
  rw [chars, List.getLast?_append, List.getLast?_append]
  cases hexponent : n.exponent with
  | some p =>
    obtain ⟨x, hx, hdigit⟩ := (h.exponent p hexponent).exists_getLast?
    exact ⟨x, by simp [exponentChars, hexponent, List.getLast?_cons, hx], hdigit⟩
  | none =>
    cases hpart : n.part with
    | some ds =>
      obtain ⟨x, hx, hdigit⟩ := (h.part ds hpart).exists_getLast?
      exact ⟨x, by simp [exponentChars, hexponent, partChars, hpart, List.getLast?_cons, hx], hdigit⟩
    | none =>
      obtain ⟨x, hx, hdigit⟩ := h.whole.exists_getLast?
      exact ⟨x, by simp [exponentChars, hexponent, partChars, hpart, hx], hdigit⟩

/-! ## Reading -/

theorem takeWhile_run {ds rest : List Char} (hds : ∀ c ∈ ds, isDigit c = true)
    (hrest : ∀ c, rest.head? = some c → isDigit c = false) :
    (ds ++ rest).takeWhile isDigit = ds ∧ (ds ++ rest).dropWhile isDigit = rest := by
  have hstop : rest.takeWhile isDigit = [] ∧ rest.dropWhile isDigit = rest := by
    cases rest with
    | nil => exact ⟨rfl, rfl⟩
    | cons c rest =>
      have hc := hrest c rfl
      exact ⟨by rw [List.takeWhile_cons, hc]; rfl, by rw [List.dropWhile_cons, hc]; rfl⟩
  rw [List.takeWhile_append_of_pos hds, List.dropWhile_append_of_pos hds, hstop.1, hstop.2]
  exact ⟨List.append_nil ds, rfl⟩

theorem readExponent?_chars {n : Numeral} (h : n.IsProper) :
    readExponent? n.exponentChars = some (n.scale + (n.part.getD []).length) := by
  have hexponent := h.exponent
  rw [scale, sub_add_cancel]
  unfold exponentChars
  split
  · rfl
  · rename_i negative ds hsome
    obtain ⟨hne, hds⟩ := hexponent _ hsome
    have hall : ds.all isDigit = true := List.all_eq_true.mpr hds
    have hempty : ds.isEmpty = false := by
      cases ds with
      | nil => exact absurd rfl hne
      | cons c ds => rfl
    cases negative <;> simp [readExponent?, hall, hempty]

theorem exponentChars_head (n : Numeral) :
    ∀ c, n.exponentChars.head? = some c → c = 'e' := by
  intro c hc
  unfold exponentChars at hc
  split at hc
  · cases hc
  · exact (Option.some.inj hc).symm

/-- A numeral is read as the number nearest to its value. -/
theorem ofDecimalText?_chars {n : Numeral} (h : n.IsProper) :
    ofDecimalText? n.chars = some (ofDecimal n.mantissa n.scale) := by
  have hexponent := readExponent?_chars h
  have hstop : ∀ c, n.exponentChars.head? = some c → isDigit c = false := fun c hc => by
    rw [exponentChars_head n c hc]
    rfl
  have hwhole : n.whole.isEmpty = false := by
    have hne := h.whole.1
    cases hcs : n.whole with
    | nil => exact absurd hcs hne
    | cons c cs => rfl
  rw [chars, List.append_assoc]
  cases hpart : n.part with
  | none =>
    obtain ⟨htake, hdrop⟩ := takeWhile_run h.whole.2 hstop
    have hdot : ∀ after, n.exponentChars ≠ '.' :: after := fun after heq => by
      have := exponentChars_head n '.' (by rw [heq]; rfl)
      exact absurd this (by decide)
    rw [partChars, hpart, List.nil_append, ofDecimalText?]
    simp only [htake, hdrop, hwhole, Bool.false_and, Bool.false_eq_true, if_false, hexponent, hpart,
      mantissa, Option.getD_none, Option.map_some, add_sub_cancel_right]
  | some ds =>
    have hdot : ∀ c, ('.' :: (ds ++ n.exponentChars)).head? = some c → isDigit c = false :=
      fun c hc => by cases hc; rfl
    obtain ⟨htake, hdrop⟩ := takeWhile_run h.whole.2 hdot
    obtain ⟨htake', hdrop'⟩ := takeWhile_run (h.part ds hpart).2 hstop
    rw [partChars, hpart, List.cons_append, ofDecimalText?]
    simp only [htake, hdrop, htake', hdrop', hwhole, Bool.false_and, Bool.false_eq_true, if_false,
      hexponent, hpart, Option.getD_some, Option.map_some, add_sub_cancel_right, mantissa]

/-! ## Writing -/

theorem isDigit_digitChar {d : ℕ} (hd : d < 10) : isDigit (digitChar d) = true := by
  have h : ∀ d < 10, isDigit (digitChar d) = true := by decide
  exact h d hd

theorem isRun_toDigits (n : ℕ) : IsRun (Nat.toDigits 10 n) := by
  refine ⟨Nat.toDigits_ne_nil, fun c hc => ?_⟩
  have hdigit := Char.isDigit_iff_toNat.mp
    (Nat.isDigit_of_mem_toDigits (by norm_num) (by norm_num) hc)
  rw [isDigit, Bool.and_eq_true, decide_eq_true_eq, decide_eq_true_eq]
  exact hdigit

/-- A decimal is laid out as a numeral of its value. -/
theorem exists_layout {d : Decimal} (hne : d.digits ≠ []) (hlt : ∀ a ∈ d.digits, a < 10) :
    ∃ n : Numeral, n.IsProper ∧ n.chars = d.layout ∧ (n.mantissa * 10 ^ n.scale : ℚ) = d.value := by
  have hne' : d.digits.map digitChar ≠ [] := by simpa using hne
  have hdigits : ∀ c ∈ d.digits.map digitChar, isDigit c = true := by
    intro c hc
    obtain ⟨a, ha, rfl⟩ := List.mem_map.mp hc
    exact isDigit_digitChar (hlt a ha)
  have hlength : (d.digits.map digitChar).length = d.digits.length := List.length_map _
  rw [Decimal.layout, Decimal.value, Decimal.mantissa, ← hlength]
  dsimp only
  generalize d.digits.map digitChar = ds at *
  split
  · -- no point
    rename_i hpoint
    refine ⟨⟨ds ++ List.replicate (d.point - ds.length).toNat '0', none, none⟩,
      ⟨⟨by simp [hne'], fun c hc => ?_⟩, by simp, by simp⟩, by simp [chars, partChars, exponentChars], ?_⟩
    · rcases List.mem_append.mp hc with hc | hc
      · exact hdigits c hc
      · rw [List.eq_of_mem_replicate hc]
        rfl
    · rw [mantissa, Option.getD_none, List.append_nil, natOfDigits_append_zeros]
      push_cast
      rw [mul_assoc, ← zpow_natCast, ← zpow_add₀ (by norm_num)]
      congr 2
      simp [scale]
      omega
  split
  · -- a point among the digits
    rename_i hpoint
    have htake : ds.take d.point.toNat ≠ [] := by simp [hne']; omega
    have hdrop : ds.drop d.point.toNat ≠ [] := by simp; omega
    refine ⟨⟨ds.take d.point.toNat, some (ds.drop d.point.toNat), none⟩,
      ⟨⟨htake, fun c hc => hdigits c (List.mem_of_mem_take hc)⟩, ?_, by simp⟩,
      by simp [chars, partChars, exponentChars], ?_⟩
    · rintro _ ⟨⟩
      exact ⟨hdrop, fun c hc => hdigits c (List.mem_of_mem_drop hc)⟩
    · rw [mantissa, Option.getD_some, List.take_append_drop]
      congr 2
      simp [scale]
      omega
  split
  · -- zeros behind the point
    rename_i hpoint
    refine ⟨⟨['0'], some (List.replicate (-d.point).toNat '0' ++ ds), none⟩,
      ⟨⟨List.cons_ne_nil _ _, by simp; rfl⟩, ?_, by simp⟩, by simp [chars, partChars, exponentChars], ?_⟩
    · rintro _ ⟨⟩
      refine ⟨by simp [hne'], fun c hc => ?_⟩
      rcases List.mem_append.mp hc with hc | hc
      · rw [List.eq_of_mem_replicate hc]
        rfl
      · exact hdigits c hc
    · rw [mantissa, Option.getD_some, List.singleton_append, ← List.cons_append,
        ← List.replicate_succ, natOfDigits_zeros_append]
      congr 2
      simp [scale]
      omega
  · -- an exponent
    cases ds with
    | nil => exact absurd rfl hne'
    | cons c rest =>
      rw [List.forall_mem_cons] at hdigits
      refine ⟨⟨[c], if rest = [] then none else some rest,
        some (d.point - 1 < 0, Nat.toDigits 10 (d.point - 1).natAbs)⟩,
        ⟨⟨List.cons_ne_nil _ _, by simpa using hdigits.1⟩, ?_, ?_⟩, ?_, ?_⟩
      · intro ds hds
        by_cases hrest : rest = []
        · rw [if_pos hrest] at hds
          cases hds
        · rw [if_neg hrest] at hds
          cases hds
          exact ⟨hrest, hdigits.2⟩
      · rintro _ ⟨⟩
        exact isRun_toDigits _
      · cases rest <;> simp [chars, partChars, exponentChars]
      · have hscale : ((if d.point - 1 < 0 then -(((d.point - 1).natAbs : ℕ) : ℤ)
            else ((d.point - 1).natAbs : ℕ)) : ℤ) = d.point - 1 := by
          split <;> omega
        rw [mantissa, scale]
        simp only [natOfDigits_toDigits, decide_eq_true_eq, hscale]
        cases rest with
        | nil => simp
        | cons c' rest =>
          rw [if_neg (List.cons_ne_nil c' rest), Option.getD_some, List.singleton_append]
          congr 2
          simp only [List.length_cons]
          omega

end Numeral

/-- Finite and not below zero. -/
def isUnsigned (x : Number) : Bool := x.isFinite && (x.isZero || !x.isNegative)

theorem abs_of_isZero {x : Number} (h : x.isZero = true) : x.abs = zero := by
  have hbits : x.bits = 0 ∨ x.bits = 0x8000000000000000 := by
    simp only [isZero, biasedExponent, fraction, Nat.pow_eq, Bool.and_eq_true, beq_iff_eq] at h
    have hlt := x.bits.toNat_lt
    have : x.bits.toNat = 0 ∨ x.bits.toNat = 0x8000000000000000 := by omega
    exact this.imp UInt64.toNat_inj.mp UInt64.toNat_inj.mp
  obtain ⟨bits⟩ := x
  rcases hbits with h | h <;> cases h <;> decide

/-- What is written for a number is a numeral that reads as the number, without the sign of a
zero. -/
theorem exists_numeral {x : Number} (h : x.isUnsigned = true) : ∃ n : Numeral, n.IsProper ∧
    n.chars = x.toText.toList ∧ ofDecimal n.mantissa n.scale = x.abs := by
  rw [isUnsigned, Bool.and_eq_true] at h
  obtain ⟨hfinite, hsign⟩ := h
  have hnan : x.isNaN = false := by
    have : x.biasedExponent ≠ 2047 := by simpa [isFinite] using hfinite
    simp [isNaN, this]
  have hinfinite : x.isInfinite = false := by
    have : x.biasedExponent ≠ 2047 := by simpa [isFinite] using hfinite
    simp [isInfinite, this]
  rw [toText, hnan, hinfinite]
  cases hzero : x.isZero with
  | true =>
    exact ⟨⟨['0'], none, none⟩, ⟨⟨List.cons_ne_nil _ _, by simp; rfl⟩, by simp, by simp⟩, by simp; rfl,
      (abs_of_isZero hzero).symm⟩
  | false =>
    have hpositive : x.isNegative = false := by simpa [hzero] using hsign
    have habs : x.abs = x := by rw [abs, hpositive]; rfl
    have hx : x.IsPositive := ⟨hfinite, hpositive, hzero⟩
    obtain ⟨hne, hlt⟩ := shortest_digits hx
    obtain ⟨n, hproper, hchars, hvalue⟩ := Numeral.exists_layout hne hlt
    refine ⟨n, hproper, ?_, ?_⟩
    · simp [hchars, hpositive, habs]
    · rw [habs]
      exact ofDecimal_eq hx (hvalue ▸ owns_shortest hx)

end Number
end EsOptimizer
