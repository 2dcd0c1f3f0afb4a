import EsOptimizer.Value.Basic
import Mathlib.Algebra.GroupWithZero.Nat
import Mathlib.Tactic.Common

/-!
# Same values

`==` on numbers, primitive values and single values is an equivalence: equality, except that all
patterns that are not a number count as one. The operators cannot tell two same values apart, and
so an operator may be applied to whichever member of a set stands for the value at hand.

`Primitive.unary_congr` and `Primitive.binary_congr` are what the analysis of operators rests on.
-/

namespace EsOptimizer

/-! ## Numbers -/

namespace Number

theorem same_iff {x y : Number} : x.same y = true ↔ x = y ∨ (x.isNaN = true ∧ y.isNaN = true) := by
  simp only [same, Bool.or_eq_true, Bool.and_eq_true, beq_iff_eq]
  exact or_comm

theorem same_refl (x : Number) : x.same x = true := same_iff.mpr (Or.inl rfl)

theorem same_symm {x y : Number} (h : x.same y = true) : y.same x = true := by
  rcases same_iff.mp h with rfl | ⟨hx, hy⟩
  · exact h
  · exact same_iff.mpr (Or.inr ⟨hy, hx⟩)

theorem same_trans {x y z : Number} (hxy : x.same y = true) (hyz : y.same z = true) :
    x.same z = true := by
  rcases same_iff.mp hxy with rfl | ⟨hx, hy⟩
  · exact hyz
  · rcases same_iff.mp hyz with rfl | ⟨-, hz⟩
    · exact hxy
    · exact same_iff.mpr (Or.inr ⟨hx, hz⟩)

theorem same_of_isNaN {x y : Number} (hx : x.isNaN = true) (hy : y.isNaN = true) :
    x.same y = true :=
  same_iff.mpr (Or.inr ⟨hx, hy⟩)

/-- What is not a number is not finite. -/
theorem not_isFinite_of_isNaN {x : Number} (h : x.isNaN = true) : x.isFinite = false := by
  simp only [isNaN, Bool.and_eq_true, beq_iff_eq] at h
  simp [isFinite, h.1]

theorem isNaN_nan : nan.isNaN = true := by decide

/-- The sign bit, as a number to add: flipping it leaves the bits below alone. -/
theorem toNat_neg_bits (x : Number) : x.neg.bits.toNat % 2 ^ 63 = x.bits.toNat % 2 ^ 63 := by
  have h : x.neg.bits.toNat = x.bits.toNat ^^^ 2 ^ 63 := by
    simp only [neg, UInt64.toNat_xor]
    rfl
  rw [h]
  apply Nat.eq_of_testBit_eq
  intro i
  simp only [Nat.testBit_mod_two_pow, Nat.testBit_xor, Nat.testBit_two_pow]
  by_cases hi : i < 63
  · have : ¬(63 = i) := by omega
    simp [hi, this]
  · simp [hi]

theorem isNaN_neg (x : Number) : x.neg.isNaN = x.isNaN := by
  have h := toNat_neg_bits x
  have hexp : x.neg.biasedExponent = x.biasedExponent := by
    simp only [biasedExponent, Nat.pow_eq]
    omega
  have hfrac : x.neg.fraction = x.fraction := by
    simp only [fraction, Nat.pow_eq]
    omega
  simp only [isNaN, hexp, hfrac]

theorem toUInt32_of_isNaN {x : Number} (h : x.isNaN = true) : x.toUInt32 = 0 := by
  simp [toUInt32, not_isFinite_of_isNaN h]

theorem toText_of_isNaN {x : Number} (h : x.isNaN = true) : x.toText = "NaN" := by
  simp [toText, h]

/-- An operation passes on an operand that is not a number. -/
theorem isNaN_arith {f : Float → Float → Float} {x y : Number}
    (h : x.isNaN = true ∨ y.isNaN = true) : (arith f x y).isNaN = true := by
  unfold arith
  split
  · assumption
  · rename_i hx
    have hy : y.isNaN = true := h.resolve_left hx
    simp [hy]

theorem isNaN_rem {x y : Number} (h : x.isNaN = true ∨ y.isNaN = true) :
    (x.rem y).isNaN = true := by
  have : (x.isNaN || y.isNaN || x.isInfinite || y.isZero) = true := by
    rcases h with h | h <;> simp [h]
  rw [rem, if_pos this]
  exact isNaN_nan

theorem eq_of_isNaN {x y : Number} (h : x.isNaN = true ∨ y.isNaN = true) : x.eq y = false := by
  rcases h with h | h <;> simp [eq, h]

/-- An operation that is not a number as soon as an operand is cannot tell same operands apart. -/
theorem same_congr {f : Number → Number → Number}
    (hf : ∀ x y : Number, x.isNaN = true ∨ y.isNaN = true → (f x y).isNaN = true)
    {x x' y y' : Number} (hx : x.same x' = true) (hy : y.same y' = true) :
    (f x y).same (f x' y') = true := by
  rcases same_iff.mp hx with rfl | ⟨hx, hx'⟩
  · rcases same_iff.mp hy with rfl | ⟨hy, hy'⟩
    · exact same_refl _
    · exact same_of_isNaN (hf _ _ (Or.inr hy)) (hf _ _ (Or.inr hy'))
  · exact same_of_isNaN (hf _ _ (Or.inl hx)) (hf _ _ (Or.inl hx'))

theorem toUInt32_congr {x y : Number} (h : x.same y = true) : x.toUInt32 = y.toUInt32 := by
  rcases same_iff.mp h with rfl | ⟨hx, hy⟩
  · rfl
  · rw [toUInt32_of_isNaN hx, toUInt32_of_isNaN hy]

theorem toInt32_congr {x y : Number} (h : x.same y = true) : x.toInt32 = y.toInt32 := by
  rw [toInt32, toInt32, toUInt32_congr h]

theorem toText_congr {x y : Number} (h : x.same y = true) : x.toText = y.toText := by
  rcases same_iff.mp h with rfl | ⟨hx, hy⟩
  · rfl
  · rw [toText_of_isNaN hx, toText_of_isNaN hy]

theorem eq_congr {x x' y y' : Number} (hx : x.same x' = true) (hy : y.same y' = true) :
    x.eq y = x'.eq y' := by
  rcases same_iff.mp hx with rfl | ⟨hx, hx'⟩
  · rcases same_iff.mp hy with rfl | ⟨hy, hy'⟩
    · rfl
    · rw [eq_of_isNaN (Or.inr hy), eq_of_isNaN (Or.inr hy')]
  · rw [eq_of_isNaN (Or.inl hx), eq_of_isNaN (Or.inl hx')]

end Number

/-! ## Primitive values -/

namespace Primitive

/-- Two values are the same if they are equal, or are numbers that are the same. -/
theorem beq_iff {p q : Primitive} :
    (p == q) = true ↔ p = q ∨ ∃ x y, p = number x ∧ q = number y ∧ x.same y = true := by
  change same p q = true ↔ _
  cases p <;> cases q <;> simp [same]
  intro h
  rw [h]
  exact Number.same_refl _

instance : EquivBEq Primitive where
  rfl {p} := beq_iff.mpr (Or.inl rfl)
  symm {p q} h := by
    rcases beq_iff.mp h with rfl | ⟨x, y, rfl, rfl, hxy⟩
    · exact h
    · exact Number.same_symm hxy
  trans {p q r} hpq hqr := by
    rcases beq_iff.mp hpq with rfl | ⟨x, y, rfl, rfl, hxy⟩
    · exact hqr
    · rcases beq_iff.mp hqr with rfl | ⟨y', z, hy, rfl, hyz⟩
      · exact hpq
      · cases hy
        exact Number.same_trans hxy hyz

theorem truthy_congr {p q : Primitive} (h : (p == q) = true) : p.truthy = q.truthy := by
  rcases beq_iff.mp h with rfl | ⟨x, y, rfl, rfl, hxy⟩
  · rfl
  · rcases Number.same_iff.mp hxy with rfl | ⟨hx, hy⟩
    · rfl
    · simp [truthy, hx, hy]

theorem typeOf_congr {p q : Primitive} (h : (p == q) = true) : p.typeOf = q.typeOf := by
  rcases beq_iff.mp h with rfl | ⟨x, y, rfl, rfl, -⟩ <;> rfl

theorem isNullish_congr {p q : Primitive} (h : (p == q) = true) : p.isNullish = q.isNullish := by
  rcases beq_iff.mp h with rfl | ⟨x, y, rfl, rfl, -⟩ <;> rfl

theorem toNumber_congr {p q : Primitive} (h : (p == q) = true) :
    p.toNumber.same q.toNumber = true := by
  rcases beq_iff.mp h with rfl | ⟨x, y, rfl, rfl, hxy⟩
  · exact Number.same_refl _
  · exact hxy

theorem toText_congr {p q : Primitive} (h : (p == q) = true) : p.toText = q.toText := by
  rcases beq_iff.mp h with rfl | ⟨x, y, rfl, rfl, hxy⟩
  · rfl
  · exact Number.toText_congr hxy

/-! ### Comparison -/

theorem looseEquals_congr {a a' b b' : Primitive} (ha : (a == a') = true) (hb : (b == b') = true) :
    a.looseEquals b = a'.looseEquals b' := by
  rcases beq_iff.mp ha with rfl | ⟨x, x', rfl, rfl, hx⟩ <;>
    rcases beq_iff.mp hb with rfl | ⟨y, y', rfl, rfl, hy⟩
  · rfl
  · cases a <;> simp [looseEquals, isNullish, toNumber, Number.eq_congr (Number.same_refl _) hy]
  · cases b <;> simp [looseEquals, isNullish, toNumber, Number.eq_congr hx (Number.same_refl _)]
  · simp [looseEquals, isNullish, toNumber, Number.eq_congr hx hy]

theorem strictEquals_congr {a a' b b' : Primitive} (ha : (a == a') = true)
    (hb : (b == b') = true) : a.strictEquals b = a'.strictEquals b' := by
  have hne {p : Primitive} {z : Number} (h : ∀ w, p ≠ number w) :
      (p == number z) = false ∧ (number z == p) = false := by
    cases p <;> first | exact ⟨rfl, rfl⟩ | exact absurd rfl (h _)
  rcases beq_iff.mp ha with rfl | ⟨x, x', rfl, rfl, hx⟩ <;>
    rcases beq_iff.mp hb with rfl | ⟨y, y', rfl, rfl, hy⟩
  · rfl
  · cases a <;> simp [strictEquals, Number.eq_congr (Number.same_refl _) hy, hne]
  · cases b <;> simp [strictEquals, Number.eq_congr hx (Number.same_refl _), hne]
  · simp [strictEquals, Number.eq_congr hx hy]

/-- Numbers are compared the same way if they are the same. -/
theorem lessThan?_congr {a a' b b' : Primitive} (ha : (a == a') = true) (hb : (b == b') = true) :
    a.lessThan? b = a'.lessThan? b' := by
  have hleft {x x' : Number} (hx : x.same x' = true) (b : Primitive) :
      (number x).lessThan? b = (number x').lessThan? b := by
    rcases Number.same_iff.mp hx with rfl | ⟨hx, hx'⟩
    · rfl
    · cases b <;> simp [lessThan?, toNumber, hx, hx']
  have hright {y y' : Number} (hy : y.same y' = true) (a : Primitive) :
      a.lessThan? (number y) = a.lessThan? (number y') := by
    rcases Number.same_iff.mp hy with rfl | ⟨hy, hy'⟩
    · rfl
    · cases a <;> simp [lessThan?, toNumber, hy, hy']
  rcases beq_iff.mp ha with rfl | ⟨x, x', rfl, rfl, hx⟩ <;>
    rcases beq_iff.mp hb with rfl | ⟨y, y', rfl, rfl, hy⟩
  · rfl
  · exact hright hy _
  · exact hleft hx _
  · exact (hleft hx _).trans (hright hy _)

/-! ### Operators -/

theorem add_congr {a a' b b' : Primitive} (ha : (a == a') = true) (hb : (b == b') = true) :
    (a.add b == a'.add b') = true := by
  have hsum : (a.toNumber.add b.toNumber).same (a'.toNumber.add b'.toNumber) = true :=
    Number.same_congr (fun _ _ => Number.isNaN_arith) (toNumber_congr ha) (toNumber_congr hb)
  have htext : a.toText ++ b.toText = a'.toText ++ b'.toText := by
    rw [toText_congr ha, toText_congr hb]
  rcases beq_iff.mp ha with rfl | ⟨x, x', rfl, rfl, -⟩ <;>
    rcases beq_iff.mp hb with rfl | ⟨y, y', rfl, rfl, -⟩
  · exact BEq.rfl
  · cases a <;> first | exact hsum | exact beq_iff.mpr (Or.inl (congrArg string htext))
  · cases b <;> first | exact hsum | exact beq_iff.mpr (Or.inl (congrArg string htext))
  · exact hsum

/-- An operator on two primitive values gives the same value for the same operands. -/
theorem binary_congr {op : BinaryOp} {a a' b b' r : Primitive} (ha : (a == a') = true)
    (hb : (b == b') = true) (h : binary op a b = some r) :
    ∃ r', binary op a' b' = some r' ∧ (r == r') = true := by
  have hna := toNumber_congr ha
  have hnb := toNumber_congr hb
  have hshift : b.shiftAmount = b'.shiftAmount := by
    rw [shiftAmount, shiftAmount, Number.toUInt32_congr hnb]
  have harith (f : Float → Float → Float) :
      (a.toNumber.arith f b.toNumber).same (a'.toNumber.arith f b'.toNumber) = true :=
    Number.same_congr (fun _ _ => Number.isNaN_arith) hna hnb
  cases op <;> simp only [binary, onWords, looseEquals_congr ha hb, strictEquals_congr ha hb,
    lessThan?_congr ha hb, lessThan?_congr hb ha, Number.toInt32_congr hna,
    Number.toInt32_congr hnb, Number.toUInt32_congr hna, hshift, Option.some.injEq,
    reduceCtorEq] at h ⊢ <;> subst h
  case add => exact ⟨_, rfl, add_congr ha hb⟩
  case sub => exact ⟨_, rfl, harith _⟩
  case mul => exact ⟨_, rfl, harith _⟩
  case div => exact ⟨_, rfl, harith _⟩
  case rem =>
    exact ⟨_, rfl, Number.same_congr (fun _ _ => Number.isNaN_rem) hna hnb⟩
  all_goals exact ⟨_, rfl, BEq.rfl⟩

/-- A unary operator gives the same value for the same operand. -/
theorem unary_congr {op : UnaryOp} {a a' r : Primitive} (ha : (a == a') = true)
    (h : unary op a = some r) : ∃ r', unary op a' = some r' ∧ (r == r') = true := by
  have hna := toNumber_congr ha
  cases op <;> simp only [unary, truthy_congr ha, typeOf_congr ha, Number.toInt32_congr hna,
    Option.some.injEq, reduceCtorEq] at h ⊢ <;> subst h
  case minus =>
    refine ⟨_, rfl, ?_⟩
    rcases Number.same_iff.mp hna with heq | ⟨hx, hx'⟩
    · rw [heq]
      exact BEq.rfl
    · exact Number.same_of_isNaN ((Number.isNaN_neg _).trans hx) ((Number.isNaN_neg _).trans hx')
  case plus => exact ⟨_, rfl, hna⟩
  all_goals exact ⟨_, rfl, BEq.rfl⟩

end Primitive

/-! ## Single values -/

namespace Single

@[simp] theorem primitive_beq {p q : Primitive} :
    (Single.primitive p == Single.primitive q) = (p == q) := rfl

@[simp] theorem reference_beq {r t : Reference} :
    (Single.reference r == Single.reference t) = (r == t) := rfl

@[simp] theorem primitive_beq_reference {p : Primitive} {r : Reference} :
    (Single.primitive p == Single.reference r) = false := rfl

@[simp] theorem reference_beq_primitive {p : Primitive} {r : Reference} :
    (Single.reference r == Single.primitive p) = false := rfl

instance : EquivBEq Single where
  rfl {s} := by cases s <;> simp
  symm {s t} h := by
    cases s <;> cases t <;> simp at h ⊢
    · exact PartialEquivBEq.symm h
    · exact h.symm
  trans {s t u} hst htu := by
    cases s <;> cases t <;> simp at hst <;> cases u <;> simp at htu ⊢
    · exact PartialEquivBEq.trans hst htu
    · exact hst.trans htu

/-- What is the same as a primitive value is one. -/
theorem beq_primitive_iff {s : Single} {q : Primitive} :
    (s == Single.primitive q) = true ↔ ∃ p, s = .primitive p ∧ (p == q) = true := by
  cases s <;> simp

theorem truthy_congr {s t : Single} (h : (s == t) = true) : s.truthy = t.truthy := by
  cases s <;> cases t <;> simp at h
  · exact Primitive.truthy_congr h
  · rfl

end Single

end EsOptimizer
