import EsOptimizer.Proofs.Value.Holds

/-!
# Equality at run time

What `===` and `==` say of two values of a running program, told by rules. Primitive values that are
strictly equal have the same type; two numbers are compared by `Number.eq`, so that `nan` equals
nothing and both zeros equal each other. `==` converts where the types differ: `undefined` equals
`null`, and a text or a boolean is compared as the number that it converts to. The comparisons of
`Primitive` decide these rules (`strictlyEqual_iff`, `looselyEqual_iff`).

An object equals itself and nothing else. Only `==` with a primitive value other than `undefined` and
`null` converts an object, which may run code of the program, so the answer may be either one.
-/

namespace EsOptimizer

namespace Primitive

/-- Equal, and of one type. -/
inductive StrictlyEqual : Primitive → Primitive → Prop
  | undefined : StrictlyEqual undefined undefined
  | null : StrictlyEqual null null
  | bool (b : Bool) : StrictlyEqual (bool b) (bool b)
  | number {x y : Number} (h : x.eq y = true) : StrictlyEqual (number x) (number y)
  | string (s : String) : StrictlyEqual (string s) (string s)

/-- Equal after the conversions of `==`. -/
inductive LooselyEqual : Primitive → Primitive → Prop
  | strict {p q : Primitive} (h : StrictlyEqual p q) : LooselyEqual p q
  | undefinedNull : LooselyEqual undefined null
  | nullUndefined : LooselyEqual null undefined
  | textRight {x : Number} {s : String} (h : LooselyEqual (number x) (number (numberOfText s))) :
      LooselyEqual (number x) (string s)
  | textLeft {x : Number} {s : String} (h : LooselyEqual (number (numberOfText s)) (number x)) :
      LooselyEqual (string s) (number x)
  | boolRight {p : Primitive} {b : Bool} (h : LooselyEqual p (number (.ofBool b))) :
      LooselyEqual p (bool b)
  | boolLeft {p : Primitive} {b : Bool} (h : LooselyEqual (number (.ofBool b)) p) :
      LooselyEqual (bool b) p

theorem strictlyEqual_iff {p q : Primitive} : StrictlyEqual p q ↔ p.strictEquals q = true := by
  constructor
  · intro h
    cases h with
    | number h => exact h
    | _ => exact BEq.rfl
  · intro h
    match p, q with
    | undefined, undefined => exact .undefined
    | null, null => exact .null
    | bool a, bool b =>
      obtain rfl : a = b := by simpa [strictEquals, beq_iff] using h
      exact .bool a
    | number x, number y => exact .number h
    | string s, string t =>
      obtain rfl : s = t := by simpa [strictEquals, beq_iff] using h
      exact .string s

theorem eq_ofBool {a b : Bool} : (Number.ofBool a).eq (.ofBool b) = (a == b) := by
  cases a <;> cases b <;> decide

/-- A boolean is compared as its number, with another boolean too. -/
theorem looseEquals_ofBool (p : Primitive) (b : Bool) :
    p.looseEquals (number (.ofBool b)) = p.looseEquals (bool b) ∧
      (number (.ofBool b)).looseEquals p = (bool b).looseEquals p := by
  cases p with
  | bool a =>
    have heq := @eq_ofBool a b
    have heq' := @eq_ofBool b a
    constructor
    · simpa [looseEquals, isNullish, toNumber, beq_iff] using heq
    · simpa [looseEquals, isNullish, toNumber] using heq'
  | _ => exact ⟨rfl, rfl⟩

theorem looselyEqual_iff {p q : Primitive} : LooselyEqual p q ↔ p.looseEquals q = true := by
  constructor
  · intro h
    induction h with
    | strict h =>
      cases h with
      | number h => exact h
      | bool b => cases b <;> rfl
      | string s => exact BEq.rfl
      | _ => rfl
    | undefinedNull => rfl
    | nullUndefined => rfl
    | textRight h ih => exact ih
    | textLeft h ih => exact ih
    | boolRight h ih => exact (looseEquals_ofBool _ _).1 ▸ ih
    | boolLeft h ih => exact (looseEquals_ofBool _ _).2 ▸ ih
  · intro h
    match p, q with
    | undefined, undefined => exact .strict .undefined
    | undefined, null => exact .undefinedNull
    | null, undefined => exact .nullUndefined
    | null, null => exact .strict .null
    | bool a, bool b =>
      obtain rfl : a = b := by simpa [looseEquals, isNullish] using h
      exact .strict (.bool a)
    | bool a, number y => exact .boolLeft (.strict (.number h))
    | bool a, string t => exact .boolLeft (.textRight (.strict (.number h)))
    | number x, bool b => exact .boolRight (.strict (.number h))
    | number x, number y => exact .strict (.number h)
    | number x, string t => exact .textRight (.strict (.number h))
    | string s, bool b => exact .boolRight (.textLeft (.strict (.number h)))
    | string s, number y => exact .textLeft (.strict (.number h))
    | string s, string t =>
      obtain rfl : s = t := by simpa [looseEquals, isNullish] using h
      exact .strict (.string s)

end Primitive

/-- A value of a running program. -/
inductive RunValue where
  | primitive (value : Primitive)
  /-- An object: the place that it comes from, and what tells it from others from there. -/
  | object (site : Reference) (identity : Nat)

namespace RunValue

/-- What stands for a value in the analysis. -/
def single : RunValue → Single
  | primitive p => .primitive p
  | object r _ => .reference r

def isObject : RunValue → Bool
  | primitive _ => false
  | object _ _ => true

/-- `==` converts an object if the other operand is a primitive value, and not one of the two that
no object equals. -/
def Converts : RunValue → RunValue → Prop
  | object _ _, primitive p | primitive p, object _ _ => p.isNullish = false
  | _, _ => False

/-- Equality, as far as no object is converted. -/
def Equals (strict : Bool) : RunValue → RunValue → Prop
  | primitive p, primitive q => if strict then p.StrictlyEqual q else p.LooselyEqual q
  | object r i, object s j => r = s ∧ i = j
  | _, _ => False

/-- What `===` (if `strict`) or `==` may answer, or its negation. -/
inductive Answers (strict negate : Bool) (x y : RunValue) : Bool → Prop
  | equal (h : x.Equals strict y) : Answers strict negate x y (!negate)
  | different (h : ¬x.Equals strict y) : Answers strict negate x y negate
  | converted (hloose : strict = false) (h : x.Converts y) (answer : Bool) :
      Answers strict negate x y answer

/-- The same primitive value, or the same object. -/
def Same : RunValue → RunValue → Prop
  | primitive p, primitive q => (p == q) = true
  | object r i, object s j => r = s ∧ i = j
  | _, _ => False

section

variable {strict negate : Bool} {x y x' y' : RunValue}

theorem Same.refl (x : RunValue) : x.Same x := by
  cases x with
  | primitive p => exact BEq.rfl
  | object r i => exact ⟨rfl, rfl⟩

/-- What a member stands for is the same as something of which just that is the member. -/
theorem exists_same {s : Single} (h : (x.single == s) = true) : ∃ x', x'.single = s ∧ x.Same x' := by
  cases x with
  | primitive p =>
    cases s with
    | primitive q => exact ⟨.primitive q, rfl, h⟩
    | reference r => cases h
  | object r i =>
    cases s with
    | primitive q => cases h
    | reference t => exact ⟨.object t i, rfl, beq_iff_eq.mp h, rfl⟩

theorem Same.equals (hx : x.Same x') (hy : y.Same y') :
    x.Equals strict y ↔ x'.Equals strict y' := by
  cases x <;> cases x' <;> first | exact hx.elim | skip
  all_goals cases y <;> cases y' <;> first | exact hy.elim | skip
  · rw [Equals, Equals, Primitive.strictlyEqual_iff, Primitive.strictlyEqual_iff,
      Primitive.looselyEqual_iff, Primitive.looselyEqual_iff, Primitive.strictEquals_congr hx hy,
      Primitive.looseEquals_congr hx hy]
  · exact Iff.rfl
  · exact Iff.rfl
  · obtain ⟨rfl, rfl⟩ := hx
    obtain ⟨rfl, rfl⟩ := hy
    exact Iff.rfl

theorem Same.converts (hx : x.Same x') (hy : y.Same y') : x.Converts y ↔ x'.Converts y' := by
  cases x <;> cases x' <;> first | exact hx.elim | skip
  all_goals cases y <;> cases y' <;> first | exact hy.elim | skip
  · exact Iff.rfl
  · rw [Converts, Converts, Primitive.isNullish_congr hx]
  · rw [Converts, Converts, Primitive.isNullish_congr hy]
  · exact Iff.rfl

/-- Operands that are the same get the same answers. -/
theorem Answers.congr {answer : Bool} (h : Answers strict negate x y answer) (hx : x.Same x')
    (hy : y.Same y') : Answers strict negate x' y' answer := by
  cases h with
  | equal h => exact .equal ((hx.equals hy).mp h)
  | different h => exact .different fun h' => h ((hx.equals hy).mpr h')
  | converted hloose h => exact .converted hloose ((hx.converts hy).mp h) answer

/-- Two primitive values get one answer. -/
theorem answers_primitive_iff {p q : Primitive} {answer : Bool} :
    Answers strict negate (.primitive p) (.primitive q) answer ↔
      answer = ((if strict then p.strictEquals q else p.looseEquals q) != negate) := by
  have hequals : Equals strict (.primitive p) (.primitive q) ↔
      (if strict then p.strictEquals q else p.looseEquals q) = true := by
    cases strict with
    | true => exact Primitive.strictlyEqual_iff
    | false => exact Primitive.looselyEqual_iff
  constructor
  · intro h
    cases h with
    | equal h => rw [hequals.mp h, Bool.true_bne]
    | different h => rw [Bool.eq_false_iff.mpr (mt hequals.mpr h), Bool.false_bne]
    | converted _ h => exact h.elim
  · rintro rfl
    by_cases h : (if strict then p.strictEquals q else p.looseEquals q) = true
    · rw [h, Bool.true_bne]
      exact .equal (hequals.mpr h)
    · rw [Bool.eq_false_iff.mpr h, Bool.false_bne]
      exact .different (mt hequals.mp h)

end

end RunValue

end EsOptimizer
