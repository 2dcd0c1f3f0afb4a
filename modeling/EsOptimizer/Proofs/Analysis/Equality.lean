import EsOptimizer.Analysis.Call
import EsOptimizer.Proofs.Run.Equality
import EsOptimizer.Proofs.Value.Union

/-!
# Equality on what is known

The analysis of `===`, `!==`, `==` and `!=` takes one of several paths, by what the operands may be.
All of them are held against one measure: `Value.Answered` is what the operator may answer for some
pair of values out of the operands. Where the paths compare member by member their result is the
union of just these answers (`isAnswer_product`), since each way to compare two members is exact for
the members that it is used on; everywhere else the result is `true` or `false`, which is right but
need not be exact.

`equality_judged` adds when the operator may be left out: never if it might convert an object.
-/

namespace EsOptimizer

namespace Single

theorem beq_bool_iff {s : Single} {b : Bool} :
    (s == primitive (.bool b)) = true ↔ s = primitive (.bool b) := by
  constructor
  · intro h
    obtain ⟨p, rfl, hp⟩ := beq_primitive_iff.mp h
    rcases Primitive.beq_iff.mp hp with rfl | ⟨x, y, -, hy, -⟩
    · rfl
    · cases hy
  · rintro rfl
    exact BEq.rfl

end Single

namespace Value

/-! ## What a value contains -/

/-- A value of a running program is one of those that are possible. -/
def Contains (v : Value) (x : RunValue) : Prop := v.Holds x.single

/-- Only `undefined` and `null` are possible. -/
def OnlyNullish (v : Value) : Prop :=
  ∀ x, v.Contains x → ∃ p : Primitive, x = .primitive p ∧ p.isNullish = true

/-- An object is possible on one side, and something that is none on the other. -/
def Mixed (l r : Value) : Prop :=
  ∃ x y, l.Contains x ∧ r.Contains y ∧ x.isObject ≠ y.isObject

/-- A boolean that an equality operator may answer for values out of the operands. -/
def Answered (strict negate : Bool) (l r : Value) (u : Single) : Prop :=
  ∃ x y answer, l.Contains x ∧ r.Contains y ∧ x.Answers strict negate y answer ∧
    u = .primitive (.bool answer)

variable {strict negate : Bool} {l r : Value} {s t u : Single}

theorem contains_iff {v : Value} (h : v ≠ unknown) (x : RunValue) :
    v.Contains x ↔ ∃ s ∈ v.members, (single s).Contains x := by
  rw [Contains, holds_iff_has h, Has, Single.contains_iff]
  exact exists_congr fun s => and_congr_right fun _ => holds_single_iff.symm

theorem contains_of_mem {v : Value} {x : RunValue} (h : x.single ∈ v.members) : v.Contains x := by
  have hv : v ≠ unknown := by
    rintro rfl
    cases h
  exact (holds_iff_has hv _).mpr (has_of_mem h)

theorem exists_contains (s : Single) : ∃ x : RunValue, x.single = s := by
  cases s with
  | primitive p => exact ⟨.primitive p, rfl⟩
  | reference r => exact ⟨.object r 0, rfl⟩

/-- The answers for two values are those for their members. -/
theorem answered_iff (hl : l ≠ unknown) (hr : r ≠ unknown) :
    Answered strict negate l r u ↔
      ∃ s ∈ l.members, ∃ t ∈ r.members, Answered strict negate (single s) (single t) u := by
  constructor
  · rintro ⟨x, y, answer, hx, hy, ha, hu⟩
    obtain ⟨s, hs, hx⟩ := (contains_iff hl x).mp hx
    obtain ⟨t, ht, hy⟩ := (contains_iff hr y).mp hy
    exact ⟨s, hs, t, ht, x, y, answer, hx, hy, ha, hu⟩
  · rintro ⟨s, hs, t, ht, x, y, answer, hx, hy, ha, hu⟩
    exact ⟨x, y, answer, (contains_iff hl x).mpr ⟨s, hs, hx⟩, (contains_iff hr y).mpr ⟨t, ht, hy⟩,
      ha, hu⟩

/-- Of two members it is enough to look at what they stand for literally. -/
theorem answered_single_iff : Answered strict negate (single s) (single t) u ↔
    ∃ (x y : RunValue) (answer : Bool), x.single = s ∧ y.single = t ∧
      x.Answers strict negate y answer ∧ u = .primitive (.bool answer) := by
  constructor
  · rintro ⟨x, y, answer, hx, hy, ha, hu⟩
    obtain ⟨x', hx', hxx'⟩ := RunValue.exists_same (holds_single_iff.mp hx)
    obtain ⟨y', hy', hyy'⟩ := RunValue.exists_same (holds_single_iff.mp hy)
    exact ⟨x', y', answer, hx', hy', ha.congr hxx' hyy', hu⟩
  · rintro ⟨x, y, answer, rfl, rfl, ha, hu⟩
    exact ⟨x, y, answer, holds_single_iff.mpr BEq.rfl, holds_single_iff.mpr BEq.rfl, ha, hu⟩

/-! ## The answers for two members -/

theorem answered_primitive_iff {p q : Primitive} :
    Answered strict negate (ofPrimitive p) (ofPrimitive q) u ↔
      u = .primitive
        (.bool ((if strict then p.strictEquals q else p.looseEquals q) != negate)) := by
  rw [ofPrimitive, ofPrimitive, answered_single_iff]
  constructor
  · rintro ⟨x, y, answer, hx, hy, ha, hu⟩
    cases x <;> cases hx
    cases y <;> cases hy
    rw [hu, RunValue.answers_primitive_iff.mp ha]
  · intro hu
    exact ⟨.primitive p, .primitive q, _, rfl, rfl, RunValue.answers_primitive_iff.mpr rfl, hu⟩

/-- Two objects of one reference may be the same and may be different ones. -/
theorem answered_reference (ref : Reference) (answer : Bool) :
    Answered strict negate (ofReference ref) (ofReference ref) (.primitive (.bool answer)) := by
  refine answered_single_iff.mpr ?_
  by_cases h : answer = negate
  · refine ⟨.object ref 0, .object ref 1, answer, rfl, rfl, ?_, rfl⟩
    rw [h]
    exact .different fun heq => absurd heq.2 (by decide)
  · refine ⟨.object ref 0, .object ref 0, answer, rfl, rfl, ?_, rfl⟩
    rw [Bool.eq_not_of_ne h]
    exact .equal ⟨rfl, rfl⟩

/-- Members that stand for nothing equal, and that are not converted, are told apart. -/
theorem answered_different_iff
    (h : ∀ x y : RunValue, x.single = s → y.single = t →
      ¬x.Equals strict y ∧ (strict = false → ¬x.Converts y)) :
    Answered strict negate (single s) (single t) u ↔ u = .primitive (.bool negate) := by
  rw [answered_single_iff]
  constructor
  · rintro ⟨x, y, answer, hx, hy, ha, hu⟩
    obtain ⟨hne, hconv⟩ := h x y hx hy
    cases ha with
    | equal heq => exact absurd heq hne
    | different => exact hu
    | converted hloose hc => exact absurd hc (hconv hloose)
  · intro hu
    obtain ⟨x, hx⟩ := exists_contains s
    obtain ⟨y, hy⟩ := exists_contains t
    exact ⟨x, y, negate, hx, hy, .different (h x y hx hy).1, hu⟩

/-! ## Unions of answers -/

/-- A value holds just the answers for two others. -/
def IsAnswer (strict negate : Bool) (l r v : Value) : Prop :=
  v.IsUnion False (Answered strict negate l r)

theorem isUnion_ofPrimitive (p : Primitive) :
    IsUnion (ofPrimitive p) False fun s => (s == .primitive p) = true := by
  have hlisted : ofPrimitive p ≠ unknown := by
    intro h
    cases h
  refine (isUnion_self (ofPrimitive p)).congr (iff_of_false hlisted id) fun s => ?_
  exact (holds_iff_has hlisted s).symm.trans holds_single_iff

theorem isUnion_bool (b : Bool) : IsUnion (bool b) False (· = .primitive (.bool b)) :=
  (isUnion_ofPrimitive (.bool b)).congr Iff.rfl fun _ => Single.beq_bool_iff

theorem isUnion_eitherBool : IsUnion eitherBool False fun s => ∃ b, s = .primitive (.bool b) := by
  refine (isUnion_ofSingles _).congr (iff_of_false nofun id) fun s => ?_
  simp only [List.contains_cons, List.contains_nil, Bool.or_false, Bool.or_eq_true,
    Single.beq_bool_iff, Bool.exists_bool]
  exact or_comm

/-- There are too few booleans for a union of answers to overflow. -/
theorem not_tooMany_answered : ¬TooMany (Answered strict negate l r) := by
  intro h
  refine not_tooMany_has eitherBool (h.mono fun u => ?_)
  rintro ⟨x, y, answer, -, -, -, rfl⟩
  exact (isUnion_eitherBool.has_iff (by decide) _).mpr ⟨answer, rfl⟩

/-- Comparing member by member gives the answers, if it does so for each two members. -/
theorem isAnswer_product {f : Single → Single → Value} (hl : l ≠ unknown) (hr : r ≠ unknown)
    (hf : ∀ s ∈ l.members, ∀ t ∈ r.members, IsAnswer strict negate (single s) (single t) (f s t)) :
    IsAnswer strict negate l r (l.product r f) := by
  have hlisted {s t : Single} (hs : s ∈ l.members) (ht : t ∈ r.members) : f s t ≠ unknown :=
    fun hu => ((hf s hs t ht).unknown_iff.mp hu).elim id not_tooMany_answered
  refine (isUnion_product l r f).congr ?_ fun u => ?_
  · refine iff_of_false ?_ id
    rintro (hu | hu | ⟨s, hs, t, ht, hu⟩)
    · exact hl hu
    · exact hr hu
    · exact hlisted hs ht hu
  · rw [answered_iff hl hr]
    refine exists_congr fun s => and_congr_right fun hs => exists_congr fun t =>
      and_congr_right fun ht => ?_
    exact (hf s hs t ht).has_iff (hlisted hs ht) u

theorem IsAnswer.holds_iff {v : Value} (h : IsAnswer strict negate l r v) (u : Single) :
    v.Holds u ↔ Answered strict negate l r u := by
  have hv : v ≠ unknown := fun hu => (h.unknown_iff.mp hu).elim id not_tooMany_answered
  exact (holds_iff_has hv u).trans (h.has_iff hv u)

theorem isAnswer_bool {b : Bool}
    (h : ∀ u, Answered strict negate l r u ↔ u = .primitive (.bool b)) :
    IsAnswer strict negate l r (bool b) :=
  (isUnion_bool b).congr Iff.rfl fun u => (h u).symm

theorem isAnswer_eitherBool (h : ∀ b, Answered strict negate l r (.primitive (.bool b))) :
    IsAnswer strict negate l r eitherBool := by
  refine isUnion_eitherBool.congr Iff.rfl fun u => ?_
  constructor
  · rintro ⟨b, rfl⟩
    exact h b
  · rintro ⟨x, y, answer, -, -, -, rfl⟩
    exact ⟨answer, rfl⟩

/-! ## Questions about the operands -/

theorem not_onlyNullish_unknown : ¬OnlyNullish unknown := by
  intro h
  obtain ⟨p, hp, -⟩ := h (.object (.object 0) 0) (holds_unknown _)
  cases hp

theorem isNullish_iff {v : Value} : v.isNullish = true ↔ v.OnlyNullish := by
  by_cases hv : v = unknown
  · subst hv
    exact iff_of_false Bool.false_ne_true not_onlyNullish_unknown
  rw [isNullish, singles_of_ne_unknown hv]
  dsimp only
  rw [List.all_eq_true]
  constructor
  · intro h x hx
    obtain ⟨s, hs, hxs⟩ := (contains_iff hv x).mp hx
    have hs := h s hs
    obtain ⟨x', rfl, hsame⟩ := RunValue.exists_same (holds_single_iff.mp hxs)
    cases x' with
    | object r i => cases hs
    | primitive q =>
      cases x with
      | object r i => exact hsame.elim
      | primitive p => exact ⟨p, rfl, (Primitive.isNullish_congr hsame).trans hs⟩
  · intro h s hs
    obtain ⟨x, rfl⟩ := exists_contains s
    obtain ⟨p, rfl, hp⟩ := h x (contains_of_mem hs)
    exact hp

/-- Among the values there is none that a nullish operand would convert. -/
theorem OnlyNullish.not_converts (h : l.OnlyNullish ∨ r.OnlyNullish) {x y : RunValue}
    (hx : l.Contains x) (hy : r.Contains y) : ¬x.Converts y := by
  intro hconv
  rcases h with h | h
  · obtain ⟨p, rfl, hp⟩ := h x hx
    cases y with
    | primitive q => exact hconv
    | object ref i =>
      rw [show p.isNullish = false from hconv] at hp
      cases hp
  · obtain ⟨q, rfl, hq⟩ := h y hy
    cases x with
    | primitive p => exact hconv
    | object ref i =>
      rw [show q.isNullish = false from hconv] at hq
      cases hq

theorem mixed_of_converts {x y : RunValue} (hx : l.Contains x) (hy : r.Contains y)
    (h : x.Converts y) : l.Mixed r := by
  refine ⟨x, y, hx, hy, ?_⟩
  cases x <;> cases y
  case object.primitive => exact Bool.false_ne_true.symm
  case primitive.object => exact Bool.false_ne_true
  all_goals exact h.elim

end Value

namespace Track

open Value

variable {strict negate : Bool} {l r : Value} {s t : Single}

theorem mixes_iff {x y : RunValue} : mixes x.single y.single = true ↔ x.isObject ≠ y.isObject := by
  cases x <;> cases y <;> simp [mixes, RunValue.single, RunValue.isObject]

theorem isObject_congr {x y : RunValue} (h : x.Same y) : x.isObject = y.isObject := by
  cases x <;> cases y <;> first | rfl | exact h.elim

/-- Whether the operands are mixed is found out as far as they can be listed. -/
theorem mayMix_iff : mayMix l r = true ↔ l = .unknown ∨ r = .unknown ∨ l.Mixed r := by
  by_cases hl : l = .unknown
  · subst hl
    exact iff_of_true rfl (Or.inl rfl)
  by_cases hr : r = .unknown
  · subst hr
    rw [mayMix, singles_of_ne_unknown hl]
    exact iff_of_true rfl (Or.inr (Or.inl rfl))
  rw [mayMix, singles_of_ne_unknown hl, singles_of_ne_unknown hr]
  simp only [List.any_eq_true, hl, hr, false_or]
  constructor
  · rintro ⟨s, hs, t, ht, h⟩
    obtain ⟨x, rfl⟩ := exists_contains s
    obtain ⟨y, rfl⟩ := exists_contains t
    exact ⟨x, y, contains_of_mem hs, contains_of_mem ht, mixes_iff.mp h⟩
  · rintro ⟨x, y, hx, hy, h⟩
    obtain ⟨s, hs, hx⟩ := (contains_iff hl x).mp hx
    obtain ⟨t, ht, hy⟩ := (contains_iff hr y).mp hy
    obtain ⟨x', rfl, hxx'⟩ := RunValue.exists_same (holds_single_iff.mp hx)
    obtain ⟨y', rfl, hyy'⟩ := RunValue.exists_same (holds_single_iff.mp hy)
    refine ⟨_, hs, _, ht, mixes_iff.mpr ?_⟩
    rwa [← isObject_congr hxx', ← isObject_congr hyy']

/-! ## Comparing two members -/

theorem isAnswer_primitives (p q : Primitive) :
    IsAnswer strict negate (.ofPrimitive p) (.ofPrimitive q)
      (.bool ((if strict then p.strictEquals q else p.looseEquals q) != negate)) :=
  isAnswer_bool fun _ => answered_primitive_iff

theorem isAnswer_references (a b : Reference) :
    IsAnswer strict negate (.ofReference a) (.ofReference b)
      (if a = b then .eitherBool else .bool negate) := by
  by_cases h : a = b
  · rw [if_pos h, h]
    exact isAnswer_eitherBool (answered_reference b)
  · rw [if_neg h]
    refine isAnswer_bool fun u => answered_different_iff fun x y hx hy => ?_
    cases x <;> cases hx
    cases y <;> cases hy
    exact ⟨fun heq => h heq.1, fun _ => id⟩

/-- An object equals no primitive value. -/
theorem isAnswer_mixed (hmix : mixes s t = true)
    (hconv : strict = false → ∀ x y : RunValue, x.single = s → y.single = t → ¬x.Converts y) :
    IsAnswer strict negate (.single s) (.single t) (.bool negate) := by
  refine isAnswer_bool fun u => answered_different_iff fun x y hx hy => ?_
  refine ⟨fun heq => ?_, fun hloose => hconv hloose x y hx hy⟩
  subst hx hy
  cases x <;> cases y <;> first | exact heq | cases hmix

theorem isAnswer_strictOutcome (s t : Single) :
    IsAnswer true negate (.single s) (.single t) (strictOutcome negate s t) := by
  cases s <;> cases t
  case primitive.primitive p q => exact isAnswer_primitives p q
  case reference.reference a b => exact isAnswer_references a b
  all_goals exact isAnswer_mixed rfl nofun

theorem isAnswer_looseOutcome (h : mixes s t = false) :
    IsAnswer false negate (.single s) (.single t) (looseOutcome negate s t) := by
  cases s <;> cases t
  case primitive.primitive p q => exact isAnswer_primitives p q
  case reference.reference a b => exact isAnswer_references a b
  all_goals cases h

theorem isAnswer_nullishOutcome
    (h : (Value.single s).OnlyNullish ∨ (Value.single t).OnlyNullish) :
    IsAnswer false negate (.single s) (.single t) (nullishOutcome negate s t) := by
  have hconv (_ : false = false) (x y : RunValue) (hx : x.single = s) (hy : y.single = t) :
      ¬x.Converts y := by
    subst hx hy
    exact OnlyNullish.not_converts h (holds_single_iff.mpr BEq.rfl) (holds_single_iff.mpr BEq.rfl)
  cases s <;> cases t
  case primitive.primitive p q => exact isAnswer_primitives p q
  case reference.reference a b =>
    rw [← isNullish_iff, ← isNullish_iff] at h
    exact h.elim nofun nofun
  all_goals exact isAnswer_mixed rfl hconv

/-! ## The operators -/

/-- `===`, `!==`, `==` and `!=` -/
def equality (strict negate : Bool) : BinaryOp :=
  match strict, negate with
  | true, false => .strictEq
  | true, true => .strictNe
  | false, false => .looseEq
  | false, true => .looseNe

/-- What has to be said of the outcome of an equality operator. -/
structure Judges (strict negate : Bool) (l r : Value) (outcome : Tracked) : Prop where
  /-- It is `true`, `false` or either one. -/
  boolean : outcome.value ≠ .unknown ∧
    ∀ u, outcome.value.Holds u → ∃ b, u = .primitive (.bool b)
  /-- Nothing that the operator may answer is missed. -/
  sound : ∀ x y answer, l.Contains x → r.Contains y → x.Answers strict negate y answer →
    outcome.value.Holds (.primitive (.bool answer))
  /-- What it lists is an answer, if the operands are listed and nothing of theirs might be converted,
  or if one of them is `undefined` or `null`. -/
  attained : (l ≠ .unknown ∧ r ≠ .unknown ∧ (strict = true ∨ ¬l.Mixed r)) ∨
      l.OnlyNullish ∨ r.OnlyNullish →
    ∀ answer, outcome.value.Holds (.primitive (.bool answer)) →
      ∃ x y, l.Contains x ∧ r.Contains y ∧ x.Answers strict negate y answer
  /-- An operator that may be left out converts no object. -/
  unconverted : outcome.pure = true → strict = false →
    ∀ x y, l.Contains x → r.Contains y → ¬x.Converts y
  /-- Where the operands tell that there is no conversion, it may be left out. -/
  pure : strict = true ∨ l.OnlyNullish ∨ r.OnlyNullish → outcome.pure = true

theorem holds_eitherBool_iff {u : Single} :
    Value.eitherBool.Holds u ↔ ∃ b, u = .primitive (.bool b) := by
  have hlisted : Value.eitherBool ≠ .unknown := by decide
  exact (holds_iff_has hlisted u).trans (isUnion_eitherBool.has_iff hlisted u)

/-- An outcome that holds just the answers, where nothing is converted. -/
theorem judges_of_isAnswer {v : Value} (h : IsAnswer strict negate l r v)
    (hconv : strict = false → ∀ x y, l.Contains x → r.Contains y → ¬x.Converts y) :
    Judges strict negate l r (.ofPure v) where
  boolean := by
    refine ⟨fun hu => (h.unknown_iff.mp hu).elim id not_tooMany_answered, fun u hu => ?_⟩
    obtain ⟨x, y, answer, -, -, -, hu⟩ := (h.holds_iff u).mp hu
    exact ⟨answer, hu⟩
  sound := fun x y answer hx hy ha => (h.holds_iff _).mpr ⟨x, y, answer, hx, hy, ha, rfl⟩
  attained := by
    intro _ answer hu
    obtain ⟨x, y, answer', hx, hy, ha, heq⟩ := (h.holds_iff _).mp hu
    cases heq
    exact ⟨x, y, hx, hy, ha⟩
  unconverted := fun _ => hconv
  pure := fun _ => rfl

/-- Some value equals a nullish one, and some does not. -/
theorem exists_answers_nullish (strict negate : Bool) {p : Primitive} (hp : p.isNullish = true)
    (answer : Bool) :
    ∃ q : Primitive, RunValue.Answers strict negate (.primitive p) (.primitive q) answer ∧
      RunValue.Answers strict negate (.primitive q) (.primitive p) answer := by
  have hp : p = .undefined ∨ p = .null := by
    match p, hp with
    | .undefined, _ => exact Or.inl rfl
    | .null, _ => exact Or.inr rfl
  have hself : (if strict then p.strictEquals p else p.looseEquals p) = true := by
    rcases hp with rfl | rfl <;> cases strict <;> rfl
  have htrue : (if strict then p.strictEquals (.bool true) else p.looseEquals (.bool true)) = false ∧
      (if strict then (Primitive.bool true).strictEquals p
        else (Primitive.bool true).looseEquals p) = false := by
    rcases hp with rfl | rfl <;> cases strict <;> exact ⟨rfl, rfl⟩
  by_cases h : answer = negate
  · refine ⟨.bool true, ?_⟩
    rw [RunValue.answers_primitive_iff, RunValue.answers_primitive_iff, htrue.1, htrue.2,
      Bool.false_bne]
    exact ⟨h, h⟩
  · refine ⟨p, ?_⟩
    rw [RunValue.answers_primitive_iff, hself, Bool.true_bne, and_self]
    exact Bool.eq_not_of_ne h

/-- A nullish operand and one of which nothing is known may be equal or not. -/
theorem answered_of_onlyNullish (hunknown : l = .unknown ∨ r = .unknown)
    (hnullish : l.OnlyNullish ∨ r.OnlyNullish) (answer : Bool) :
    ∃ x y, l.Contains x ∧ r.Contains y ∧ x.Answers strict negate y answer := by
  have hmember {v : Value} (h : v.OnlyNullish) :
      ∃ p : Primitive, v.Contains (.primitive p) ∧ p.isNullish = true := by
    have hv : v ≠ .unknown := by
      rintro rfl
      exact not_onlyNullish_unknown h
    obtain ⟨s, hs⟩ := List.exists_mem_of_ne_nil _ (members_ne_nil hv)
    obtain ⟨x, rfl⟩ := exists_contains s
    obtain ⟨p, rfl, hp⟩ := h x (contains_of_mem hs)
    exact ⟨p, contains_of_mem hs, hp⟩
  rcases hnullish with h | h
  · obtain ⟨p, hcontains, hp⟩ := hmember h
    obtain ⟨q, hq, -⟩ := exists_answers_nullish strict negate hp answer
    refine ⟨.primitive p, .primitive q, hcontains, ?_, hq⟩
    rcases hunknown with rfl | rfl
    · exact absurd h not_onlyNullish_unknown
    · exact holds_unknown _
  · obtain ⟨p, hcontains, hp⟩ := hmember h
    obtain ⟨q, -, hq⟩ := exists_answers_nullish strict negate hp answer
    refine ⟨.primitive q, .primitive p, ?_, hcontains, hq⟩
    rcases hunknown with rfl | rfl
    · exact holds_unknown _
    · exact absurd h not_onlyNullish_unknown

/-- Either answer, where one operand cannot be listed and nothing is converted. -/
theorem judges_of_unknown (hunknown : l = .unknown ∨ r = .unknown)
    (hconv : strict = false → ∀ x y, l.Contains x → r.Contains y → ¬x.Converts y) :
    Judges strict negate l r (.ofPure .eitherBool) where
  boolean := ⟨by decide, fun _ => holds_eitherBool_iff.mp⟩
  sound := fun _ _ answer _ _ _ => holds_eitherBool answer
  attained := by
    rintro (⟨hl, hr, -⟩ | hnullish) answer -
    · exact absurd hunknown (not_or.mpr ⟨hl, hr⟩)
    · exact answered_of_onlyNullish hunknown hnullish answer
  unconverted := fun _ => hconv
  pure := fun _ => rfl

/-- A comparison of members, or either answer if the operands cannot be listed. -/
theorem judges_comparison {f : Single → Single → Value}
    (hf : l ≠ .unknown → r ≠ .unknown → IsAnswer strict negate l r (l.product r f))
    (hconv : strict = false → ∀ x y, l.Contains x → r.Contains y → ¬x.Converts y) :
    Judges strict negate l r (.ofPure (comparison (l.product r f))) := by
  by_cases hunknown : l = .unknown ∨ r = .unknown
  · have hproduct : l.product r f = .unknown := by
      refine (isUnion_product l r f).unknown_iff.mpr (Or.inl ?_)
      exact hunknown.imp_right Or.inl
    rw [hproduct]
    exact judges_of_unknown hunknown hconv
  · rw [not_or] at hunknown
    have hanswer := hf hunknown.1 hunknown.2
    have hlisted : l.product r f ≠ .unknown :=
      fun hu => (hanswer.unknown_iff.mp hu).elim id not_tooMany_answered
    have hcomparison : comparison (l.product r f) = l.product r f := by
      rw [comparison, if_neg]
      intro h
      cases hv : l.product r f with
      | unknown => exact hlisted hv
      | _ => rw [hv] at h; cases h
    rw [hcomparison]
    exact judges_of_isAnswer hanswer hconv

/-- Either answer, and not to be left out, where an object might be converted. -/
theorem judges_of_mayMix (hmix : mayMix l r = true) (hnot : ¬(l.OnlyNullish ∨ r.OnlyNullish)) :
    Judges false negate l r (.ofImpure .eitherBool) where
  boolean := ⟨by decide, fun _ => holds_eitherBool_iff.mp⟩
  sound := fun _ _ answer _ _ _ => holds_eitherBool answer
  attained := by
    rintro (⟨hl, hr, hunmixed⟩ | h)
    · rcases mayMix_iff.mp hmix with h | h | h
      · exact absurd h hl
      · exact absurd h hr
      · exact absurd h (hunmixed.resolve_left Bool.false_ne_true)
    · exact absurd h hnot
  unconverted := nofun
  pure := by
    rintro (h | h)
    · cases h
    · exact absurd h hnot

theorem judges_looseEquality (negate : Bool) (l r : Value) (cx : Context) (p : Progress) :
    Judges false negate l r (looseEquality negate l r cx p).1 := by
  unfold looseEquality
  by_cases hnullish : (l.isNullish || r.isNullish) = true
  · rw [if_pos hnullish]
    rw [Bool.or_eq_true, isNullish_iff, isNullish_iff] at hnullish
    refine judges_comparison (fun hl hr => isAnswer_product hl hr fun s hs t ht => ?_)
      fun _ x y hx hy => OnlyNullish.not_converts hnullish hx hy
    refine isAnswer_nullishOutcome (hnullish.imp (fun h x hx => h x ?_) fun h x hx => h x ?_)
    · exact (contains_iff hl x).mpr ⟨s, hs, hx⟩
    · exact (contains_iff hr x).mpr ⟨t, ht, hx⟩
  · rw [if_neg hnullish]
    have hnot : ¬(l.OnlyNullish ∨ r.OnlyNullish) := by
      rwa [← isNullish_iff, ← isNullish_iff, ← Bool.or_eq_true]
    by_cases hmix : mayMix l r = true
    · rw [if_pos hmix]
      exact judges_of_mayMix hmix hnot
    · rw [if_neg hmix]
      obtain ⟨hl, hr, hunmixed⟩ : l ≠ .unknown ∧ r ≠ .unknown ∧ ¬l.Mixed r := by
        rw [mayMix_iff, not_or, not_or] at hmix
        exact hmix
      refine judges_of_isAnswer (isAnswer_product hl hr fun s hs t ht => ?_)
        fun _ x y hx hy hconv => hunmixed (mixed_of_converts hx hy hconv)
      refine isAnswer_looseOutcome (Bool.eq_false_iff.mpr fun h => hunmixed ?_)
      obtain ⟨x, rfl⟩ := exists_contains s
      obtain ⟨y, rfl⟩ := exists_contains t
      exact ⟨x, y, contains_of_mem hs, contains_of_mem ht, mixes_iff.mp h⟩

theorem judges_strictEquality (negate : Bool) (l r : Value) :
    Judges true negate l r (.ofPure (comparison (l.product r (strictOutcome negate)))) :=
  judges_comparison (fun hl hr => isAnswer_product hl hr fun s _ t _ => isAnswer_strictOutcome s t)
    nofun

/-- The four equality operators answer what equality may answer for what their operands contain, and
may be left out only if no object is converted. -/
theorem equality_judged (strict negate : Bool) (l r : Value) (cx : Context) (p : Progress) :
    Judges strict negate l r (binary (equality strict negate) l r cx p).1 := by
  match strict, negate with
  | true, false => exact judges_strictEquality false l r
  | true, true => exact judges_strictEquality true l r
  | false, false => exact judges_looseEquality false l r cx p
  | false, true => exact judges_looseEquality true l r cx p

/-- What is not a number equals nothing, although the analysis takes both operands for the same. -/
example (cx : Context) (p : Progress) :
    (binary .strictEq (.number .nan) (.number .nan) cx p).1 = .ofPure (.bool false) := rfl

end Track

end EsOptimizer
