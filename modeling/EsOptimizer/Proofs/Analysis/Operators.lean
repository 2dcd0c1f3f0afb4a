import EsOptimizer.Analysis.Interpret
import EsOptimizer.Proofs.Value.Holds

/-!
# Operators on what is known

Each operator of the analysis, given values that hold the operands of a concrete operation, gives a
value that holds its result. The state plays no part in it.
-/

namespace EsOptimizer

namespace Track

theorem comparison_holds {v : Value} {r : Bool} (h : v.Holds (.primitive (.bool r))) :
    (comparison v).Holds (.primitive (.bool r)) := by
  unfold comparison
  split
  · exact Value.holds_eitherBool r
  · exact h

/-- An operation on all pairs of members holds what it gives for two operands, if it gives the same
for the same operands. -/
theorem product_holds {a b : Value} {x y z : Primitive} {f : Single → Single → Value}
    (ha : a.Holds (.primitive x)) (hb : b.Holds (.primitive y))
    (hf : ∀ x' y', (x == x') = true → (y == y') = true →
      (f (.primitive x') (.primitive y')).Holds (.primitive z)) :
    (a.product b f).Holds (.primitive z) := by
  refine ha.product hb fun s t hs ht => ?_
  obtain ⟨x', rfl, hx⟩ := Single.beq_primitive_iff.mp (BEq.symm hs)
  obtain ⟨y', rfl, hy⟩ := Single.beq_primitive_iff.mp (BEq.symm ht)
  exact hf x' y' (BEq.symm hx) (BEq.symm hy)

theorem strictEquality_holds {a b : Value} {x y : Primitive} (negate : Bool)
    (ha : a.Holds (.primitive x)) (hb : b.Holds (.primitive y)) :
    (comparison (a.product b (strictOutcome negate))).Holds
      (.primitive (.bool (x.strictEquals y != negate))) := by
  refine comparison_holds (product_holds ha hb fun x' y' hx hy => ?_)
  rw [strictOutcome, Primitive.strictEquals_congr hx hy]
  exact Value.holds_ofPrimitive _

theorem looseEquality_holds {a b : Value} {x y : Primitive} (negate : Bool)
    (ha : a.Holds (.primitive x)) (hb : b.Holds (.primitive y)) (cx : Context) (p : Progress) :
    (looseEquality negate a b cx p).1.value.Holds
      (.primitive (.bool (x.looseEquals y != negate))) := by
  unfold looseEquality
  split
  · refine comparison_holds (product_holds ha hb fun x' y' hx hy => ?_)
    rw [nullishOutcome, Primitive.looseEquals_congr hx hy]
    exact Value.holds_ofPrimitive _
  · split
    · exact Value.holds_eitherBool _
    · refine product_holds ha hb fun x' y' hx hy => ?_
      rw [looseOutcome, Primitive.looseEquals_congr hx hy]
      exact Value.holds_ofPrimitive _

theorem primitiveOutcome_holds {op : BinaryOp} {a b : Value} {x y z : Primitive}
    (ha : a.Holds (.primitive x)) (hb : b.Holds (.primitive y))
    (hz : Primitive.binary op x y = some z) :
    (a.product b (primitiveOutcome op)).Holds (.primitive z) := by
  refine product_holds ha hb fun x' y' hx hy => ?_
  obtain ⟨z', hz', hzz'⟩ := Primitive.binary_congr hx hy hz
  rw [primitiveOutcome, hz']
  exact Value.holds_single_iff.mpr hzz'

/-- An outcome that is given up unless the operands are primitive. -/
theorem ofPrimitive_holds (values : List Value) {t : Tracked} {s : Single} (h : t.value.Holds s)
    (cx : Context) (p : Progress) :
    ((do if ← toPrimitive values then return t else return .ofImpure .unknown : Track Tracked)
      cx p).1.value.Holds s := by
  change ((if (toPrimitive values cx p).1 then pure t else pure (.ofImpure .unknown) : Track Tracked)
    cx (toPrimitive values cx p).2).1.value.Holds s
  split
  · exact h
  · exact Value.holds_unknown s

/-- A binary operator holds what it gives for operands that are held. -/
theorem binary_holds {op : BinaryOp} {a b : Value} {x y z : Primitive}
    (ha : a.Holds (.primitive x)) (hb : b.Holds (.primitive y))
    (hz : Primitive.binary op x y = some z) (cx : Context) (p : Progress) :
    (binary op a b cx p).1.value.Holds (.primitive z) := by
  have hother := ofPrimitive_holds [a, b] (t := .ofPure (a.product b (primitiveOutcome op)))
    (primitiveOutcome_holds ha hb hz) cx p
  cases op with
  | strictEq =>
    cases hz
    have h := strictEquality_holds false ha hb
    rwa [Bool.bne_false] at h
  | strictNe =>
    cases hz
    have h := strictEquality_holds true ha hb
    rwa [Bool.bne_true] at h
  | looseEq =>
    cases hz
    have h := looseEquality_holds false ha hb cx p
    rwa [Bool.bne_false] at h
  | looseNe =>
    cases hz
    have h := looseEquality_holds true ha hb cx p
    rwa [Bool.bne_true] at h
  | or | and | «in» | instanceOf => cases hz
  | _ => exact hother

/-- An operator that converts to numbers holds what it gives for an operand that is held. -/
theorem numeric_holds {op : UnaryOp} {t : Tracked} {x z : Primitive}
    (h : t.value.Holds (.primitive x)) (hz : Primitive.unary op x = some z) (cx : Context)
    (p : Progress) : (numeric op t cx p).1.value.Holds (.primitive z) := by
  refine ofPrimitive_holds _ (t := ⟨_, t.pure⟩) (h.map fun s hs => ?_) cx p
  obtain ⟨x', rfl, hx⟩ := Single.beq_primitive_iff.mp (BEq.symm hs)
  obtain ⟨z', hz', hzz'⟩ := Primitive.unary_congr (BEq.symm hx) hz
  rw [Single.primitive?, Option.bind_some, hz']
  exact Value.holds_single_iff.mpr hzz'

theorem pure_of_numeric {op : UnaryOp} {t : Tracked} (cx : Context) (p : Progress)
    (h : (numeric op t cx p).1.pure = true) : t.pure = true := by
  change ((if (toPrimitive [t.value] cx p).1 then pure ⟨_, t.pure⟩ else pure (.ofImpure .unknown) :
    Track Tracked) cx (toPrimitive [t.value] cx p).2).1.pure = true at h
  split at h
  · exact h
  · exact absurd h Bool.false_ne_true

theorem notOutcome_holds {t : Tracked} {x : Primitive} (h : t.value.Holds (.primitive x)) :
    (notOutcome t).value.Holds (.primitive (.bool !x.truthy)) := by
  unfold notOutcome
  cases ht : t.value.truthiness with
  | none => exact Value.holds_eitherBool _
  | some b =>
    have hb : x.truthy = b := Value.truthy_of_truthiness h ht
    rw [hb]
    exact Value.holds_ofPrimitive _

theorem typeOfOutcome_holds {t : Tracked} {x : Primitive} (h : t.value.Holds (.primitive x)) :
    (typeOfOutcome t).value.Holds (.primitive (.string x.typeOf)) := by
  refine h.map fun s hs => ?_
  obtain ⟨x', rfl, hx⟩ := Single.beq_primitive_iff.mp (BEq.symm hs)
  rw [Single.typeOf, Primitive.typeOf_congr hx]
  exact Value.holds_ofPrimitive _

/-- An update holds the old value as a number, and the new one. -/
theorem updated_holds {op : UpdateOp} {v : Value} {x : Primitive} (h : v.Holds (.primitive x))
    (cx : Context) (p : Progress) :
    (updated op v cx p).1.1.Holds (.primitive (.number x.toNumber)) ∧
      (updated op v cx p).1.2.Holds (.primitive (.number (x.toNumber.add (updateStep op)))) := by
  have hold : (v.map fun s => s.primitive?.elim .unknown fun q => .number q.toNumber).Holds
      (.primitive (.number x.toNumber)) := by
    refine h.map fun s hs => ?_
    obtain ⟨x', rfl, hx⟩ := Single.beq_primitive_iff.mp (BEq.symm hs)
    exact Value.holds_single_iff.mpr (Primitive.toNumber_congr (BEq.symm hx))
  change ((if (toPrimitive [v] cx p).1 then _ else _ : Track (Value × Value)) cx _).1.1.Holds _ ∧
    ((if (toPrimitive [v] cx p).1 then _ else _ : Track (Value × Value)) cx _).1.2.Holds _
  split
  · refine ⟨hold, hold.map fun s hs => ?_⟩
    obtain ⟨x', rfl, hx⟩ := Single.beq_primitive_iff.mp (BEq.symm hs)
    obtain rfl | ⟨m, n, hm, rfl, hsame⟩ := Primitive.beq_iff.mp (BEq.symm hx)
    · exact Value.holds_ofPrimitive _
    · cases hm
      exact Value.holds_single_iff.mpr
        (Number.same_congr (fun _ _ => Number.isNaN_arith) (BEq.symm hx) (Number.same_refl _))
  · exact ⟨Value.holds_unknown _, Value.holds_unknown _⟩

end Track

end EsOptimizer
