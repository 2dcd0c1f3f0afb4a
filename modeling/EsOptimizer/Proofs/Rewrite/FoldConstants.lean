import EsOptimizer.Pass.FoldConstants
import EsOptimizer.Proofs.Rewrite.Carries

/-!
# Constants written out

An expression that is pure and always has the same value may be replaced by the written form of that
value. What is not a number and the infinities are written by name, which is right where no variable
of the program has such a name.
-/

namespace EsOptimizer

/-! ## Numbers -/

namespace Number

theorem neg_neg (x : Number) : x.neg.neg = x := by
  obtain ⟨bits⟩ := x
  simp only [neg, UInt64.xor_assoc, UInt64.xor_self, UInt64.xor_zero]

theorem biasedExponent_abs (x : Number) : x.abs.biasedExponent = x.biasedExponent := by
  rw [abs]
  split
  · have h := toNat_neg_bits x
    simp only [biasedExponent, Nat.pow_eq]
    omega
  · rfl

theorem isNegative_abs (x : Number) : x.abs.isNegative = false := by
  rw [abs]
  split
  · rename_i h
    simp only [isNegative, Nat.pow_eq, decide_eq_true_eq, decide_eq_false_iff_not, Nat.not_le] at h ⊢
    have hbits : x.neg.bits.toNat = x.bits.toNat ^^^ 2 ^ 63 := by
      simp only [neg, UInt64.toNat_xor]
      rfl
    have hlt : x.bits.toNat < 2 ^ 64 := x.bits.toNat_lt
    -- The sign bit is set, flipping it clears it, and there is none above.
    rw [hbits]
    refine Nat.lt_pow_two_of_testBit _ fun i hi => ?_
    rw [Nat.testBit_xor, Nat.testBit_two_pow]
    rcases Nat.eq_or_lt_of_le hi with rfl | hi
    · rw [Nat.testBit_of_two_pow_le_and_two_pow_add_one_gt h hlt]
      rfl
    · have hpow : 2 ^ 64 ≤ 2 ^ i := Nat.pow_le_pow_right (by decide) hi
      rw [Nat.testBit_lt_two_pow (Nat.lt_of_lt_of_le hlt hpow)]
      simp [Nat.ne_of_lt hi]
  · rename_i h
    exact Bool.eq_false_iff.mpr h

theorem abs_of_isInfinite {x : Number} (h : x.abs.isInfinite = true) : x.abs = infinity := by
  have hsign := isNegative_abs x
  generalize x.abs = y at h hsign
  obtain ⟨bits⟩ := y
  simp only [isInfinite, isNegative, biasedExponent, fraction, Nat.pow_eq, Bool.and_eq_true,
    beq_iff_eq, decide_eq_false_iff_not] at h hsign
  rw [infinity]
  congr 1
  apply UInt64.toNat.inj
  have hinfinity : (0x7ff0000000000000 : UInt64).toNat = 2047 * 2 ^ 52 := by decide
  omega

end Number

/-! ## Written values -/

/-- The names of the constants mean what they mean globally. -/
structure Env.Global (env : Env) : Prop where
  nan : env.read "NaN" = .number .nan
  infinity : env.read "Infinity" = .number .infinity

/-- An expression that has a value, and changes nothing, where the names of constants mean what they
mean globally, or if it needs none of them. -/
def Expr.Writes (p : Primitive) (e : Expr) : Prop :=
  ∀ w : World, (FoldConstants.needsName p = true → w.env.Global) →
    (e.eval w).1.SameValue p ∧ (e.eval w).2.env = w.env

namespace Make

variable {b : Basis}

/-- A new expression that has a value. -/
def IsWritten (b : Basis) (p : Primitive) (e : Expr) : Prop := b.nextId ≤ e.id ∧ e.Writes p

theorem writes_magnitude (n : Number) :
    Yields b.Fresh (magnitude n.abs) (IsWritten b (.number n.abs)) := by
  unfold magnitude
  split
  · rename_i hinfinite
    refine Basis.yields_named fun id hid => .pure ⟨hid, fun w hglobal => ⟨?_, rfl⟩⟩
    have hread : w.env.read "Infinity" = .number n.abs := by
      rw [Number.abs_of_isInfinite hinfinite]
      refine (hglobal ?_).infinity
      rw [Number.isInfinite, Bool.and_eq_true] at hinfinite
      simp [FoldConstants.needsName, Number.isFinite, beq_iff_eq.mp hinfinite.1]
    change (w.env.read "Infinity").SameValue _
    rw [hread]
    exact BEq.rfl
  · exact Basis.yields_new fun id hid => .pure ⟨hid, fun w _ => ⟨BEq.rfl, rfl⟩⟩

theorem needsName_abs (n : Number) :
    FoldConstants.needsName (.number n.abs) = FoldConstants.needsName (.number n) := by
  rw [FoldConstants.needsName, FoldConstants.needsName, Number.isFinite, Number.isFinite,
    Number.biasedExponent_abs]

/-- The written form of a value has that value. -/
theorem writes_literal (p : Primitive) : Yields b.Fresh (literal p) (IsWritten b p) := by
  cases p with
  | undefined =>
    have hzero : Yields b.Fresh (Make.number .zero) fun e => ∃ id, e = .number id .zero :=
      Basis.yields_new fun id _ => .pure ⟨id, rfl⟩
    refine hzero.bind ?_
    rintro _ ⟨_, rfl⟩
    exact Basis.yields_new fun id hid => .pure ⟨hid, fun w _ => ⟨BEq.rfl, rfl⟩⟩
  | null | bool | string =>
    exact Basis.yields_new fun id hid => .pure ⟨hid, fun w _ => ⟨BEq.rfl, rfl⟩⟩
  | number n =>
    rw [literal]
    split
    · rename_i hnan
      refine Basis.yields_named fun id hid => .pure ⟨hid, fun w hglobal => ⟨?_, rfl⟩⟩
      have hread := (hglobal (by simp [FoldConstants.needsName, Number.not_isFinite_of_isNaN hnan])).nan
      change (w.env.read "NaN").SameValue _
      rw [hread]
      exact Number.same_of_isNaN Number.isNaN_nan hnan
    · refine (writes_magnitude n).bind fun size hsize => ?_
      split
      · rename_i hnegative
        refine Basis.yields_new fun id hid => .pure ⟨hid, fun w hglobal => ?_⟩
        obtain ⟨hvalue, henv⟩ := hsize.2 w (by rwa [needsName_abs])
        refine ⟨?_, henv⟩
        have habs : n.abs.neg = n := by rw [Number.abs, if_pos hnegative, Number.neg_neg]
        have hneg := @Basis.unary_sameValue .minus _ _ hvalue
        change ((Primitive.unary .minus (size.eval w).1).getD .undefined).SameValue _
        have hresult : (Primitive.unary .minus (.number n.abs)).getD .undefined = .number n := by
          change Primitive.number n.abs.neg = _
          rw [habs]
        rwa [hresult] at hneg
      · rename_i hnegative
        have habs : n.abs = n := if_neg hnegative
        rw [habs] at hsize
        exact .pure hsize

/-- There are no functions in the written form of a value. -/
theorem carries_literal {P : Func → Prop} (p : Primitive) :
    Yields b.Fresh (literal p) fun x => AllFuncs P (x.nodes true) := by
  have hmagnitude (n : Number) : Yields b.Fresh (magnitude n) fun x => AllFuncs P (x.nodes true) := by
    unfold magnitude
    split
    · exact Basis.yields_named fun id _ => .pure (by simp [Expr.nodes])
    · exact Basis.yields_new fun id _ => .pure (by simp [Expr.nodes])
  cases p with
  | undefined =>
    refine Yields.bind (P := fun x => AllFuncs P (x.nodes true))
      (Basis.yields_new fun id _ => .pure (by simp [Expr.nodes])) fun x hx => ?_
    exact Basis.yields_new fun id _ => .pure (by simpa [Expr.nodes] using hx)
  | null | bool | string => exact Basis.yields_new fun id _ => .pure (by simp [Expr.nodes])
  | number n =>
    rw [literal]
    split
    · exact Basis.yields_named fun id _ => .pure (by simp [Expr.nodes])
    · refine (hmagnitude n.abs).bind fun x hx => ?_
      split
      · exact Basis.yields_new fun id _ => .pure (by simpa [Expr.nodes] using hx)
      · exact .pure hx

end Make

/-! ## The pass -/

namespace FoldConstants

variable {a : Analysis} {b : Basis}

theorem transform_expr (role : Role) (e : Expr) : (transform a).expr role e =
    (match constant? a role e with
    | none => pure e
    | some p => do
      Edit.markChanged
      Make.literal p) := rfl

/-- Unless the program hides them, the names of the constants mean what they mean globally. -/
theorem global_of_agree (hscopes : b.scopes = a.scopes) (hhides : hidesConstants a.scopes = false)
    {inner : List String} {env env' : Env} (hagree : Env.Agree b.named inner env env') :
    env'.Global := by
  have hnot {x : String} (hx : x = "NaN" ∨ x = "Infinity") : ¬b.named x := by
    rintro ⟨v, hv, hname, hkind⟩
    rw [hscopes] at hv hname hkind
    have hvar : a.scopes.var v = a.scopes.vars[v] := by
      rw [ScopeTree.var, Array.getD_eq_getD_getElem?, Array.getElem?_eq_getElem hv, Option.getD_some]
    rw [hvar] at hname hkind
    have hhidden : hidesConstants a.scopes = true := by
      rw [hidesConstants, Array.any_eq_true]
      refine ⟨v, hv, ?_⟩
      rcases hx with rfl | rfl <;> simp [hname, hkind]
    rw [hhides] at hhidden
    cases hhidden
  exact ⟨hagree.read_of_not_named (hnot (.inl rfl)), hagree.read_of_not_named (hnot (.inr rfl))⟩

/-- What is known of an expression that is written out. -/
theorem of_constant? {role : Role} {e : Expr} {p : Primitive} (h : constant? a role e = some p) :
    (needsName p = true → hidesConstants a.scopes = false) ∧
      ∃ f, a.nodeFacts[e.id]? = some f ∧ f.pure = true ∧ f.value.primitive? = some p := by
  unfold constant? at h
  split at h
  · obtain ⟨hp, hwritten⟩ := Option.filter_eq_some_iff.mp h
    refine ⟨fun hneeds => ?_, ?_⟩
    · simp only [isWritten, hneeds, Bool.true_and, Bool.not_eq_true', Bool.or_eq_false_iff] at hwritten
      exact hwritten.2
    · obtain ⟨v, hv, hvalue⟩ := Option.bind_eq_some_iff.mp hp
      obtain ⟨f, hf, rfl⟩ := Option.map_eq_some_iff.mp hv
      obtain ⟨hf, hpure⟩ := Option.filter_eq_some_iff.mp hf
      exact ⟨f, hf, hpure, hvalue⟩
  · cases h

theorem sameValue_of_primitive? {v : Value} {p q : Primitive} (h : v.Holds (.primitive q))
    (hp : v.primitive? = some p) : q.SameValue p := by
  cases v with
  | single s =>
    cases s with
    | primitive r =>
      cases hp
      exact Value.holds_single_iff.mp h
    | reference r => cases hp
  | _ => cases hp

theorem preserves (hfacts : b.facts = a.nodeFacts) (hscopes : b.scopes = a.scopes) :
    (transform a).Preserves b fun inner s s' => s.Stands b inner s' where
  entersFunctions := rfl
  entersValues _ := rfl
  target _ := rfl
  expr inner e e' h := by
    rw [transform_expr]
    split
    · exact .pure h.stands
    · rename_i p hp
      obtain ⟨hhides, f, hf, hpure, hvalue⟩ := of_constant? hp
      refine Basis.yields_changed ((Make.writes_literal p).imp fun x hx => .of_new ?_ hx.1)
      intro w w' hagree hexplained
      obtain ⟨hholds, hunchanged⟩ := h.stands.known w hexplained f (by rw [hfacts, hf])
      obtain ⟨hnew, henv⟩ := hx.2 w' fun hneeds => global_of_agree hscopes (hhides hneeds) hagree
      refine ⟨?_, ?_⟩
      · exact BEq.trans (sameValue_of_primitive? hholds hvalue) (BEq.symm hnew)
      · rw [hunchanged hpure, henv]
        exact hagree
  stmt inner place s s' h := .pure ⟨s', rfl, h.stands⟩
  stands _ _ _ h := h
  list inner isBody ss ss' h := .pure (StmtsStand.of_members h)
  func _ := rfl

theorem carries : (transform a).Carries b where
  expr P role e h := by
    rw [transform_expr]
    split
    · exact .pure h
    · exact Basis.yields_changed (Make.carries_literal _)
  stmt P place before after h := .pure (by simpa [stmtNodes] using h)
  list P isBody ss h := .pure h
  func _ := rfl
  declaration _ _ _ _ _ := rfl
  declarations _ _ _ _ _ h := .pure h

end FoldConstants

end EsOptimizer
