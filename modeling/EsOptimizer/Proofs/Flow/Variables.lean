import EsOptimizer.Proofs.Flow.Entries
import EsOptimizer.Proofs.Value.Holds

/-!
# Variables of a state

What the steps and merges of a state do to the values of variables, apart from objects and from what
variables reach. Each merge is described by what `lookup` gives afterwards; the union of all that
was written only grows (`Values.Below`).

Objects do not influence variables: `SameVars` says that two states differ at most in the former.
-/

namespace EsOptimizer

/-- Every value of `a` is still there in `b`, or a greater one. -/
def Values.Below (a b : Values) : Prop := GrowsBy Value.Below a b

namespace Values

theorem Below.refl (a : Values) : Below a a := GrowsBy.refl Value.Below.refl a

theorem Below.trans {a b c : Values} (hab : Below a b) (hbc : Below b c) : Below a c :=
  GrowsBy.trans (R := Value.Below) (fun _ _ _ => Value.Below.trans) hab hbc

theorem getElem?_insert_nat {m : Values} {v w : VarId} {x : Value} :
    (m.insert v x)[w]? = if v = w then some x else m[w]? :=
  getElem?_insert_of_key

theorem mem_toList {m : Values} {v : VarId} {x : Value} : (v, x) ∈ m.toList ↔ m[v]? = some x :=
  Std.TreeMap.mem_toList_iff_getElem?_eq_some

theorem below_insert {m : Values} {v : VarId} {x : Value}
    (h : ∀ old, m[v]? = some old → old.Below x) : Below m (m.insert v x) :=
  GrowsBy.insert Value.Below.refl h

end Values

/-! ## What was written -/

namespace Written

theorem addValue_vars (w : Written) (v : VarId) (x : Value) :
    Values.Below w.vars (w.addValue v x).1.vars ∧
      ∃ y, (w.addValue v x).1.vars[v]? = some y ∧ x.Below y := by
  unfold addValue
  split
  · rename_i h
    refine ⟨Values.below_insert fun old hold => ?_, x, ?_, Value.Below.refl x⟩
    · rw [h] at hold
      cases hold
    · exact Values.getElem?_insert_nat.trans (if_pos rfl)
  · rename_i old h
    refine ⟨Values.below_insert fun o ho => ?_, old.or x, ?_, Value.below_or_right old x⟩
    · rw [h] at ho
      cases ho
      exact Value.below_or_left old x
    · exact Values.getElem?_insert_nat.trans (if_pos rfl)

@[simp] theorem addObject_vars (w : Written) (r : Reference) (o : HeapObject) :
    (w.addObject r o).1.vars = w.vars := by
  unfold addObject
  split <;> rfl

@[simp] theorem addReach_vars (w : Written) (v : VarId) (refs : RefSet) :
    (w.addReach v refs).1.vars = w.vars := rfl

/-- What was written to a variable is joined with what is written to it. -/
theorem addValue_at (w : Written) (v u : VarId) (x : Value) : (w.addValue v x).1.vars[u]? =
    if v = u then Option.merge Value.or w.vars[u]? (some x) else w.vars[u]? := by
  unfold addValue
  split <;> rename_i h <;> rw [Values.getElem?_insert_nat] <;> split
  · rename_i hvu
    rw [← hvu, h]
    rfl
  · rfl
  · rename_i hvu
    rw [← hvu, h]
    rfl
  · rfl

theorem addValue_of_ne (w : Written) {v u : VarId} (x : Value) (h : v ≠ u) :
    (w.addValue v x).1.vars[u]? = w.vars[u]? := by
  rw [addValue_at, if_neg h]

theorem addAll_fst {α : Type} (add : Written → α → Written × Bool) (items : List α) (w : Written) :
    (addAll add items w).1 = items.foldl (fun w a => (add w a).1) w := by
  have hfold (acc : Written × Bool) : (items.foldl (fun acc item =>
      ((add acc.1 item).1, acc.2 || (add acc.1 item).2)) acc).1 =
        items.foldl (fun w a => (add w a).1) acc.1 := by
    induction items generalizing acc with
    | nil => rfl
    | cons a rest ih => rw [List.foldl_cons, ih, List.foldl_cons]
  exact hfold (w, false)

/-- A part of a union that no member changes is left alone. -/
theorem addAll_keeps {α γ : Type} {add : Written → α → Written × Bool} (part : Written → γ)
    (h : ∀ w a, part (add w a).1 = part w) (items : List α) (w : Written) :
    part (addAll add items w).1 = part w := by
  rw [addAll_fst]
  induction items generalizing w with
  | nil => rfl
  | cons a rest ih => rw [List.foldl_cons, ih, h]

/-- Of a variable, the union holds the join of what both unions held. -/
theorem absorb_vars_at (w other : Written) (v : VarId) :
    (w.absorb other).1.vars[v]? = Option.merge Value.or w.vars[v]? other.vars[v]? := by
  unfold absorb
  simp only
  rw [addAll_keeps Written.vars (fun w (e : VarId × RefSet) => addReach_vars w e.1 e.2),
    addAll_keeps Written.vars (fun w (e : Reference × HeapObject) => addObject_vars w e.1 e.2),
    addAll_fst, foldl_toList_at (fun (w : Written) v => w.vars[v]?) other.vars
      (F := fun _ x known => Option.merge Value.or known (some x))
      (fun w e u => addValue_at w e.1 u e.2)]
  cases other.vars[v]? with
  | none => exact Option.merge_none_right.symm
  | some x => rfl

theorem absorb_vars (w other : Written) :
    Values.Below w.vars (w.absorb other).1.vars ∧
      Values.Below other.vars (w.absorb other).1.vars :=
  GrowsBy.of_merge Value.below_or_left Value.below_or_right Value.Below.refl (absorb_vars_at w other)

/-- A variable that the other union does not have is left alone. -/
theorem absorb_of_none (w other : Written) {v : VarId} (h : other.vars[v]? = none) :
    (w.absorb other).1.vars[v]? = w.vars[v]? := by
  rw [absorb_vars_at, h, Option.merge_none_right]

end Written

/-! ## Reading variables -/

namespace State

/-- A variable that the top layer has no value for is looked up as if it were not there. -/
theorem lookup_eq (s : State) (v : VarId) : s.lookup v = s.top.vars[v]?.or
    (if s.top.bounds v then some .unknown else Layer.lookupIn v s.below) := by
  simp only [State.lookup, layers, Layer.lookupIn]
  split <;> simp_all

/-- The states differ at most in the values of the top layer, in objects and in what is reached. -/
structure SameRest (s t : State) : Prop where
  below : t.below = s.below
  boundary : t.top.boundary = s.top.boundary
  written : t.top.written.vars = s.top.written.vars
  dead : t.top.dead = s.top.dead

/-- The states differ at most in objects and in what is reached. -/
structure SameVars (s t : State) : Prop extends SameRest s t where
  vars : t.top.vars = s.top.vars

namespace SameRest

theorem refl (s : State) : SameRest s s := ⟨rfl, rfl, rfl, rfl⟩

theorem trans {s t u : State} (hst : SameRest s t) (htu : SameRest t u) : SameRest s u :=
  ⟨htu.below.trans hst.below, htu.boundary.trans hst.boundary, htu.written.trans hst.written,
    htu.dead.trans hst.dead⟩

end SameRest

namespace SameVars

theorem refl (s : State) : SameVars s s := ⟨SameRest.refl s, rfl⟩

theorem trans {s t u : State} (hst : SameVars s t) (htu : SameVars t u) : SameVars s u :=
  ⟨hst.toSameRest.trans htu.toSameRest, htu.vars.trans hst.vars⟩

theorem lookup {s t : State} (h : SameVars s t) (v : VarId) : t.lookup v = s.lookup v := by
  rw [lookup_eq, lookup_eq, h.vars, h.below, Layer.bounds, Layer.bounds, h.boundary]

theorem current {s t : State} (h : SameVars s t) (scopes : ScopeTree) (v : VarId) :
    t.current scopes v = s.current scopes v := by
  rw [State.current, State.current, h.lookup]

end SameVars

theorem lookup_child (s : State) (v : VarId) : s.child.lookup v = s.lookup v := by
  simp [State.lookup, child, layers, Layer.lookupIn, Layer.bounds]

theorem lookup_round (s : State) (b : Boundary) (v : VarId) :
    (s.round b).lookup v = if b.vars.contains v then some .unknown else s.lookup v := by
  simp [State.lookup, round, layers, Layer.lookupIn, Layer.bounds]

theorem current_child (s : State) (scopes : ScopeTree) (v : VarId) :
    s.child.current scopes v = s.current scopes v := by
  rw [current, current, lookup_child]

/-- The state of a child of `s` with these changes. -/
def withLayer (s : State) (delta : Layer) : State := ⟨delta, s.layers⟩

theorem lookup_withLayer {s : State} {delta : Layer} (h : delta.boundary = none) (v : VarId) :
    (s.withLayer delta).lookup v = delta.vars[v]?.or (s.lookup v) := by
  simp only [State.lookup, withLayer, layers, Layer.lookupIn, Layer.bounds, h]
  split <;> simp_all

theorem current_of_lookup {s : State} {v : VarId} {x : Value} (scopes : ScopeTree)
    (h : s.lookup v = some x) : s.current scopes v = x := by
  simp [current, h]

theorem current_congr {s t : State} {v : VarId} (scopes : ScopeTree) (h : s.lookup v = t.lookup v) :
    s.current scopes v = t.current scopes v := by
  rw [current, current, h]

/-! ## Steps -/

@[simp] theorem putValue_lookup (s : State) (v w : VarId) (x : Value) :
    (s.putValue v x).lookup w = if v = w then some x else s.lookup w := by
  rw [lookup_eq, lookup_eq]
  change ((s.top.vars.insert v x)[w]?).or _ = _
  rw [Values.getElem?_insert_nat]
  split <;> rfl

@[simp] theorem setValue_lookup (s : State) (v w : VarId) (x : Value) :
    (s.setValue v x).lookup w = if v = w then some x else s.lookup w :=
  putValue_lookup s v w x

theorem setValue_written (s : State) (v : VarId) (x : Value) :
    Values.Below s.top.written.vars (s.setValue v x).top.written.vars ∧
      ∃ y, (s.setValue v x).top.written.vars[v]? = some y ∧ x.Below y :=
  Written.addValue_vars s.top.written v x

theorem putReach_sameVars (s : State) (v : VarId) (refs : RefSet) :
    SameVars s (s.putReach v refs) := ⟨⟨rfl, rfl, rfl, rfl⟩, rfl⟩

theorem putVersion_sameVars (s : State) (r : Reference) (o : HeapObject) :
    SameVars s (s.putVersion r o) := ⟨⟨rfl, rfl, rfl, rfl⟩, rfl⟩

theorem putObject_sameVars (s : State) (r : Reference) (o : HeapObject) :
    SameVars s (s.putObject r o) :=
  ⟨⟨rfl, rfl, Written.addObject_vars _ _ _, rfl⟩, rfl⟩

theorem foldl_sameVars {α : Type} {f : State → α → State} (h : ∀ s a, SameVars s (f s a))
    (items : List α) (s : State) : SameVars s (items.foldl f s) := by
  induction items generalizing s with
  | nil => exact SameVars.refl s
  | cons a rest ih => exact (h s a).trans (ih _)

theorem foldl_putReach_sameVars (items : List (VarId × RefSet)) (s : State) :
    SameVars s (items.foldl (fun s e => s.putReach e.1 e.2) s) :=
  foldl_sameVars (fun s e => putReach_sameVars s e.1 e.2) items s

theorem foldl_putVersion_sameVars (items : List (Reference × HeapObject)) (s : State) :
    SameVars s (items.foldl (fun s e => s.putVersion e.1 e.2) s) :=
  foldl_sameVars (fun s e => putVersion_sameVars s e.1 e.2) items s

theorem absorb_lookup (s : State) (w : Written) (v : VarId) :
    (s.absorb w).lookup v = s.lookup v := rfl

end State

end EsOptimizer
