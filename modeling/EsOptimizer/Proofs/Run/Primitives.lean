import EsOptimizer.Proofs.Run.Activation

/-!
# Activations of primitive code

The way to evaluate expressions that compute with primitive values: they read and assign variables, and
always give a value. It is an instance of `Semantics` for each way to find the variables of names in
new parts of a tree, and in it an expression whose names are all in scope is confined to the variables
that occur in it (`confined_primitives`). So it shows what the theorems about all semantics say of code
that runs.
-/

namespace EsOptimizer

namespace TailCalls

/-- A step of a computation with primitive values. -/
abbrev Computation (α : Type) := StateM (Config Unit Primitive) α

namespace Computation

def read (x : Slot) : Computation Primitive := return (← get).vars x

def write (x : Slot) (value : Primitive) : Computation Unit := modify (·.set x value)

/-- The operand on the right is evaluated unless the value on the left decides. -/
def logical (isOr : Bool) (left right : Computation Primitive) : Computation Primitive := do
  let value ← left
  if value.truthy = isOr then return value else right

/-- The value to assign. -/
def assigned (op : AssignOp) (x : Slot) (right : Computation Primitive) : Computation Primitive := do
  match op.binary? with
  | none => right
  | some op =>
    let old ← read x
    let value ← right
    return (Primitive.binary op old value).getD .undefined

def update (op : UpdateOp) (before : Bool) (x : Slot) : Computation Primitive := do
  let old := (← read x).toNumber
  let new := old.add (Track.updateStep op)
  write x (.number new)
  return .number (if before then new else old)

mutual

/-- The value of an expression, given the variables of its names. -/
def value (slot : Ident → Slot) : Expr → Computation Primitive
  | .ident i => read (slot i)
  | .string _ s => pure (.string s)
  | .bool _ b => pure (.bool b)
  | .null _ => pure .null
  | .number _ n => pure (.number n)
  | .unary _ op arg => do return (Primitive.unary op (← value slot arg)).getD .undefined
  | .update _ op before (.ident i) => update op before (slot i)
  | .binary _ .or left right => logical true (value slot left) (value slot right)
  | .binary _ .and left right => logical false (value slot left) (value slot right)
  | .binary _ op left right => do
    let left ← value slot left
    let right ← value slot right
    return (Primitive.binary op left right).getD .undefined
  | .assign _ op (.ident i) right => do
    let result ← assigned op (slot i) (value slot right)
    write (slot i) result
    return result
  | .cond _ test yes no => do
    if (← value slot test).truthy then value slot yes else value slot no
  | .seq _ exprs => lastValue slot exprs .undefined
  | _ => pure .undefined

/-- The value of the last expression, or the value before if there is none. -/
def lastValue (slot : Ident → Slot) : List Expr → Primitive → Computation Primitive
  | [], before => pure before
  | e :: rest, _ => do lastValue slot rest (← value slot e)

end

end Computation

/-- Primitive values, with the variables that names mean where no identifier of the program stands. -/
def Semantics.primitives (scopes : ScopeTree) (named : String → Option VarId) :
    Semantics Unit Primitive Empty where
  undefined := .undefined
  truthy := Primitive.truthy
  named := named
  eval e c :=
    let (value, c) := Computation.value (slotOf scopes named) e c
    (.ok value, c)

/-! ## What a computation touches -/

/-- A computation depends on some of the variables at most, and changes no others. -/
structure Computation.Touches {α : Type} (vars : VarId → Prop) (x : Computation α) : Prop where
  reads : ∀ c d : Config Unit Primitive, (∀ v, vars v → c.vars (.known v) = d.vars (.known v)) →
    (x c).1 = (x d).1 ∧ ∀ v, vars v → (x c).2.vars (.known v) = (x d).2.vars (.known v)
  keeps : ∀ c y, (∀ v, y = .known v → ¬vars v) → (x c).2.vars y = c.vars y

namespace Computation.Touches

variable {α β : Type} {vars vars' : VarId → Prop} {x : Computation α} {v : VarId}

theorem pure (a : α) : Touches vars (pure a) := ⟨fun _ _ h => ⟨rfl, h⟩, fun _ _ _ => rfl⟩

theorem bind {f : α → Computation β} (hx : Touches vars x) (hf : ∀ a, Touches vars (f a)) :
    Touches vars (x >>= f) where
  reads c d h := by
    obtain ⟨hresult, hafter⟩ := hx.reads c d h
    have hnext := (hf (x d).1).reads _ _ hafter
    change (f (x c).1 (x c).2).1 = _ ∧ ∀ v, vars v → (f (x c).1 (x c).2).2.vars _ = _
    rwa [hresult]
  keeps c y hy := ((hf (x c).1).keeps (x c).2 y hy).trans (hx.keeps c y hy)

/-- More variables may be touched. -/
theorem mono (h : Touches vars x) (hsub : ∀ v, vars v → vars' v) : Touches vars' x where
  reads c d heq := by
    obtain ⟨hresult, hafter⟩ := h.reads c d fun v hv => heq v (hsub v hv)
    refine ⟨hresult, fun v hv => ?_⟩
    by_cases hmem : vars v
    · exact hafter v hmem
    · have hother (w : VarId) (hw : Slot.known v = .known w) : ¬vars w := by
        cases hw
        exact hmem
      rw [h.keeps c _ hother, h.keeps d _ hother, heq v hv]
  keeps c y hy := h.keeps c y fun v hv hmem => hy v hv (hsub v hmem)

theorem read (hv : vars v) : Touches vars (Computation.read (.known v)) :=
  ⟨fun _ _ h => ⟨h v hv, h⟩, fun _ _ _ => rfl⟩

theorem write (hv : vars v) (a : Primitive) : Touches vars (Computation.write (.known v) a) where
  reads c d h := by
    refine ⟨rfl, fun w hw => ?_⟩
    change (c.set (.known v) a).vars _ = (d.set (.known v) a).vars _
    rw [Config.set_vars, Config.set_vars, h w hw]
  keeps c y hy := by
    change (c.set (.known v) a).vars y = _
    rw [Config.set_vars, if_neg fun hyv => hy v hyv hv]

theorem logical {isOr : Bool} {left right : Computation Primitive} (hleft : Touches vars left)
    (hright : Touches vars right) : Touches vars (Computation.logical isOr left right) :=
  hleft.bind fun a => by
    split
    · exact .pure a
    · exact hright

theorem assigned {op : AssignOp} {right : Computation Primitive} (hv : vars v)
    (hright : Touches vars right) : Touches vars (Computation.assigned op (.known v) right) := by
  unfold Computation.assigned
  split
  · exact hright
  · exact (read hv).bind fun _ => hright.bind fun _ => .pure _

theorem update (op : UpdateOp) (before : Bool) (hv : vars v) :
    Touches vars (Computation.update op before (.known v)) :=
  (read hv).bind fun _ => (write hv _).bind fun _ => .pure _

end Computation.Touches

/-! ## Expressions -/

section

open EsOptimizer.TailCalls.Computation

variable {scopes : ScopeTree} {named : String → Option VarId} {ns ns' : List Node}

/-- All names among the nodes are in scope. -/
def InScope (scopes : ScopeTree) (ns : List Node) : Prop :=
  ∀ i, .name i ∈ ns → ∃ v, scopes.varOf i.id = some v

/-- A variable occurs among the nodes. -/
def Occurs (scopes : ScopeTree) (ns : List Node) (v : VarId) : Prop :=
  ∃ i, .name i ∈ ns ∧ scopes.varOf i.id = some v

theorem InScope.mono (h : InScope scopes ns) (hsub : ns' ⊆ ns) : InScope scopes ns' :=
  fun i hi => h i (hsub hi)

theorem mentions_iff {e : Expr} {v : VarId} :
    mentions scopes v e = true ↔ Occurs scopes (e.nodes true) v := by
  rw [mentions, List.any_eq_true]
  constructor
  · rintro ⟨n, hn, hname⟩
    split at hname
    · exact ⟨_, hn, beq_iff_eq.mp hname⟩
    · cases hname
  · rintro ⟨i, hi, hvar⟩
    exact ⟨.name i, hi, beq_iff_eq.mpr hvar⟩

theorem Computation.Touches.within {α : Type} {x : Computation α}
    (h : Touches (Occurs scopes ns') x) (hsub : ns' ⊆ ns) : Touches (Occurs scopes ns) x :=
  h.mono fun _ ⟨i, hi, hvar⟩ => ⟨i, hsub hi, hvar⟩

/-- A name among the nodes means a variable that occurs there. -/
theorem InScope.slot (h : InScope scopes ns) (named : String → Option VarId) {i : Ident}
    (hi : .name i ∈ ns) : ∃ v, slotOf scopes named i = .known v ∧ Occurs scopes ns v := by
  obtain ⟨v, hvar⟩ := h i hi
  exact ⟨v, slotOf_of_varOf hvar, i, hi, hvar⟩

mutual

/-- The value of an expression comes from the variables that occur in it. -/
theorem touches_value (e : Expr) (h : InScope scopes (e.nodes true)) :
    Touches (Occurs scopes (e.nodes true)) (value (slotOf scopes named) e) := by
  have part (arg : Expr) (harg : arg.nodes true ⊆ e.nodes true)
      (ih : InScope scopes (arg.nodes true) →
        Touches (Occurs scopes (arg.nodes true)) (value (slotOf scopes named) arg)) :
      Touches (Occurs scopes (e.nodes true)) (value (slotOf scopes named) arg) :=
    (ih (h.mono harg)).within harg
  cases e with
  | ident i =>
    obtain ⟨v, hslot, hoccurs⟩ := h.slot named (i := i) (by simp [Expr.nodes])
    rw [value, hslot]
    exact .read hoccurs
  | unary id op arg =>
    have harg := part arg (by simp [Expr.nodes]) (touches_value arg)
    rw [value]
    exact harg.bind fun _ => .pure _
  | update id op before arg =>
    cases arg with
    | ident i =>
      obtain ⟨v, hslot, hoccurs⟩ := h.slot named (i := i) (by simp [Expr.nodes])
      rw [value, hslot]
      exact .update op before hoccurs
    | _ => exact .pure _
  | binary id op left right =>
    have hleft := part left (by simp [Expr.nodes]) (touches_value left)
    have hright := part right (by simp [Expr.nodes]) (touches_value right)
    cases op with
    | or => exact hleft.logical hright
    | and => exact hleft.logical hright
    | _ => exact hleft.bind fun _ => hright.bind fun _ => .pure _
  | assign id op left right =>
    have hright := part right (by simp [Expr.nodes]) (touches_value right)
    cases left with
    | ident i =>
      obtain ⟨v, hslot, hoccurs⟩ := h.slot named (i := i) (by simp [Expr.nodes])
      rw [value, hslot]
      exact (Touches.assigned hoccurs hright).bind fun _ => (Touches.write hoccurs _).bind fun _ => .pure _
    | _ => exact .pure _
  | cond id test yes no =>
    have htest := part test (by simp [Expr.nodes]) (touches_value test)
    have hyes := part yes (fun n hn => by simp [Expr.nodes, hn]) (touches_value yes)
    have hno := part no (fun n hn => by simp [Expr.nodes, hn]) (touches_value no)
    rw [value]
    refine htest.bind fun _ => ?_
    split
    · exact hyes
    · exact hno
  | seq id es =>
    have hes : exprNodes true es ⊆ (Expr.seq id es).nodes true := List.subset_cons_self _ _
    exact (touches_lastValue es (h.mono hes) .undefined).within hes
  | _ => exact .pure _
termination_by structural e

theorem touches_lastValue (es : List Expr) (h : InScope scopes (exprNodes true es))
    (before : Primitive) :
    Touches (Occurs scopes (exprNodes true es)) (lastValue (slotOf scopes named) es before) := by
  match es with
  | [] => exact .pure before
  | e :: rest =>
    have he := touches_value e (h.mono (List.subset_append_left _ _))
    have hrest := touches_lastValue rest (h.mono (List.subset_append_right _ _))
    exact (he.within (List.subset_append_left _ _)).bind fun value =>
      (hrest value).within (List.subset_append_right _ _)
termination_by structural es

end

/-- With primitive values, an expression whose names are in scope is confined to its variables. -/
theorem confined_primitives {e : Expr} (h : InScope scopes (e.nodes true)) :
    (Semantics.primitives scopes named).Confined scopes e where
  reads c d _ hagree := by
    have htouches : Touches _ (value (slotOf scopes named) e) := touches_value e h
    obtain ⟨hvalue, hafter⟩ := htouches.reads c d fun v hv => hagree v (mentions_iff.mpr hv)
    exact ⟨congrArg Except.ok hvalue, rfl, fun v hv => hafter v (mentions_iff.mp hv)⟩
  keeps c y hy := (touches_value e h).keeps c y fun v hv hoccurs => by
    rw [← mentions_iff, hy v hv] at hoccurs
    cases hoccurs

end

end TailCalls

end EsOptimizer
