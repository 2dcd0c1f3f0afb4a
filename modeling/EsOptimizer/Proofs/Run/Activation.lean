import EsOptimizer.Pass.TailCalls
import EsOptimizer.Proofs.Syntax.Functions
import Mathlib.Logic.Function.Basic

/-!
# Activations

What a function does that ends by calling itself, for any way to evaluate expressions: the body runs in
an activation of its own, in which only the parameters have values, and a tail call leaves it for the
next one (`Semantics.call`).

Whether an activation is a fresh one shows where the body reads a local variable before it has given it
a value. `settle` follows which variables may still be stale, and refuses a body that reads one of them.
A body that it accepts does the same in two activations that differ in stale variables only
(`Semantics.execAll_alike`).
-/

namespace EsOptimizer

namespace TailCalls

variable {World Value Fault α : Type}

/-! ## Where a body runs -/

/-- A variable: one that the program had before, or a new one. -/
inductive Slot where
  | known (v : VarId)
  | fresh (name : String)
deriving DecidableEq

/-- The values of the variables, and everything else. -/
structure Config (World Value : Type) where
  vars : Slot → Value
  world : World

def Config.set (c : Config World Value) (x : Slot) (value : Value) : Config World Value :=
  { c with vars := Function.update c.vars x value }

theorem Config.set_vars (c : Config World Value) (x y : Slot) (value : Value) :
    (c.set x value).vars y = if y = x then value else c.vars y :=
  Function.update_apply c.vars x value y

/-- A way to evaluate expressions. -/
structure Semantics (World Value Fault : Type) where
  undefined : Value
  truthy : Value → Bool
  eval : Expr → Config World Value → Except Fault Value × Config World Value
  /-- The variables that names mean where no identifier of the program stands. -/
  named : String → Option VarId

/-- How a part of a body ends. -/
inductive Exit (Value Fault : Type) where
  | done
  | fails (fault : Fault)
  | returns (value : Value)
  /-- By a tail call with these arguments. -/
  | calls (values : List Value)
  | continues (label : String)
  /-- At a statement that is not for such bodies. -/
  | stuck

/-- Goes on behind a part that ends normally. -/
def andThen (ended : Exit Value Fault × Config World Value)
    (next : Config World Value → Exit Value Fault × Config World Value) :
    Exit Value Fault × Config World Value :=
  match ended with
  | (.done, c) => next c
  | other => other

/-- Goes on with what was evaluated. -/
def withValue (evaluated : Except Fault α × Config World Value)
    (next : α → Config World Value → Exit Value Fault × Config World Value) :
    Exit Value Fault × Config World Value :=
  match evaluated with
  | (.ok a, c) => next a c
  | (.error fault, c) => (.fails fault, c)

/-- What an expression does that just assigns a variable. -/
def plainStore? : Expr → Option (Ident × Expr)
  | .assign _ .assign (.ident name) value => some (name, value)
  | _ => none

theorem withValue_ok (a : α) (c : Config World Value)
    (f : α → Config World Value → Exit Value Fault × Config World Value) :
    withValue (.ok a, c) f = f a c := rfl

theorem withValue_error (fault : Fault) (c : Config World Value)
    (f : α → Config World Value → Exit Value Fault × Config World Value) :
    withValue (.error fault, c) f = (.fails fault, c) := rfl

theorem andThen_assoc (x : Exit Value Fault × Config World Value)
    (f g : Config World Value → Exit Value Fault × Config World Value) :
    andThen (andThen x f) g = andThen x fun c => andThen (f c) g := by
  obtain ⟨exit, c⟩ := x
  cases exit <;> rfl

theorem andThen_withValue (x : Except Fault α × Config World Value)
    (f : α → Config World Value → Exit Value Fault × Config World Value)
    (g : Config World Value → Exit Value Fault × Config World Value) :
    andThen (withValue x f) g = withValue x fun a c => andThen (f a c) g := by
  obtain ⟨result, c⟩ := x
  cases result <;> rfl

theorem andThen_normal (x : Exit Value Fault × Config World Value) :
    andThen x (fun c => (.done, c)) = x := by
  obtain ⟨exit, c⟩ := x
  cases exit <;> rfl

/-- The variable that a name in the tree means: the one of its identifier if that is in scope, else what
other names mean, else a new one. -/
def slotOf (scopes : ScopeTree) (named : String → Option VarId) (i : Ident) : Slot :=
  match scopes.varOf i.id with
  | some v => .known v
  | none =>
    match named i.name with
    | some v => .known v
    | none => .fresh i.name

theorem slotOf_of_varOf {scopes : ScopeTree} {named : String → Option VarId} {i : Ident} {v : VarId}
    (h : scopes.varOf i.id = some v) : slotOf scopes named i = .known v := by
  simp only [slotOf, h]

namespace Semantics

variable (M : Semantics World Value Fault) (scopes : ScopeTree) (t : Target)

/-- The variable that a name in the tree means. -/
def slot (i : Ident) : Slot := slotOf scopes M.named i

/-- Evaluates arguments from left to right, up to the first that fails. -/
def evalAll : List Expr → Config World Value → Except Fault (List Value) × Config World Value
  | [], c => (.ok [], c)
  | e :: rest, c =>
    match M.eval e c with
    | (.error fault, c) => (.error fault, c)
    | (.ok value, c) => ((evalAll rest c).1.map (value :: ·), (evalAll rest c).2)

/-- Gives a variable the value of an expression. -/
def store (i : Ident) (e : Expr) (c : Config World Value) : Exit Value Fault × Config World Value :=
  withValue (M.eval e c) fun value c => (.done, c.set (M.slot scopes i) value)

def storeAll : List Declarator → Config World Value → Exit Value Fault × Config World Value
  | [], c => (.done, c)
  | ⟨_, _, none⟩ :: rest, c => storeAll rest c
  | ⟨_, name, some e⟩ :: rest, c => andThen (M.store scopes name e c) (storeAll rest)

/-- Evaluates an expression that stands as a statement. -/
def perform (e : Expr) (c : Config World Value) : Exit Value Fault × Config World Value :=
  match plainStore? e with
  | some (name, value) => M.store scopes name value c
  | none => withValue (M.eval e c) fun _ c => (.done, c)

/-- Leaves the body by a `return` that is no tail call. -/
def giveBack : Option Expr → Config World Value → Exit Value Fault × Config World Value
  | none, c => (.returns M.undefined, c)
  | some e, c => withValue (M.eval e c) fun value c => (.returns value, c)

mutual

/-- Runs a statement of a body. -/
def exec : Stmt → Config World Value → Exit Value Fault × Config World Value
  | .expr _ e, c => M.perform scopes e c
  | .var ⟨_, .var, decls⟩, c => M.storeAll scopes decls c
  | .block ⟨_, stmts⟩, c => execAll stmts c
  | .if _ test yes no, c =>
    withValue (M.eval test c) fun value c => if M.truthy value then exec yes c else exec? no c
  | .return id arg, c =>
    match t.args? scopes (.return id arg) with
    | some args => withValue (M.evalAll args c) fun values c => (.calls values, c)
    | none => M.giveBack arg c
  | .continue _ (some label), c => (.continues label.name, c)
  | _, c => (.stuck, c)

def exec? : Option Stmt → Config World Value → Exit Value Fault × Config World Value
  | none, c => (.done, c)
  | some s, c => exec s c

/-- Runs statements up to the first that does not end normally. -/
def execAll : List Stmt → Config World Value → Exit Value Fault × Config World Value
  | [], c => (.done, c)
  | s :: rest, c => andThen (exec s c) (execAll rest)

end

variable {M scopes t} in
theorem execAll_singleton (s : Stmt) (c : Config World Value) :
    M.execAll scopes t [s] c = M.exec scopes t s c :=
  andThen_normal _

variable {M scopes t} in
theorem execAll_append (first rest : List Stmt) (c : Config World Value) :
    M.execAll scopes t (first ++ rest) c =
      andThen (M.execAll scopes t first c) (M.execAll scopes t rest) := by
  induction first generalizing c with
  | nil => rfl
  | cons s first ih =>
    rw [List.cons_append, execAll, execAll, andThen_assoc]
    exact congrArg (andThen _) (funext ih)

/-- The values of parameters, `undefined` where there are not enough. -/
def filled (count : Nat) (values : List Value) : List Value :=
  values ++ List.replicate (count - values.length) M.undefined

/-- The activation for a call: the parameters have values, and no other local variable has. -/
def enter (locals : List VarId) (values : List Value) (c : Config World Value) : Config World Value :=
  let given := (t.params.map Prod.snd).zip (M.filled t.params.length values)
  { c with vars := fun
    | .known v => (given.lookup v).getD (if v ∈ locals then M.undefined else c.vars (.known v))
    | .fresh name => c.vars (.fresh name) }

/-- What a call gives back that ends so. -/
def result? : Exit Value Fault → Option (Except Fault Value)
  | .done => some (.ok M.undefined)
  | .returns value => some (.ok value)
  | .fails fault => some (.error fault)
  | .calls _ | .continues _ | .stuck => none

/-- Calls a function with this body, with at most `n` calls after each other. -/
def call (locals : List VarId) (body : List Stmt) :
    Nat → List Value → Config World Value → Option (Except Fault Value × Config World Value)
  | 0, _, _ => none
  | n + 1, values, c =>
    match M.execAll scopes t body (M.enter t locals values c) with
    | (.calls values, c) => call locals body n values c
    | (exit, c) => (M.result? exit).map (·, c)

/-- An expression depends on the variables that occur in it and on the world, and changes nothing
else. -/
structure Confined (e : Expr) : Prop where
  reads : ∀ c d : Config World Value, c.world = d.world →
    (∀ v, mentions scopes v e = true → c.vars (.known v) = d.vars (.known v)) →
    (M.eval e c).1 = (M.eval e d).1 ∧ (M.eval e c).2.world = (M.eval e d).2.world ∧
      ∀ v, mentions scopes v e = true →
        (M.eval e c).2.vars (.known v) = (M.eval e d).2.vars (.known v)
  keeps : ∀ (c : Config World Value) x, (∀ v, x = .known v → mentions scopes v e = false) →
    (M.eval e c).2.vars x = c.vars x

/-- All expressions among the nodes do. -/
def AllConfined (ns : List Node) : Prop := ∀ e, .expr e ∈ ns → M.Confined scopes e

end Semantics

/-! ## Stale variables -/

/-- Whether an expression may read a stale variable. -/
def readsStale (scopes : ScopeTree) (stale : List VarId) (e : Expr) : Bool :=
  stale.any fun v => mentions scopes v e

/-- The stale variables after a store. -/
def settleStore (scopes : ScopeTree) (name : Ident) (e : Expr) (stale : List VarId) :
    Option (List VarId) :=
  if readsStale scopes stale e then none
  else some (stale.filter fun v => scopes.varOf name.id != some v)

def settleDecls (scopes : ScopeTree) : List Declarator → List VarId → Option (List VarId)
  | [], stale => some stale
  | ⟨_, _, none⟩ :: rest, stale => settleDecls scopes rest stale
  | ⟨_, name, some e⟩ :: rest, stale => (settleStore scopes name e stale).bind (settleDecls scopes rest)

def settlePerformed (scopes : ScopeTree) (e : Expr) (stale : List VarId) : Option (List VarId) :=
  match plainStore? e with
  | some (name, value) => settleStore scopes name value stale
  | none => if readsStale scopes stale e then none else some stale

mutual

/-- The variables that may be stale after a statement, given those before it. There is no answer if
the statement may read one of these, or is not for such bodies. -/
def settle (scopes : ScopeTree) : Stmt → List VarId → Option (List VarId)
  | .expr _ e, stale => settlePerformed scopes e stale
  | .var ⟨_, .var, decls⟩, stale => settleDecls scopes decls stale
  | .block ⟨_, stmts⟩, stale => settleAll scopes stmts stale
  | .if _ test yes no, stale =>
    if readsStale scopes stale test then none
    else return (← settle scopes yes stale) ++ (← settle? scopes no stale)
  | .return _ none, _ => some []
  | .return _ (some e), stale => if readsStale scopes stale e then none else some []
  | _, _ => none

def settle? (scopes : ScopeTree) : Option Stmt → List VarId → Option (List VarId)
  | none, stale => some stale
  | some s, stale => settle scopes s stale

def settleAll (scopes : ScopeTree) : List Stmt → List VarId → Option (List VarId)
  | [], stale => some stale
  | s :: rest, stale => (settle scopes s stale).bind (settleAll scopes rest)

end

/-! ## Telling activations apart -/

section

variable {M : Semantics World Value Fault} {scopes : ScopeTree} {t : Target} {c d : Config World Value}
variable {locals stale stale' : List VarId} {e : Expr} {args : List Expr}

/-- Two configurations differ in some of the variables at most, new ones apart. -/
structure Config.Agree (vars : List VarId) (c d : Config World Value) : Prop where
  world : c.world = d.world
  known : ∀ v ∉ vars, c.vars (.known v) = d.vars (.known v)

theorem Config.Agree.refl (vars : List VarId) (c : Config World Value) : c.Agree vars c :=
  ⟨rfl, fun _ _ => rfl⟩

theorem Config.Agree.mono {vars vars' : List VarId} (h : c.Agree vars d) (hsub : vars ⊆ vars') :
    c.Agree vars' d :=
  ⟨h.world, fun v hv => h.known v fun hmem => hv (hsub hmem)⟩

theorem Config.Agree.trans {vars : List VarId} {x : Config World Value} (h : c.Agree vars d)
    (h' : d.Agree vars x) : c.Agree vars x :=
  ⟨h.world.trans h'.world, fun v hv => (h.known v hv).trans (h'.known v hv)⟩

/-- After the same expression, configurations agree as they did before. -/
theorem Semantics.Confined.agree (h : M.Confined scopes e) (hagree : c.Agree stale d)
    (hstale : ∀ v ∈ stale, mentions scopes v e = false) :
    (M.eval e c).1 = (M.eval e d).1 ∧ (M.eval e c).2.Agree stale (M.eval e d).2 := by
  have hmentioned (v : VarId) (hv : mentions scopes v e = true) :
      c.vars (.known v) = d.vars (.known v) := by
    refine hagree.known v fun hmem => ?_
    rw [hstale v hmem] at hv
    cases hv
  obtain ⟨hresult, hworld, hafter⟩ := h.reads c d hagree.world hmentioned
  refine ⟨hresult, hworld, fun v hv => ?_⟩
  cases hmem : mentions scopes v e with
  | true => exact hafter v hmem
  | false =>
    have hother (w : VarId) (hw : Slot.known v = .known w) : mentions scopes w e = false := by
      cases hw
      exact hmem
    rw [h.keeps c _ hother, h.keeps d _ hother]
    exact hagree.known v hv

theorem Semantics.evalAll_agree (hconfined : ∀ e ∈ args, M.Confined scopes e)
    (hstale : ∀ e ∈ args, ∀ v ∈ stale, mentions scopes v e = false) (hagree : c.Agree stale d) :
    (M.evalAll args c).1 = (M.evalAll args d).1 ∧
      (M.evalAll args c).2.Agree stale (M.evalAll args d).2 := by
  induction args generalizing c d with
  | nil => exact ⟨rfl, hagree⟩
  | cons e rest ih =>
    obtain ⟨he, hrest⟩ := List.forall_mem_cons.mp hconfined
    obtain ⟨hfirst, hbehind⟩ := List.forall_mem_cons.mp hstale
    obtain ⟨hresult, hafter⟩ := he.agree hagree hfirst
    rw [evalAll, evalAll]
    generalize M.eval e c = x at hresult hafter ⊢
    generalize M.eval e d = y at hresult hafter ⊢
    obtain ⟨result, c'⟩ := x
    obtain ⟨result', d'⟩ := y
    obtain rfl : result = result' := hresult
    cases result with
    | error fault => exact ⟨rfl, hafter⟩
    | ok value =>
      obtain ⟨hresults, hlast⟩ := ih hrest hbehind hafter
      exact ⟨congrArg (·.map (value :: ·)) hresults, hlast⟩

/-- Two runs end in the same way. If they end normally they differ in the stale variables at most,
and anyway in local ones. -/
structure Alike (locals stale : List VarId) (x y : Exit Value Fault × Config World Value) : Prop where
  within : stale ⊆ locals
  exit : x.1 = y.1
  done : x.1 = .done → x.2.Agree stale y.2
  agree : x.2.Agree locals y.2

namespace Alike

variable {x y : Exit Value Fault × Config World Value} {mid : List VarId}

theorem normal (hsub : stale ⊆ locals) (h : c.Agree stale d) :
    Alike locals stale ((.done, c) : Exit Value Fault × _) (.done, d) :=
  ⟨hsub, rfl, fun _ => h, h.mono hsub⟩

theorem left {exit : Exit Value Fault} (hexit : exit ≠ .done) (hsub : stale' ⊆ locals)
    (hagree : c.Agree locals d) : Alike locals stale' (exit, c) (exit, d) :=
  ⟨hsub, rfl, fun h => absurd h hexit, hagree⟩

theorem mono (h : Alike locals stale x y) (hsub : stale ⊆ stale') (hsub' : stale' ⊆ locals) :
    Alike locals stale' x y :=
  ⟨hsub', h.exit, fun hdone => (h.done hdone).mono hsub, h.agree⟩

theorem andThen {f : Config World Value → Exit Value Fault × Config World Value}
    (h : Alike locals mid x y) (hf : ∀ c d, c.Agree mid d → Alike locals stale (f c) (f d)) :
    Alike locals stale (andThen x f) (TailCalls.andThen y f) := by
  have hsub := (hf x.2 x.2 (.refl mid _)).within
  obtain ⟨exit, c⟩ := x
  obtain ⟨exit', d⟩ := y
  obtain rfl : exit = exit' := h.exit
  cases exit with
  | done => exact hf c d (h.done rfl)
  | _ => exact .left nofun hsub h.agree

theorem withValue {x y : Except Fault α × Config World Value}
    {f : α → Config World Value → Exit Value Fault × Config World Value} (hresult : x.1 = y.1)
    (hagree : x.2.Agree mid y.2) (hmid : mid ⊆ locals) (hsub : stale ⊆ locals)
    (hf : ∀ a c d, c.Agree mid d → Alike locals stale (f a c) (f a d)) :
    Alike locals stale (withValue x f) (TailCalls.withValue y f) := by
  obtain ⟨result, c⟩ := x
  obtain ⟨result', d⟩ := y
  obtain rfl : result = result' := hresult
  cases result with
  | ok a => exact hf a c d hagree
  | error fault => exact .left nofun hsub (hagree.mono hmid)

end Alike

theorem mentions_of_readsStale (h : readsStale scopes stale e = false) :
    ∀ v ∈ stale, mentions scopes v e = false := by
  simpa [readsStale] using h

theorem Config.Agree.store (h : c.Agree stale d) (M : Semantics World Value Fault) (name : Ident)
    (value : Value) :
    (c.set (M.slot scopes name) value).Agree (stale.filter fun v => scopes.varOf name.id != some v)
      (d.set (M.slot scopes name) value) := by
  refine ⟨h.world, fun v hv => ?_⟩
  rw [Config.set_vars, Config.set_vars]
  split
  · rfl
  · rename_i hother
    refine h.known v fun hmem => hother ?_
    have hvar : scopes.varOf name.id = some v := by simpa [hmem] using hv
    rw [Semantics.slot, slotOf_of_varOf hvar]

/-! ## One statement after another -/

theorem store_alike {name : Ident} (hconfined : M.Confined scopes e)
    (h : settleStore scopes name e stale = some stale') (hsub : stale ⊆ locals)
    (hagree : c.Agree stale d) :
    Alike locals stale' (M.store scopes name e c) (M.store scopes name e d) := by
  rw [settleStore] at h
  split at h
  · cases h
  · rename_i hreads
    cases h
    have hsub' : (stale.filter fun v => scopes.varOf name.id != some v) ⊆ locals :=
      List.Subset.trans List.filter_sublist.subset hsub
    obtain ⟨hresult, hafter⟩ := hconfined.agree hagree (mentions_of_readsStale (by simpa using hreads))
    exact .withValue hresult hafter hsub hsub' fun value c d hcd => .normal hsub' (hcd.store M name value)

theorem storeAll_alike (ds : List Declarator) (hconfined : M.AllConfined scopes (declNodes false ds))
    (h : settleDecls scopes ds stale = some stale') (hsub : stale ⊆ locals)
    (hagree : c.Agree stale d) :
    Alike locals stale' (M.storeAll scopes ds c) (M.storeAll scopes ds d) := by
  induction ds generalizing stale c d with
  | nil =>
    cases h
    exact .normal hsub hagree
  | cons x rest ih =>
    obtain ⟨id, name, init⟩ := x
    have hrest : M.AllConfined scopes (declNodes false rest) :=
      fun e he => hconfined e (List.mem_append_right _ he)
    cases init with
    | none => exact ih hrest h hsub hagree
    | some e =>
      obtain ⟨mid, hmid, h⟩ := Option.bind_eq_some_iff.mp h
      have he : M.Confined scopes e :=
        hconfined e (List.mem_append_left _ (List.mem_cons_of_mem _ (e.mem_nodes false)))
      have hfirst := store_alike he hmid hsub hagree
      exact hfirst.andThen fun c d hcd => ih hrest h hfirst.within hcd

theorem perform_alike (hconfined : M.AllConfined scopes (e.nodes false))
    (h : settlePerformed scopes e stale = some stale') (hsub : stale ⊆ locals)
    (hagree : c.Agree stale d) :
    Alike locals stale' (M.perform scopes e c) (M.perform scopes e d) := by
  rw [settlePerformed] at h
  rw [Semantics.perform, Semantics.perform]
  match hstore : plainStore? e with
  | some (name, value) =>
    rw [hstore] at h
    have hvalue : M.Confined scopes value := by
      unfold plainStore? at hstore
      split at hstore
      · cases hstore
        exact hconfined value
          (List.mem_cons_of_mem _ (List.mem_append_right _ (value.mem_nodes false)))
      · cases hstore
    exact store_alike hvalue h hsub hagree
  | none =>
    rw [hstore] at h
    dsimp only at h
    split at h
    · cases h
    · rename_i hreads
      cases h
      obtain ⟨hresult, hafter⟩ := (hconfined e (e.mem_nodes false)).agree hagree
        (mentions_of_readsStale (by simpa using hreads))
      exact .withValue hresult hafter hsub hsub fun _ c d hcd => .normal hsub hcd

theorem nodes_subset_exprNodes (deep : Bool) (h : e ∈ args) : e.nodes deep ⊆ exprNodes deep args := by
  induction args with
  | nil => cases h
  | cons arg args ih =>
    rcases List.mem_cons.mp h with rfl | h
    · exact List.subset_append_left _ _
    · exact List.Subset.trans (ih h) (List.subset_append_right _ _)

theorem Target.args?_eq_some {s : Stmt} (h : t.args? scopes s = some args) :
    ∃ id id' callee, s = .return id (some (.call id' (.ident callee) args)) ∧
      args.length ≤ t.params.length := by
  unfold Target.args? at h
  split at h
  · split at h
    · rename_i hcall
      cases h
      exact ⟨_, _, _, rfl, of_decide_eq_true (Bool.and_eq_true_iff.mp hcall).1⟩
    · cases h
  · cases h

/-- An argument mentions no more than the call. -/
theorem mentions_of_arg {id : NodeId} {callee : Expr} {v : VarId} (harg : e ∈ args)
    (h : mentions scopes v (.call id callee args) = false) : mentions scopes v e = false := by
  rw [mentions, List.any_eq_false] at h ⊢
  exact fun n hn => h n (List.mem_cons_of_mem _
    (List.mem_append_right _ (nodes_subset_exprNodes true harg hn)))

theorem Semantics.AllConfined.mono {ns ms : List Node} (h : M.AllConfined scopes ns) (hsub : ms ⊆ ns) :
    M.AllConfined scopes ms :=
  fun e he => h e (hsub he)

theorem Target.confined_of_args? {s : Stmt} (h : t.args? scopes s = some args)
    (hconfined : M.AllConfined scopes (s.nodes false)) : ∀ e ∈ args, M.Confined scopes e := by
  obtain ⟨id, id', callee, rfl, -⟩ := Target.args?_eq_some h
  intro e he
  have hmem := nodes_subset_exprNodes false he (e.mem_nodes false)
  exact hconfined e (List.mem_cons_of_mem _ (List.mem_cons_of_mem _ (List.mem_append_right _ hmem)))

theorem Target.exec_of_args? {s : Stmt} (h : t.args? scopes s = some args) (c : Config World Value) :
    M.exec scopes t s c = withValue (M.evalAll args c) fun values c => (.calls values, c) := by
  obtain ⟨id, id', callee, rfl, -⟩ := Target.args?_eq_some h
  rw [Semantics.exec, h]

theorem Target.exec_return {id : NodeId} {arg : Option Expr}
    (h : t.args? scopes (.return id arg) = none) (c : Config World Value) :
    M.exec scopes t (.return id arg) c = M.giveBack arg c := by
  rw [Semantics.exec, h]

/-- A `return`, be it a tail call or not. -/
theorem return_alike {id : NodeId} (arg : Option Expr)
    (hconfined : M.AllConfined scopes (Stmt.nodes false (.return id arg)))
    (hreads : ∀ e, arg = some e → readsStale scopes stale e = false) (hsub : stale ⊆ locals)
    (hagree : c.Agree stale d) :
    Alike locals [] (M.exec scopes t (.return id arg) c) (M.exec scopes t (.return id arg) d) := by
  match hargs : t.args? scopes (.return id arg) with
  | some args =>
    rw [Target.exec_of_args? hargs, Target.exec_of_args? hargs]
    have hevery := Target.confined_of_args? hargs hconfined
    obtain ⟨_, id', callee, heq, -⟩ := Target.args?_eq_some hargs
    cases heq
    have hstale := mentions_of_readsStale (hreads _ rfl)
    obtain ⟨hresult, hafter⟩ := Semantics.evalAll_agree hevery
      (fun e he v hv => mentions_of_arg he (hstale v hv)) hagree
    exact .withValue hresult hafter hsub (List.nil_subset _)
      fun _ c d hcd => .left nofun (List.nil_subset _) (hcd.mono hsub)
  | none =>
    rw [Target.exec_return hargs, Target.exec_return hargs]
    cases arg with
    | none => exact .left nofun (List.nil_subset _) (hagree.mono hsub)
    | some e =>
      have he : M.Confined scopes e := hconfined e (List.mem_cons_of_mem _ (e.mem_nodes false))
      obtain ⟨hresult, hafter⟩ := he.agree hagree (mentions_of_readsStale (hreads e rfl))
      exact .withValue hresult hafter hsub (List.nil_subset _)
        fun _ c d hcd => .left nofun (List.nil_subset _) (hcd.mono hsub)

mutual

/-- A statement that settles does the same if only stale variables differ. -/
theorem exec_alike (s : Stmt) {stale stale' : List VarId} {c d : Config World Value}
    (hconfined : M.AllConfined scopes (s.nodes false))
    (h : settle scopes s stale = some stale') (hsub : stale ⊆ locals) (hagree : c.Agree stale d) :
    Alike locals stale' (M.exec scopes t s c) (M.exec scopes t s d) := by
  cases s with
  | expr id e =>
    exact perform_alike (fun e' he => hconfined e' (List.mem_cons_of_mem _ he)) h hsub hagree
  | var x =>
    obtain ⟨id, kind, ds⟩ := x
    cases kind with
    | var =>
      refine storeAll_alike ds (fun e he => hconfined e ?_) h hsub hagree
      exact List.mem_cons_of_mem _ (List.mem_cons_of_mem _ he)
    | _ => cases h
  | block b =>
    obtain ⟨id, ss⟩ := b
    exact execAll_alike ss (fun e he => hconfined e (List.mem_cons_of_mem _ he)) h hsub hagree
  | «if» id test yes no =>
    rw [settle] at h
    split at h
    · cases h
    · rename_i hreads
      obtain ⟨mid, hmid, h⟩ := Option.bind_eq_some_iff.mp h
      obtain ⟨mid', hmid', h⟩ := Option.bind_eq_some_iff.mp h
      cases h
      have hparts : M.AllConfined scopes (test.nodes false ++ yes.nodes false ++ stmtNodes? false no) :=
        hconfined.mono (List.subset_cons_self _ _)
      have hyes (c d : Config World Value) (hcd : c.Agree stale d) :=
        exec_alike yes (fun e he => hparts e (by simp [he])) hmid hsub hcd
      have hno (c d : Config World Value) (hcd : c.Agree stale d) :=
        exec?_alike no (fun e he => hparts e (by simp [he])) hmid' hsub hcd
      have hsub' : mid ++ mid' ⊆ locals :=
        List.append_subset.mpr ⟨(hyes c d hagree).within, (hno c d hagree).within⟩
      have htest : M.Confined scopes test := hparts test (by simp [test.mem_nodes])
      obtain ⟨hresult, hafter⟩ := htest.agree hagree (mentions_of_readsStale (by simpa using hreads))
      refine .withValue hresult hafter hsub hsub' fun value c d hcd => ?_
      split
      · exact (hyes c d hcd).mono (List.subset_append_left _ _) hsub'
      · exact (hno c d hcd).mono (List.subset_append_right _ _) hsub'
  | «return» id arg =>
    cases arg with
    | none =>
      cases h
      exact return_alike none hconfined nofun hsub hagree
    | some e =>
      rw [settle] at h
      split at h
      · cases h
      · rename_i hreads
        cases h
        refine return_alike (some e) hconfined (fun e' he => ?_) hsub hagree
        cases he
        simpa using hreads
  | _ => cases h
termination_by structural s

theorem exec?_alike (s : Option Stmt) {stale stale' : List VarId} {c d : Config World Value}
    (hconfined : M.AllConfined scopes (stmtNodes? false s))
    (h : settle? scopes s stale = some stale') (hsub : stale ⊆ locals) (hagree : c.Agree stale d) :
    Alike locals stale' (M.exec? scopes t s c) (M.exec? scopes t s d) := by
  cases s with
  | none =>
    cases h
    exact .normal hsub hagree
  | some s => exact exec_alike s hconfined h hsub hagree
termination_by structural s

/-- A body that settles does the same in activations that differ in stale variables only. -/
theorem execAll_alike (ss : List Stmt) {stale stale' : List VarId} {c d : Config World Value}
    (hconfined : M.AllConfined scopes (stmtNodes false ss))
    (h : settleAll scopes ss stale = some stale') (hsub : stale ⊆ locals)
    (hagree : c.Agree stale d) :
    Alike locals stale' (M.execAll scopes t ss c) (M.execAll scopes t ss d) := by
  cases ss with
  | nil =>
    cases h
    exact .normal hsub hagree
  | cons s rest =>
    obtain ⟨mid, hmid, h⟩ := Option.bind_eq_some_iff.mp h
    have hfirst := exec_alike s (fun e he => hconfined e (List.mem_append_left _ he)) hmid hsub hagree
    exact hfirst.andThen fun c d hcd =>
      execAll_alike rest (fun e he => hconfined e (List.mem_append_right _ he)) h hfirst.within hcd
termination_by structural ss

end

end

end TailCalls

end EsOptimizer
