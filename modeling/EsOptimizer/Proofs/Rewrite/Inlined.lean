import EsOptimizer.Proofs.Pass.Template
import EsOptimizer.Proofs.Pass.Yields
import EsOptimizer.Proofs.Run.Basic
import EsOptimizer.Proofs.Syntax.Functions

/-!
# Values of inlined calls

`Expr.compute` evaluates expressions over literals, names and operators. What a template becomes with
arguments put in computes what the call does (`compute_instantiate`), where a parameter that has no
argument is `undefined`, provided that the template deletes none of its parameters.

Deleting is the one operator that asks for more than a value: a variable cannot be deleted, while what
is put in its place can, unless it is a name again. So a template in general computes what it would if
its parameters could be deleted (`compute_instantiate_gone`).
-/

namespace EsOptimizer

/-! ## Expressions that compute -/

/-- The name that an expression is, if it is just a name. -/
def Expr.name? (e : Expr) : Option String := e.ident?.map (·.name)

mutual

/-- The value of an expression over literals, names and operators. Deleting a name tells whether it is
one of those that can go, and deleting anything else succeeds. -/
def Expr.compute (gone : List String) (env : Env) : Expr → Option Primitive
  | .ident i => some (env.read i.name)
  | .string _ s => some (.string s)
  | .bool _ b => some (.bool b)
  | .null _ => some .null
  | .number _ n => some (.number n)
  | .unary _ op arg =>
    if op = .delete then
      match arg.name? with
      | some name => some (.bool (gone.contains name))
      | none => (arg.compute gone env).map fun _ => .bool true
    else (arg.compute gone env).bind (Primitive.unary op)
  | .binary _ op left right =>
    (left.compute gone env).bind fun a =>
      if op = .or && a.truthy || op = .and && !a.truthy then some a
      else (right.compute gone env).bind fun b =>
        if op.isLogical then some b else Primitive.binary op a b
  | .cond _ test yes no =>
    (test.compute gone env).bind fun a =>
      if a.truthy then yes.compute gone env else no.compute gone env
  | .seq _ exprs => computeLast gone env exprs none
  | _ => none

/-- The value of the last expression, or the value before if there is none. -/
def computeLast (gone : List String) (env : Env) : List Expr → Option Primitive → Option Primitive
  | [], before => before
  | e :: rest, _ => (e.compute gone env).bind fun a => computeLast gone env rest (some a)

end

mutual

/-- Whether a name is deleted in an expression that computes. -/
def Expr.deletes (name : String) : Expr → Bool
  | .unary _ op arg => op = .delete && arg.name? == some name || arg.deletes name
  | .binary _ _ left right => left.deletes name || right.deletes name
  | .cond _ test yes no => test.deletes name || yes.deletes name || no.deletes name
  | .seq _ exprs => anyDeletes name exprs
  | _ => false

def anyDeletes (name : String) : List Expr → Bool
  | [] => false
  | e :: rest => e.deletes name || anyDeletes name rest

end

section

variable {gone gone' : List String} {env : Env}

mutual

/-- It does not matter whether a name can be deleted that is not. -/
theorem Expr.compute_congr_gone (e : Expr)
    (h : ∀ name, e.deletes name = true → (name ∈ gone ↔ name ∈ gone')) :
    e.compute gone env = e.compute gone' env := by
  cases e with
  | unary id op arg =>
    have harg : arg.compute gone env = arg.compute gone' env :=
      Expr.compute_congr_gone arg fun name hname => h name (by simp [Expr.deletes, hname])
    rw [Expr.compute, Expr.compute, harg]
    split
    · rename_i hop
      cases hname : arg.name? with
      | none => rfl
      | some name =>
        have hi := h name (by simp [Expr.deletes, hop, hname])
        simp only [List.contains_eq_mem, hi]
    · rfl
  | binary id op left right =>
    rw [Expr.compute, Expr.compute,
      Expr.compute_congr_gone left fun name hname => h name (by simp [Expr.deletes, hname]),
      Expr.compute_congr_gone right fun name hname => h name (by simp [Expr.deletes, hname])]
  | cond id test yes no =>
    rw [Expr.compute, Expr.compute,
      Expr.compute_congr_gone test fun name hname => h name (by simp [Expr.deletes, hname]),
      Expr.compute_congr_gone yes fun name hname => h name (by simp [Expr.deletes, hname]),
      Expr.compute_congr_gone no fun name hname => h name (by simp [Expr.deletes, hname])]
  | seq id exprs =>
    exact computeLast_congr_gone exprs (fun name hname => h name hname) none
  | _ => rfl
termination_by structural e

theorem computeLast_congr_gone (es : List Expr)
    (h : ∀ name, anyDeletes name es = true → (name ∈ gone ↔ name ∈ gone'))
    (before : Option Primitive) :
    computeLast gone env es before = computeLast gone' env es before := by
  match es with
  | [] => rfl
  | e :: rest =>
    rw [computeLast, computeLast,
      Expr.compute_congr_gone e fun name hname => h name (by simp [anyDeletes, hname])]
    refine congrArg _ (funext fun a => ?_)
    exact computeLast_congr_gone rest (fun name hname => h name (by simp [anyDeletes, hname])) _
termination_by structural es

end

end

/-! ## Copies -/

/-- An expression computes what another does, and is a name if that is one. -/
structure Expr.Alike (e x : Expr) : Prop where
  name : x.name? = e.name?
  compute : ∀ gone env, x.compute gone env = e.compute gone env
  deletes : ∀ name, x.deletes name = e.deletes name

/-- Lists that compute the same, one expression after the other. -/
structure AllAlike (es xs : List Expr) : Prop where
  compute : ∀ gone env before, computeLast gone env xs before = computeLast gone env es before
  deletes : ∀ name, anyDeletes name xs = anyDeletes name es

namespace Expr.Alike

variable {e x a b c a' b' c' : Expr}

/-- Expressions that do not compute at all. -/
theorem of_none (hx : x.name? = none) (he : e.name? = none)
    (hcompute : ∀ gone env, x.compute gone env = none ∧ e.compute gone env = none)
    (hdeletes : ∀ name, x.deletes name = false ∧ e.deletes name = false) : e.Alike x where
  name := by rw [hx, he]
  compute gone env := (hcompute gone env).1.trans (hcompute gone env).2.symm
  deletes name := (hdeletes name).1.trans (hdeletes name).2.symm

theorem unary (op : UnaryOp) (id id' : NodeId) (h : a.Alike a') :
    (Expr.unary id op a).Alike (.unary id' op a') where
  name := rfl
  compute gone env := by rw [Expr.compute, Expr.compute, h.compute, h.name]
  deletes name := by rw [Expr.deletes, Expr.deletes, h.deletes, h.name]

theorem binary (op : BinaryOp) (id id' : NodeId) (ha : a.Alike a') (hb : b.Alike b') :
    (Expr.binary id op a b).Alike (.binary id' op a' b') where
  name := rfl
  compute gone env := by rw [Expr.compute, Expr.compute, ha.compute, hb.compute]
  deletes name := by rw [Expr.deletes, Expr.deletes, ha.deletes, hb.deletes]

theorem cond (id id' : NodeId) (ha : a.Alike a') (hb : b.Alike b') (hc : c.Alike c') :
    (Expr.cond id a b c).Alike (.cond id' a' b' c') where
  name := rfl
  compute gone env := by rw [Expr.compute, Expr.compute, ha.compute, hb.compute, hc.compute]
  deletes name := by rw [Expr.deletes, Expr.deletes, ha.deletes, hb.deletes, hc.deletes]

theorem seq (id id' : NodeId) {es xs : List Expr} (h : AllAlike es xs) :
    (Expr.seq id es).Alike (.seq id' xs) where
  name := rfl
  compute gone env := h.compute gone env none
  deletes name := h.deletes name

end Expr.Alike

theorem AllAlike.cons {e x : Expr} {es xs : List Expr} (h : e.Alike x) (hs : AllAlike es xs) :
    AllAlike (e :: es) (x :: xs) where
  compute gone env before := by
    rw [computeLast, computeLast, h.compute]
    exact congrArg _ (funext fun a => hs.compute gone env (some a))
  deletes name := by rw [anyDeletes, anyDeletes, h.deletes, hs.deletes]

/-- Of what a computation gives, nothing need be known. -/
theorem Yields.any {σ α : Type} (x : StateM σ α) : Yields (fun _ => True) x fun _ => True :=
  fun _ _ => ⟨trivial, trivial⟩

mutual

theorem Expr.alike_renumber (e : Expr) : Copies e.renumber (Expr.Alike e) := by
  have other {x e : Expr} (h : x.name? = none ∧ e.name? = none ∧
      (∀ gone env, x.compute gone env = none ∧ e.compute gone env = none) ∧
      ∀ name, x.deletes name = false ∧ e.deletes name = false) : e.Alike x :=
    .of_none h.1 h.2.1 h.2.2.1 h.2.2.2
  cases e with
  | unary _ op arg =>
    exact .fresh fun id => (Expr.alike_renumber arg).bind fun a ha => .pure (.unary op _ id ha)
  | binary _ op left right =>
    exact .fresh fun id => (Expr.alike_renumber left).bind fun a ha =>
      (Expr.alike_renumber right).bind fun b hb => .pure (.binary op _ id ha hb)
  | cond _ test yes no =>
    exact .fresh fun id => (Expr.alike_renumber test).bind fun a ha =>
      (Expr.alike_renumber yes).bind fun b hb => (Expr.alike_renumber no).bind fun c hc =>
        .pure (.cond _ id ha hb hc)
  | seq _ exprs =>
    exact .fresh fun id => (allAlike_renumber exprs).bind fun xs hxs => .pure (.seq _ id hxs)
  | ident i => exact .renamed fun id => .pure ⟨rfl, fun _ _ => rfl, fun _ => rfl⟩
  | string _ _ | bool _ _ | null _ | number _ _ =>
    exact .fresh fun id => .pure ⟨rfl, fun _ _ => rfl, fun _ => rfl⟩
  | this _ | regex _ _ _ | invalid _ =>
    exact .fresh fun id => .pure (other ⟨rfl, rfl, fun _ _ => ⟨rfl, rfl⟩, fun _ => ⟨rfl, rfl⟩⟩)
  | array _ elems =>
    exact .fresh fun id => (Yields.any _).bind fun _ _ =>
      .pure (other ⟨rfl, rfl, fun _ _ => ⟨rfl, rfl⟩, fun _ => ⟨rfl, rfl⟩⟩)
  | object _ props =>
    exact .fresh fun id => (Yields.any _).bind fun _ _ =>
      .pure (other ⟨rfl, rfl, fun _ _ => ⟨rfl, rfl⟩, fun _ => ⟨rfl, rfl⟩⟩)
  | update _ op before arg =>
    exact .fresh fun id => (Yields.any _).bind fun _ _ =>
      .pure (other ⟨rfl, rfl, fun _ _ => ⟨rfl, rfl⟩, fun _ => ⟨rfl, rfl⟩⟩)
  | function _ _ _ | assign _ _ _ _ | member _ _ _ | index _ _ _ | call _ _ _ | new _ _ _ =>
    exact .fresh fun id => (Yields.any _).bind fun _ _ => (Yields.any _).bind fun _ _ =>
      .pure (other ⟨rfl, rfl, fun _ _ => ⟨rfl, rfl⟩, fun _ => ⟨rfl, rfl⟩⟩)
termination_by structural e

theorem allAlike_renumber (es : List Expr) : Copies (renumberExprs es) (AllAlike es) := by
  match es with
  | [] => exact .pure ⟨fun _ _ _ => rfl, fun _ => rfl⟩
  | e :: rest =>
    exact (Expr.alike_renumber e).bind fun x hx => (allAlike_renumber rest).bind fun xs hxs =>
      .pure (.cons hx hxs)
termination_by structural es

end

/-! ## Arguments put in -/

namespace Expr

/-- What `delete` of an expression gives. -/
def deletion (gone : List String) (env : Env) (e : Expr) : Option Primitive :=
  match e.name? with
  | some name => some (.bool (gone.contains name))
  | none => (e.compute gone env).map fun _ => .bool true

theorem deletion_of_name {gone : List String} {env : Env} {e : Expr} {name : String}
    (h : e.name? = some name) : e.deletion gone env = some (.bool (gone.contains name)) := by
  rw [deletion, h]

theorem deletion_of_none {gone : List String} {env : Env} {e : Expr} (h : e.name? = none) :
    e.deletion gone env = (e.compute gone env).map fun _ => .bool true := by
  rw [deletion, h]

theorem compute_unary (gone : List String) (env : Env) (id : NodeId) (op : UnaryOp) (arg : Expr) :
    (Expr.unary id op arg).compute gone env = if op = .delete then arg.deletion gone env
      else (arg.compute gone env).bind (Primitive.unary op) := by
  rw [compute, deletion]

end Expr

namespace InlineFunctions

variable {params : List String} {args : List Expr} {env outer : Env}

/-- The parameters that can be deleted where their arguments stand for them. -/
def freed (params : List String) (args : List Expr) : List String :=
  params.filter fun name => (((params.zip args).lookup name).bind Expr.name?).isNone

theorem mem_freed {name : String} : name ∈ freed params args ↔
    name ∈ params ∧ ((params.zip args).lookup name).bind Expr.name? = none := by
  rw [freed, List.mem_filter, Option.isNone_iff_eq_none]

/-- Inside of a call, in `env`, a parameter has the value that its argument has outside, in `outer`, and
other names are what they are outside. -/
structure Passes (params : List String) (args : List Expr) (outer env : Env) : Prop where
  given : ∀ name ∈ params, ∀ arg, (params.zip args).lookup name = some arg →
    arg.compute [] outer = some (env.read name)
  missing : ∀ name ∈ params, (params.zip args).lookup name = none → env.read name = .undefined
  others : ∀ name ∉ params, env.read name = outer.read name

/-- An expression with arguments put in does outside what it does inside of a call. -/
structure Becomes (params : List String) (args : List Expr) (outer env : Env) (e x : Expr) :
    Prop where
  compute : x.compute [] outer = e.compute (freed params args) env
  deletion : x.deletion [] outer = e.deletion (freed params args) env

theorem Becomes.of_none {e x : Expr} (hx : x.name? = none) (he : e.name? = none)
    (h : x.compute [] outer = e.compute (freed params args) env) :
    Becomes params args outer env e x where
  compute := h
  deletion := by rw [Expr.deletion_of_none hx, Expr.deletion_of_none he, h]

/-- Nothing but a name is replaced as a whole. -/
theorem yields_replaced {role : Role} {e : Expr} {parts : Edit Expr} {P : Expr → Prop}
    (h : Yields (fun _ => True) parts fun x => x.name? = none ∧ P x) :
    Yields (fun _ => True) ((substitution params args).replaced role e parts) P := by
  refine h.bind fun x ⟨hname, hx⟩ => ?_
  cases x with
  | ident i => cases hname
  | _ => exact .pure hx

theorem substitution_ident (params : List String) (args : List Expr) (role : Role) (i : Ident) :
    (substitution params args).onExpr (.ident i) role =
      if params.contains i.name then
        match (params.zip args).lookup i.name with
        | some arg => pure arg
        | none => Make.undefined
      else pure (.ident i) := rfl

/-- A name gives way to its argument, or to `undefined`. -/
theorem yields_ident (h : Passes params args outer env) (role : Role) (i : Ident) :
    Yields (fun _ => True) ((substitution params args).onExpr (.ident i) role)
      (Becomes params args outer env (.ident i)) := by
  have hname : (Expr.ident i).name? = some i.name := rfl
  rw [substitution_ident]
  split
  · rename_i hmem
    rw [List.contains_iff_mem] at hmem
    cases harg : (params.zip args).lookup i.name with
    | some arg =>
      refine .pure ⟨h.given _ hmem _ harg, ?_⟩
      rw [Expr.deletion_of_name hname]
      cases hvar : arg.name? with
      | some name =>
        have hnot : i.name ∉ freed params args := fun hfreed => by
          rw [mem_freed, harg, Option.bind_some, hvar] at hfreed
          cases hfreed.2
        simp [Expr.deletion_of_name hvar, hnot]
      | none =>
        have hfreed : i.name ∈ freed params args := mem_freed.mpr ⟨hmem, by rw [harg, Option.bind_some, hvar]⟩
        simp [Expr.deletion_of_none hvar, h.given _ hmem _ harg, hfreed]
    | none =>
      have hfreed : i.name ∈ freed params args := mem_freed.mpr ⟨hmem, by rw [harg, Option.bind_none]⟩
      refine fun s hs => ⟨trivial, ⟨?_, ?_⟩⟩
      · exact congrArg some (h.missing _ hmem harg).symm
      · rw [Expr.deletion_of_name hname, List.contains_iff_mem.mpr hfreed]
        rfl
  · rename_i hmem
    rw [List.contains_iff_mem] at hmem
    have hnot : i.name ∉ freed params args := fun hfreed => hmem (mem_freed.mp hfreed).1
    refine .pure ⟨congrArg some (h.others _ hmem).symm, ?_⟩
    simp [Expr.deletion_of_name hname, hnot]

mutual

theorem yields_onExpr (h : Passes params args outer env) (e : Expr) (role : Role) :
    Yields (fun _ => True) ((substitution params args).onExpr e role)
      (Becomes params args outer env e) := by
  cases e with
  | ident i => exact yields_ident h role i
  | unary id op arg =>
    refine yields_replaced ((yields_onExpr h arg _).bind fun a ha => .pure ⟨rfl, .of_none rfl rfl ?_⟩)
    rw [Expr.compute_unary, Expr.compute_unary, ha.compute, ha.deletion]
  | binary id op left right =>
    refine yields_replaced ((yields_onExpr h left _).bind fun a ha => (yields_onExpr h right _).bind
      fun b hb => .pure ⟨rfl, .of_none rfl rfl ?_⟩)
    rw [Expr.compute, Expr.compute, ha.compute, hb.compute]
  | cond id test yes no =>
    refine yields_replaced ((yields_onExpr h test _).bind fun a ha => (yields_onExpr h yes _).bind
      fun b hb => (yields_onExpr h no _).bind fun c hc => .pure ⟨rfl, .of_none rfl rfl ?_⟩)
    rw [Expr.compute, Expr.compute, ha.compute, hb.compute, hc.compute]
  | seq id exprs =>
    exact yields_replaced ((yields_onExprs h exprs).bind fun xs hxs =>
      .pure ⟨rfl, .of_none rfl rfl (hxs none)⟩)
  | this _ | string _ _ | bool _ _ | null _ | number _ _ | regex _ _ _ | invalid _ =>
    exact yields_replaced (.pure ⟨rfl, .of_none rfl rfl rfl⟩)
  | array _ _ | object _ _ | function _ _ _ | update _ _ _ _ | member _ _ _ =>
    exact yields_replaced ((Yields.any _).bind fun _ _ => .pure ⟨rfl, .of_none rfl rfl rfl⟩)
  | assign _ _ _ _ | index _ _ _ | call _ _ _ | new _ _ _ =>
    exact yields_replaced ((Yields.any _).bind fun _ _ => (Yields.any _).bind fun _ _ =>
      .pure ⟨rfl, .of_none rfl rfl rfl⟩)
termination_by structural e

theorem yields_onExprs (h : Passes params args outer env) (es : List Expr) :
    Yields (fun _ => True) ((substitution params args).onExprs es) fun xs => ∀ before,
      computeLast [] outer xs before = computeLast (freed params args) env es before := by
  match es with
  | [] => exact .pure fun _ => rfl
  | e :: rest =>
    refine (yields_onExpr h e .value).bind fun x hx => (yields_onExprs h rest).bind fun xs hxs =>
      .pure fun before => ?_
    rw [computeLast, computeLast, hx.compute]
    exact congrArg _ (funext fun a => hxs (some a))
termination_by structural es

end

/-! ## Calls -/

/-- Parameters of different names are bound one after the other. -/
theorem bindParams_append {items : List (Ident × Primitive)} {env : Env}
    (h : (env.map (·.1) ++ items.map (·.1.name)).Nodup) :
    items.foldl (fun env e => Env.bindParam env e.1.name e.2) env =
      env ++ items.map fun e => (e.1.name, e.2) := by
  induction items generalizing env with
  | nil => exact (List.append_nil env).symm
  | cons e rest ih =>
    have hnew : e.1.name ∉ env.map (·.1) := fun hmem =>
      (List.nodup_append'.mp h).2.2 hmem List.mem_cons_self
    have hhas : ¬Env.has env e.1.name = true := by
      rw [Env.has, Option.not_isSome_iff_eq_none, List.lookup_eq_none_iff]
      refine fun x hx => bne_iff_ne.mpr fun heq : e.1.name = x.1 => hnew ?_
      rw [heq]
      exact List.mem_map_of_mem hx
    have hbind : Env.bindParam env e.1.name e.2 = env ++ [(e.1.name, e.2)] := if_neg hhas
    rw [List.foldl_cons, hbind, ih, List.append_assoc]
    · rfl
    · rw [List.map_append, List.append_assoc]
      exact h

/-- A function that only returns has no variables but its parameters. -/
theorem varNames_of_returned {f : Func} {e : Expr} (h : returned? f = some e) : f.varNames = [] := by
  have hnodes : ∀ n ∈ e.nodes false, n.varNames = [] :=
    e.forall_nodes (fun _ => rfl) (fun _ => rfl) fun _ => rfl
  unfold returned? at h
  split at h
  · rename_i id e' hbody
    cases h
    rw [Func.varNames, hbody, List.flatMap_eq_nil_iff]
    intro n hn
    rw [stmtNodes, stmtNodes, Stmt.nodes, exprNodes?, List.append_nil] at hn
    rcases List.mem_cons.mp hn with rfl | hn
    · rfl
    · exact hnodes n hn
  · cases h

theorem entry_of_nodup {f : Func} {e : Expr} (hbody : returned? f = some e)
    (hnodup : (f.params.map (·.name)).Nodup) (values : List Primitive) :
    f.entry values = (f.params.map (·.name)).zip (f.arguments values) := by
  have hlength : f.params.length ≤ (f.arguments values).length := by
    rw [Func.arguments, List.length_map, List.length_range]
  rw [Func.entry, varNames_of_returned hbody, List.foldl_nil, bindParams_append]
  · rw [List.nil_append, List.zip_map_left]
    rfl
  · have hnames : (f.params.zip (f.arguments values)).map (·.1.name) = f.params.map (·.name) := by
      conv_rhs => rw [← List.map_fst_zip hlength, List.map_map]
      rfl
    rw [List.map_nil, List.nil_append, hnames]
    exact hnodup

/-- A parameter has the value of its argument, or none. -/
theorem lookup_bound {values : List Primitive}
    (hargs : List.Forall₂ (fun arg value => arg.compute [] outer = some value) args values)
    {name : String} (h : name ∈ params) :
    ∃ value, (params.zip ((List.range params.length).map fun i =>
        values.getD i .undefined)).lookup name = some value ∧
      (∀ arg, (params.zip args).lookup name = some arg → arg.compute [] outer = some value) ∧
      ((params.zip args).lookup name = none → value = .undefined) := by
  induction params generalizing args values with
  | nil => cases h
  | cons param rest ih =>
    rw [List.length_cons, List.range_succ_eq_map, List.map_cons, List.map_map, List.zip_cons_cons,
      List.lookup_cons]
    by_cases hname : name = param
    · subst hname
      refine ⟨_, by rw [beq_self_eq_true], fun arg harg => ?_, fun hnone => ?_⟩
      · cases hargs with
        | nil => cases harg
        | cons hfirst _ =>
          rw [List.zip_cons_cons, List.lookup_cons, beq_self_eq_true] at harg
          cases harg
          exact hfirst
      · cases hargs with
        | nil => rfl
        | cons _ _ =>
          rw [List.zip_cons_cons, List.lookup_cons, beq_self_eq_true] at hnone
          cases hnone
    · have hmem : name ∈ rest := (List.mem_cons.mp h).resolve_left hname
      rw [beq_eq_false_iff_ne.mpr hname]
      cases hargs with
      | nil =>
        obtain ⟨value, hvalue, -, hnone⟩ := ih .nil hmem
        refine ⟨value, hvalue, nofun, fun _ => hnone ?_⟩
        rw [List.zip_nil_right]
        rfl
      | cons _ hrest =>
        rw [List.zip_cons_cons, List.lookup_cons, beq_eq_false_iff_ne.mpr hname]
        exact ih hrest hmem

/-- What a call binds is what is put in. -/
theorem passes_entry {f : Func} {e : Expr} (hbody : returned? f = some e)
    (hnodup : (f.params.map (·.name)).Nodup) {values : List Primitive}
    (hargs : List.Forall₂ (fun arg value => arg.compute [] outer = some value) args values) :
    Passes (f.params.map (·.name)) args outer (f.entry values ++ outer) := by
  have hbound {name : String} (h : name ∈ f.params.map (·.name)) :
      ∃ value, Env.read (f.entry values ++ outer) name = value ∧
        (∀ arg, ((f.params.map (·.name)).zip args).lookup name = some arg →
          arg.compute [] outer = some value) ∧
        (((f.params.map (·.name)).zip args).lookup name = none → value = .undefined) := by
    obtain ⟨value, hvalue, hrest⟩ := lookup_bound hargs h
    rw [List.length_map] at hvalue
    refine ⟨value, ?_, hrest⟩
    rw [Env.read, List.lookup_append, entry_of_nodup hbody hnodup values, Func.arguments, hvalue]
    rfl
  refine ⟨fun name hname arg harg => ?_, fun name hname hnone => ?_, fun name hname => ?_⟩
  · obtain ⟨value, hread, hgiven, -⟩ := hbound hname
    rw [hread]
    exact hgiven arg harg
  · obtain ⟨value, hread, -, hmissing⟩ := hbound hname
    rw [hread]
    exact hmissing hnone
  · have hnone : (f.entry values).lookup name = none := by
      rw [entry_of_nodup hbody hnodup values, List.lookup_eq_none_iff]
      refine fun x hx => bne_iff_ne.mpr fun heq : name = x.1 => hname ?_
      rw [heq]
      exact (List.of_mem_zip hx).1
    rw [Env.read, Env.read, List.lookup_append, hnone, Option.none_or]

/-- The parameters of a template have different names. -/
theorem nodup_of_template? {scopes : ScopeTree} {f : Func} {t : Template}
    (h : template? scopes f = some t) : (f.params.map (·.name)).Nodup := by
  unfold template? at h
  simp only at h
  split at h
  · split at h
    · split at h
      · rename_i hcond
        simp only [Bool.and_eq_true, decide_eq_true_eq] at hcond
        exact hcond.1.2
      · cases h
    · cases h
  · cases h

/-- What is inlined, seen from outside, does what the body of the call does, except that parameters can
be deleted where no names stand for them. -/
theorem compute_instantiate_gone {scopes : ScopeTree} {f : Func} {t : Template}
    (ht : template? scopes f = some t) {args : List Expr} {values : List Primitive} {outer : Env}
    (hargs : List.Forall₂ (fun arg value => arg.compute [] outer = some value) args values)
    (s : EditState) : (t.instantiate args s).1.compute [] outer =
      t.body.compute (freed t.params args) (f.entry values ++ outer) := by
  obtain ⟨-, -, -, hbody, hparams, -⟩ := template?_spec ht
  have hpasses := passes_entry hbody (nodup_of_template? ht) hargs
  rw [← hparams] at hpasses
  have hcopy := (t.body.alike_renumber s.nextId trivial).2
  set copy := t.body.renumber s.nextId
  have hput := (yields_onExpr hpasses copy.1 .value { s with nextId := copy.2 } trivial).2
  exact hput.compute.trans (hcopy.compute _ _)

/-- A call that is inlined gives what it gave, if the function deletes none of its parameters. -/
theorem compute_instantiate {scopes : ScopeTree} {f : Func} {t : Template}
    (ht : template? scopes f = some t) (hkeeps : ∀ name ∈ t.params, t.body.deletes name = false)
    {args : List Expr} {values : List Primitive} {outer : Env}
    (hargs : List.Forall₂ (fun arg value => arg.compute [] outer = some value) args values)
    (s : EditState) :
    (t.instantiate args s).1.compute [] outer = t.body.compute [] (f.entry values ++ outer) := by
  rw [compute_instantiate_gone ht hargs s]
  refine t.body.compute_congr_gone fun name hname => iff_of_false (fun hfreed => ?_) nofun
  rw [hkeeps name (mem_freed.mp hfreed).1] at hname
  cases hname

end InlineFunctions

end EsOptimizer
