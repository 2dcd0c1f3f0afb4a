import EsOptimizer.Proofs.Scope.Settled

/-!
# What a function declares

On entry to a function, its scope gets the parameters, what the body declares with `var`, and the
functions that the body declares, each name once and in this order. `ScopeTree.Enters` collects what
the finished tree says of a function.
-/

namespace EsOptimizer

/-- A name joins a list of names, unless it is there already. -/
def addName (names : List String) (name : String) : List String :=
  if name ∈ names then names else names ++ [name]

/-- The names of a function, each once, in the order in which they are declared. -/
def namesOf (names : List String) : List String := names.foldl addName []

/-- What a variable of a kind holds at the start. -/
def VarKind.initial (kind : VarKind) : Option Value :=
  if kind = .var then some .undefined else none

/-- The functions that a body declares. -/
def functionDecls (body : List Stmt) : List (Ident × Func) :=
  (stmtNodes false body).filterMap Node.functionDecl?

/-- What a body declares for the function, or program, that it belongs to. -/
def declarations (body : List Stmt) : List (Ident × VarKind) :=
  ((stmtNodes false body).flatMap Node.varNames).map (fun i => (i, .var)) ++
    (functionDecls body).map (fun x => (x.1, .function))

/-- What is declared on entry to a function. -/
def Func.declarations (f : Func) : List (Ident × VarKind) :=
  f.params.map (fun p => (p, .param)) ++ EsOptimizer.declarations f.body.stmts

/-- A variable is the one that a declaration makes. -/
structure Variable.MadeBy (x : Variable) (d : Ident × VarKind) : Prop where
  name : x.name = d.1.name
  kind : x.kind = d.2
  decl : x.decl = some d.1.id
  initial : x.initial = d.2.initial

theorem Variable.MadeBy.extends {x y : Variable} {d : Ident × VarKind} (h : x.MadeBy d)
    (hxy : x.Extends y) : y.MadeBy d where
  name := hxy.name.trans h.name
  kind := hxy.kind.trans h.kind
  decl := hxy.decl.trans h.decl
  initial := hxy.initial.trans h.initial

namespace Resolve

open Resolution

/-- Names of some kinds were declared in a scope. -/
structure Declares (s : ScopeId) (ds : List (Ident × VarKind)) (r r' : Resolution) : Prop where
  kept : (r.tree.scope s).vars <+: (r'.tree.scope s).vars
  names : (r'.tree.scope s).vars.map (·.1) =
    (ds.map (·.1.name)).foldl addName ((r.tree.scope s).vars.map (·.1))
  fresh : ∀ x ∈ (r'.tree.scope s).vars, x ∈ (r.tree.scope s).vars ∨
    ∃ d ∈ ds, (r'.tree.var x.2).MadeBy d

section

variable {n : Nat} {J : NodeId → Prop} {s : ScopeId} {ds es : List (Ident × VarKind)}
  {r r' r'' : Resolution}

namespace Declares

theorem refl (r : Resolution) : Declares s [] r r := ⟨List.prefix_rfl, rfl, fun _ hx => Or.inl hx⟩

/-- The scope stays as it is. -/
theorem same (h : (r'.tree.scope s).vars = (r.tree.scope s).vars) : Declares s [] r r' :=
  ⟨h ▸ List.prefix_rfl, congrArg _ h, fun _ hx => Or.inl (h ▸ hx)⟩

theorem trans (h : Declares s ds r r') (hr' : r'.Ok) (hbuilds : Builds n J r' r'')
    (h' : Declares s es r' r'') : Declares s (ds ++ es) r r'' where
  kept := h.kept.trans h'.kept
  names := by rw [h'.names, h.names, List.map_append, List.foldl_append]
  fresh := fun x hx => by
    rcases h'.fresh x hx with hx | ⟨d, hd, hmade⟩
    · refine (h.fresh x hx).imp_right fun ⟨d, hd, hmade⟩ => ⟨d, List.mem_append_left _ hd, ?_⟩
      exact hmade.extends (hbuilds.grows.extended x.2 (hr'.tree.listed s x hx).1)
    · exact Or.inr ⟨d, List.mem_append_right _ hd, hmade⟩

end Declares

theorem lookup_kept {xs ys : List (String × VarId)} (h : xs <+: ys) {name : String} {v : VarId}
    (hv : xs.lookup name = some v) : ys.lookup name = some v := by
  obtain ⟨zs, rfl⟩ := h
  rw [List.lookup_append, hv]
  rfl

/-- A variable that is found by one of these names. -/
theorem exists_lookup_of_found {xs : List (String × VarId)} {ps : List Ident} {vs : List VarId}
    (h : List.Forall₂ (fun (p : Ident) v => xs.lookup p.name = some v) ps vs) {v : VarId}
    (hv : v ∈ vs) : ∃ name, xs.lookup name = some v := by
  induction h with
  | nil => cases hv
  | cons hp _ ih =>
    rcases List.mem_cons.mp hv with rfl | hv
    · exact ⟨_, hp⟩
    · exact ih hv

theorem addName_of_lookup {xs : List (String × VarId)} {name : String} {v : VarId}
    (h : xs.lookup name = some v) : addName (xs.map (·.1)) name = xs.map (·.1) :=
  if_pos (List.mem_map_of_mem (ScopeTree.mem_of_lookup h))

/-- The outcome of declaring a name. -/
structure DeclaresIn (s : ScopeId) (i : Ident) (kind : VarKind) (r : Resolution) (v : VarId)
    (r' : Resolution) : Prop where
  declares : Declares s [(i, kind)] r r'
  found : (r'.tree.scope s).vars.lookup i.name = some v
  hoisted : ∀ q, (r'.tree.scope q).hoisted = (r.tree.scope q).hoisted
  functions : r'.tree.functions = r.tree.functions

theorem declareIn_spec (hs : s < r.tree.scopes.size) (i : Ident) (kind : VarKind) :
    DeclaresIn s i kind r (declareIn s i kind r).1 (declareIn s i kind r).2 := by
  rw [declareIn_eq]
  cases hknown : (r.tree.scope s).vars.lookup i.name with
  | some v =>
    refine ⟨⟨List.prefix_rfl, ?_, fun x hx => Or.inl hx⟩, hknown, fun _ => rfl, rfl⟩
    exact (addName_of_lookup hknown).symm
  | none =>
    set x := unusedVar r.tree s i.name kind (some i.id) kind.initial
    have hscope (q : Nat) : (r.tree.addVar x).scope q = if s = q ∧ q < r.tree.scopes.size then
        { r.tree.scope q with vars := (r.tree.scope q).vars ++ [(i.name, r.tree.vars.size)] }
        else r.tree.scope q :=
      ScopeTree.addVar_scope r.tree x q
    have hvars : ((r.tree.addVar x).scope s).vars =
        (r.tree.scope s).vars ++ [(i.name, r.tree.vars.size)] := by
      rw [hscope, if_pos ⟨rfl, hs⟩]
    have hvar : (r.tree.addVar x).var r.tree.vars.size = x := by
      rw [ScopeTree.addVar_var, if_pos rfl]
    refine ⟨⟨?_, ?_, ?_⟩, ?_, fun q => ?_, rfl⟩
    · exact hvars ▸ List.prefix_append _ _
    · change List.map _ ((r.tree.addVar x).scope s).vars = _
      rw [hvars, List.map_append]
      exact (if_neg (ScopeTree.not_mem_of_lookup hknown)).symm
    · intro y hy
      change y ∈ ((r.tree.addVar x).scope s).vars at hy
      rw [hvars] at hy
      refine (List.mem_append.mp hy).imp_right fun hy => ?_
      refine ⟨(i, kind), List.mem_cons_self, ?_⟩
      rw [List.mem_singleton.mp hy]
      change ((r.tree.addVar x).var r.tree.vars.size).MadeBy (i, kind)
      rw [hvar]
      exact ⟨rfl, rfl, rfl, rfl⟩
    · change ((r.tree.addVar x).scope s).vars.lookup i.name = _
      rw [hvars, List.lookup_append, hknown]
      change List.lookup i.name [(i.name, r.tree.vars.size)] = some r.tree.vars.size
      exact List.lookup_cons_self
    · change ((r.tree.addVar x).scope q).hoisted = _
      rw [hscope]
      split <;> rfl

/-- A use of a name that is declared in the scope of the walk changes no scope. -/
theorem noteSite_found (hr : r.Ok) {i : Ident} {v : VarId} (kind : SiteKind)
    (h : (r.tree.scope r.current).vars.lookup i.name = some v) :
    (noteSite i kind r).2.tree.scopes = r.tree.scopes ∧
      (noteSite i kind r).2.tree.functions = r.tree.functions := by
  have hresolve : resolve i r = (some v, r) := by
    have hlookup : r.tree.lookup r.current i.name = some v := by rw [ScopeTree.lookup_eq hr.tree, h]
    exact resolve_found hlookup
  change (addSite i kind r).2.tree.scopes = _ ∧ (addSite i kind r).2.tree.functions = _
  rw [addSite_apply, hresolve]
  exact ⟨rfl, rfl⟩

theorem scope_congr {t t' : ScopeTree} (h : t'.scopes = t.scopes) (s : ScopeId) :
    t'.scope s = t.scope s := by
  rw [ScopeTree.scope, ScopeTree.scope, h]

/-! ## Parameters -/

/-- The outcome of declaring parameters. -/
structure DeclaresParams (params : List Ident) (r : Resolution) (vs : List VarId) (r' : Resolution) :
    Prop where
  declares : Declares r.current (params.map fun p => (p, .param)) r r'
  found : List.Forall₂ (fun (p : Ident) v =>
    (r'.tree.scope r.current).vars.lookup p.name = some v) params vs
  hoisted : ∀ q, (r'.tree.scope q).hoisted = (r.tree.scope q).hoisted
  keeps : ∀ fs, Writes fs r → Writes fs r'

theorem declareParams_spec (hr : r.Ok) (params : List Ident) :
    DeclaresParams params r (declareParams r.current params r).1
      (declareParams r.current params r).2 := by
  induction params generalizing r with
  | nil => exact ⟨Declares.refl r, .nil, fun _ => rfl, fun _ h => h⟩
  | cons p rest ih =>
    have hdeclare : Builds 0 (fun _ => True) r (declareIn r.current p .param r).2 :=
      builds_declareIn hr nofun trivial hr.inside (Nat.zero_le _)
    have hspec := declareIn_spec hr.inside p .param
    have hkeeps₁ (fs : ScopeId) (h : Writes fs r) := keeps_declareIn r.current p .param r h
    have hr₁ := hdeclare.ok' hr
    set v := (declareIn r.current p .param r).1
    set r₁ := (declareIn r.current p .param r).2
    have hsite : Builds 0 (fun _ => True) r₁ (noteSite p .init r₁).2 :=
      builds_noteSite hr₁ trivial .init
    have hsame := (noteSite_found hr₁ .init (hdeclare.current ▸ hspec.found)).1
    have hkeeps₂ (fs : ScopeId) (h : Writes fs r₁) := keeps_noteSite p .init r₁ h
    have hr₂ := hsite.ok' hr₁
    have hcurrent : (noteSite p .init r₁).2.current = r.current :=
      hsite.current.trans hdeclare.current
    set r₂ := (noteSite p .init r₁).2
    have hih := ih hr₂
    rw [hcurrent] at hih
    have hbuilds : Builds 0 (fun _ => True) r₂ (declareParams r.current rest r₂).2 :=
      builds_declareParams hr₂ (hr.inside.trans_le (hdeclare.grows.size.trans hsite.grows.size))
        (Nat.zero_le _) fun _ _ => trivial
    have happly : declareParams r.current (p :: rest) r =
        (v :: (declareParams r.current rest r₂).1, (declareParams r.current rest r₂).2) := by
      rw [declareParams, List.mapM_cons]
      rfl
    have hscope (q : ScopeId) : r₂.tree.scope q = r₁.tree.scope q := scope_congr hsame q
    have hfirst : Declares r.current [(p, .param)] r r₂ :=
      (hspec.declares.trans hr₁ hsite (Declares.same (congrArg Scope.vars (hscope _))) :)
    rw [happly]
    refine ⟨?_, .cons ?_ ?_, fun q => ?_, fun fs h => ?_⟩
    · have hdeclares := hih.declares
      rw [hcurrent] at hdeclares
      exact hfirst.trans hr₂ hbuilds hdeclares
    · have hkept := hih.declares.kept
      rw [hcurrent, hscope] at hkept
      exact lookup_kept hkept hspec.found
    · have hfound := hih.found
      rwa [hcurrent] at hfound
    · rw [hih.hoisted, hscope, hspec.hoisted]
    · exact hih.keeps fs (hkeeps₂ fs (hkeeps₁ fs h))

/-! ## Variables and functions of a body -/

/-- Declares variables. -/
def declareVars (s : ScopeId) (vars : List Ident) : Resolve Unit := do
  for ident in vars do
    discard (declareIn s ident .var)

/-- Declares functions, which are in force from the start. -/
def declareFunctions (s : ScopeId) (fns : List (Ident × Func)) : Resolve Unit := do
  for (ident, fn) in fns do
    let v ← declareIn s ident .function
    modifyTree fun t => t.addHoisted s (v, fn.id)

theorem hoist_apply (body : List Stmt) (hfn : (r.tree.scope r.current).fnScope = r.current) :
    hoist body r = declareFunctions r.current (functionDecls body)
      (declareVars r.current ((stmtNodes false body).flatMap Node.varNames) r).2 := by
  have happly : hoist body r = declareFunctions (r.tree.scope r.current).fnScope
      (functionDecls body) (declareVars (r.tree.scope r.current).fnScope
        ((stmtNodes false body).flatMap Node.varNames) r).2 := rfl
  rw [happly, hfn]

theorem declareVars_spec (hr : r.Ok) (vars : List Ident) (hs : s < r.tree.scopes.size) :
    Builds 0 (fun _ => True) r (declareVars s vars r).2 ∧
      Declares s (vars.map fun i => (i, .var)) r (declareVars s vars r).2 ∧
      (∀ q, ((declareVars s vars r).2.tree.scope q).hoisted = (r.tree.scope q).hoisted) ∧
      ∀ fs, Writes fs r → Writes fs (declareVars s vars r).2 := by
  induction vars generalizing r with
  | nil => exact ⟨Builds.refl hr, Declares.refl r, fun _ => rfl, fun _ h => h⟩
  | cons i rest ih =>
    have hdeclare : Builds 0 (fun _ => True) r (declareIn s i .var r).2 :=
      builds_declareIn hr nofun trivial hs (Nat.zero_le _)
    have hspec := declareIn_spec hs i .var
    have hkeeps (fs : ScopeId) (h : Writes fs r) := keeps_declareIn s i .var r h
    have happly : declareVars s (i :: rest) r = declareVars s rest (declareIn s i .var r).2 := by
      rw [declareVars, List.forIn_cons]
      rfl
    rw [happly]
    obtain ⟨hbuilds, hdeclares, hhoisted, hrest⟩ :=
      ih (hdeclare.ok' hr) (hs.trans_le hdeclare.grows.size)
    exact ⟨hdeclare.trans hr hbuilds, hspec.declares.trans (hdeclare.ok' hr) hbuilds hdeclares,
      fun q => (hhoisted q).trans (hspec.hoisted q), fun fs h => hrest fs (hkeeps fs h)⟩

theorem addHoisted_vars (t : ScopeTree) (scope : ScopeId) (x : VarId × NodeId) (q : ScopeId) :
    ((t.addHoisted scope x).scope q).vars = (t.scope q).vars ∧
      ((t.addHoisted scope x).scope q).fnScope = (t.scope q).fnScope := by
  rw [ScopeTree.addHoisted_scope]
  split <;> exact ⟨rfl, rfl⟩

/-- Functions and the variables that hold them from the start. -/
def HoistedAs (vars : List (String × VarId)) (fns : List (Ident × Func))
    (hoisted : List (VarId × NodeId)) : Prop :=
  List.Forall₂ (fun (x : Ident × Func) (h : VarId × NodeId) =>
    vars.lookup x.1.name = some h.1 ∧ h.2 = x.2.id) fns hoisted

theorem HoistedAs.mono {xs ys : List (String × VarId)} {fns : List (Ident × Func)}
    {hoisted : List (VarId × NodeId)} (h : HoistedAs xs fns hoisted) (hsub : xs <+: ys) :
    HoistedAs ys fns hoisted :=
  h.imp fun _ _ hx => ⟨lookup_kept hsub hx.1, hx.2⟩

theorem declareFunctions_spec (hr : r.Ok) (fns : List (Ident × Func)) (hs : s < r.tree.scopes.size) :
    Builds 0 (fun _ => True) r (declareFunctions s fns r).2 ∧
      Declares s (fns.map fun x => (x.1, .function)) r (declareFunctions s fns r).2 ∧
      (∃ new, ((declareFunctions s fns r).2.tree.scope s).hoisted = (r.tree.scope s).hoisted ++ new ∧
        HoistedAs ((declareFunctions s fns r).2.tree.scope s).vars fns new) ∧
      ∀ fs, Writes fs r → Writes fs (declareFunctions s fns r).2 := by
  induction fns generalizing r with
  | nil =>
    exact ⟨Builds.refl hr, Declares.refl r, ⟨[], (List.append_nil _).symm, .nil⟩, fun _ h => h⟩
  | cons x rest ih =>
    have hdeclare : Builds 0 (fun _ => True) r (declareIn s x.1 .function r).2 :=
      builds_declareIn hr nofun trivial hs (Nat.zero_le _)
    have hspec := declareIn_spec hs x.1 .function
    have hkeeps (fs : ScopeId) (h : Writes fs r) := keeps_declareIn s x.1 .function r h
    have hr₁ := hdeclare.ok' hr
    set v := (declareIn s x.1 .function r).1
    set r₁ := (declareIn s x.1 .function r).2
    set r₂ : Resolution := { r₁ with tree := r₁.tree.addHoisted s (v, x.2.id) }
    have hbuilds₂ : Builds 0 (fun _ => True) r₁ r₂ :=
      Builds.modifyTree (hdeclare.ok.addHoisted _ _) (ScopeTree.Grows.addHoisted _ (Nat.zero_le _))
    have hvars := addHoisted_vars r₁.tree s (v, x.2.id)
    have hs₁ : s < r₁.tree.scopes.size := hs.trans_le hdeclare.grows.size
    have happly : declareFunctions s (x :: rest) r = declareFunctions s rest r₂ := by
      rw [declareFunctions, List.forIn_cons]
      rfl
    have hfirst : Declares s [(x.1, .function)] r r₂ :=
      (hspec.declares.trans hr₁ hbuilds₂ (Declares.same (hvars s).1) :)
    rw [happly]
    obtain ⟨hbuilds, hdeclares, ⟨new, hnew, hhoisted⟩, hrest⟩ :=
      ih (hbuilds₂.ok' hr₁) (hs₁.trans_le hbuilds₂.grows.size)
    refine ⟨(hdeclare.trans hr hbuilds₂).trans hr hbuilds,
      hfirst.trans (hbuilds₂.ok' hr₁) hbuilds hdeclares, ⟨(v, x.2.id) :: new, ?_, ?_⟩, fun fs h => ?_⟩
    · have hadd : (r₂.tree.scope s).hoisted = (r.tree.scope s).hoisted ++ [(v, x.2.id)] := by
        change ((r₁.tree.addHoisted s (v, x.2.id)).scope s).hoisted = _
        rw [ScopeTree.addHoisted_scope, if_pos ⟨rfl, hs₁⟩]
        exact congrArg (· ++ _) (hspec.hoisted s)
      rw [hnew, hadd, List.append_assoc]
      rfl
    · refine .cons ⟨?_, rfl⟩ hhoisted
      have hkept := hdeclares.kept
      rw [(hvars s).1] at hkept
      exact lookup_kept hkept hspec.found
    · refine hrest fs ⟨?_, (hkeeps fs h).written⟩
      exact ((hvars _).2).trans (hkeeps fs h).fnScope

theorem hoist_spec (hr : r.Ok) (body : List Stmt)
    (hfn : (r.tree.scope r.current).fnScope = r.current) :
    Declares r.current (declarations body) r (hoist body r).2 ∧
      (∃ new, ((hoist body r).2.tree.scope r.current).hoisted =
          (r.tree.scope r.current).hoisted ++ new ∧
        HoistedAs ((hoist body r).2.tree.scope r.current).vars (functionDecls body) new) ∧
      ∀ fs, Writes fs r → Writes fs (hoist body r).2 := by
  rw [hoist_apply body hfn]
  obtain ⟨hbuilds, hvars, hhoisted, hkeeps⟩ := declareVars_spec hr
    ((stmtNodes false body).flatMap Node.varNames) hr.inside
  have hr₁ := hbuilds.ok' hr
  obtain ⟨hbuilds', hfns, ⟨new, hnew, hhoisted'⟩, hkeeps'⟩ :=
    declareFunctions_spec hr₁ (functionDecls body) (hr.inside.trans_le hbuilds.grows.size)
  refine ⟨hvars.trans hr₁ hbuilds' hfns, ⟨new, ?_, hhoisted'⟩, fun fs h => hkeeps' fs (hkeeps fs h)⟩
  rw [hnew, hhoisted]

/-! ## The own name -/

theorem nameVar_own (s : ScopeId) (i : Ident) (r : Resolution) : nameVar s (.own i) r =
    (if ((r.tree.scope s).vars.lookup i.name).isSome then pure none
    else do
      let v ← declareIn s i .ownName
      noteSite i .init
      return some v : Resolve (Option VarId)) r := by
  rw [nameVar]
  change (if ((r.tree.scope s).vars.lookup i.name).isSome = true then _ else _ :
    Resolve (Option VarId)) r = _
  split <;> rfl

/-- Whether a function is entered as a declaration. -/
def FunctionName.isDeclared (name : FunctionName) : Bool := name matches .declared _

/-- At most the own name of a function expression is declared last. -/
theorem nameVar_spec (hr : r.Ok) (name : FunctionName) :
    ∃ own, ((nameVar r.current name r).2.tree.scope r.current).vars =
        (r.tree.scope r.current).vars ++ own ∧
      (∀ x ∈ own, ((nameVar r.current name r).2.tree.var x.2).kind = .ownName) ∧
      (∀ v, (nameVar r.current name r).1 = some v → (∀ i, name ≠ .declared i) → v ∈ own.map (·.2)) ∧
      (name.isDeclared = true → own = []) ∧
      (∀ q, ((nameVar r.current name r).2.tree.scope q).hoisted = (r.tree.scope q).hoisted) ∧
      ∀ fs, Writes fs r → Writes fs (nameVar r.current name r).2 := by
  cases name with
  | none => exact ⟨[], (List.append_nil _).symm, nofun, nofun, nofun, fun _ => rfl, fun _ h => h⟩
  | declared i =>
    exact ⟨[], (List.append_nil _).symm, nofun, fun _ _ h => absurd rfl (h i), fun _ => rfl,
      fun _ => rfl, fun _ h => h⟩
  | own i =>
    rw [nameVar_own]
    split
    · exact ⟨[], (List.append_nil _).symm, nofun, nofun, nofun, fun _ => rfl, fun _ h => h⟩
    · rename_i hnew
      have hdeclare : Builds 0 (fun _ => True) r (declareIn r.current i .ownName r).2 :=
        builds_declareIn hr nofun trivial hr.inside (Nat.zero_le _)
      have hspec := declareIn_spec hr.inside i .ownName
      have hkeeps₁ (fs : ScopeId) (h : Writes fs r) := keeps_declareIn r.current i .ownName r h
      have hr₁ := hdeclare.ok' hr
      set v := (declareIn r.current i .ownName r).1
      set r₁ := (declareIn r.current i .ownName r).2
      have hsame := (noteSite_found hr₁ .init (hdeclare.current ▸ hspec.found)).1
      have hsite : Builds 0 (fun _ => True) r₁ (noteSite i .init r₁).2 :=
        builds_noteSite hr₁ trivial .init
      have hkeeps₂ (fs : ScopeId) (h : Writes fs r₁) := keeps_noteSite i .init r₁ h
      change ∃ own : List (String × VarId),
        ((noteSite i .init r₁).2.tree.scope r.current).vars = _ ∧
        (∀ x ∈ own, ((noteSite i .init r₁).2.tree.var x.2).kind = .ownName) ∧
        (∀ u, some v = some u → _ → _) ∧ (false = true → _) ∧
        (∀ q, ((noteSite i .init r₁).2.tree.scope q).hoisted = _) ∧
        ∀ fs, Writes fs r → Writes fs (noteSite i .init r₁).2
      set r₂ := (noteSite i .init r₁).2
      have hscope (q : ScopeId) : r₂.tree.scope q = r₁.tree.scope q := scope_congr hsame q
      obtain ⟨own, hown⟩ := hspec.declares.kept
      refine ⟨own, by rw [hscope, hown], fun x hx => ?_, ?_, nofun, fun q => ?_, fun fs h => ?_⟩
      · have hmem : x ∈ (r₁.tree.scope r.current).vars := hown ▸ List.mem_append_right _ hx
        rw [(hsite.grows.extended x.2 (hr₁.tree.listed _ x hmem).1).kind]
        rcases hspec.declares.fresh x hmem with hold | hfresh
        · -- Variables are listed once, so those of `own` are new.
          have hdistinct := hr₁.tree.distinct r.current
          rw [← hown, List.map_append, List.nodup_append'] at hdistinct
          exact absurd (List.mem_map_of_mem hx) (hdistinct.2.2 (List.mem_map_of_mem hold))
        · obtain ⟨d, hd, hmade⟩ := hfresh
          rw [hmade.kind, List.mem_singleton.mp hd]
      · rintro u ⟨⟩ -
        have hfound := hspec.found
        have hnone := Option.not_isSome_iff_eq_none.mp hnew
        rw [← hown, List.lookup_append, hnone] at hfound
        exact List.mem_map_of_mem (ScopeTree.mem_of_lookup hfound)
      · rw [hscope, hspec.hoisted]
      · exact hkeeps₂ fs (hkeeps₁ fs h)

end

end Resolve

namespace ScopeTree

/-- What is declared in the scope of a function: the variables `Δ`, and after them at most the own
name of a function expression. -/
structure Declared (t : ScopeTree) (f : Func) (info : FunctionInfo) (Δ : List (String × VarId)) :
    Prop where
  function : t.function? f.id = some info
  inside : info.scope < t.scopes.size
  inner : info.scope ≠ root
  fnScope : (t.scope info.scope).fnScope = info.scope
  vars : ∃ own, (t.scope info.scope).vars = Δ ++ own ∧
    (∀ x ∈ own, (t.var x.2).kind = .ownName) ∧
    (info.isDecl = false → ∀ v, info.nameVar = some v → v ∈ own.map (·.2)) ∧
    (info.isDecl = true → own = [])
  names : Δ.map (·.1) = namesOf (f.declarations.map (·.1.name))
  made : ∀ x ∈ Δ, ∃ d ∈ f.declarations, (t.var x.2).MadeBy d
  params : List.Forall₂ (fun (p : Ident) v => Δ.lookup p.name = some v) f.params info.params
  paramKinds : ∀ v ∈ info.params, (t.var v).kind = .param
  hoisted : Resolve.HoistedAs Δ (functionDecls f.body.stmts) (t.scope info.scope).hoisted

/-- A variable of a function starts as its kind says. -/
theorem Declared.initial {t : ScopeTree} {f : Func} {info : FunctionInfo} {Δ : List (String × VarId)}
    (h : t.Declared f info Δ) {x : String × VarId} (hx : x ∈ Δ) :
    (t.var x.2).initial = (t.var x.2).kind.initial := by
  obtain ⟨d, -, hmade⟩ := h.made x hx
  rw [hmade.initial, hmade.kind]

theorem Declared.grow {t t' : ScopeTree} {n : Nat} {J : NodeId → Prop} {S : ScopeId → Prop}
    {f : Func} {info : FunctionInfo} {Δ : List (String × VarId)} (h : t.Declared f info Δ)
    (hok : t.Ok) (hgrows : t.Grows n J S t') (hn : t.scopes.size ≤ n) (hf : ¬J f.id) :
    ∃ info', info'.scope = info.scope ∧ t'.Declared f info' Δ := by
  obtain ⟨info', hinfo', hsame⟩ := hgrows.function_same hf h.function
  have hscope := hgrows.finished info.scope (h.inside.trans_le hn) h.inner
  obtain ⟨own, hvars, hkinds, hname, hdeclared⟩ := h.vars
  have hext {x : String × VarId} (hx : x ∈ Δ ++ own) :=
    hgrows.extended x.2 (hok.listed info.scope x (hvars ▸ hx)).1
  refine ⟨info', hsame.scope, hinfo', ?_, ?_, ?_, ⟨own, ?_, fun x hx => ?_, fun hdecl v hv => ?_,
    fun hdecl => hdeclared (hsame.isDecl ▸ hdecl)⟩, h.names, fun x hx => ?_, hsame.params ▸ h.params, fun v hv => ?_, ?_⟩
  · exact hsame.scope ▸ h.inside.trans_le hgrows.size
  · exact hsame.scope ▸ h.inner
  · rw [hsame.scope, hscope, h.fnScope]
  · rw [hsame.scope, hscope, hvars]
  · exact (hext (List.mem_append_right _ hx)).kind.trans (hkinds x hx)
  · exact hname (hsame.isDecl ▸ hdecl) v (hsame.nameVar ▸ hv)
  · obtain ⟨d, hd, hmade⟩ := h.made x hx
    exact ⟨d, hd, hmade.extends (hext (List.mem_append_left _ hx))⟩
  · rw [hsame.params] at hv
    obtain ⟨name, hname⟩ := Resolve.exists_lookup_of_found h.params hv
    exact (hext (List.mem_append_left _ (mem_of_lookup hname))).kind.trans (h.paramKinds v hv)
  · rw [hsame.scope, hscope]
    exact h.hoisted

end ScopeTree

namespace Resolve

open Resolution

theorem writes_entered {r : Resolution} (hr : r.Ok) (id bodyId : NodeId) :
    Writes r.tree.scopes.size (entered r id bodyId) := by
  refine ⟨congrArg Scope.fnScope (entered_scope r id bodyId), fun v hv hscope => ?_⟩
  exact absurd hscope (Nat.not_le.mpr (hr.tree.placed v hv).1)

/-- What is declared when the body of a function starts. -/
theorem declared_atBody {r : Resolution} (hr : r.Ok) {name : FunctionName} {id : NodeId}
    (bodyId : NodeId) (params : List Ident) {body : List Stmt} (hbare : Bare body) (hid : id ∉ stmtIds body)
    (hname : id ∉ name.ids) :
    ∃ info Δ, info.scope = r.tree.scopes.size ∧ info.isDecl = name.isDeclared ∧
      (atBody name id params bodyId body r).tree.Declared ⟨id, params, ⟨bodyId, body⟩⟩ info Δ ∧
      Writes r.tree.scopes.size (atBody name id params bodyId body r) := by
  have hr₁ := ok_entered hr id bodyId
  set fs := r.tree.scopes.size with hfs
  set r₁ := entered r id bodyId
  have hscope₁ : r₁.tree.scope fs = { parent := some r.current, kind := .function id, fnScope := fs } :=
    entered_scope r id bodyId
  -- The parameters.
  have hparams : DeclaresParams params r₁ (declareParams fs params r₁).1
    (declareParams fs params r₁).2 := declareParams_spec hr₁ params
  set vs := (declareParams fs params r₁).1
  have hbuilds₂ : Builds fs (fun _ => True) r₁ (afterParams id params r₁) :=
    builds_afterParams hr₁ (Nat.le_refl _) (entered_scopeOf r id bodyId) trivial fun _ _ => trivial
  have hr₂ := hbuilds₂.ok' hr₁
  have hcurrent₂ : (afterParams id params r₁).current = fs := hbuilds₂.current
  have hfn₂ : ((afterParams id params r₁).tree.scope fs).fnScope = fs :=
    (hbuilds₂.grows.fnScope fs hr₁.inside).trans (congrArg Scope.fnScope hscope₁)
  have hfunction₂ : (afterParams id params r₁).tree.function? id = some { scope := fs, params := vs } :=
    Std.TreeMap.getElem?_insert_self
  have hdeclares₂ : Declares fs (params.map fun p => (p, .param)) r₁ (afterParams id params r₁) :=
    ⟨hparams.declares.kept, hparams.declares.names, hparams.declares.fresh⟩
  have hfound₂ : List.Forall₂ (fun (p : Ident) v =>
      ((afterParams id params r₁).tree.scope fs).vars.lookup p.name = some v) params vs := hparams.found
  have hhoisted₂ : ((afterParams id params r₁).tree.scope fs).hoisted = [] :=
    (hparams.hoisted fs).trans (congrArg Scope.hoisted hscope₁)
  have hwrites₂ : Writes fs (afterParams id params r₁) := by
    have h := hparams.keeps fs (writes_entered hr id bodyId)
    exact ⟨h.fnScope, h.written⟩
  set r₂ := afterParams id params r₁
  -- What the body declares.
  have hbuilds₃ : Builds fs (· ≠ id) r₂ (hoist body r₂).2 := by
    refine builds_hoist hr₂ (hcurrent₂ ▸ hfn₂) hcurrent₂.ge ?_ ?_
    · rintro i hi rfl
      exact hid (mem_ids_of_varNames hi)
    · rintro x hx rfl
      exact hid (mem_ids_of_functionDecl hx)
  obtain ⟨hdeclares₃, ⟨hoisted, hhoisted₃, hhoistedAs⟩, hkeeps₃⟩ :=
    hoist_spec hr₂ body (hcurrent₂ ▸ hfn₂)
  rw [hcurrent₂] at hdeclares₃ hhoisted₃ hhoistedAs
  rw [hhoisted₂, List.nil_append] at hhoisted₃
  have hr₃ := hbuilds₃.ok' hr₂
  set r₃ := (hoist body r₂).2
  have hcurrent₃ : r₃.current = fs := hbuilds₃.current.trans hcurrent₂
  have hlexicals : (declareLexicals body r₃).2 = r₃ := declareLexicals_bare hbare r₃
  -- The own name.
  have hnameSpec := nameVar_spec hr₃ name
  rw [hcurrent₃] at hnameSpec
  obtain ⟨own, hvars₄, hkinds₄, hown₄, hdeclared₄, hhoisted₄, hkeeps₄⟩ := hnameSpec
  have hbuilds₄ : Builds fs (· ≠ id) r₃ (nameVar fs name r₃).2 := by
    refine builds_nameVar hr₃ (hcurrent₃ ▸ hr₃.inside) (Nat.le_refl _) ?_
    rintro i rfl rfl
    exact hname List.mem_cons_self
  have hr₄ := hbuilds₄.ok' hr₃
  have hwrites₄ : Writes fs (nameVar fs name r₃).2 := hkeeps₄ fs (hkeeps₃ fs hwrites₂)
  set nv := (nameVar fs name r₃).1
  set r₄ := (nameVar fs name r₃).2
  have hcurrent₄ : r₄.current = fs := hbuilds₄.current.trans hcurrent₃
  have hrest : atBody name id params bodyId body r = (modifyFunction (fun f =>
      { f with nameVar := nv, isDecl := name.isDeclared }) r₄).2 := by
    change (modifyFunction (fun f => { f with
      nameVar := (nameVar fs name (declareLexicals body r₃).2).1
      isDecl := name.isDeclared }) (nameVar fs name (declareLexicals body r₃).2).2).2 = _
    rw [hlexicals]
  have hstack : r₄.functions = id :: r.functions :=
    hbuilds₄.functions.trans (hbuilds₃.functions.trans hbuilds₂.functions)
  rw [modifyFunction_apply _ hstack] at hrest
  -- The function has kept what was noted of it.
  obtain ⟨info, hinfo, hsame⟩ : ∃ info, r₄.tree.function? id = some info ∧
      FunctionInfo.Same { scope := fs, params := vs } info := by
    have hrel := FunctionInfo.Same.trans? (hbuilds₃.grows.functions id (not_not_intro rfl))
      (hbuilds₄.grows.functions id (not_not_intro rfl))
    rw [hfunction₂] at hrel
    cases hfn : r₄.tree.function? id with
    | none =>
      rw [hfn] at hrel
      cases hrel
    | some info =>
      rw [hfn] at hrel
      cases hrel with
      | some hsame => exact ⟨info, rfl, hsame⟩
  refine ⟨{ info with nameVar := nv, isDecl := name.isDeclared }, (r₃.tree.scope fs).vars,
    hsame.scope, rfl, ?_, ?_⟩
  · have hdeclares := hdeclares₂.trans hr₂ hbuilds₃ hdeclares₃
    have hempty : (r₁.tree.scope fs).vars = [] := congrArg Scope.vars hscope₁
    rw [hrest]
    refine ⟨?_, ?_, ?_, ?_, ⟨own, ?_, hkinds₄, fun hdecl v hv => ?_, hdeclared₄⟩, ?_,
      fun x hx => ?_, ?_, fun v hv => ?_, ?_⟩
    · change (r₄.tree.functions.modify id _)[id]? = _
      rw [Std.TreeMap.getElem?_modify_self]
      exact congrArg (Option.map _) hinfo
    · change info.scope < r₄.tree.scopes.size
      rw [hsame.scope, ← hcurrent₄]
      exact hr₄.inside
    · change info.scope ≠ ScopeTree.root
      rw [hsame.scope]
      exact Nat.ne_of_gt hr.tree.nonempty
    · change (r₄.tree.scope info.scope).fnScope = info.scope
      rw [hsame.scope]
      exact hcurrent₄ ▸ hwrites₄.fnScope
    · change (r₄.tree.scope info.scope).vars = _
      rw [hsame.scope, hvars₄]
    · refine hown₄ v hv fun i hi => ?_
      rw [hi] at hdecl
      cases hdecl
    · rw [hdeclares.names, hempty]
      rfl
    · have hext := hbuilds₄.grows.extended x.2 (hr₃.tree.listed fs x hx).1
      have hfresh := (hdeclares.fresh x hx).resolve_left fun h => by
        rw [hempty] at h
        cases h
      obtain ⟨d, hd, hmade⟩ := hfresh
      exact ⟨d, hd, hmade.extends hext⟩
    · change List.Forall₂ _ params info.params
      rw [hsame.params]
      exact hfound₂.imp fun _ _ h => lookup_kept hdeclares₃.kept h
    · have hv : v ∈ info.params := hv
      rw [hsame.params] at hv
      obtain ⟨name, hname⟩ := exists_lookup_of_found hfound₂ hv
      have hmem := ScopeTree.mem_of_lookup hname
      have hkind : (r₂.tree.var v).kind = .param := by
        rcases hdeclares₂.fresh _ hmem with hold | ⟨d, hd, hmade⟩
        · rw [hempty] at hold
          cases hold
        · obtain ⟨q, -, rfl⟩ := List.mem_map.mp hd
          exact hmade.kind
      have hext₃ := hbuilds₃.grows.extended v (hr₂.tree.listed fs _ hmem).1
      have hext₄ := hbuilds₄.grows.extended v
        (hr₃.tree.listed fs _ (hdeclares₃.kept.subset hmem)).1
      exact hext₄.kind.trans (hext₃.kind.trans hkind)
    · change HoistedAs _ _ (r₄.tree.scope info.scope).hoisted
      rw [hsame.scope, hhoisted₄, hhoisted₃]
      exact hhoistedAs
  · rw [hrest]
    exact ⟨hwrites₄.fnScope, hwrites₄.written⟩

end Resolve

namespace ScopeTree

/-- What the finished tree says of a function. -/
structure HasFunction (t : ScopeTree) (f : Func) (info : FunctionInfo) (Δ : List (String × VarId)) :
    Prop extends t.Declared f info Δ where
  body : StmtsResolved t f.body.stmts info.scope
  written : Flat (stmtNodes true f.body.stmts) → ∀ s, t.Encloses info.scope s →
    ∀ x ∈ (t.scope s).vars, ∀ site ∈ (t.var x.2).writes, site.fnScope = info.scope

/-- Scopes inside of one that is left stay the same ones. -/
theorem Grows.lt_of_encloses {t t' : ScopeTree} {n a : Nat} {J : NodeId → Prop}
    (h : t.Grows n J (· < a) t') (hok' : t'.Ok) {s : Nat} (ha : t'.Encloses a s)
    (hlt : a < t.scopes.size) (hs : s < t'.scopes.size) : s < t.scopes.size := by
  induction ha with
  | refl => exact hlt
  | @outer s q hq hencl ih =>
    by_contra hnot
    have hqs := hok'.parents s q hq
    rcases h.opened s q (Nat.not_lt.mp hnot) hs hq with hold | hbelow
    · exact absurd (ih (hqs.trans hs)) (Nat.not_lt.mpr hold)
    · exact absurd (hencl.le hok') (Nat.not_le.mpr hbelow)

theorem Visited.hasFunction {skips : Prop} {t : ScopeTree} {m : Nat} {f : Func}
    (h : t.Visited skips m f) (ht : t.Ok) (hbare : Bare f.body.stmts) :
    ∃ info Δ, m ≤ info.scope ∧ t.HasFunction f info Δ := by
  obtain ⟨hregular, r, name, hr, hunopened, hname, hm, hok, hafter⟩ := h
  obtain ⟨id, params, ⟨bodyId, body⟩⟩ := f
  have hnodup := hregular.nodup
  simp only [Func.ids, Block.ids, List.nodup_append', List.disjoint_singleton, List.mem_append,
    not_or] at hnodup
  obtain ⟨⟨-, ⟨hbody, -, hbodyId⟩, -⟩, -, -, hid, -⟩ := hnodup
  have hsub : stmtIds body ⊆ Func.ids ⟨id, params, ⟨bodyId, body⟩⟩ := by
    intro i hi
    simp [Func.ids, Block.ids, hi]
  have hself : id ∈ Func.ids ⟨id, params, ⟨bodyId, body⟩⟩ := by simp [Func.ids]
  have hstmts := Resolve.settled_onStmts body (.ofNodup hbody)
  -- The body starts with everything declared.
  have hbuilds : Resolution.Builds r.tree.scopes.size (fun _ => True) (Resolve.entered r id bodyId)
      (Resolve.atBody name id params bodyId body r) :=
    Resolve.builds_atBody hr trivial (fun _ _ => trivial) (fun _ _ => trivial) fun _ _ => trivial
  have hr₁ := hbuilds.ok' (Resolve.ok_entered hr id bodyId)
  obtain ⟨info₁, Δ, hscope, -, hdeclared, hwrites⟩ :=
    Resolve.declared_atBody hr bodyId params hbare hid fun h => hname h hself
  have hopened : (Resolve.atBody name id params bodyId body r).tree.Unopened (stmtIds body) :=
    Resolve.unopened_atBody (hunopened.mono hsub) hid hbodyId
  have hcurrent : (Resolve.atBody name id params bodyId body r).current = info₁.scope :=
    hbuilds.current.trans hscope.symm
  -- The walk over the body, and what comes after the function, leave it alone.
  rw [Resolve.onFunc_apply] at hok hafter
  set r₁ := Resolve.atBody name id params bodyId body r
  have hwalk := hstmts.builds hr₁
  obtain ⟨info₂, hscope₂, hdeclared₂⟩ := hdeclared.grow hr₁.tree hwalk.grows (Nat.le_refl _) hid
  obtain ⟨info₃, hscope₃, hdeclared₃⟩ := hdeclared₂.grow hok hafter (Nat.le_refl _)
    (not_not_intro hself)
  have hfs : info₃.scope = r.tree.scopes.size := hscope₃.trans (hscope₂.trans hscope)
  refine ⟨info₃, Δ, hfs ▸ hm, hdeclared₃, ?_, fun hflat => ?_⟩
  · have hresolved := hstmts.holds hr₁ hopened
    rw [hcurrent, ← hscope₂, ← hscope₃] at hresolved
    refine hstmts.stable hok ht hafter (Nat.le_refl _) ?_ (fun i hi => ?_) hresolved
    · rw [hscope₃]
      exact hdeclared₂.inside
    · exact not_not_intro (hsub hi)
  · intro s hs x hx site hsite
    obtain ⟨hlt, hxs, -⟩ := ht.listed s x hx
    rw [hfs] at hs ⊢
    have hle := hs.le ht
    have hs' : s < (Resolve.onStmts body r₁).2.tree.scopes.size := by
      refine hafter.lt_of_encloses ht hs ?_ (hxs ▸ (ht.placed x.2 hlt).1)
      exact hfs ▸ hscope₃ ▸ hdeclared₂.inside
    have hroot : s ≠ root := Nat.ne_of_gt (hr.tree.nonempty.trans_le hle)
    rw [hafter.finished s hs' hroot] at hx
    obtain ⟨hlt, hxs, -⟩ := hok.listed s x hx
    rw [hafter.unused x.2 hlt (by rw [hxs]; exact Nat.not_lt.mpr hle)] at hsite
    exact (hstmts.keeps hflat hr₁ hwrites).written x.2 hlt (hxs ▸ hle) site hsite

end ScopeTree

end EsOptimizer
