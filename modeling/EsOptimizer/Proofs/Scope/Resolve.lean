import EsOptimizer.Proofs.Scope.Tree

/-!
# Steps of the walk

`Builds n J r r'` relates two stages of the walk in the same scope: the tree has grown, and what was
used are variables of the scopes around. Every elementary step of the walk is of this kind.
-/

namespace EsOptimizer

namespace Resolution

/-- What holds at every stage of the walk. -/
structure Ok (r : Resolution) : Prop where
  tree : r.tree.Ok
  inside : r.current < r.tree.scopes.size

/-- A part of the walk that ends in the scope in which it started. -/
structure Builds (n : Nat) (J : NodeId → Prop) (r r' : Resolution) : Prop where
  ok : r'.tree.Ok
  current : r'.current = r.current
  functions : r'.functions = r.functions
  grows : r.tree.Grows n J (r.tree.Encloses · r.current) r'.tree

section

variable {n m : Nat} {J J' : NodeId → Prop} {r r' r'' : Resolution}

namespace Builds

theorem refl (h : r.Ok) : Builds n J r r := ⟨h.tree, rfl, rfl, .refl _⟩

theorem ok' (h : Builds n J r r') (hr : r.Ok) : r'.Ok where
  tree := h.ok
  inside := by
    rw [h.current]
    exact hr.inside.trans_le h.grows.size

theorem trans (h : Builds n J r r') (hr : r.Ok) (h' : Builds n J r' r'') : Builds n J r r'' where
  ok := h'.ok
  current := h'.current.trans h.current
  functions := h'.functions.trans h.functions
  grows := by
    refine h.grows.trans hr.tree h'.grows fun s hs hencl => ?_
    rw [h.current] at hencl
    exact (h.grows.encloses_iff hr.tree h.ok hr.inside).mp hencl

theorem mono (h : Builds n J r r') (hr : r.Ok) (hn : m ≤ n) (hJ : ∀ id, J id → J' id) :
    Builds m J' r r' :=
  { h with grows := h.grows.mono hn hJ (fun _ _ hs => hs) hr.tree }

/-- A change of the tree alone. -/
theorem modifyTree {t : ScopeTree} (hok : t.Ok)
    (h : r.tree.Grows n J (r.tree.Encloses · r.current) t) :
    Builds n J r { r with tree := t } :=
  ⟨hok, rfl, rfl, h⟩

end Builds

end

end Resolution

namespace Resolve

open Resolution

variable {n : Nat} {J : NodeId → Prop} {r : Resolution}

theorem bind_apply {α β : Type} (x : Resolve α) (f : α → Resolve β) (r : Resolution) :
    (x >>= f) r = f (x r).1 (x r).2 := rfl

/-! ## Elementary steps -/

theorem builds_bind (hr : r.Ok) {ident : Ident} (h : J ident.id) (v : VarId) :
    Builds n J r (bind ident v r).2 := by
  refine Builds.modifyTree { hr.tree with } ?_
  exact { ScopeTree.Grows.refl (n := n) (J := J) (S := (r.tree.Encloses · r.current)) r.tree with
    varOf := fun id hid => by
      change (r.tree.identVars.insert ident.id v)[id]? = _
      rw [Std.TreeMap.getElem?_insert, if_neg]
      · rfl
      · intro heq
        rw [Std.LawfulEqCmp.compare_eq_iff_eq] at heq
        exact hid (heq ▸ h) }

/-- A variable that has not been used yet. -/
def unusedVar (t : ScopeTree) (scope : ScopeId) (name : String) (kind : VarKind)
    (decl : Option NodeId) (initial : Option Value) : Variable :=
  { name, kind, scope, fnScope := (t.scope scope).fnScope, decl, initial }

theorem newVar_apply (scope : ScopeId) (name : String) (kind : VarKind) (decl : Option NodeId)
    (initial : Option Value) (r : Resolution) : newVar scope name kind decl initial r =
      (r.tree.vars.size,
        { r with tree := r.tree.addVar (unusedVar r.tree scope name kind decl initial) }) := rfl

theorem builds_newVar (hr : r.Ok) {scope : Nat} {name : String} (kind : VarKind)
    (decl : Option NodeId) (initial : Option Value) (hscope : scope < r.tree.scopes.size)
    (hn : n ≤ scope ∨ scope = ScopeTree.root ∧ kind = .implicit)
    (hnew : (r.tree.scope scope).vars.lookup name = none)
    (himplicit : kind = .implicit →
      scope = ScopeTree.root ∧ decl = none ∧ initial = Host.global? name) :
    Builds n J r (newVar scope name kind decl initial r).2 := by
  rw [newVar_apply]
  refine Builds.modifyTree ?_ (ScopeTree.Grows.addVar hn)
  exact hr.tree.addVar hscope rfl (ScopeTree.not_mem_of_lookup hnew) himplicit

theorem declareIn_eq (scope : ScopeId) (ident : Ident) (kind : VarKind) (r : Resolution) :
    declareIn scope ident kind r = (match (r.tree.scope scope).vars.lookup ident.name with
      | some v => do
        bind ident v
        return v
      | none => do
        let v ← newVar scope ident.name kind (some ident.id)
          (if kind = .var then some .undefined else none)
        bind ident v
        return v : Resolve VarId) r := by
  rw [declareIn, bind_apply]
  simp only [show (get : Resolve Resolution) r = (r, r) from rfl]
  split <;> rfl

/-- Declares a name in a scope that is not finished. -/
theorem builds_declareIn (hr : r.Ok) {scope : Nat} {ident : Ident} {kind : VarKind}
    (hkind : kind ≠ .implicit) (hident : J ident.id) (hscope : scope < r.tree.scopes.size) (hn : n ≤ scope) :
    Builds n J r (declareIn scope ident kind r).2 := by
  rw [declareIn_eq]
  cases hknown : (r.tree.scope scope).vars.lookup ident.name with
  | some v => exact builds_bind hr hident v
  | none =>
    have hvar : Builds n J r (newVar scope ident.name kind (some ident.id)
        (if kind = .var then some .undefined else none) r).2 :=
      builds_newVar hr kind _ _ hscope (Or.inl hn) hknown fun h => absurd h hkind
    exact hvar.trans hr (builds_bind (hvar.ok' hr) hident _)

/-- Notes something about the function that the walk is in. -/
theorem modifyFunction_eq (f : FunctionInfo → FunctionInfo) (r : Resolution) : modifyFunction f r =
    (match r.functions with
      | [] => return
      | id :: _ => modifyTree fun t => { t with functions := t.functions.modify id f } :
        Resolve Unit) r := rfl

theorem builds_modifyFunction (hr : r.Ok) {f : FunctionInfo → FunctionInfo}
    (hf : ∀ x : FunctionInfo, x.Same (f x)) : Builds n J r (modifyFunction f r).2 := by
  rw [modifyFunction_eq]
  cases r.functions with
  | nil => exact Builds.refl hr
  | cons id rest =>
    refine Builds.modifyTree { hr.tree with entered := fun key hkey => ?_ } ?_
    · change (r.tree.functions.modify id f)[key]? = none
      have hnone : r.tree.functions[key]? = none := hr.tree.entered key hkey
      rw [Std.TreeMap.getElem?_modify]
      split
      · rename_i heq
        rw [Std.LawfulEqCmp.compare_eq_iff_eq] at heq
        rw [heq, hnone]
        rfl
      · exact hnone
    exact { ScopeTree.Grows.refl (n := n) (J := J) (S := (r.tree.Encloses · r.current)) r.tree with
      functions := fun key _ => by
        change Option.Rel _ _ (r.tree.functions.modify id f)[key]?
        rw [Std.TreeMap.getElem?_modify]
        split
        · rename_i heq
          rw [Std.LawfulEqCmp.compare_eq_iff_eq] at heq
          rw [heq]
          change Option.Rel _ r.tree.functions[key]? _
          cases r.tree.functions[key]? with
          | none => exact .none
          | some x => exact .some (hf x)
        · exact FunctionInfo.Same.refl? _ }

/-! ## Uses of names -/

/-- What a name is resolved to is a variable of a scope around. -/
theorem resolve_eq (ident : Ident) (r : Resolution) : resolve ident r =
    (match r.tree.lookup r.current ident.name with
      | some v => return some v
      | none =>
        if ident.name = "arguments" && !r.functions.isEmpty then do
          modifyFunction fun f => { f with usesArguments := true }
          return none
        else do
          return some (← newVar ScopeTree.root ident.name .implicit none
            (Host.global? ident.name)) : Resolve (Option VarId)) r := rfl

theorem resolve_found {ident : Ident} {v : VarId}
    (h : r.tree.lookup r.current ident.name = some v) : resolve ident r = (some v, r) := by
  rw [resolve_eq, h]
  rfl

theorem resolve_spec (hr : r.Ok) (ident : Ident) :
    Builds n J r (resolve ident r).2 ∧ ∀ v, (resolve ident r).1 = some v →
      (resolve ident r).2.tree.Encloses ((resolve ident r).2.tree.var v).scope r.current ∧
        v < (resolve ident r).2.tree.vars.size := by
  rw [resolve_eq]
  cases hv : r.tree.lookup r.current ident.name with
  | some v =>
    refine ⟨Builds.refl hr, ?_⟩
    rintro u ⟨⟩
    obtain ⟨a, ha, hmem⟩ := ScopeTree.exists_encloses_of_lookup hr.tree hv
    obtain ⟨hlt, hscope, -⟩ := hr.tree.listed a _ hmem
    change r.tree.Encloses (r.tree.var v).scope r.current ∧ v < r.tree.vars.size
    rw [hscope]
    exact ⟨ha, hlt⟩
  | none =>
    dsimp only
    split
    · exact ⟨builds_modifyFunction hr fun _ => ⟨rfl, rfl, rfl, rfl⟩, nofun⟩
    · have hroot := hr.tree.encloses_root hr.inside
      have hvar : Builds n J r (newVar ScopeTree.root ident.name .implicit none
          (Host.global? ident.name) r).2 :=
        builds_newVar hr .implicit none _ hr.tree.nonempty (Or.inr ⟨rfl, rfl⟩)
          (ScopeTree.lookup_none_of_encloses hr.tree hv hroot) fun _ => ⟨rfl, rfl, rfl⟩
      refine ⟨hvar, ?_⟩
      rintro u ⟨⟩
      change (newVar ScopeTree.root ident.name .implicit none
        (Host.global? ident.name) r).2.tree.Encloses (ScopeTree.var (newVar ScopeTree.root ident.name
          .implicit none (Host.global? ident.name) r).2.tree r.tree.vars.size).scope _ ∧
        r.tree.vars.size < (newVar ScopeTree.root ident.name .implicit none
          (Host.global? ident.name) r).2.tree.vars.size
      refine ⟨(hvar.grows.encloses_iff hr.tree hvar.ok hr.inside).mpr ?_, ?_⟩
      · rw [newVar_apply, ScopeTree.addVar_var, if_pos rfl]
        exact hroot
      · rw [newVar_apply, ScopeTree.addVar_varsSize]
        omega

/-- A variable with one more use. -/
def used (site : Site) (x : Variable) : Variable :=
  if site.kind.isWrite then { x with writes := x.writes ++ [site] }
  else { x with reads := x.reads ++ [site] }

theorem used_extends (site : Site) (x : Variable) : x.Extends (used site x) := by
  rw [used]
  split
  · exact { Variable.Extends.refl x with writes := List.prefix_append _ _ }
  · exact { Variable.Extends.refl x with reads := List.prefix_append _ _ }

/-- The tree after a use of a name that means `v`. -/
def withUse (t : ScopeTree) (v : VarId) (site : Site) : ScopeTree :=
  let inner := (t.var v).fnScope != site.fnScope
  { t.useVar v (used site) with
    identVars := t.identVars.insert site.ident v
    sites := t.sites.insert site.ident site.kind
    captured := if inner && !(t.var v).isGlobal then t.captured.insert v else t.captured
    sharedGlobals :=
      if inner && (t.var v).isGlobal then t.sharedGlobals.insert v else t.sharedGlobals }

theorem addSite_apply (ident : Ident) (kind : SiteKind) (r : Resolution) : addSite ident kind r =
    match resolve ident r with
    | (none, r) => (none, r)
    | (some v, r) => (some v,
      { r with tree := withUse r.tree v ⟨ident.id, (r.tree.scope r.current).fnScope, kind⟩ }) := by
  rw [addSite, bind_apply]
  generalize resolve ident r = x
  obtain ⟨_ | v, r⟩ := x <;> rfl

theorem withUse_grows {t : ScopeTree} {S : ScopeId → Prop} {v : VarId} {site : Site}
    (hsite : J site.ident) (hv : S (t.var v).scope) : t.Grows n J S (withUse t v site) := by
  have hinsert {β : Type} (m : Std.TreeMap NodeId β) (x : β) (id : NodeId) (hid : ¬J id) :
      (m.insert site.ident x)[id]? = m[id]? := by
    rw [Std.TreeMap.getElem?_insert, if_neg]
    intro heq
    rw [Std.LawfulEqCmp.compare_eq_iff_eq] at heq
    exact hid (heq ▸ hsite)
  have huse : t.Grows n J S (t.useVar v (used site)) :=
    ScopeTree.Grows.useVar (used_extends site) hv
  exact { huse with
    varOf := fun id hid => hinsert t.identVars v id hid
    siteKind := fun id hid => hinsert t.sites site.kind id hid }

theorem addSite_spec (hr : r.Ok) {ident : Ident} (hident : J ident.id) (kind : SiteKind) :
    Builds n J r (addSite ident kind r).2 ∧ ∀ v, (addSite ident kind r).1 = some v →
      v < (addSite ident kind r).2.tree.vars.size ∧
      (addSite ident kind r).2.tree.varOf ident.id = some v ∧
      (addSite ident kind r).2.tree.siteKind ident.id = some kind ∧
      (kind.isWrite = true →
        ∃ site ∈ ((addSite ident kind r).2.tree.var v).writes, site.ident = ident.id) := by
  obtain ⟨hbuilds, hscope⟩ := resolve_spec (n := n) (J := J) hr ident
  rw [addSite_apply]
  generalize resolve ident r = x at hbuilds hscope
  obtain ⟨_ | v, r₁⟩ := x
  · exact ⟨hbuilds, nofun⟩
  · obtain ⟨hencl, hlt⟩ := hscope v rfl
    dsimp only at hbuilds hencl hlt ⊢
    set site : Site := ⟨ident.id, (r₁.tree.scope r₁.current).fnScope, kind⟩ with hsite
    have hgrows : r₁.tree.Grows n J (r₁.tree.Encloses · r₁.current) (withUse r₁.tree v site) :=
      withUse_grows hident (by rw [hbuilds.current]; exact hencl)
    have hok : (withUse r₁.tree v site).Ok := { hbuilds.ok.useVar v (used_extends site) with }
    refine ⟨hbuilds.trans hr (Builds.modifyTree hok hgrows), ?_⟩
    rintro u ⟨⟩
    refine ⟨?_, Std.TreeMap.getElem?_insert_self, Std.TreeMap.getElem?_insert_self,
      fun hw => ⟨site, ?_, rfl⟩⟩
    · change v < (r₁.tree.vars.modify v (used site)).size
      rwa [Array.size_modify]
    have hvar : (withUse r₁.tree v site).var v = used site (r₁.tree.var v) :=
      (ScopeTree.useVar_var _ _ _ _).trans (if_pos ⟨rfl, hlt⟩)
    rw [hvar, used, if_pos hw]
    exact List.mem_append_right _ List.mem_cons_self

theorem builds_noteSite (hr : r.Ok) {ident : Ident} (hident : J ident.id) (kind : SiteKind) :
    Builds n J r (noteSite ident kind r).2 :=
  (addSite_spec hr hident kind).1

theorem builds_noteDynamicScope (hr : r.Ok) : Builds n J r (noteDynamicScope r).2 :=
  Builds.modifyTree { hr.tree with }
    { ScopeTree.Grows.refl (n := n) (J := J) (S := (r.tree.Encloses · r.current)) r.tree with }

theorem noteCallee_apply (ident : Ident) (r : Resolution) :
    noteCallee ident r = (match (addSite ident .callee r).1 with
      | none => return
      | some v => do
        if ident.name = "eval" && ((← get).tree.var v).kind = .implicit then noteDynamicScope :
      Resolve Unit) (addSite ident .callee r).2 := rfl

/-- A callee is noted like another use, and a call of the global `eval` is noted after that. -/
theorem noteCallee_cases (ident : Ident) (r : Resolution) :
    (noteCallee ident r).2 = (addSite ident .callee r).2 ∨
      (noteCallee ident r).2 = (noteDynamicScope (addSite ident .callee r).2).2 := by
  cases hfound : (addSite ident .callee r).1 with
  | none =>
    rw [noteCallee_apply, hfound]
    exact Or.inl rfl
  | some v =>
    have hcall : noteCallee ident r = (if ident.name = "eval" &&
        ((addSite ident .callee r).2.tree.var v).kind = .implicit then noteDynamicScope else pure () :
          Resolve Unit) (addSite ident .callee r).2 := by
      rw [noteCallee_apply, hfound]
      rfl
    rw [hcall]
    split
    · exact Or.inr rfl
    · exact Or.inl rfl

theorem builds_noteCallee (hr : r.Ok) {ident : Ident} (hident : J ident.id) :
    Builds n J r (noteCallee ident r).2 := by
  have hsite := (addSite_spec (n := n) hr hident .callee).1
  rcases noteCallee_cases ident r with heq | heq <;> rw [heq]
  · exact hsite
  · exact hsite.trans hr (builds_noteDynamicScope (hsite.ok' hr))

/-- Only the own `arguments` of a function is a name without a variable. -/
theorem resolve_isSome {ident : Ident} (h : ident.name ≠ "arguments") (r : Resolution) :
    ∃ v, (resolve ident r).1 = some v := by
  rw [resolve_eq]
  cases r.tree.lookup r.current ident.name with
  | some v => exact ⟨v, rfl⟩
  | none =>
    have hne : ¬(decide (ident.name = "arguments") && !r.functions.isEmpty) = true := by
      simp [h]
    dsimp only
    rw [if_neg hne]
    exact ⟨_, rfl⟩

/-! ## Declarations -/

theorem builds_forIn {α : Type} {items : List α} {f : α → PUnit → Resolve (ForInStep PUnit)}
    (hr : r.Ok) (hf : ∀ x ∈ items, ∀ r', Builds n J r r' →
      Builds n J r' (f x ⟨⟩ r').2 ∧ (f x ⟨⟩ r').1 = .yield ⟨⟩) :
    Builds n J r (forIn items PUnit.unit f r).2 := by
  induction items generalizing r with
  | nil => exact Builds.refl hr
  | cons x rest ih =>
    obtain ⟨hx, hyield⟩ := hf x List.mem_cons_self r (Builds.refl hr)
    rw [List.forIn_cons, bind_apply, hyield]
    refine hx.trans hr (ih (hx.ok' hr) fun y hy r' hr' => ?_)
    exact hf y (List.mem_cons_of_mem _ hy) r' (hx.trans hr hr')

/-- Declares names in a scope that is not finished. -/
theorem builds_declareAll {α : Type} {items : List α} {scope : Nat} {kind : VarKind}
    {name : α → Ident} (hr : r.Ok) (hkind : kind ≠ .implicit) (hscope : scope < r.tree.scopes.size) (hn : n ≤ scope)
    (hJ : ∀ x ∈ items, J (name x).id) :
    Builds n J r ((do for x in items do discard (declareIn scope (name x) kind) :
      Resolve Unit) r).2 := by
  refine builds_forIn hr fun x hx r' hr' => ⟨?_, rfl⟩
  exact builds_declareIn (hr'.ok' hr) hkind (hJ x hx) (hscope.trans_le hr'.grows.size) hn

theorem hoist_eq (body : List Stmt) (r : Resolution) : hoist body r = (do
    for ident in (stmtNodes false body).flatMap Node.varNames do
      discard (declareIn (r.tree.scope r.current).fnScope ident .var)
    for (ident, fn) in (stmtNodes false body).filterMap Node.functionDecl? do
      let v ← declareIn (r.tree.scope r.current).fnScope ident .function
      modifyTree fun t => t.addHoisted (r.tree.scope r.current).fnScope (v, fn.id) :
    Resolve Unit) r := rfl

theorem builds_hoist (hr : r.Ok) {body : List Stmt}
    (hscope : (r.tree.scope r.current).fnScope = r.current) (hn : n ≤ r.current)
    (hvars : ∀ i ∈ (stmtNodes false body).flatMap Node.varNames, J i.id)
    (hfns : ∀ x ∈ (stmtNodes false body).filterMap Node.functionDecl?, J x.1.id) :
    Builds n J r (hoist body r).2 := by
  rw [hoist_eq, hscope]
  have hfirst : Builds n J r ((do
      for ident in (stmtNodes false body).flatMap Node.varNames do
        discard (declareIn r.current ident .var) : Resolve Unit) r).2 :=
    builds_declareAll hr (by decide) hr.inside hn hvars
  refine hfirst.trans hr (builds_forIn (hfirst.ok' hr) fun x hx r' hr' => ⟨?_, rfl⟩)
  have hok := hr'.ok' (hfirst.ok' hr)
  have hlt : r.current < r'.tree.scopes.size :=
    hr.inside.trans_le (hfirst.grows.size.trans hr'.grows.size)
  have hdeclare : Builds n J r' (declareIn r.current x.1 .function r').2 :=
    builds_declareIn hok (by decide) (hfns x hx) hlt hn
  refine hdeclare.trans hok (Builds.modifyTree (hdeclare.ok.addHoisted _ _) ?_)
  exact ScopeTree.Grows.addHoisted _ hn

theorem builds_declareLexical (hr : r.Ok) {d : VarDecl} (hn : n ≤ r.current)
    (hJ : ∀ x ∈ d.decls, J x.name.id) : Builds n J r (declareLexical d r).2 := by
  rw [declareLexical]
  cases hkind : lexicalKind? d.kind with
  | none => exact Builds.refl hr
  | some kind =>
    refine builds_forIn hr fun x hx r' hr' => ⟨?_, rfl⟩
    have hcurrent := hr'.current
    refine builds_declareIn (hr'.ok' hr) ?_ (hJ x hx) (hr'.ok' hr).inside ?_
    · rintro rfl
      cases hdecl : d.kind <;> simp [lexicalKind?, hdecl] at hkind
    · rw [hcurrent]
      exact hn

theorem builds_declareLexicals (hr : r.Ok) {stmts : List Stmt} (hn : n ≤ r.current)
    (hJ : ∀ d, .var d ∈ stmts → ∀ x ∈ d.decls, J x.name.id) :
    Builds n J r (declareLexicals stmts r).2 := by
  refine builds_forIn hr fun s hs r' hr' => ?_
  split
  · rename_i d
    refine ⟨builds_declareLexical (hr'.ok' hr) ?_ (hJ d hs), rfl⟩
    rw [hr'.current]
    exact hn
  · exact ⟨Builds.refl (hr'.ok' hr), rfl⟩

/-! ## Nodes with scopes -/

/-- A step that leaves a part of the tree as it is. -/
def Leaves {α β : Type} (part : ScopeTree → β) (a : Resolve α) : Prop :=
  ∀ r, part (a r).2.tree = part r.tree

/-- A step that opens no scope. -/
abbrev OpensNothing {α : Type} (a : Resolve α) : Prop := Leaves ScopeTree.nodeScopes a

/-- A part of the tree that has nothing to do with what is declared. -/
def Apart {β : Type} (part : ScopeTree → β) : Prop :=
  ∀ (t : ScopeTree) scopes vars identVars, part { t with scopes, vars, identVars } = part t

namespace Leaves

variable {α β γ : Type} {part : ScopeTree → γ}

theorem pure (x : α) : Leaves part (Pure.pure x : Resolve α) := fun _ => rfl

theorem bind {a : Resolve α} {f : α → Resolve β} (ha : Leaves part a)
    (hf : ∀ x, Leaves part (f x)) : Leaves part (a >>= f) :=
  fun r => (hf _ _).trans (ha r)

theorem get_bind {f : Resolution → Resolve β} (hf : ∀ r, Leaves part (f r)) :
    Leaves part (get >>= f) :=
  fun r => hf r r

theorem forIn {items : List α} {f : α → PUnit → Resolve (ForInStep PUnit)}
    (hf : ∀ x, Leaves part (f x ⟨⟩)) : Leaves part (ForIn.forIn items PUnit.unit f) := by
  induction items with
  | nil => exact .pure _
  | cons x rest ih =>
    rw [List.forIn_cons]
    refine (hf x).bind fun step => ?_
    cases step with
    | done _ => exact .pure _
    | yield _ => exact ih

theorem mapM {items : List α} {f : α → Resolve β} (hf : ∀ x, Leaves part (f x)) :
    Leaves part (items.mapM f) := by
  induction items with
  | nil => exact .pure _
  | cons x rest ih =>
    rw [List.mapM_cons]
    exact (hf x).bind fun _ => ih.bind fun _ => .pure _

theorem declareIn (h : Apart part) (scope : ScopeId) (ident : Ident) (kind : VarKind) :
    Leaves part (declareIn scope ident kind) := by
  refine .get_bind fun r => ?_
  cases (r.tree.scope scope).vars.lookup ident.name <;> exact fun r' => h r'.tree _ _ _

theorem declareLexical (h : Apart part) (d : VarDecl) : Leaves part (declareLexical d) := by
  rw [Resolve.declareLexical]
  cases lexicalKind? d.kind with
  | none => exact .pure _
  | some kind =>
    refine .forIn fun x => .get_bind fun r => ?_
    exact (declareIn h r.current x.name kind).bind fun _ => .pure _

theorem declareLexicals (h : Apart part) (stmts : List Stmt) :
    Leaves part (declareLexicals stmts) := by
  refine .forIn fun s => ?_
  split
  · exact (declareLexical h _).bind fun _ => .pure _
  · exact .pure _

theorem hoist (h : Apart part) (body : List Stmt) : Leaves part (hoist body) := by
  refine .get_bind fun r => ?_
  refine Leaves.bind (.forIn fun i => ?_) fun _ => .forIn fun x => ?_
  · exact (declareIn h _ i .var).bind fun _ => .pure _
  · exact (declareIn h _ x.1 .function).bind fun _ r' => h r'.tree _ _ _

end Leaves

theorem apart_nodeScopes : Apart ScopeTree.nodeScopes := fun _ _ _ _ => rfl

theorem apart_functions : Apart ScopeTree.functions := fun _ _ _ _ => rfl

theorem opensNothing_declareIn (scope : ScopeId) (ident : Ident) (kind : VarKind) :
    OpensNothing (declareIn scope ident kind) :=
  .declareIn apart_nodeScopes scope ident kind

theorem opensNothing_modifyFunction (f : FunctionInfo → FunctionInfo) :
    OpensNothing (modifyFunction f) := by
  refine .get_bind fun r => ?_
  cases r.functions <;> exact fun _ => rfl

theorem opensNothing_noteSite (ident : Ident) (kind : SiteKind) :
    OpensNothing (noteSite ident kind) := by
  have hresolve : OpensNothing (resolve ident) := by
    refine .get_bind fun r => ?_
    cases r.tree.lookup r.current ident.name with
    | some v => exact .pure _
    | none =>
      dsimp only
      split
      · exact (opensNothing_modifyFunction _).bind fun _ => .pure _
      · exact fun _ => rfl
  intro r
  change (addSite ident kind r).2.tree.nodeScopes = _
  rw [addSite_apply]
  have h := hresolve r
  generalize resolve ident r = x at h
  obtain ⟨_ | v, r'⟩ := x <;> exact h

theorem opensNothing_declareLexical (d : VarDecl) : OpensNothing (declareLexical d) :=
  .declareLexical apart_nodeScopes d

theorem opensNothing_declareLexicals (stmts : List Stmt) : OpensNothing (declareLexicals stmts) :=
  .declareLexicals apart_nodeScopes stmts

theorem opensNothing_hoist (body : List Stmt) : OpensNothing (hoist body) :=
  .hoist apart_nodeScopes body

/-! ## Scopes -/

/-- The tree with a new scope for a node. -/
def withScope (r : Resolution) (kind : ScopeKind) (node : NodeId) (fn : ScopeId) : ScopeTree :=
  { r.tree.addScope { parent := some r.current, kind, fnScope := fn } with
    nodeScopes := r.tree.nodeScopes.insert node r.tree.scopes.size }

/-- The scope of the function that a new scope is part of. -/
def fnScopeOf (r : Resolution) : ScopeKind → ScopeId
  | .function _ => r.tree.scopes.size
  | _ => (r.tree.scope r.current).fnScope

theorem openScope_apply (kind : ScopeKind) (node : NodeId) (r : Resolution) :
    openScope kind node r = (r.tree.scopes.size,
      { r with
        tree := withScope r kind node (fnScopeOf r kind)
        current := r.tree.scopes.size }) := by
  cases kind <;> rfl

/-- Opening a scope changes nothing in the scopes that there are. -/
theorem grows_withScope {S : ScopeId → Prop} (kind : ScopeKind) {node : NodeId} (hnode : J node)
    (fn : ScopeId) (hn : n ≤ r.tree.scopes.size) (hS : S r.current) :
    r.tree.Grows n J S (withScope r kind node fn) := by
  have hadd : r.tree.Grows n J S (r.tree.addScope { parent := some r.current, kind, fnScope := fn }) := by
    refine ScopeTree.Grows.addScope hn ?_
    rintro q ⟨⟩
    exact hS
  exact { hadd with
    scopeOf := fun id hid => by
      change (r.tree.nodeScopes.insert node r.tree.scopes.size)[id]? = _
      rw [Std.TreeMap.getElem?_insert, if_neg]
      · rfl
      · intro heq
        rw [Std.LawfulEqCmp.compare_eq_iff_eq] at heq
        exact hid (heq ▸ hnode) }

theorem ok_withScope (hr : r.Ok) (kind : ScopeKind) (node : NodeId) (fn : ScopeId) :
    (withScope r kind node fn).Ok :=
  { hr.tree.addScope (x := { parent := some r.current, kind, fnScope := fn }) rfl hr.inside rfl with
    entered := fun id hid => by
      change (r.tree.nodeScopes.insert node r.tree.scopes.size)[id]? = none at hid
      rw [Std.TreeMap.getElem?_insert] at hid
      split at hid
      · cases hid
      · exact hr.tree.entered id hid }

theorem withScope_scope (r : Resolution) (kind : ScopeKind) (node : NodeId) (fn : ScopeId) :
    (withScope r kind node fn).scope r.tree.scopes.size =
      { parent := some r.current, kind, fnScope := fn } :=
  (ScopeTree.addScope_scope _ _ _).trans (if_pos rfl)

theorem withScope_size (r : Resolution) (kind : ScopeKind) (node : NodeId) (fn : ScopeId) :
    (withScope r kind node fn).scopes.size = r.tree.scopes.size + 1 :=
  ScopeTree.addScope_size _ _

theorem ok_openScope (hr : r.Ok) (kind : ScopeKind) (node : NodeId) :
    (openScope kind node r).2.Ok := by
  rw [openScope_apply]
  refine ⟨ok_withScope hr kind node _, ?_⟩
  change r.tree.scopes.size < (withScope r kind node (fnScopeOf r kind)).scopes.size
  rw [withScope_size]
  exact Nat.lt_succ_self _

/-- What happens in a new scope, as seen from the one around it. -/
theorem grows_nested (hr : r.Ok) {r₁ r₂ : Resolution}
    (hopen : r.tree.Grows r.tree.scopes.size J (r.tree.Encloses · r.current) r₁.tree) (hok : r₁.Ok)
    (hcurrent : r₁.current = r.tree.scopes.size)
    (hparent : (r₁.tree.scope r.tree.scopes.size).parent = some r.current)
    (h : r₁.tree.Grows r.tree.scopes.size J (r₁.tree.Encloses · r₁.current) r₂.tree) :
    r.tree.Grows r.tree.scopes.size J (r.tree.Encloses · r.current) r₂.tree := by
  refine hopen.trans hr.tree h fun s hs hencl => ?_
  rw [hcurrent] at hencl
  cases hencl with
  | refl => exact absurd hs (Nat.lt_irrefl _)
  | outer hq hencl =>
    rw [hparent] at hq
    cases hq
    exact (hopen.encloses_iff hr.tree hok.tree hr.inside).mp hencl

theorem inside_apply (step : Resolve Unit) (r : Resolution) :
    (inside step r).2 = { (step r).2 with current := r.current } := rfl

/-- Code with a scope of its own. -/
theorem builds_inside (hr : r.Ok) {kind : ScopeKind} {node : NodeId}
    (step : ScopeId → Resolve Unit) (hnode : J node)
    (h : Builds r.tree.scopes.size J (openScope kind node r).2
      (step r.tree.scopes.size (openScope kind node r).2).2) :
    Builds r.tree.scopes.size J r ((inside do step (← openScope kind node)) r).2 := by
  have hok := ok_openScope hr kind node
  rw [openScope_apply] at h hok
  rw [inside_apply, bind_apply, openScope_apply]
  refine ⟨h.ok, rfl, h.functions, ?_⟩
  refine grows_nested hr (grows_withScope kind hnode _ (Nat.le_refl _) .refl) hok rfl ?_ h.grows
  exact congrArg Scope.parent (withScope_scope r kind node _)

/-! ## Functions -/

/-- The walk with other infos of functions. -/
def setFunctions (r : Resolution) (functions : Std.TreeMap NodeId FunctionInfo) : Resolution :=
  { r with tree := { r.tree with functions } }

/-- Notes something that is settled when a function is entered. -/
theorem builds_setFunctions (hr : r.Ok) {id : NodeId} (hid : J id)
    {functions : Std.TreeMap NodeId FunctionInfo}
    (h : ∀ key ≠ id, functions[key]? = r.tree.functions[key]?)
    (hentered : r.tree.scopeOf id = none → functions[id]? = none) :
    Builds n J r (setFunctions r functions) := by
  refine Builds.modifyTree { hr.tree with entered := fun key hkey => ?_ } ?_
  · by_cases hid : key = id
    · exact hid ▸ hentered (hid ▸ hkey)
    · exact (h key hid).trans (hr.tree.entered key hkey)
  exact { ScopeTree.Grows.refl (n := n) (J := J) (S := (r.tree.Encloses · r.current)) r.tree with
    functions := fun key hkey => by
      change Option.Rel _ r.tree.functions[key]? functions[key]?
      rw [h key fun heq => hkey (heq ▸ hid)]
      exact FunctionInfo.Same.refl? _ }

theorem builds_mapM {α β : Type} {items : List α} {f : α → Resolve β} (hr : r.Ok)
    (hf : ∀ x ∈ items, ∀ r', Builds n J r r' → Builds n J r' (f x r').2) :
    Builds n J r (items.mapM f r).2 := by
  induction items generalizing r with
  | nil => exact Builds.refl hr
  | cons x rest ih =>
    have hx := hf x List.mem_cons_self r (Builds.refl hr)
    rw [List.mapM_cons]
    refine hx.trans hr (ih (hx.ok' hr) fun y hy r' hr' => ?_)
    exact hf y (List.mem_cons_of_mem _ hy) r' (hx.trans hr hr')

theorem builds_nameVar (hr : r.Ok) {scope : Nat} (hscope : scope < r.tree.scopes.size)
    (hn : n ≤ scope) {name : FunctionName} (hname : ∀ i, name = .own i → J i.id) :
    Builds n J r (nameVar scope name r).2 := by
  cases name with
  | none => exact Builds.refl hr
  | declared i => exact Builds.refl hr
  | own i =>
    have happly : nameVar scope (.own i) r =
        (if ((r.tree.scope scope).vars.lookup i.name).isSome then pure none
        else do
          let v ← declareIn scope i .ownName
          noteSite i .init
          return some v : Resolve (Option VarId)) r := by
      rw [nameVar]
      change (if ((r.tree.scope scope).vars.lookup i.name).isSome = true then _ else _ :
        Resolve (Option VarId)) r = _
      split <;> rfl
    rw [happly]
    split
    · exact Builds.refl hr
    · have hdeclare : Builds n J r (declareIn scope i .ownName r).2 :=
        builds_declareIn hr nofun (hname i rfl) hscope hn
      exact hdeclare.trans hr (builds_noteSite (hdeclare.ok' hr) (hname i rfl) .init)

/-- The place where a function has been entered, but nothing is declared in it. -/
def entered (r : Resolution) (id bodyId : NodeId) : Resolution :=
  { tree := { withScope r (.function id) id r.tree.scopes.size with
      nodeScopes := (r.tree.nodeScopes.insert id r.tree.scopes.size).insert bodyId
        r.tree.scopes.size }
    current := r.tree.scopes.size
    functions := id :: r.functions }

/-- Declares the parameters of a function. -/
def declareParams (scope : ScopeId) (params : List Ident) : Resolve (List VarId) :=
  params.mapM fun p => do
    let v ← declareIn scope p .param
    noteSite p .init
    return v

/-- Declares what a function has from the start. -/
def declareFunction (name : FunctionName) (id : NodeId) (params : List Ident) (body : List Stmt)
    (scope : ScopeId) : Resolve Unit := do
  let params ← declareParams scope params
  modifyTree fun t => { t with functions := t.functions.insert id { scope, params } }
  hoist body
  declareLexicals body
  let nameVar ← nameVar scope name
  let isDecl := name matches .declared _
  modifyFunction fun f => { f with nameVar, isDecl }

theorem enterFunction_apply (name : FunctionName) (id : NodeId) (params : List Ident)
    (bodyId : NodeId) (body : List Stmt) (r : Resolution) :
    enterFunction name id params bodyId body r =
      declareFunction name id params body r.tree.scopes.size (entered r id bodyId) := rfl

theorem ok_entered (hr : r.Ok) (id bodyId : NodeId) : (entered r id bodyId).Ok := by
  have hscope := ok_withScope hr (.function id) id r.tree.scopes.size
  refine ⟨{ hscope with entered := fun key hkey => hscope.entered key ?_ }, ?_⟩
  · change ((r.tree.nodeScopes.insert id r.tree.scopes.size).insert bodyId
      r.tree.scopes.size)[key]? = none at hkey
    rw [Std.TreeMap.getElem?_insert] at hkey
    split at hkey
    · cases hkey
    · exact hkey
  change r.tree.scopes.size < (withScope r (.function id) id r.tree.scopes.size).scopes.size
  rw [withScope_size]
  exact Nat.lt_succ_self _

theorem entered_scopeOf (r : Resolution) (id bodyId : NodeId) :
    (entered r id bodyId).tree.scopeOf id ≠ none := by
  change ((r.tree.nodeScopes.insert id r.tree.scopes.size).insert bodyId
    r.tree.scopes.size)[id]? ≠ none
  rw [Std.TreeMap.getElem?_insert]
  split
  · exact nofun
  · rw [Std.TreeMap.getElem?_insert_self]
    exact nofun

theorem entered_scope (r : Resolution) (id bodyId : NodeId) :
    (entered r id bodyId).tree.scope r.tree.scopes.size =
      { parent := some r.current, kind := .function id, fnScope := r.tree.scopes.size } :=
  withScope_scope r (.function id) id _

theorem grows_entered {S : ScopeId → Prop} {id bodyId : NodeId} (hid : J id) (hbody : J bodyId)
    (hn : n ≤ r.tree.scopes.size) (hS : S r.current) :
    r.tree.Grows n J S (entered r id bodyId).tree := by
  have hopen : r.tree.Grows n J S (withScope r (.function id) id r.tree.scopes.size) :=
    grows_withScope _ hid _ hn hS
  exact { hopen with
    scopeOf := fun key hkey => by
      change ((r.tree.nodeScopes.insert id r.tree.scopes.size).insert bodyId
        r.tree.scopes.size)[key]? = _
      rw [Std.TreeMap.getElem?_insert, if_neg]
      · exact hopen.scopeOf key hkey
      · intro heq
        rw [Std.LawfulEqCmp.compare_eq_iff_eq] at heq
        exact hkey (heq ▸ hbody) }

theorem builds_declareParams (hr : r.Ok) {scope : Nat} (hscope : scope < r.tree.scopes.size)
    (hn : n ≤ scope) {params : List Ident} (hJ : ∀ i ∈ params, J i.id) :
    Builds n J r (declareParams scope params r).2 := by
  refine builds_mapM hr fun p hp r' hr' => ?_
  have hdeclare : Builds n J r' (declareIn scope p .param r').2 :=
    builds_declareIn (hr'.ok' hr) nofun (hJ p hp) (hscope.trans_le hr'.grows.size) hn
  exact hdeclare.trans (hr'.ok' hr) (builds_noteSite (hdeclare.ok' (hr'.ok' hr)) (hJ p hp) .init)

theorem opensNothing_declareParams (scope : ScopeId) (params : List Ident) :
    OpensNothing (declareParams scope params) :=
  .mapM fun p => (opensNothing_declareIn scope p .param).bind fun _ =>
    (opensNothing_noteSite p .init).bind fun _ => .pure _

/-- The walk once the parameters of a function are declared. -/
def afterParams (id : NodeId) (params : List Ident) (r : Resolution) : Resolution :=
  let p := declareParams r.current params r
  setFunctions p.2 (p.2.tree.functions.insert id { scope := r.current, params := p.1 })

theorem builds_afterParams (hr : r.Ok) {id : NodeId} {params : List Ident} (hn : n ≤ r.current)
    (hopened : r.tree.scopeOf id ≠ none) (hid : J id) (hparams : ∀ i ∈ params, J i.id) :
    Builds n J r (afterParams id params r) := by
  have h : Builds n J r (declareParams r.current params r).2 :=
    builds_declareParams hr hr.inside hn hparams
  refine h.trans hr (builds_setFunctions (h.ok' hr) hid (fun key hkey => ?_) fun hnone => ?_)
  · rw [Std.TreeMap.getElem?_insert, if_neg]
    intro heq
    rw [Std.LawfulEqCmp.compare_eq_iff_eq] at heq
    exact hkey heq.symm
  · rw [ScopeTree.scopeOf, opensNothing_declareParams r.current params r] at hnone
    exact absurd hnone hopened

/-- Declares what the body of a function has from the start, and its own name. -/
def declareRest (name : FunctionName) (body : List Stmt) (scope : ScopeId) : Resolve Unit := do
  hoist body
  declareLexicals body
  let nameVar ← nameVar scope name
  let isDecl := name matches .declared _
  modifyFunction fun f => { f with nameVar, isDecl }

theorem modifyFunction_apply {id : NodeId} {rest : List NodeId} (f : FunctionInfo → FunctionInfo)
    (h : r.functions = id :: rest) :
    (modifyFunction f r).2 = setFunctions r (r.tree.functions.modify id f) := by
  rw [modifyFunction_eq, h]
  rfl

theorem opensNothing_declareRest (name : FunctionName) (body : List Stmt) (scope : ScopeId) :
    OpensNothing (declareRest name body scope) := by
  have hname : OpensNothing (nameVar scope name) := by
    cases name with
    | none => exact .pure _
    | declared i => exact .get_bind fun _ => .pure _
    | own i =>
      refine .get_bind fun r => ?_
      split
      · exact .pure _
      · exact (opensNothing_declareIn scope i .ownName).bind fun _ =>
          (opensNothing_noteSite i .init).bind fun _ => .pure _
  exact (opensNothing_hoist body).bind fun _ => (opensNothing_declareLexicals body).bind fun _ =>
    hname.bind fun _ => opensNothing_modifyFunction _

/-- All that is declared when a function is entered belongs to the new scope. -/
theorem builds_declareRest (hr : r.Ok) {name : FunctionName} {id : NodeId} {body : List Stmt}
    {rest : List NodeId} (hfn : (r.tree.scope r.current).fnScope = r.current)
    (hstack : r.functions = id :: rest) (hn : n ≤ r.current) (hid : J id)
    (hname : ∀ i, name = .own i → J i.id)
    (hvars : ∀ i ∈ (stmtNodes false body).flatMap Node.varNames, J i.id)
    (hfns : ∀ x ∈ (stmtNodes false body).filterMap Node.functionDecl?, J x.1.id)
    (hlets : ∀ d, .var d ∈ body → ∀ x ∈ d.decls, J x.name.id) :
    Builds n J r (declareRest name body r.current r).2 := by
  have hhoist : Builds n J r (hoist body r).2 := builds_hoist hr hfn hn hvars hfns
  set r₁ := (hoist body r).2
  have hlexical : Builds n J r₁ (declareLexicals body r₁).2 := by
    refine builds_declareLexicals (hhoist.ok' hr) ?_ hlets
    rw [hhoist.current]
    exact hn
  have h₂ := hhoist.trans hr hlexical
  set r₂ := (declareLexicals body r₁).2
  have hnameVar : Builds n J r₂ (nameVar r.current name r₂).2 :=
    builds_nameVar (h₂.ok' hr) (hr.inside.trans_le h₂.grows.size) hn hname
  have h₃ := h₂.trans hr hnameVar
  set r₃ := (nameVar r.current name r₂).2
  have hlast (f : FunctionInfo → FunctionInfo) : Builds n J r₃ (modifyFunction f r₃).2 := by
    rw [modifyFunction_apply f (h₃.functions.trans hstack)]
    refine builds_setFunctions (h₃.ok' hr) hid (fun key hkey => ?_) fun hnone => ?_
    · rw [Std.TreeMap.getElem?_modify, if_neg]
      intro heq
      rw [Std.LawfulEqCmp.compare_eq_iff_eq] at heq
      exact hkey heq.symm
    · have hnone : r₃.tree.functions[id]? = none := (h₃.ok' hr).tree.entered id hnone
      rw [Std.TreeMap.getElem?_modify_self, hnone]
      rfl
  exact h₃.trans hr (hlast _)

end Resolve

end EsOptimizer
