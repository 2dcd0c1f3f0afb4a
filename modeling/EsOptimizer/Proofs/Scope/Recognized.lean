import EsOptimizer.Proofs.Flow.Entries
import EsOptimizer.Proofs.Scope.Entry

/-!
# Functions that use their own `arguments`

The walk notes that a function uses its own `arguments` where it meets the name and finds no variable
for it (`usesArguments_addSite`). Nothing else in it has a say in that: declarations leave the
functions of the tree alone, and a function that is entered is not known to use anything yet
(`usesArguments_atBody`).
-/

namespace EsOptimizer

namespace ScopeTree

/-- A function is known to use its own `arguments`. -/
def UsesArguments (t : ScopeTree) (f : NodeId) : Prop :=
  ∃ info, t.function? f = some info ∧ info.usesArguments = true

section

variable {t t' : ScopeTree} {f id : NodeId}

theorem usesArguments_congr (h : t'.functions = t.functions) (f : NodeId) :
    t'.UsesArguments f ↔ t.UsesArguments f := by
  rw [UsesArguments, UsesArguments, function?, function?, h]

theorem not_usesArguments (h : t.function? f = none) : ¬t.UsesArguments f := by
  rintro ⟨info, hinfo, -⟩
  rw [h] at hinfo
  cases hinfo

theorem function?_modify (t : ScopeTree) (id f : NodeId) (change : FunctionInfo → FunctionInfo) :
    ScopeTree.function? { t with functions := t.functions.modify id change } f =
      if id = f then (t.function? f).map change else t.function? f := by
  change (t.functions.modify id change)[f]? = _
  rw [Std.TreeMap.getElem?_modify]
  simp only [Std.LawfulEqCmp.compare_eq_iff_eq]
  by_cases h : id = f
  · subst h
    rfl
  · rw [if_neg h, if_neg h]
    rfl

theorem function?_insert (t : ScopeTree) (id f : NodeId) (info : FunctionInfo) :
    ScopeTree.function? { t with functions := t.functions.insert id info } f =
      if id = f then some info else t.function? f :=
  getElem?_insert_of_key

/-- Something else is noted of a function. -/
theorem usesArguments_modify {change : FunctionInfo → FunctionInfo}
    (hchange : ∀ x, (change x).usesArguments = x.usesArguments) (t : ScopeTree) (id f : NodeId) :
    UsesArguments { t with functions := t.functions.modify id change } f ↔ t.UsesArguments f := by
  rw [UsesArguments, function?_modify]
  by_cases h : id = f
  · rw [if_pos h]
    constructor
    · rintro ⟨info, hinfo, huses⟩
      obtain ⟨old, hold, rfl⟩ := Option.map_eq_some_iff.mp hinfo
      exact ⟨old, hold, (hchange old).symm.trans huses⟩
    · rintro ⟨old, hold, huses⟩
      exact ⟨change old, Option.map_eq_some_iff.mpr ⟨old, hold, rfl⟩, (hchange old).trans huses⟩
  · rw [if_neg h]
    exact Iff.rfl

/-- The use of `arguments` is noted of a function. -/
theorem usesArguments_noted (hid : ∃ info, t.function? id = some info) (f : NodeId) :
    UsesArguments { t with
        functions := t.functions.modify id fun x => { x with usesArguments := true } } f ↔
      t.UsesArguments f ∨ f = id := by
  rw [UsesArguments, function?_modify]
  by_cases h : id = f
  · subst h
    obtain ⟨info, hinfo⟩ := hid
    rw [if_pos rfl, hinfo]
    exact iff_of_true ⟨_, rfl, rfl⟩ (Or.inr rfl)
  · rw [if_neg h, or_iff_left (Ne.symm h)]
    exact Iff.rfl

end

end ScopeTree

namespace Resolve

open Resolution

/-! ## Names -/

/-- The function that the walk is in, if it is in one, is `f`. -/
def InFunction (r : Resolution) (f : NodeId) : Prop :=
  ∀ g rest, r.functions = g :: rest → g = f ∧ ∃ info, r.tree.function? f = some info

section

variable {r : Resolution} {f : NodeId}

theorem InFunction.congr {r' : Resolution} (h : InFunction r f) (hstack : r'.functions = r.functions)
    (htree : r'.tree.functions = r.tree.functions) : InFunction r' f := by
  intro g rest hg
  rw [ScopeTree.function?, htree]
  exact h g rest (hstack.symm.trans hg)

theorem InFunction.next {r' : Resolution} {n : Nat} {J : NodeId → Prop} (h : InFunction r f)
    (hbuilds : Builds n J r r') (hf : ¬J f) : InFunction r' f := by
  intro g rest hstack
  obtain ⟨rfl, info, hinfo⟩ := h g rest (hbuilds.functions.symm.trans hstack)
  obtain ⟨info', hinfo', -⟩ := hbuilds.grows.function_same hf hinfo
  exact ⟨rfl, info', hinfo'⟩

/-- A name without a variable is the `arguments` of the function that the walk is in. -/
theorem usesArguments_resolve (h : InFunction r f) (i : Ident) (g : NodeId) :
    (resolve i r).2.tree.UsesArguments g ↔
      r.tree.UsesArguments g ∨ f = g ∧ (resolve i r).1 = none := by
  have hfound {v : VarId} : r.tree.UsesArguments g ↔
      r.tree.UsesArguments g ∨ f = g ∧ some v = none := by
    rw [or_iff_left fun hnone => nomatch hnone.2]
  rw [resolve_eq]
  cases r.tree.lookup r.current i.name with
  | some v => exact hfound
  | none =>
    dsimp only
    split
    · rename_i hname
      cases hstack : r.functions with
      | nil => simp [hstack] at hname
      | cons id rest =>
        obtain ⟨rfl, hinfo⟩ := h id rest hstack
        change (modifyFunction (fun x => { x with usesArguments := true }) r).2.tree.UsesArguments g ↔
          r.tree.UsesArguments g ∨ id = g ∧ (none : Option VarId) = none
        rw [modifyFunction_apply _ hstack, eq_comm (a := id), and_iff_left rfl]
        exact ScopeTree.usesArguments_noted hinfo g
    · exact hfound

theorem usesArguments_addSite (h : InFunction r f) (i : Ident) (kind : SiteKind) (g : NodeId) :
    (addSite i kind r).2.tree.UsesArguments g ↔
      r.tree.UsesArguments g ∨ f = g ∧ (addSite i kind r).1 = none := by
  have hresolve := usesArguments_resolve h i g
  rw [addSite_apply]
  generalize resolve i r = x at hresolve
  obtain ⟨_ | v, r'⟩ := x
  · exact hresolve
  · exact hresolve

theorem usesArguments_modifyFunction {change : FunctionInfo → FunctionInfo}
    (hchange : ∀ x, (change x).usesArguments = x.usesArguments) (r : Resolution) (g : NodeId) :
    (modifyFunction change r).2.tree.UsesArguments g ↔ r.tree.UsesArguments g := by
  rw [modifyFunction_eq]
  cases r.functions with
  | nil => exact Iff.rfl
  | cons id rest => exact ScopeTree.usesArguments_modify hchange r.tree id g

end

/-! ## Entering a function -/

section

variable {r : Resolution} {name : FunctionName} {id bodyId : NodeId} {params : List Ident}
  {body : List Stmt}

theorem functions_declareParams (hr : r.Ok) (params : List Ident) :
    (declareParams r.current params r).2.tree.functions = r.tree.functions := by
  induction params generalizing r with
  | nil => rfl
  | cons p rest ih =>
    have hdeclare : Builds 0 (fun _ => True) r (declareIn r.current p .param r).2 :=
      builds_declareIn hr nofun trivial hr.inside (Nat.zero_le _)
    have hspec := declareIn_spec hr.inside p .param
    have hr₁ := hdeclare.ok' hr
    set r₁ := (declareIn r.current p .param r).2
    have hsite : Builds 0 (fun _ => True) r₁ (noteSite p .init r₁).2 :=
      builds_noteSite hr₁ trivial .init
    have hsame := (noteSite_found hr₁ .init (hdeclare.current ▸ hspec.found)).2
    have hcurrent : (noteSite p .init r₁).2.current = r.current :=
      hsite.current.trans hdeclare.current
    have happly : (declareParams r.current (p :: rest) r).2 =
        (declareParams r.current rest (noteSite p .init r₁).2).2 := by
      rw [declareParams, List.mapM_cons]
      rfl
    rw [happly, ← hcurrent, ih (hsite.ok' hr₁), hsame, hspec.functions]

theorem functions_nameVar (hr : r.Ok) (name : FunctionName) :
    (nameVar r.current name r).2.tree.functions = r.tree.functions := by
  cases name with
  | none => rfl
  | declared i => rfl
  | own i =>
    rw [nameVar_own]
    split
    · rfl
    · have hdeclare : Builds 0 (fun _ => True) r (declareIn r.current i .ownName r).2 :=
        builds_declareIn hr nofun trivial hr.inside (Nat.zero_le _)
      have hspec := declareIn_spec hr.inside i .ownName
      have hr₁ := hdeclare.ok' hr
      set r₁ := (declareIn r.current i .ownName r).2
      have hsame := (noteSite_found hr₁ .init (hdeclare.current ▸ hspec.found)).2
      exact hsame.trans hspec.functions

/-- Once its parameters are declared, only the name of a function is still noted of it. -/
theorem functions_declareRest (hr : r.Ok) (hfn : (r.tree.scope r.current).fnScope = r.current)
    {rest : List NodeId} (hstack : r.functions = id :: rest) (name : FunctionName)
    (body : List Stmt) : ∃ change : FunctionInfo → FunctionInfo,
      (∀ x, (change x).usesArguments = x.usesArguments) ∧
      (declareRest name body r.current r).2.tree.functions = r.tree.functions.modify id change := by
  have hhoist : Builds 0 (fun _ => True) r (hoist body r).2 :=
    builds_hoist hr hfn (Nat.zero_le _) (fun _ _ => trivial) fun _ _ => trivial
  have hhoisted := Leaves.hoist apart_functions body r
  have hr₁ := hhoist.ok' hr
  set r₁ := (hoist body r).2
  have hlexical : Builds 0 (fun _ => True) r₁ (declareLexicals body r₁).2 :=
    builds_declareLexicals hr₁ (Nat.zero_le _) fun _ _ _ _ => trivial
  have hdeclared := Leaves.declareLexicals apart_functions body r₁
  have h₂ := hhoist.trans hr hlexical
  set r₂ := (declareLexicals body r₁).2
  have hr₂ := h₂.ok' hr
  have hcurrent : r₂.current = r.current := h₂.current
  have hname : Builds 0 (fun _ => True) r₂ (nameVar r.current name r₂).2 :=
    builds_nameVar hr₂ (hcurrent ▸ hr₂.inside) (Nat.zero_le _) fun _ _ => trivial
  have hnamed : (nameVar r.current name r₂).2.tree.functions = r₂.tree.functions :=
    hcurrent ▸ functions_nameVar hr₂ name
  have hstack₃ := (h₂.trans hr hname).functions.trans hstack
  refine ⟨fun x => { x with
    nameVar := (nameVar r.current name r₂).1, isDecl := name.isDeclared }, fun _ => rfl, ?_⟩
  change (modifyFunction _ (nameVar r.current name r₂).2).2.tree.functions = _
  rw [modifyFunction_apply _ hstack₃]
  change (nameVar r.current name r₂).2.tree.functions.modify id _ = _
  rw [hnamed, hdeclared, hhoisted]
  rfl

/-- What the tree knows of the functions where the body of one starts. -/
theorem functions_atBody (hr : r.Ok) (name : FunctionName) (id bodyId : NodeId) (params : List Ident)
    (body : List Stmt) : ∃ (info : FunctionInfo) (change : FunctionInfo → FunctionInfo),
    info.usesArguments = false ∧ (∀ x, (change x).usesArguments = x.usesArguments) ∧
    (atBody name id params bodyId body r).tree.functions =
      (r.tree.functions.insert id info).modify id change := by
  have hr₁ := ok_entered hr id bodyId
  have hafter : Builds r.tree.scopes.size (fun _ => True) (entered r id bodyId)
      (afterParams id params (entered r id bodyId)) :=
    builds_afterParams hr₁ (Nat.le_refl _) (entered_scopeOf r id bodyId) trivial fun _ _ => trivial
  have hcurrent : (afterParams id params (entered r id bodyId)).current = r.tree.scopes.size :=
    hafter.current
  have hfn : ((afterParams id params (entered r id bodyId)).tree.scope r.tree.scopes.size).fnScope =
      r.tree.scopes.size :=
    (hafter.grows.fnScope _ hr₁.inside).trans (congrArg Scope.fnScope (entered_scope r id bodyId))
  obtain ⟨change, hchange, hrest⟩ := functions_declareRest (hafter.ok' hr₁)
    (by rw [hcurrent, hfn]) hafter.functions name body
  rw [hcurrent] at hrest
  have hparams : (declareParams r.tree.scopes.size params
      (entered r id bodyId)).2.tree.functions = r.tree.functions :=
    functions_declareParams hr₁ params
  refine ⟨{ scope := r.tree.scopes.size, params :=
    (declareParams r.tree.scopes.size params (entered r id bodyId)).1 }, change, rfl, hchange, ?_⟩
  rw [atBody, hrest]
  change ((declareParams r.tree.scopes.size params
    (entered r id bodyId)).2.tree.functions.insert id _).modify id change = _
  rw [hparams]
  rfl

/-- Where the body of a function starts, the function is known, and none of it is noted so far. -/
theorem function?_atBody (hr : r.Ok) (name : FunctionName) (id bodyId : NodeId)
    (params : List Ident) (body : List Stmt) : ∃ info : FunctionInfo, info.usesArguments = false ∧
    ∀ f, (atBody name id params bodyId body r).tree.function? f =
      if id = f then some info else r.tree.function? f := by
  obtain ⟨info, change, hinfo, hchange, hfunctions⟩ :=
    functions_atBody hr name id bodyId params body
  refine ⟨change info, (hchange info).trans hinfo, fun f => ?_⟩
  have hmodify := ScopeTree.function?_modify
    { r.tree with functions := r.tree.functions.insert id info } id f change
  rw [ScopeTree.function?_insert] at hmodify
  have hatBody : (atBody name id params bodyId body r).tree.function? f =
      ((r.tree.functions.insert id info).modify id change)[f]? :=
    congrArg (·[f]?) hfunctions
  rw [hatBody]
  refine hmodify.trans ?_
  split
  · rfl
  · rfl

theorem usesArguments_atBody (hr : r.Ok) (hfresh : r.tree.function? id = none) (g : NodeId) :
    (atBody name id params bodyId body r).tree.UsesArguments g ↔ r.tree.UsesArguments g := by
  obtain ⟨info, hinfo, hfunction⟩ := function?_atBody hr name id bodyId params body
  rw [ScopeTree.UsesArguments, hfunction g]
  by_cases h : id = g
  · subst h
    rw [if_pos rfl]
    refine iff_of_false ?_ (ScopeTree.not_usesArguments hfresh)
    rintro ⟨_, ⟨⟩, huses⟩
    rw [hinfo] at huses
    cases huses
  · rw [if_neg h]
    exact Iff.rfl

end

end Resolve

end EsOptimizer
