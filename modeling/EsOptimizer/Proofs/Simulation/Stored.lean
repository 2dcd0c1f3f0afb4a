import EsOptimizer.Proofs.Simulation.Declared
import EsOptimizer.Proofs.Simulation.Performs

/-!
# What the names of functions hold

The variable of a declared function gets its value when the program starts, and no code writes it. So
nothing but the function is ever stored under its key (`storesOnly_onAll`). Bodies of functions read
the variable from the facts of the run before; when these stay the same, all code reads the function.
-/

namespace EsOptimizer

namespace Value

theorem or_ofReference_self (r : Reference) : (ofReference r).or (ofReference r) = ofReference r :=
  if_pos (BEq.rfl : (Single.reference r == .reference r) = true)

theorem eq_ofReference_of_beq {r : Reference} {x : Value} (h : (ofReference r == x) = true) :
    x = ofReference r := by
  cases x with
  | single s =>
    cases s with
    | primitive y => cases h
    | reference r' =>
      have hr : (r == r') = true := h
      rw [eq_of_beq hr]
      rfl
  | set _ => cases h
  | unknown => cases h

end Value

/-- Nothing but a reference is stored under a key. -/
def Progress.StoresOnly (key : VarKey) (r : Reference) (p : Progress) : Prop :=
  ∀ x, p.possible[key]? = some x → x = .ofReference r

section

variable {cx : Context} {key : VarKey} {r : Reference} {b : Bounds} {p q : Progress}

namespace Progress.StoresOnly

/-- Code that does not write a variable with the key. -/
theorem advance (h : p.StoresOnly key r) (hpq : Advances cx.scopes b p q)
    (hkey : ∀ v, b.vars v → (cx.scopes.var v).key ≠ key) : q.StoresOnly key r := by
  intro x hx
  rw [hpq.unstored key hkey] at hx
  exact h x hx

theorem writeVar {v : VarId} {value : Value} (h : p.StoresOnly key r)
    (hv : (cx.scopes.var v).key ≠ key ∨ value = .ofReference r) :
    (Track.writeVar v value cx p).2.StoresOnly key r := by
  by_cases hkey : (cx.scopes.var v).key = key
  · obtain rfl := hv.resolve_left (not_not_intro hkey)
    subst hkey
    intro x hx
    rw [possible_writeVar, Std.TreeMap.getElem?_insert_self] at hx
    obtain rfl := Option.some.inj hx
    cases hold : p.possible[(cx.scopes.var v).key]? with
    | none => rfl
    | some old =>
      rw [h old hold]
      exact Value.or_ofReference_self r
  · refine h.advance (Track.moves_writeVar (b := ⟨fun _ => False, (· = v), False⟩) rfl value p) ?_
    rintro _ rfl
    exact hkey

/-- A scope is entered. -/
theorem enterScope {s : ScopeId} (h : p.StoresOnly key r)
    (hvars : ∀ x ∈ (cx.scopes.scope s).vars, ∀ value, cx.scopes.initialValue x.2 = some value →
      (cx.scopes.var x.2).key ≠ key)
    (hhoisted : ∀ x ∈ (cx.scopes.scope s).hoisted, (cx.scopes.var x.1).key ≠ key ∨
      Reference.function x.2 = r) : (Track.enterScope s cx p).2.StoresOnly key r := by
  refine Track.enterScope_keeps (I := StoresOnly key r) (fun x hx value hvalue q hq => ?_)
    (fun x hx q hq => ?_) h
  · exact hq.writeVar (Or.inl (hvars x hx value hvalue))
  · have hallocated : (Track.allocateFunction x.2 cx q).2.StoresOnly key r :=
      hq.advance (Track.moves_allocateFunction (b := .none) x.2 q) nofun
    exact hallocated.writeVar ((hhoisted x hx).imp_right fun hr => congrArg Value.ofReference hr)

end Progress.StoresOnly

end

/-! ## The names of functions -/

section

variable {cx : Context} {prog : Program} {Δ Φ : Layout} {i : Ident} {f g : Func} {p : Progress}

/-- Entering the body of a function stores nothing else under the names of functions. -/
theorem storesOnly_startFunction {info : FunctionInfo} {Ψ : Layout}
    (hbody : cx.scopes.HasBody prog g info Ψ) (hf : (i, f) ∈ prog.declarations)
    (h : p.StoresOnly (.decl i.id) (.function f.id)) :
    (Track.startFunction g info cx p).2.StoresOnly (.decl i.id) (.function f.id) := by
  have hapart {v : VarId} (hv : v ∈ Ψ.vars) : (cx.scopes.var v).key ≠ .decl i.id :=
    hbody.apart v hv (i, f) hf
  have hnamed : Track.bindName g.id info = pure () := by
    rw [Track.bindName]
    cases info.nameVar <;> simp [hbody.isDecl]
  have hparams (values : List Value) (q : Progress) (hq : q.StoresOnly (.decl i.id) (.function f.id)) :
      (Track.bindParams info.params values cx q).2.StoresOnly (.decl i.id) (.function f.id) := by
    refine Track.forIn_keeps (I := Progress.StoresOnly _ _) (fun x hx _ r hr => ?_) _ hq
    refine hr.writeVar (Or.inl (hapart ?_))
    obtain ⟨_, _, hlookup⟩ := List.Forall₂.exists_left hbody.params (List.of_mem_zip hx).1
    exact Layout.mem_vars_of_lookup hlookup
  have hstart : (Track.bindParams info.params
      ((List.range info.params.length).map
        fun k => ((cx.prev.params[g.id]?).getD []).getD k .unknown) cx
      (p.atBody info.scope)).2.StoresOnly (.decl i.id) (.function f.id) := hparams _ _ h
  obtain ⟨own, hvars, -, -, hown⟩ := hbody.vars
  have hhoisted : (cx.scopes.scope info.scope).hoisted = [] := by
    have hnone := hbody.hoisted
    rw [hbody.flat.noFunctions] at hnone
    exact List.forall₂_nil_left_iff.mp hnone
  rw [Track.startFunction, hnamed]
  refine hstart.enterScope (fun x hx _ _ => hapart ?_) ?_
  · rw [hvars, hown hbody.isDecl, List.append_nil] at hx
    exact List.mem_map_of_mem hx
  · rw [hhoisted]
    exact nofun

namespace ScopeTree.HasFirstOrder

theorem storesOnly_onFunction (h : cx.scopes.HasFirstOrder prog Δ Φ) (hg : g ∈ prog.functions)
    (hf : (i, f) ∈ prog.declarations) (hp : p.StoresOnly (.decl i.id) (.function f.id)) :
    (Track.onFunction g cx p).2.StoresOnly (.decl i.id) (.function f.id) := by
  obtain ⟨j, hj⟩ := h.firstOrder.mem_functions_iff.mp hg
  obtain ⟨info, Ψ, hbody⟩ := h.bodies j g hj
  have hmoves := moves_onStmts_of_linked hbody.isLocal (h.hoistsFunctions h.firstOrder h.ok)
    hbody.linked (Track.startFunction g info cx p).2
  have hbodies := (storesOnly_startFunction hbody hf hp).advance hmoves fun v hv =>
    hbody.apart v hv (i, f) hf
  rw [Track.onFunction_apply hbody.function, Track.sumUp_apply]
  exact hbodies

theorem storesOnly_onProgram (h : cx.scopes.HasFirstOrder prog Δ Φ)
    (hf : (i, f) ∈ prog.declarations) (hp : p.StoresOnly (.decl i.id) (.function f.id)) :
    (Track.onProgram prog cx p).2.StoresOnly (.decl i.id) (.function f.id) := by
  have hstart : (Track.enterScope root cx (p.atBody root)).2.StoresOnly (.decl i.id)
      (.function f.id) := by
    refine Progress.StoresOnly.enterScope hp (fun x hx value hvalue =>
      h.apart_of_initial h.regular h.ok hx hvalue hf) fun x hx => ?_
    obtain ⟨d, hd, hholds⟩ := h.exists_decl h.firstOrder h.ok hx
    rw [hholds.key, hholds.id]
    by_cases hid : d.1.id = i.id
    · rw [h.regular.eq_of_name hf hd hid]
      exact Or.inr rfl
    · exact Or.inl fun heq => hid (VarKey.decl.inj heq)
  have hmoves := moves_onStmts_of_linked (h.local_root h.ok) (h.hoistsFunctions h.firstOrder h.ok)
    (h.linked_body h.firstOrder h.ok) (Track.enterScope root cx (p.atBody root)).2
  rw [Track.onProgram_apply]
  exact hstart.advance hmoves fun v hv => h.apart_own h.regular hv hf

/-- A run stores nothing but the function under the name of one. -/
theorem storesOnly_onAll (h : cx.scopes.HasFirstOrder prog Δ Φ) (hf : (i, f) ∈ prog.declarations)
    (hp : p.StoresOnly (.decl i.id) (.function f.id)) :
    (Track.onAll prog cx p).2.StoresOnly (.decl i.id) (.function f.id) := by
  have hall (gs : List Func) (hgs : ∀ g ∈ gs, g ∈ prog.functions) (q : Progress)
      (hq : q.StoresOnly (.decl i.id) (.function f.id)) :
      (gs.forM Track.onFunction cx q).2.StoresOnly (.decl i.id) (.function f.id) := by
    induction gs generalizing q with
    | nil => exact hq
    | cons g rest ih =>
      obtain ⟨hg, hrest⟩ := List.forall_mem_cons.mp hgs
      exact ih hrest _ (h.storesOnly_onFunction hg hf hq)
  rw [Track.onAll_apply]
  exact hall prog.functions (fun _ hg => hg) _ (h.storesOnly_onProgram hf hp)

end ScopeTree.HasFirstOrder

end

/-! ## Facts that stay the same -/

section

variable {p : Program} {options : Options} {prev : Facts} {watch : Bool}

/-- What was stored is known. -/
theorem stored_of_fixed (hfixed : ((analyze p options prev watch).facts == prev) = true)
    {key : VarKey} {x : Value}
    (hx : (Context.result { options, scopes := .ofProgram p, prev, watch } p).possible[key]? =
      some x) : ∃ y, prev.possible[key]? = some y ∧ (x == y) = true := by
  rw [analyze_eq] at hfixed
  exact getElem?_of_beq (Context.parts_of_fixed hfixed).2.1 hx

/-- Under the name of a function, that function is known. -/
theorem possible_of_fixed {Δ Φ : Layout} (h : (ScopeTree.ofProgram p).HasFirstOrder p Δ Φ)
    (hfixed : ((analyze p options prev watch).facts == prev) = true) {x : VarId × NodeId}
    (hx : x ∈ ((ScopeTree.ofProgram p).scope ScopeTree.root).hoisted) :
    prev.possible.getD ((ScopeTree.ofProgram p).var x.1).key .unknown =
      .ofReference (.function x.2) := by
  set cx : Context := { options, scopes := .ofProgram p, prev, watch }
  obtain ⟨d, hd, hholds⟩ := h.exists_decl h.firstOrder h.ok hx
  have hscopes : cx.scopes.HasFirstOrder p Δ Φ := h
  have honly : (cx.result p).StoresOnly (.decl d.1.id) (.function d.2.id) :=
    hscopes.storesOnly_onAll hd nofun
  have hstores : (cx.result p).Stores ((ScopeTree.ofProgram p).var x.1).key
      (.ofReference (.function x.2)) := stores_onAll_hoisted cx p hx _
  obtain ⟨y, hy, -⟩ := hstores
  obtain ⟨z, hz, hsame⟩ := stored_of_fixed hfixed hy
  rw [hholds.key] at hy hz ⊢
  obtain rfl := honly y hy
  rw [Std.TreeMap.getD_eq_getD_getElem?, hz, hholds.id]
  exact Value.eq_ofReference_of_beq hsame

end

end EsOptimizer
