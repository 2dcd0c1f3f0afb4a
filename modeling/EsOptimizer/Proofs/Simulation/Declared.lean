import EsOptimizer.Proofs.Scope.Program
import EsOptimizer.Proofs.Simulation.FixedPoint
import EsOptimizer.Proofs.Simulation.Links

/-!
# The functions of a first-order program

What the scopes of a first-order program say of its functions: each has a variable of its own in the
outermost scope that holds it from the start, its body calls others by their names, and its variables
are its own. Variables keep apart across versions of a program by the names that declare them, so
nothing that is stored elsewhere is taken for one of the functions.
-/

namespace EsOptimizer

/-! ## Statements at the top level -/

theorem ids_sublist {ss : List Stmt} {s : Stmt} (hs : s ∈ ss) : s.ids.Sublist (stmtIds ss) := by
  induction ss with
  | nil => cases hs
  | cons x rest ih =>
    rcases List.mem_cons.mp hs with rfl | hs
    · exact List.sublist_append_left _ _
    · exact (ih hs).trans (List.sublist_append_right _ _)

theorem mem_stmtIds {ss : List Stmt} {id : NodeId} :
    id ∈ stmtIds ss ↔ ∃ s ∈ ss, id ∈ s.ids := by
  induction ss with
  | nil => simp [stmtIds]
  | cons s rest ih => simp [stmtIds, ih]

theorem eq_of_common_id {ss : List Stmt} (h : (stmtIds ss).Nodup) {s s' : Stmt} (hs : s ∈ ss)
    (hs' : s' ∈ ss) {id : NodeId} (hid : id ∈ s.ids) (hid' : id ∈ s'.ids) : s = s' := by
  induction ss with
  | nil => cases hs
  | cons x rest ih =>
    rw [stmtIds, List.nodup_append'] at h
    obtain ⟨-, hrest, hdisjoint⟩ := h
    rcases List.mem_cons.mp hs with hx | hs <;> rcases List.mem_cons.mp hs' with hx' | hs'
    · exact hx.trans hx'.symm
    · exact (hdisjoint (hx ▸ hid) (mem_stmtIds.mpr ⟨s', hs', hid'⟩)).elim
    · exact (hdisjoint (hx' ▸ hid') (mem_stmtIds.mpr ⟨s, hs, hid⟩)).elim
    · exact ih hrest hs hs'

theorem mem_stmtNodes {deep : Bool} {ss : List Stmt} {n : Node} :
    n ∈ stmtNodes deep ss ↔ ∃ s ∈ ss, n ∈ s.nodes deep := by
  induction ss with
  | nil => simp [stmtNodes]
  | cons s rest ih => simp [stmtNodes, ih]

/-- The names that a node declares are among its ids. -/
theorem Node.varNames_ids {n : Node} {i : Ident} (h : i ∈ n.varNames) : i.id ∈ n.ids := by
  have hdecls (ds : List Declarator) (hi : i ∈ ds.map (·.name)) : i.id ∈ declIds ds := by
    induction ds with
    | nil => cases hi
    | cons d rest ih =>
      obtain ⟨_, name, _⟩ := d
      rw [declIds, List.mem_append]
      rcases List.mem_cons.mp hi with rfl | hi
      · exact Or.inl (by simp [Declarator.ids])
      · exact Or.inr (ih hi)
  cases n with
  | decl d | loopDecl d =>
    obtain ⟨id, kind, ds⟩ := d
    rw [Node.varNames] at h
    split at h
    · exact List.mem_append_left _ (hdecls ds h)
    · cases h
  | _ => cases h

namespace Program

variable {p : Program}

/-- What a program consists of if it is first-order. -/
structure IsFirstOrder (p : Program) : Prop where
  distinct : p.functionNames.Nodup
  apart : ∀ x ∈ p.varNames, x.name ∉ p.functionNames
  functions : ∀ id i f, .function id i f ∈ p.body → f.isFirstOrder p.functionNames = true
  others : ∀ s ∈ p.body, (∀ id i f, s ≠ .function id i f) →
    s.isFirstOrder p.functionNames (p.varNames.map (·.name)) = true

theorem isFirstOrder_iff (h : p.isFirstOrder = true) : p.IsFirstOrder := by
  simp only [isFirstOrder, Bool.and_eq_true, decide_eq_true_eq, List.all_eq_true] at h
  obtain ⟨⟨hdistinct, hapart⟩, hbody⟩ := h
  refine ⟨hdistinct, fun x hx => ?_, fun id i f hf => hbody _ hf, fun s hs hnot => ?_⟩
  · simpa using hapart x hx
  · have hs := hbody s hs
    cases s with
    | function id i f => exact absurd rfl (hnot id i f)
    | _ => exact hs

theorem mem_declarations {i : Ident} {f : Func} :
    (i, f) ∈ p.declarations ↔ ∃ id, .function id i f ∈ p.body := by
  rw [declarations, List.mem_filterMap]
  constructor
  · rintro ⟨s, hs, h⟩
    cases s <;> cases h
    exact ⟨_, hs⟩
  · rintro ⟨id, h⟩
    exact ⟨_, h, rfl⟩

namespace IsFirstOrder

theorem declarations_eq_of_mem (h : p.IsFirstOrder) (ss : List Stmt) (hss : ∀ s ∈ ss, s ∈ p.body) :
    (stmtNodes false ss).filterMap Node.functionDecl? = ss.filterMap fun
      | .function _ i f => some (i, f)
      | _ => none := by
  induction ss with
  | nil => rfl
  | cons s rest ih =>
    obtain ⟨hs, hrest⟩ := List.forall_mem_cons.mp hss
    have hother (hnot : ∀ id i f, s ≠ .function id i f) :
        (s.nodes false).filterMap Node.functionDecl? = [] :=
      functionDecls_of_plain (Stmt.firstOrder_nodes s (h.others s hs hnot))
    rw [stmtNodes, List.filterMap_append, ih hrest]
    cases s with
    | function id i f =>
      obtain ⟨_, _, _⟩ := f
      rfl
    | _ => rw [hother (by simp)]; rfl

/-- No functions are declared but at the top level. -/
theorem declarations_eq (h : p.IsFirstOrder) : functionDecls p.body = p.declarations :=
  h.declarations_eq_of_mem p.body fun _ hs => hs

theorem firstOrder_body (h : p.IsFirstOrder) {i : Ident} {f : Func}
    (hf : (i, f) ∈ p.declarations) :
    areFirstOrderStmts (p.functionNames.filter (· != "arguments")) f.ownNames f.body.stmts = true ∧
      (∀ name ∈ f.ownNames, name ∉ p.functionNames) := by
  obtain ⟨id, hs⟩ := mem_declarations.mp hf
  have hfirst := h.functions id i f hs
  simp only [Func.isFirstOrder, Bool.and_eq_true, List.all_eq_true] at hfirst
  exact ⟨hfirst.2, fun name hname => by simpa using hfirst.1.1 name hname⟩

/-- The functions of the program are the declared ones. -/
theorem mem_functions_iff (h : p.IsFirstOrder) {f : Func} :
    f ∈ p.functions ↔ ∃ i, (i, f) ∈ p.declarations := by
  constructor
  · intro hf
    obtain ⟨s, hs, hmem⟩ := mem_stmtNodes.mp (mem_nodes_of_functions hf)
    cases s with
    | function id i g =>
      have hg := (h.firstOrder_body (mem_declarations.mpr ⟨id, hs⟩)).1
      obtain ⟨gid, params, ⟨bodyId, stmts⟩⟩ := g
      simp only [Stmt.nodes, Func.nodes, Block.nodes, List.mem_cons, reduceCtorEq, if_true,
        List.mem_append, List.mem_map, and_false, exists_false, false_or, Node.func.injEq] at hmem
      rcases hmem with rfl | hmem
      · exact ⟨i, mem_declarations.mpr ⟨id, hs⟩⟩
      · exact (areFirstOrderStmts_nodes stmts hg _ hmem).elim
    | _ => exact (Stmt.firstOrder_nodes _ (h.others _ hs (by simp)) _ hmem).elim
  · rintro ⟨i, hf⟩
    obtain ⟨id, hs⟩ := mem_declarations.mp hf
    refine List.mem_filterMap.mpr ⟨.func f, mem_stmtNodes.mpr ⟨_, hs, ?_⟩, rfl⟩
    obtain ⟨gid, params, body⟩ := f
    simp [Stmt.nodes, Func.nodes]

/-- A function is found by its name. -/
theorem function?_eq (h : p.IsFirstOrder) {i : Ident} {f : Func} (hf : (i, f) ∈ p.declarations) :
    p.function? i.name = some f := by
  have hfind (ds : List (Ident × Func)) (hds : (ds.map (·.1.name)).Nodup) (hmem : (i, f) ∈ ds) :
      ds.find? (·.1.name == i.name) = some (i, f) := by
    induction ds with
    | nil => cases hmem
    | cons d rest ih =>
      obtain ⟨hd, hrest⟩ := List.nodup_cons.mp hds
      rcases List.mem_cons.mp hmem with rfl | hmem
      · exact List.find?_cons_of_pos (beq_self_eq_true _)
      · have hne : d.1.name ≠ i.name := fun heq => hd (List.mem_map.mpr ⟨_, hmem, heq.symm⟩)
        rw [List.find?_cons_of_neg (by simpa using hne), ih hrest hmem]
  rw [function?, hfind _ h.distinct hf]
  rfl

theorem exists_of_function? {name : String} {f : Func} (h : p.function? name = some f) :
    ∃ i, (i, f) ∈ p.declarations ∧ i.name = name := by
  obtain ⟨d, hd, rfl⟩ := Option.map_eq_some_iff.mp h
  exact ⟨d.1, List.mem_of_find?_eq_some hd, by simpa using List.find?_some hd⟩

theorem exists_of_functionName {name : String} (h : name ∈ p.functionNames) :
    ∃ i f, (i, f) ∈ p.declarations ∧ i.name = name := by
  obtain ⟨d, hd, rfl⟩ := List.mem_map.mp h
  exact ⟨d.1, d.2, hd, rfl⟩

end IsFirstOrder

end Program

/-! ## Their variables -/

section

variable {p : Program} {t : ScopeTree} {Δ Φ : Layout}

/-- A variable of the outermost scope holds a declared function from the start. -/
structure ScopeTree.HoldsFunction (t : ScopeTree) (d : Ident × Func) (x : VarId × NodeId) : Prop where
  id : x.2 = d.2.id
  lookup : t.lookup root d.1.name = some x.1
  kind : (t.var x.1).kind = .function
  key : (t.var x.1).key = .decl d.1.id
  fnScope : (t.var x.1).fnScope = root

theorem Layout.lookup_eq_none {name : String} (h : name ∉ Δ.map (·.1)) : Δ.lookup name = none := by
  refine List.lookup_eq_none_iff.mpr fun x hx => bne_iff_ne.mpr ?_
  rintro rfl
  exact h (List.mem_map_of_mem hx)

namespace ScopeTree.HasProgram

theorem mem_vars (h : t.HasProgram p Δ Φ) {x : String × VarId} (hx : x ∈ Δ ++ Φ) :
    x ∈ (t.scope root).vars := by
  obtain ⟨others, hvars, -⟩ := h.vars
  rw [hvars]
  exact List.mem_append_left _ hx

/-- The variables of the program are found first. -/
theorem lookup_root (h : t.HasProgram p Δ Φ) (ht : t.Ok) {name : String} {v : VarId}
    (hv : (Δ ++ Φ).lookup name = some v) : t.lookup root name = some v := by
  obtain ⟨others, hvars, -⟩ := h.vars
  rw [ScopeTree.lookup_eq ht, hvars, List.lookup_append, hv]
  rfl

/-- No variable of the program has the name of a function. -/
theorem lookup_functionName (h : t.HasProgram p Δ Φ) (hp : p.IsFirstOrder) {name : String}
    (hname : name ∈ p.functionNames) : Δ.lookup name = none := by
  refine Layout.lookup_eq_none fun hmem => ?_
  rw [h.names, mem_namesOf] at hmem
  obtain ⟨i, hi, rfl⟩ := List.mem_map.mp hmem
  exact hp.apart i hi hname

/-- Each declared function has its variable. -/
theorem holdsFunctions (h : t.HasProgram p Δ Φ) (hp : p.IsFirstOrder) (ht : t.Ok) :
    List.Forall₂ t.HoldsFunction p.declarations (t.scope root).hoisted := by
  have hall : Resolve.HoistedAs (Δ ++ Φ) p.declarations (t.scope root).hoisted := by
    rw [← hp.declarations_eq]
    exact h.hoisted
  have hmem := (List.forall₂_and_left (p := (· ∈ p.declarations)) _ _).mpr ⟨fun d hd => hd, hall⟩
  refine hmem.imp fun d x hx => ?_
  obtain ⟨hd, hlookup, hid⟩ := hx
  have hfound := hlookup
  rw [List.lookup_append, h.lookup_functionName hp (List.mem_map_of_mem hd), Option.none_or] at hfound
  have hΦ := ScopeTree.mem_of_lookup hfound
  obtain ⟨hlt, hscope, hname⟩ := ht.listed root _ (h.mem_vars (List.mem_append_right _ hΦ))
  obtain ⟨d', hd', hmade⟩ := h.functions _ hΦ
  rw [hp.declarations_eq] at hd'
  have hsame : d' = d :=
    List.inj_on_of_nodup_map hp.distinct hd' hd (hmade.name.symm.trans hname)
  subst hsame
  refine ⟨hid, h.lookup_root ht hlookup, hmade.kind, ?_, ?_⟩
  · rw [Variable.key, hmade.decl]
  · rw [(ht.placed _ hlt).2, hscope, ht.rootScope]

theorem exists_decl (h : t.HasProgram p Δ Φ) (hp : p.IsFirstOrder) (ht : t.Ok)
    {x : VarId × NodeId} (hx : x ∈ (t.scope root).hoisted) :
    ∃ d ∈ p.declarations, t.HoldsFunction d x :=
  List.Forall₂.exists_left (h.holdsFunctions hp ht) hx

theorem hoistsFunctions (h : t.HasProgram p Δ Φ) (hp : p.IsFirstOrder) (ht : t.Ok) :
    t.HoistsFunctions := by
  intro x hx
  obtain ⟨d, -, hd⟩ := h.exists_decl hp ht hx
  exact hd.kind

/-- The name of a function means its variable. -/
theorem callees (h : t.HasProgram p Δ Φ) (hp : p.IsFirstOrder) (ht : t.Ok) {name : String}
    (hname : name ∈ p.functionNames) : ∃ f v, p.function? name = some f ∧
      t.lookup root name = some v ∧ (v, f.id) ∈ (t.scope root).hoisted := by
  obtain ⟨i, f, hf, rfl⟩ := Program.IsFirstOrder.exists_of_functionName hname
  obtain ⟨⟨v, id⟩, hx, hholds⟩ := List.Forall₂.exists_right (h.holdsFunctions hp ht) hf
  obtain rfl := hholds.id
  exact ⟨f, v, hp.function?_eq hf, hholds.lookup, hx⟩

/-! ## The code outside functions -/

theorem mem_own (h : t.HasProgram p Δ Φ) (ht : t.Ok) {v : VarId} (hv : v ∈ Δ.vars) :
    (t.var v).kind = .var ∧ (t.var v).scope = root ∧ v < t.vars.size := by
  obtain ⟨x, hx, rfl⟩ := List.mem_map.mp hv
  obtain ⟨i, -, hmade⟩ := h.own x hx
  obtain ⟨hlt, hscope, -⟩ := ht.listed root x (h.mem_vars (List.mem_append_left _ hx))
  exact ⟨hmade.kind, hscope, hlt⟩

theorem found_root (h : t.HasProgram p Δ Φ) (ht : t.Ok) : Δ.Found t root where
  ok := ht
  declared := fun v hv => by
    rw [(h.mem_own ht hv).1]
    nofun
  finds := fun hv => h.lookup_root ht (by rw [List.lookup_append, hv]; rfl)
  around := fun v hv => (h.mem_own ht hv).2.1.le

theorem local_root (h : t.HasProgram p Δ Φ) (ht : t.Ok) : Δ.Local t root where
  nodup := by
    refine Layout.nodup_vars ht (s := root) (fun x hx => h.mem_vars (List.mem_append_left _ hx)) ?_
    have hdistinct := ht.distinct root
    obtain ⟨others, hvars, -⟩ := h.vars
    rw [hvars, List.append_assoc, List.map_append] at hdistinct
    exact (List.nodup_append'.mp hdistinct).1
  fnScope := fun v hv => by
    obtain ⟨-, hscope, hlt⟩ := h.mem_own ht hv
    rw [(ht.placed v hlt).2, hscope, ht.rootScope]
  kind := fun v hv => Or.inl (h.mem_own ht hv).1

theorem sees_root (h : t.HasProgram p Δ Φ) (hp : p.IsFirstOrder) (ht : t.Ok) :
    Δ.Sees t p.function? p.functionNames root where
  toFound := h.found_root ht
  functions := h.hoistsFunctions hp ht
  callees := fun _ hname => h.callees hp ht (List.contains_iff_mem.mp hname)

theorem linked_body (h : t.HasProgram p Δ Φ) (hp : p.IsFirstOrder) (ht : t.Ok) :
    StmtsLinked t p.function? Δ p.body := by
  have hown : Δ.Has (p.varNames.map (·.name)) := Layout.has_of_names h.names
  have hall (ss : List Stmt) (hss : ∀ s ∈ ss, s ∈ p.body) (hresolved : StmtsResolved t ss root) :
      StmtsLinked t p.function? Δ ss := by
    induction ss with
    | nil => trivial
    | cons s rest ih =>
      obtain ⟨hs, hrest⟩ := List.forall_mem_cons.mp hss
      refine ⟨?_, ih hrest hresolved.2⟩
      have hother (hnot : ∀ id i f, s ≠ .function id i f) : s.Linked t p.function? Δ :=
        Stmt.linked s (h.sees_root hp ht) hown (hp.others s hs hnot) hresolved.1
      cases s with
      | function id i f => trivial
      | _ => exact hother nofun
  exact hall p.body (fun _ hs => hs) h.body

end ScopeTree.HasProgram

/-! ## Names that declare -/

namespace Program

theorem Regular.stmts_nodup (h : p.Regular) : (stmtIds p.body).Nodup :=
  (List.nodup_append'.mp h.nodup).1

/-- The name of a declared function occurs in its declaration alone. -/
theorem Regular.eq_of_mem_ids (h : p.Regular) {i : Ident} {f : Func}
    (hf : (i, f) ∈ p.declarations) {s : Stmt} (hs : s ∈ p.body) (hid : i.id ∈ s.ids) :
    ∃ id, s = .function id i f := by
  obtain ⟨id, hmem⟩ := mem_declarations.mp hf
  exact ⟨id, eq_of_common_id h.stmts_nodup hs hmem hid List.mem_cons_self⟩

/-- Declared functions are told apart by their names. -/
theorem Regular.eq_of_name (h : p.Regular) {i j : Ident} {f g : Func}
    (hf : (i, f) ∈ p.declarations) (hg : (j, g) ∈ p.declarations) (hid : j.id = i.id) : g = f := by
  obtain ⟨id, hs⟩ := mem_declarations.mp hg
  obtain ⟨_, heq⟩ := h.eq_of_mem_ids hf hs (hid ▸ List.mem_cons_self)
  cases heq
  rfl

/-- The name of a declared function is no part of a function. -/
theorem Regular.name_not_mem (h : p.Regular) {i j : Ident} {f g : Func}
    (hf : (i, f) ∈ p.declarations) (hg : (j, g) ∈ p.declarations) : i.id ∉ g.ids := by
  obtain ⟨id, hs⟩ := mem_declarations.mp hg
  intro hmem
  obtain ⟨_, heq⟩ := h.eq_of_mem_ids hf hs
    (List.mem_cons_of_mem _ (List.mem_append_left _ hmem))
  cases heq
  have hnodup := (ids_sublist hs).nodup h.stmts_nodup
  exact (List.nodup_cons.mp hnodup).1 (List.mem_append_left _ hmem)

/-- The names of variables outside functions are not those of functions. -/
theorem Regular.varName_ne (h : p.Regular) {x i : Ident} {f : Func} (hx : x ∈ p.varNames)
    (hf : (i, f) ∈ p.declarations) : x.id ≠ i.id := by
  obtain ⟨n, hn, hmem⟩ := List.mem_flatMap.mp hx
  obtain ⟨s, hs, hns⟩ := mem_stmtNodes.mp hn
  intro heq
  obtain ⟨id, rfl⟩ := h.eq_of_mem_ids hf hs
    (heq ▸ Stmt.nodes_within s n hns (Node.varNames_ids hmem))
  obtain ⟨_, _, _⟩ := f
  simp only [Stmt.nodes, Func.nodes, List.mem_cons, Bool.false_eq_true, if_false, List.not_mem_nil,
    or_false] at hns
  rcases hns with rfl | rfl | rfl <;> cases hmem

end Program

/-- What a function declares has its name in it. -/
theorem Func.declarations_ids {f : Func} (hflat : f.HasFlatBody) {d : Ident × VarKind}
    (hd : d ∈ f.declarations) : d.1.id ∈ f.ids := by
  obtain ⟨id, params, ⟨bodyId, stmts⟩⟩ := f
  rw [Func.declarations, EsOptimizer.declarations, hflat.noFunctions, List.map_nil,
    List.append_nil, List.mem_append] at hd
  rw [Func.ids, Block.ids]
  rcases hd with hd | hd <;> obtain ⟨i, hi, rfl⟩ := List.mem_map.mp hd
  · simp only [List.mem_append, List.mem_map]
    exact Or.inl (Or.inl ⟨i, hi, rfl⟩)
  · obtain ⟨n, hn, hmem⟩ := List.mem_flatMap.mp hi
    have hid := stmtNodes_within stmts n hn (Node.varNames_ids hmem)
    simp only [List.mem_append]
    exact Or.inl (Or.inr (Or.inl hid))

/-! ## Bodies of functions -/

/-- What the scopes say of a declared function. -/
structure ScopeTree.HasBody (t : ScopeTree) (p : Program) (f : Func) (info : FunctionInfo)
    (Ψ : Layout) : Prop extends t.HasFunction f info Ψ where
  isDecl : info.isDecl = true
  flat : f.HasFlatBody
  fits : Ψ.Fits t [] info.scope info.scope
  linked : StmtsLinked t p.function? Ψ f.body.stmts
  apart : ∀ v ∈ Ψ.vars, ∀ d ∈ p.declarations, (t.var v).key ≠ .decl d.1.id

theorem ScopeTree.HasBody.isLocal {f : Func} {info : FunctionInfo} {Ψ : Layout}
    (h : t.HasBody p f info Ψ) : Ψ.Local t info.scope where
  nodup := h.fits.valid.nodup
  fnScope := fun v hv => (h.fits.valid.owns v hv).fnScope
  kind := fun v hv => by
    obtain ⟨x, hx, rfl⟩ := List.mem_map.mp hv
    exact h.kind h.flat hx

namespace ScopeTree.HasProgram

/-- From the body of a function its own variables are found, and the functions of the program. -/
theorem sees_function (h : t.HasProgram p Δ Φ) (hp : p.IsFirstOrder) {i : Ident} {f : Func}
    (hf : (i, f) ∈ p.declarations) {info : FunctionInfo} {Ψ : Layout}
    (hfunction : t.HasFunction f info Ψ) (hfits : Ψ.Fits t [] info.scope info.scope)
    (hflat : f.HasFlatBody) (hparent : (t.scope info.scope).parent = some root)
    (hdecl : info.isDecl = true) :
    Ψ.Sees t p.function? (p.functionNames.filter (· != "arguments")) info.scope where
  toFound := hfits.toFound
  functions := h.hoistsFunctions hp hfits.ok
  callees := fun name hname => by
    have hname : name ∈ p.functionNames := (List.mem_filter.mp (List.contains_iff_mem.mp hname)).1
    obtain ⟨own, hvars, -, -, hown⟩ := hfunction.vars
    have hnone : Ψ.lookup name = none := by
      refine Layout.lookup_eq_none fun hmem => ?_
      rw [hfunction.names_eq hflat, mem_namesOf] at hmem
      exact (hp.firstOrder_body hf).2 name hmem hname
    rw [ScopeTree.lookup_eq hfits.ok, hvars, hown hdecl, List.append_nil, hnone, hparent]
    exact h.callees hp hfits.ok hname

theorem hasBody (h : t.HasProgram p Δ Φ) (hregular : p.Regular) (hp : p.IsFirstOrder) (ht : t.Ok)
    {i : Ident} {f : Func} (hf : (i, f) ∈ p.declarations)
    (hfunction : ∃ info Ψ, t.HasFunction f info Ψ) : ∃ info Ψ, t.HasBody p f info Ψ := by
  obtain ⟨info, Ψ, hfunction⟩ := hfunction
  obtain ⟨id, hs⟩ := Program.mem_declarations.mp hf
  have hfirst := (hp.firstOrder_body hf).1
  have hflat := Func.hasFlatBody_of_firstOrder hfirst
  obtain ⟨info', hinfo', hparent, -, hdecl⟩ := h.declared id i f hs hflat.bare
  cases hfunction.function.symm.trans hinfo'
  have hfits : Layout.Fits t [] info.scope info.scope Ψ :=
    hfunction.fits ht nofun hflat nofun
  refine ⟨info, Ψ, hfunction, hdecl, hflat, hfits, ?_, fun v hv d hd => ?_⟩
  · exact stmtsLinked f.body.stmts (h.sees_function hp hf hfunction hfits hflat hparent hdecl)
      (has_ownNames hfunction hflat) hfirst hfunction.body
  · obtain ⟨x, hx, rfl⟩ := List.mem_map.mp hv
    obtain ⟨e, he, hmade⟩ := hfunction.made x hx
    rw [Variable.key, hmade.decl]
    intro heq
    have hid : e.1.id = d.1.id := VarKey.decl.inj heq
    exact hregular.name_not_mem hd hf (hid ▸ Func.declarations_ids hflat he)

/-- The variables of the program are none of its functions. -/
theorem apart_own (h : t.HasProgram p Δ Φ) (hregular : p.Regular) {v : VarId} (hv : v ∈ Δ.vars)
    {i : Ident} {f : Func} (hf : (i, f) ∈ p.declarations) : (t.var v).key ≠ .decl i.id := by
  obtain ⟨x, hx, rfl⟩ := List.mem_map.mp hv
  obtain ⟨y, hy, hmade⟩ := h.own x hx
  rw [Variable.key, hmade.decl]
  intro heq
  exact hregular.varName_ne hy hf (VarKey.decl.inj heq)

/-- What has a value when the program starts is none of its functions. -/
theorem apart_of_initial (h : t.HasProgram p Δ Φ) (hregular : p.Regular) (ht : t.Ok)
    {x : String × VarId} (hx : x ∈ (t.scope root).vars) {value : Value}
    (hvalue : t.initialValue x.2 = some value) {i : Ident} {f : Func}
    (hf : (i, f) ∈ p.declarations) : (t.var x.2).key ≠ .decl i.id := by
  obtain ⟨others, hvars, hothers⟩ := h.vars
  have hlt := (ht.listed root x hx).1
  rw [hvars, List.mem_append, List.mem_append] at hx
  rcases hx with (hx | hx) | hx
  · exact h.apart_own hregular (List.mem_map_of_mem hx) hf
  · obtain ⟨d, -, hmade⟩ := h.functions x hx
    rw [ScopeTree.initialValue, hmade.initial] at hvalue
    cases hvalue
  · rw [Variable.key, (ht.implicit x.2 hlt (hothers x hx)).2.1]
    simp

end ScopeTree.HasProgram

/-! ## First-order programs and their scopes -/

/-- What the scopes say of a first-order program. -/
structure ScopeTree.HasFirstOrder (t : ScopeTree) (p : Program) (Δ Φ : Layout) : Prop
    extends t.HasProgram p Δ Φ where
  ok : t.Ok
  regular : p.Regular
  firstOrder : p.IsFirstOrder
  bodies : ∀ i f, (i, f) ∈ p.declarations → ∃ info Ψ, t.HasBody p f info Ψ

/-- Different functions have different variables. -/
theorem ScopeTree.HasFirstOrder.hoisted_eq (h : t.HasFirstOrder p Δ Φ) {x y : VarId × NodeId}
    (hx : x ∈ (t.scope root).hoisted) (hy : y ∈ (t.scope root).hoisted) (hyx : y.1 = x.1) :
    y = x := by
  obtain ⟨d, hd, hholds⟩ := h.exists_decl h.firstOrder h.ok hx
  obtain ⟨e, he, hholds'⟩ := h.exists_decl h.firstOrder h.ok hy
  have hkey : VarKey.decl e.1.id = .decl d.1.id := by rw [← hholds'.key, hyx, hholds.key]
  refine Prod.ext hyx ?_
  rw [hholds'.id, hholds.id, h.regular.eq_of_name hd he (VarKey.decl.inj hkey)]

theorem Program.IsFirstOrder.bare (h : p.IsFirstOrder) : Bare p.body := by
  intro d hd
  have hfirst := h.others _ hd nofun
  rw [Stmt.isFirstOrder, VarDecl.isFirstOrder, Bool.and_eq_true] at hfirst
  exact beq_iff_eq.mp hfirst.1

theorem hasFirstOrder_ofProgram (h : p.Regular) (hp : p.IsFirstOrder) :
    ∃ Δ Φ, (ScopeTree.ofProgram p).HasFirstOrder p Δ Φ := by
  obtain ⟨hok, hnodes⟩ := ScopeTree.knows_ofProgram h
  obtain ⟨Δ, Φ, hprogram⟩ := ScopeTree.hasProgram_ofProgram h hp.bare
  refine ⟨Δ, Φ, hprogram, hok, h, hp, fun i f hf => hprogram.hasBody h hp hok hf ?_⟩
  have hmem : f ∈ p.functions := hp.mem_functions_iff.mpr ⟨i, hf⟩
  have hvisited := ((hnodes _ (mem_nodes_of_functions hmem)).visits f rfl).resolve_right (·.1)
  have hbare := bare_of_firstOrder (hp.firstOrder_body hf).1
  obtain ⟨info, Ψ, -, hfunction⟩ := hvisited.hasFunction hok hbare
  exact ⟨info, Ψ, hfunction⟩

end

end EsOptimizer
