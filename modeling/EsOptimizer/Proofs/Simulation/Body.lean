import EsOptimizer.Proofs.Simulation.Loop

/-!
# Bodies

Every statement of plain code goes together with its analysis. The case of loops rests on what the
code in them writes: no more than the variables that the scopes list for it.
-/

namespace EsOptimizer

/-! ## What bound code writes -/

section

variable {scopes : ScopeTree} {constants : List String} {vs : VarSet}

/-- All variables that nodes of a list write are among `vs`. -/
def ScopeTree.WritesOnly (scopes : ScopeTree) (vs : VarSet) (ns : List Node) : Prop :=
  ∀ n ∈ ns, ∀ v, scopes.writtenBy? n = some v → v ∈ vs

theorem ScopeTree.writesOnly_cons {n : Node} {ns : List Node} : scopes.WritesOnly vs (n :: ns) ↔
    (∀ v, scopes.writtenBy? n = some v → v ∈ vs) ∧ scopes.WritesOnly vs ns :=
  List.forall_mem_cons

theorem ScopeTree.writesOnly_append {ms ns : List Node} : scopes.WritesOnly vs (ms ++ ns) ↔
    scopes.WritesOnly vs ms ∧ scopes.WritesOnly vs ns :=
  List.forall_mem_append

/-- A node that assigns nothing and opens no scope. -/
theorem Node.allowed_of_quiet {n : Node} (htargets : n.targets = []) (hscopes : n.scopeIds = []) :
    n.Allowed scopes (.writing vs) where
  records := fun _ _ => trivial
  writes := by rw [htargets]; exact nofun
  enters := by rw [hscopes]; exact nofun
  ends := fun _ => trivial

/-- A node that assigns one name. -/
theorem Node.allowed_of_target {n : Node} {i : Ident} {Δ : Layout} (htargets : n.targets = [i])
    (hscopes : n.scopeIds = []) (hi : scopes.Assigns Δ i)
    (h : ∀ v, scopes.writtenBy? (.name i) = some v → v ∈ vs) : n.Allowed scopes (.writing vs) where
  records := fun _ _ => trivial
  writes := by
    rw [htargets]
    intro j hj v hv
    obtain ⟨u, -, hu⟩ := hi
    rw [List.mem_singleton.mp hj, ScopeTree.varOf_of_writtenBy? hu] at hv
    cases hv
    exact h _ hu
  enters := by rw [hscopes]; exact nofun
  ends := fun _ => trivial

mutual

theorem Expr.Bound.allowed {Δ : Layout} (e : Expr) (h : e.Bound scopes constants Δ)
    (hw : scopes.WritesOnly vs (e.nodes true)) :
    AllAllowed scopes (.writing vs) (e.nodes false) := by
  cases e with
  | ident i =>
    rw [Expr.nodes, allAllowed_cons, allAllowed_cons]
    exact ⟨Node.allowed_of_quiet rfl rfl, Node.allowed_of_quiet rfl rfl, nofun⟩
  | string id s => exact allAllowed_cons.mpr ⟨Node.allowed_of_quiet rfl rfl, nofun⟩
  | bool id s => exact allAllowed_cons.mpr ⟨Node.allowed_of_quiet rfl rfl, nofun⟩
  | null id => exact allAllowed_cons.mpr ⟨Node.allowed_of_quiet rfl rfl, nofun⟩
  | number id s => exact allAllowed_cons.mpr ⟨Node.allowed_of_quiet rfl rfl, nofun⟩
  | unary id op arg =>
    rw [Expr.Bound] at h
    rw [Expr.nodes, ScopeTree.writesOnly_cons] at hw
    rw [Expr.nodes, allAllowed_cons]
    have htargets : (Node.expr (.unary id op arg)).targets = [] := by
      cases op with
      | delete => exact absurd rfl h.1
      | _ => rfl
    exact ⟨Node.allowed_of_quiet htargets rfl, Expr.Bound.allowed arg h.2 hw.2⟩
  | update id op before arg =>
    cases arg with
    | ident i =>
      rw [Expr.Bound] at h
      simp only [Expr.nodes, ScopeTree.writesOnly_cons] at hw
      simp only [Expr.nodes, allAllowed_cons]
      exact ⟨Node.allowed_of_target rfl rfl h hw.2.2.1, Node.allowed_of_quiet rfl rfl,
        Node.allowed_of_quiet rfl rfl, nofun⟩
    | _ => exact h.elim
  | binary id op left right =>
    rw [Expr.Bound] at h
    rw [Expr.nodes, List.cons_append, ScopeTree.writesOnly_cons, ScopeTree.writesOnly_append] at hw
    rw [Expr.nodes, List.cons_append, allAllowed_cons, allAllowed_append]
    exact ⟨Node.allowed_of_quiet rfl rfl, Expr.Bound.allowed left h.2.2.1 hw.2.1,
      Expr.Bound.allowed right h.2.2.2 hw.2.2⟩
  | assign id op left right =>
    cases left with
    | ident i =>
      rw [Expr.Bound] at h
      simp only [Expr.nodes, List.cons_append, List.nil_append, ScopeTree.writesOnly_cons] at hw
      simp only [Expr.nodes, List.cons_append, List.nil_append, allAllowed_cons]
      exact ⟨Node.allowed_of_target rfl rfl h.1 hw.2.2.1, Node.allowed_of_quiet rfl rfl,
        Node.allowed_of_quiet rfl rfl, Expr.Bound.allowed right h.2 hw.2.2.2⟩
    | _ => exact h.elim
  | cond id test yes no =>
    rw [Expr.Bound] at h
    simp only [Expr.nodes, List.cons_append, ScopeTree.writesOnly_cons, ScopeTree.writesOnly_append] at hw
    simp only [Expr.nodes, List.cons_append, allAllowed_cons, allAllowed_append]
    exact ⟨Node.allowed_of_quiet rfl rfl, ⟨Expr.Bound.allowed test h.1 hw.2.1.1,
      Expr.Bound.allowed yes h.2.1 hw.2.1.2⟩, Expr.Bound.allowed no h.2.2 hw.2.2⟩
  | seq id exprs =>
    rw [Expr.Bound] at h
    rw [Expr.nodes, ScopeTree.writesOnly_cons] at hw
    rw [Expr.nodes, allAllowed_cons]
    exact ⟨Node.allowed_of_quiet rfl rfl, AreBound.allowed exprs h hw.2⟩
  | _ => exact h.elim
termination_by structural e

theorem AreBound.allowed {Δ : Layout} : (es : List Expr) → AreBound scopes constants Δ es →
    scopes.WritesOnly vs (exprNodes true es) → AllAllowed scopes (.writing vs) (exprNodes false es)
  | [], _, _ => nofun
  | e :: rest, h, hw => by
    rw [AreBound] at h
    rw [exprNodes, ScopeTree.writesOnly_append] at hw
    rw [exprNodes, allAllowed_append]
    exact ⟨Expr.Bound.allowed e h.1 hw.1, AreBound.allowed rest h.2 hw.2⟩
termination_by structural es => es

end

theorem Bound?.allowed {Δ : Layout} {e : Option Expr} (h : Bound? scopes constants Δ e)
    (hw : scopes.WritesOnly vs (exprNodes? true e)) :
    AllAllowed scopes (.writing vs) (exprNodes? false e) := by
  cases e with
  | none => exact nofun
  | some e => exact Expr.Bound.allowed e h hw

/-- Declarations assign the names that they give values. -/
theorem DeclsBound.allowed {Δ : Layout} : (ds : List Declarator) → DeclsBound scopes constants Δ ds →
    scopes.WritesOnly vs (declNodes true ds) →
    (∀ x ∈ ds, x.init.isSome = true → ∀ v, scopes.varOf x.name.id = some v → v ∈ vs) ∧
      AllAllowed scopes (.writing vs) (declNodes false ds)
  | [], _, _ => ⟨nofun, nofun⟩
  | ⟨_, name, init⟩ :: rest, ⟨hassigns, hinit, hrest⟩, hw => by
    simp only [declNodes, Declarator.nodes, List.cons_append, ScopeTree.writesOnly_cons,
      ScopeTree.writesOnly_append] at hw
    simp only [declNodes, Declarator.nodes, List.cons_append, allAllowed_cons, allAllowed_append]
    obtain ⟨htargets, hallowed⟩ := DeclsBound.allowed rest hrest hw.2.2
    refine ⟨fun y hy hsome v hv => ?_, Node.allowed_of_quiet rfl rfl, hinit.allowed hw.2.1, hallowed⟩
    rcases List.mem_cons.mp hy with rfl | hy
    · obtain ⟨u, -, hu⟩ := hassigns hsome
      rw [ScopeTree.varOf_of_writtenBy? hu] at hv
      cases hv
      exact hw.1 _ hu
    · exact htargets y hy hsome v hv

theorem VarDecl.Bound.allowed {Δ : Layout} {d : VarDecl} (h : d.Bound scopes constants Δ)
    (hw : scopes.WritesOnly vs (d.nodes true)) :
    AllAllowed scopes (.writing vs) (d.nodes false) := by
  obtain ⟨id, kind, decls⟩ := d
  obtain ⟨rfl, h⟩ := h
  rw [VarDecl.nodes, ScopeTree.writesOnly_cons] at hw
  rw [VarDecl.nodes, allAllowed_cons]
  obtain ⟨htargets, hallowed⟩ := DeclsBound.allowed decls h hw.2
  refine ⟨⟨fun _ _ => trivial, fun i hi v hv => ?_, nofun, fun _ => trivial⟩, hallowed⟩
  obtain ⟨x, hx, rfl⟩ := List.mem_map.mp hi
  obtain ⟨hx, hsome⟩ := List.mem_filter.mp hx
  exact htargets x hx (by simpa using hsome) v hv

theorem HeadBound?.allowed {Δ : Layout} {head : Option ForHead}
    (h : HeadBound? scopes constants Δ head) (hw : scopes.WritesOnly vs (headNodes? true head)) :
    AllAllowed scopes (.writing vs) (headNodes? false head) := by
  cases head with
  | none => exact nofun
  | some head =>
    cases head with
    | decl d => exact VarDecl.Bound.allowed h hw
    | expr e => exact Expr.Bound.allowed e h hw

theorem ScopeTree.OpensNone.enters {Δ : Layout} {id : NodeId} (h : scopes.OpensNone Δ id)
    (vars : VarId → Prop) : ∀ s, scopes.scopeOf id = some s → scopes.Enters vars s := by
  intro s hs
  refine ⟨fun x hx hsome => ?_, fun x hx => ?_⟩
  · rw [h.initial s hs x hx] at hsome
    cases hsome
  · rw [h.hoisted s hs] at hx
    cases hx

/-- A node that assigns nothing, and opens no scope that matters. -/
theorem Node.allowed_of_opens {n : Node} (htargets : n.targets = [])
    (hscopes : ∀ id ∈ n.scopeIds, ∃ Δ, scopes.OpensNone Δ id) :
    n.Allowed scopes (.writing vs) where
  records := fun _ _ => trivial
  writes := by rw [htargets]; exact nofun
  enters := by
    intro id hid
    obtain ⟨Δ, hΔ⟩ := hscopes id hid
    exact hΔ.enters _
  ends := fun _ => trivial

theorem BlockBound?.opens {fs : ScopeId} {Δ : Layout} {b : Option Block}
    (h : BlockBound? scopes constants fs b Δ) : ∀ id ∈ (b.map (·.id)).toList,
      ∃ Δ, scopes.OpensNone Δ id := by
  cases b with
  | none => exact nofun
  | some b =>
    obtain ⟨id, stmts⟩ := b
    rintro id (_ | ⟨_, ⟨⟩⟩)
    exact ⟨Δ, h.1⟩

theorem HandlerBound?.opens {fs : ScopeId} {Δ : Layout} {c : Option CatchClause}
    (h : HandlerBound? scopes constants fs c Δ) :
    ∀ id ∈ c.elim [] (fun c => [c.id, c.body.id]), ∃ Δ, scopes.OpensNone Δ id := by
  rcases c with _ | ⟨id, _ | param, ⟨bodyId, stmts⟩⟩
  · exact nofun
  · intro i hi
    rcases List.mem_cons.mp hi with rfl | hi
    · exact ⟨Δ, h.1⟩
    · rw [List.mem_singleton.mp hi]
      exact ⟨Δ, h.2.1⟩
  · obtain ⟨hid, v, -, -, -, hbody⟩ := h
    intro i hi
    rcases List.mem_cons.mp hi with rfl | hi
    · exact ⟨Δ, hid⟩
    · rw [List.mem_singleton.mp hi]
      exact ⟨_, hbody.1⟩

theorem Node.allowed_try {fs : ScopeId} {Δ : Layout} {id : NodeId} {block : Block}
    {handler : Option CatchClause} {finalizer : Option Block}
    (h : (Stmt.try id block handler finalizer).Bound scopes constants fs Δ)
    (hw : scopes.WritesOnly vs (handlerNodes? true handler)) :
    (Node.stmt (.try id block handler finalizer)).Allowed scopes (.writing vs) where
  records := fun _ _ => trivial
  writes := by
    rw [Stmt.Bound] at h
    rcases handler with _ | ⟨hid, _ | param, body⟩
    · exact nofun
    · exact nofun
    · intro i hi v hv
      obtain ⟨-, u, hu, -⟩ := h.2.1
      rw [List.mem_singleton.mp hi, ScopeTree.varOf_of_writtenBy? hu] at hv
      cases hv
      rw [handlerNodes?, CatchClause.nodes, Node.name?, List.singleton_append,
        ScopeTree.writesOnly_cons] at hw
      exact hw.1 _ hu
  enters := by
    rw [Stmt.Bound] at h
    obtain ⟨hblock, hhandler, hfinalizer⟩ := h
    obtain ⟨blockId, stmts⟩ := block
    intro i hi
    rw [Node.scopeIds, List.mem_append, List.mem_cons] at hi
    rcases hi with (rfl | hi) | hi
    · exact hblock.1.enters _
    · obtain ⟨Δ', hΔ'⟩ := hhandler.opens i hi
      exact hΔ'.enters _
    · obtain ⟨Δ', hΔ'⟩ := hfinalizer.opens i hi
      exact hΔ'.enters _
  ends := fun _ => trivial

mutual

/-- Bound code writes no more than the names in it that are in places of assignment. -/
theorem Stmt.Bound.allowed {fs : ScopeId} (s : Stmt) {Δ : Layout}
    (h : s.Bound scopes constants fs Δ) (hw : scopes.WritesOnly vs (s.nodes true)) :
    AllAllowed scopes (.writing vs) (s.nodes false) := by
  cases s with
  | block b =>
    obtain ⟨id, stmts⟩ := b
    rw [Stmt.Bound] at h
    rw [Stmt.nodes, ScopeTree.writesOnly_cons] at hw
    rw [Stmt.nodes, allAllowed_cons]
    refine ⟨Node.allowed_of_opens rfl fun i hi => ⟨Δ, ?_⟩, Block.Bound.allowed ⟨id, stmts⟩ h hw.2⟩
    rw [List.mem_singleton.mp hi]
    exact h.1
  | empty id => exact allAllowed_cons.mpr ⟨Node.allowed_of_quiet rfl rfl, nofun⟩
  | «break» id label => exact allAllowed_cons.mpr ⟨Node.allowed_of_quiet rfl rfl, nofun⟩
  | «continue» id label => exact allAllowed_cons.mpr ⟨Node.allowed_of_quiet rfl rfl, nofun⟩
  | expr id e =>
    rw [Stmt.nodes, ScopeTree.writesOnly_cons] at hw
    rw [Stmt.nodes, allAllowed_cons]
    exact ⟨Node.allowed_of_quiet rfl rfl, Expr.Bound.allowed e h hw.2⟩
  | var d =>
    rw [Stmt.nodes, ScopeTree.writesOnly_cons] at hw
    rw [Stmt.nodes, allAllowed_cons]
    exact ⟨Node.allowed_of_quiet rfl rfl, VarDecl.Bound.allowed h hw.2⟩
  | «if» id test yes no =>
    rw [Stmt.Bound] at h
    simp only [Stmt.nodes, List.cons_append, ScopeTree.writesOnly_cons,
      ScopeTree.writesOnly_append] at hw
    simp only [Stmt.nodes, List.cons_append, allAllowed_cons, allAllowed_append]
    exact ⟨Node.allowed_of_quiet rfl rfl, ⟨Expr.Bound.allowed test h.1 hw.2.1.1,
      Stmt.Bound.allowed yes h.2.1 hw.2.1.2⟩, StmtBound?.allowed no h.2.2 hw.2.2⟩
  | «while» id test body =>
    rw [Stmt.Bound] at h
    simp only [Stmt.nodes, List.cons_append, ScopeTree.writesOnly_cons,
      ScopeTree.writesOnly_append] at hw
    simp only [Stmt.nodes, List.cons_append, allAllowed_cons, allAllowed_append]
    exact ⟨Node.allowed_of_quiet rfl rfl, Expr.Bound.allowed test h.1 hw.2.1,
      Stmt.Bound.allowed body h.2 hw.2.2⟩
  | doWhile id body test =>
    rw [Stmt.Bound] at h
    simp only [Stmt.nodes, List.cons_append, ScopeTree.writesOnly_cons,
      ScopeTree.writesOnly_append] at hw
    simp only [Stmt.nodes, List.cons_append, allAllowed_cons, allAllowed_append]
    exact ⟨Node.allowed_of_quiet rfl rfl, Stmt.Bound.allowed body h.2 hw.2.1,
      Expr.Bound.allowed test h.1 hw.2.2⟩
  | «for» id init test update body =>
    rw [Stmt.Bound] at h
    obtain ⟨hid, hinit, htest, hupdate, hbody⟩ := h
    simp only [Stmt.nodes, List.cons_append, ScopeTree.writesOnly_cons,
      ScopeTree.writesOnly_append] at hw
    simp only [Stmt.nodes, List.cons_append, allAllowed_cons, allAllowed_append]
    obtain ⟨-, ⟨⟨hwinit, hwtest⟩, hwupdate⟩, hwbody⟩ := hw
    refine ⟨Node.allowed_of_opens rfl fun i hi => ⟨Δ, ?_⟩,
      ⟨⟨hinit.allowed hwinit, htest.allowed hwtest⟩, hupdate.allowed hwupdate⟩,
      Stmt.Bound.allowed body hbody hwbody⟩
    rw [List.mem_singleton.mp hi]
    exact hid
  | labeled id label body =>
    rw [Stmt.nodes, ScopeTree.writesOnly_cons] at hw
    rw [Stmt.nodes, allAllowed_cons]
    exact ⟨Node.allowed_of_quiet rfl rfl, Stmt.Bound.allowed body h hw.2⟩
  | «return» id arg =>
    rw [Stmt.nodes, ScopeTree.writesOnly_cons] at hw
    rw [Stmt.nodes, allAllowed_cons]
    exact ⟨Node.allowed_of_quiet rfl rfl, Bound?.allowed h hw.2⟩
  | throw id arg =>
    rw [Stmt.nodes, ScopeTree.writesOnly_cons] at hw
    rw [Stmt.nodes, allAllowed_cons]
    exact ⟨Node.allowed_of_quiet rfl rfl, Expr.Bound.allowed arg h hw.2⟩
  | «try» id block handler finalizer =>
    simp only [Stmt.nodes, List.cons_append, ScopeTree.writesOnly_cons,
      ScopeTree.writesOnly_append] at hw
    simp only [Stmt.nodes, List.cons_append, allAllowed_cons, allAllowed_append]
    obtain ⟨-, ⟨hwblock, hwhandler⟩, hwfinalizer⟩ := hw
    have hnode := Node.allowed_try h hwhandler
    rw [Stmt.Bound] at h
    exact ⟨hnode, ⟨Block.Bound.allowed block h.1 hwblock,
      HandlerBound?.allowed handler h.2.1 hwhandler⟩,
      BlockBound?.allowed finalizer h.2.2 hwfinalizer⟩
  | _ => exact h.elim
termination_by structural s

theorem StmtBound?.allowed {fs : ScopeId} : (s : Option Stmt) → {Δ : Layout} →
    StmtBound? scopes constants fs s Δ → scopes.WritesOnly vs (stmtNodes? true s) →
    AllAllowed scopes (.writing vs) (stmtNodes? false s)
  | none, _, _, _ => nofun
  | some s, _, h, hw => Stmt.Bound.allowed s h hw
termination_by structural s => s

theorem Block.Bound.allowed {fs : ScopeId} : (b : Block) → {Δ : Layout} →
    b.Bound scopes constants fs Δ → scopes.WritesOnly vs (b.nodes true) →
    AllAllowed scopes (.writing vs) (b.nodes false)
  | ⟨_, stmts⟩, _, h, hw => StmtsBound.allowed stmts h.2 hw
termination_by structural b => b

theorem BlockBound?.allowed {fs : ScopeId} : (b : Option Block) → {Δ : Layout} →
    BlockBound? scopes constants fs b Δ → scopes.WritesOnly vs (blockNodes? true b) →
    AllAllowed scopes (.writing vs) (blockNodes? false b)
  | none, _, _, _ => nofun
  | some b, _, h, hw => Block.Bound.allowed b h hw
termination_by structural b => b

theorem HandlerBound?.allowed {fs : ScopeId} : (c : Option CatchClause) → {Δ : Layout} →
    HandlerBound? scopes constants fs c Δ → scopes.WritesOnly vs (handlerNodes? true c) →
    AllAllowed scopes (.writing vs) (handlerNodes? false c)
  | none, _, _, _ => nofun
  | some ⟨_, none, body⟩, _, h, hw => Block.Bound.allowed body h.2 hw
  | some ⟨_, some param, body⟩, _, ⟨_, _, _, _, _, h⟩, hw => by
    rw [handlerNodes?, CatchClause.nodes, Node.name?, List.singleton_append] at hw ⊢
    rw [ScopeTree.writesOnly_cons] at hw
    rw [allAllowed_cons]
    exact ⟨Node.allowed_of_quiet rfl rfl, Block.Bound.allowed body h hw.2⟩
termination_by structural c => c

theorem StmtsBound.allowed {fs : ScopeId} : (ss : List Stmt) → {Δ : Layout} →
    StmtsBound scopes constants fs ss Δ → scopes.WritesOnly vs (stmtNodes true ss) →
    AllAllowed scopes (.writing vs) (stmtNodes false ss)
  | [], _, _, _ => nofun
  | s :: rest, _, h, hw => by
    rw [StmtsBound] at h
    rw [stmtNodes, ScopeTree.writesOnly_append] at hw
    rw [stmtNodes, allAllowed_append]
    exact ⟨Stmt.Bound.allowed s h.1 hw.1, StmtsBound.allowed rest h.2 hw.2⟩
termination_by structural ss => ss

end

end

/-! ## Declarations -/

section

variable {cx : Context} {fs : ScopeId} {Δ : Layout} {constants : List String}

theorem simulates_onDeclarators (hΔ : Δ.Valid cx.scopes fs) (hfs : fs ≠ ScopeTree.root)
    (hcx : cx.Knows constants) : (ds : List Declarator) → DeclsBound cx.scopes constants Δ ds →
    Simulates cx fs Δ (Track.onDeclarators ds .var) (execDeclarators ds) (fun _ _ => True)
      (fun _ => False)
  | [], _ => Simulates.pure trivial
  | ⟨_, name, init⟩ :: rest, ⟨hassigns, hinit, hrest⟩ => by
    have ih := simulates_onDeclarators hΔ hfs hcx rest hrest
    cases init with
    | none => exact ih
    | some e =>
      have he := evaluates_onExpr hΔ hfs hcx e hinit
      have hassign (t : Tracked) (x : Primitive) (hx : t.value.Holds (.primitive x)) :=
        simulates_initIdent hΔ (hassigns rfl) hx
      have hmoves (t : Tracked) : Track.Moves cx .evaluating (Track.initIdent name t.value) :=
        Track.moves_initIdent (fun _ _ => trivial) t.value
      change Simulates cx fs Δ
        (do
          let t ← Track.onExpr e
          Track.initIdent name t.value
          Track.onDeclarators rest .var)
        (do
          let x ← e.eval
          Run.assignName name.name x
          execDeclarators rest) _ _
      refine he.bind (he.moves.bind fun t => (hmoves t).bind fun _ => ih.moves)
        (fun t x hx => ?_) fun _ _ h => False.elim h
      exact (hassign t x hx).bind ((hmoves t).bind fun _ => ih.moves) (fun _ _ _ => ih)
        fun _ _ h => h

theorem simulates_onHead? (hΔ : Δ.Valid cx.scopes fs) (hfs : fs ≠ ScopeTree.root)
    (hcx : cx.Knows constants) {head : Option ForHead} (h : HeadBound? cx.scopes constants Δ head) :
    Simulates cx fs Δ (Track.onHead? head) (execHead? head) (fun _ _ => True) (fun _ => False) := by
  rcases head with _ | d | e
  · exact Simulates.pure trivial
  · obtain ⟨id, kind, decls⟩ := d
    obtain ⟨rfl, h⟩ := h
    exact simulates_onDeclarators hΔ hfs hcx decls h
  · exact (evaluates_onExpr hΔ hfs hcx e h).map (fun _ _ _ => trivial) nofun

/-- A test that the analysis finds to fail does fail. -/
theorem simulates_testTruth (hΔ : Δ.Valid cx.scopes fs) (hfs : fs ≠ ScopeTree.root)
    (hcx : cx.Knows constants) {test : Option Expr} (h : Bound? cx.scopes constants Δ test) :
    Simulates cx fs Δ (Track.onExpr? test) (testTruth test)
      (fun t y => t.all (·.value.truthiness ≠ some false) = false → y = false)
      (fun _ => False) := by
  refine (simulates_onExpr? hΔ hfs hcx test h).mapRun (fun t x hx => ?_) fun _ h => h
  cases hx with
  | none => exact nofun
  | some hx =>
    intro hfalse
    exact Value.truthy_of_truthiness hx (by simpa using hfalse)

/-! ## Handlers -/

theorem Ran.withoutFirst {q : Progress} {name : String} {v : VarId} {x : Primitive}
    {ρ ρ' : Valuation} {w w' : World} (hv : v ∉ Δ.vars)
    (h : Ran ((name, v) :: Δ) q (ρ.set v x) ρ' { w with env := (name, x) :: w.env } w') :
    Ran Δ q ρ ρ' w { w' with env := w'.env.tail } := by
  obtain ⟨henv, htrace, hcovered⟩ := h
  refine ⟨?_, htrace, fun u hu => ?_⟩
  · rw [henv]
    rfl
  · have huv : u ≠ v := fun huv => hv (huv ▸ hu)
    rcases hcovered u (List.mem_cons_of_mem _ hu) with heq | hwritten
    · refine Or.inl (heq.trans (if_neg huv))
    · exact Or.inr hwritten

/-- Code in which a variable of its own is in force, of which the analysis assumes nothing. -/
theorem executes_withVariable {β : Type} {ret : β → Option Primitive} {ok : β → Prop}
    {param : Ident} {v : VarId} {a : Track Unit} {c : Run β}
    (hparam : cx.scopes.writtenBy? (.name param) = some v) (hv : v ∉ Δ.vars)
    (howns : cx.scopes.Owns fs v) (h : Executes cx fs ((param.name, v) :: Δ) ret ok a c)
    (x : Primitive) :
    Executes cx fs Δ ret (fun _ => False)
      (do
        Track.initIdent param .unknown
        a)
      (Run.withVariable param.name x c) where
  moves := (Track.moves_initIdent (fun _ _ => trivial) _).bind fun _ => h.moves
  runs := by
    intro p ρ w halive hp hw
    set p₁ := (Track.initIdent param .unknown cx p).2 with hp₁
    have hvar := ScopeTree.varOf_of_writtenBy? hparam
    rw [initIdent_eq _ hvar] at hp₁
    obtain ⟨hstate, hframe⟩ := writeVar_own .unknown howns.toIsFollowed hp.scope
    rw [← hp₁] at hstate hframe
    have halive₁ : p₁.state.isDead = false := by
      rw [hstate]
      exact halive
    have hfollows : Follows cx fs ((param.name, v) :: Δ) p₁ (ρ.set v x) := by
      refine ⟨by rw [hframe]; exact hp.scope, fun u hu => ?_⟩
      rw [hstate, State.current, State.setValue_lookup]
      by_cases huv : u = v
      · rw [if_pos huv.symm]
        exact Value.holds_unknown _
      · rw [if_neg fun hvu => huv hvu.symm, Valuation.set, if_neg huv]
        exact hp.holds u ((List.mem_cons.mp hu).resolve_left huv)
    have hw₁ : ({ w with env := (param.name, x) :: w.env } : World).env =
        Layout.env ((param.name, v) :: Δ) (ρ.set v x) := by
      change (param.name, x) :: w.env = (param.name, ρ.set v x v) :: Δ.env (ρ.set v x)
      rw [Layout.env_set_of_not_mem ρ x hv, hw, Valuation.set, if_pos rfl]
    obtain ⟨ρ', hran, hret, -⟩ := h.runs halive₁ hfollows hw₁
    exact ⟨ρ', hran.withoutFirst hv, hret, False.elim⟩

theorem Run.handled_apply (c : Run Outcome) (handler : Primitive → Run Outcome) (w : World) :
    (do
      match ← c with
      | .throw value => handler value
      | outcome => pure outcome : Run Outcome) w =
      match (c w).1 with
      | .throw value => handler value (c w).2
      | _ => c w := by
  change (match (c w).1 with
    | .throw value => handler value
    | outcome => pure outcome : Run Outcome) (c w).2 = _
  generalize c w = r
  obtain ⟨o, w'⟩ := r
  cases o <;> rfl

/-- The analysis follows a handler whether or not it runs. -/
theorem Executes.handled {a d : Track Unit} {c : Run Outcome} {handler : Primitive → Run Outcome}
    (ha : Survives cx fs Δ a c) (hd : ∀ x, Survives cx fs Δ d (handler x))
    (hskip : Survives cx fs Δ d (return .normal)) :
    Survives cx fs Δ (do a; d) (do
      match ← c with
      | .throw value => handler value
      | outcome => pure outcome) where
  moves := ha.moves.bind fun _ => hskip.moves
  runs := by
    intro p ρ w halive hp hw
    obtain ⟨ρ₁, hran₁, hret₁, hgo₁⟩ := ha.runs halive hp hw
    obtain ⟨halive₁, hp₁⟩ := hgo₁ trivial
    have hmoves := hskip.moves (a cx p).2
    obtain ⟨ρ₂, hran₂, -, hgo₂⟩ := hskip.runs halive₁ hp₁ hran₁.env
    rw [Run.handled_apply]
    split
    · rename_i x hx
      obtain ⟨ρ₂, hran₂, hret₂, hgo₂⟩ := (hd x).runs halive₁ hp₁ hran₁.env
      exact ⟨ρ₂, (hran₁.advance hmoves).trans hran₂, hret₂, hgo₂⟩
    · exact ⟨ρ₂, (hran₁.advance hmoves).trans hran₂, hret₁.grow hmoves.returns,
        fun _ => hgo₂ trivial⟩

theorem Run.attempt_eq (block : Run Outcome) (handler : Primitive → Run Outcome)
    (finalizer : Run Outcome) : Run.attempt block handler finalizer = (do
      let outcome ← (do
        match ← block with
        | .throw value => handler value
        | outcome => pure outcome)
      if outcome = .cutOff then return .cutOff else return outcome.finally (← finalizer)) := by
  rw [bind_assoc]
  refine congrArg (block >>= ·) (funext fun o => ?_)
  cases o <;> rfl

theorem Run.finished_apply (c finalizer : Run Outcome) (w : World) :
    (do
      let outcome ← c
      if outcome = .cutOff then return .cutOff
      else return outcome.finally (← finalizer) : Run Outcome) w =
      if (c w).1 = .cutOff then c w
      else ((c w).1.finally (finalizer (c w).2).1, (finalizer (c w).2).2) := by
  change (if (c w).1 = .cutOff then return .cutOff
    else do return (c w).1.finally (← finalizer) : Run Outcome) (c w).2 = _
  split
  · rename_i hcut
    change (Outcome.cutOff, (c w).2) = _
    rw [← hcut]
    rfl
  · rfl

/-- A finalizer runs unless the run is cut off before it, and its outcome counts unless it is a
normal one. -/
theorem Executes.finished {a d : Track Unit} {c finalizer : Run Outcome}
    (ha : Survives cx fs Δ a c) (hd : Completes cx fs Δ d finalizer) :
    Completes cx fs Δ (do a; d) (do
      let outcome ← c
      if outcome = .cutOff then return .cutOff
      else return outcome.finally (← finalizer)) where
  moves := ha.moves.bind fun _ => hd.moves
  runs := by
    intro p ρ w halive hp hw
    obtain ⟨ρ₁, hran₁, hret₁, hgo₁⟩ := ha.runs halive hp hw
    obtain ⟨halive₁, hp₁⟩ := hgo₁ trivial
    have hmoves := hd.moves (a cx p).2
    rw [Run.finished_apply]
    split
    · rename_i hcut
      refine ⟨ρ₁, hran₁.advance hmoves, hret₁.grow hmoves.returns, fun hnormal => ?_⟩
      rw [hcut] at hnormal
      cases hnormal
    · obtain ⟨ρ₂, hran₂, hret₂, hgo₂⟩ := hd.runs halive₁ hp₁ hran₁.env
      refine ⟨ρ₂, (hran₁.advance hmoves).trans hran₂, ?_, fun hnormal => ?_⟩
      · dsimp only [Outcome.finally]
        split
        · exact hret₁.grow hmoves.returns
        · exact hret₂
      · refine hgo₂ ?_
        dsimp only [Outcome.finally] at hnormal
        split at hnormal
        · assumption
        · exact hnormal

/-- A jump to a label goes past the statement with that label. -/
theorem Executes.unlabeled {ok : Outcome → Prop} {a : Track Unit} {c : Run Outcome}
    (h : Survives cx fs Δ a c) (label : String) :
    Executes cx fs Δ Outcome.returned? ok a (do return (← c).unlabeled label) where
  moves := h.moves
  runs := by
    intro p ρ w halive hp hw
    obtain ⟨ρ', hran, hret, hgo⟩ := h.runs halive hp hw
    have hsame (o : Outcome) : (o.unlabeled label).returned? = o.returned? := by
      cases o with
      | «break» l =>
        cases l with
        | none => rfl
        | some l =>
          rw [Outcome.unlabeled]
          split <;> rfl
      | _ => rfl
    refine ⟨ρ', hran, ?_, fun _ => hgo trivial⟩
    change Returns _ ((c w).1.unlabeled label).returned?
    rw [hsame]
    exact hret

/-! ## Statements -/

theorem Track.read_apply {α : Type} (f : Context → Track α) (p : Progress) :
    (read >>= f) cx p = f cx cx p := rfl

theorem Track.ite_apply {α : Type} {c : Prop} [Decidable c] (x y : Track α) (p : Progress) :
    (if c then x else y) cx p = if c then x cx p else y cx p := by split <;> rfl

theorem Track.for_apply {β : Type} (s : Stmt) (test : Track (Option Tracked)) (body : Track Unit)
    (update : Track β) (p : Progress) :
    (do
      let entered := (← test).all (·.value.truthiness ≠ some false)
      if entered then
        loop ((← read).scopes.writtenIn s) do
          discard test
          unsure body
          discard update : Track Unit) cx p =
      (do
        if (← test).all (·.value.truthiness ≠ some false) then
          loop (cx.scopes.writtenIn s) (testing test body update) : Track Unit) cx p := by
  rw [Track.bind_apply, Track.bind_apply, ite_apply, ite_apply, read_apply, testing]

/-- A `while` loop is a `for` loop without a head and an update. -/
theorem Track.while_apply (s : Stmt) (test : Track Tracked) (body : Track Unit) (p : Progress) :
    (do
      if (← test).value.truthiness ≠ some false then
        loop ((← read).scopes.writtenIn s) do
          discard test
          unsure body : Track Unit) cx p =
      (do
        if (← (do return some (← test) : Track (Option Tracked))).all
            (·.value.truthiness ≠ some false) then
          loop (cx.scopes.writtenIn s) (testing (do return some (← test)) body (pure ())) :
        Track Unit) cx p := by
  have hround : testing (do return some (← test) : Track (Option Tracked)) body (pure ()) = (do
      discard test
      unsure body) := rfl
  rw [hround, Track.bind_apply, Track.bind_apply, ite_apply, ite_apply, read_apply]
  simp only [Track.bind_apply]
  change _ = if (some (test cx p).1).all (·.value.truthiness ≠ some false) = true then _ else _
  simp only [Option.all_some, decide_eq_true_eq]
  rfl
theorem Track.doWhile_apply (s : Stmt) (test : Track Tracked) (body : Track Unit) (p : Progress) :
    (do
      loop ((← read).scopes.writtenIn s) do
        unsure body
        discard test : Track Unit) cx p =
      (loop (cx.scopes.writtenIn s) do
        unsure body
        discard (do return some (← test) : Track (Option Tracked))) cx p := by
  have hround : (do
      unsure body
      discard (do return some (← test) : Track (Option Tracked)) : Track Unit) = (do
        unsure body
        discard test) := rfl
  rw [hround, read_apply]

theorem ScopeTree.writesOnly_writtenIn (scopes : ScopeTree) (s : Stmt) :
    scopes.WritesOnly (scopes.writtenIn s) (s.nodes true) := by
  intro n hn v hv
  rw [writtenIn, Std.TreeSet.mem_ofList, List.contains_iff_mem]
  exact List.mem_filterMap.mpr ⟨n, hn, hv⟩

theorem Executes.unsure_skip {a : Track Unit} (ha : Track.Moves cx .all a) :
    Survives cx fs Δ (Track.unsure a) (return .normal) where
  moves := Track.moves_unsure ha
  runs := by
    intro p ρ w halive hp hw
    obtain ⟨hran, hfollows, hdead⟩ := unsure_place ha hp (Ran.refl _ hw)
    exact ⟨ρ, hran, Returns.none _, fun _ => ⟨hdead.trans halive, hfollows⟩⟩

/-- How the analysis of a statement relates to running it: it goes on if the run does, and after a
loop in any case. -/
abbrev Stmt.Executed (cx : Context) (fs : ScopeId) (Δ : Layout) (s : Stmt) (a : Track Unit)
    (c : Run Outcome) : Prop :=
  Executes cx fs Δ Outcome.returned? (fun o => s.isLoop = true ∨ o = .normal) a c

theorem Executes.ofStmt {s : Stmt} {a : Track Unit} {c : Run Outcome}
    (h : Completes cx fs Δ a c) (hs : s.isLoop = false) : s.Executed cx fs Δ a c :=
  h.imp fun _ ho => ho.resolve_left (by rw [hs]; exact Bool.false_ne_true)

mutual

theorem executes_onStmt (hfs : fs ≠ ScopeTree.root) (hcx : cx.Knows constants) (n : Nat)
    (s : Stmt) {Δ : Layout} (hΔ : Δ.Valid cx.scopes fs) (h : s.Bound cx.scopes constants fs Δ)
    (labels : List String) : s.Executed cx fs Δ (Track.onStmt s) (s.exec n labels) := by
  unfold Track.onStmt
  refine Executes.followed ?_ s.id
  cases s with
  | block b => exact (completes_onBlock hfs hcx n b hΔ h).ofStmt rfl
  | empty id => exact Executes.skip rfl
  | expr id e => exact (evaluates_onExpr hΔ hfs hcx e h).executes rfl
  | var d =>
    obtain ⟨id, kind, decls⟩ := d
    obtain ⟨rfl, h⟩ := h
    exact ((simulates_onDeclarators hΔ hfs hcx decls h).executes rfl).congr fun _ => rfl
  | «if» id test yes no =>
    rw [Stmt.Bound] at h
    obtain ⟨htest, hyes, hno⟩ := h
    have ht := evaluates_onExpr hΔ hfs hcx test htest
    have hy := (executes_onStmt hfs hcx n yes hΔ hyes []).imp fun _ => Or.inr
    cases no with
    | none => exact (Completes.branch_none ht hy).ofStmt rfl
    | some no =>
      have hn := (executes_onStmt hfs hcx n no hΔ hno []).imp fun _ => Or.inr
      exact (Completes.branch_some ht hy hn).ofStmt rfl
  | labeled id label body =>
    have hb := executes_onStmt hfs hcx n body hΔ h (label.name :: labels)
    dsimp only
    split
    · rename_i hloop
      exact (hb.imp fun _ _ => Or.inl hloop).unlabeled label.name
    · exact hb.unsure.unlabeled label.name
  | «try» id block handler finalizer =>
    rw [Stmt.Bound] at h
    obtain ⟨hblock, hhandler, hfinalizer⟩ := h
    have hb := (completes_onBlock hfs hcx n block hΔ hblock).unsure
    obtain ⟨hh, hskip⟩ := survives_onHandler? hfs hcx n handler hΔ hhandler
    have hf := completes_onBlock? hfs hcx n finalizer hΔ hfinalizer
    refine Executes.ofStmt ?_ rfl
    rw [Stmt.exec, Run.attempt_eq]
    exact ((hb.handled hh hskip).finished hf).congr fun _ => rfl
  | «return» id arg =>
    have harg := simulates_onExpr? hΔ hfs hcx arg h
    refine (harg.andThen ?_ fun t x hx => completes_returnValue ?_).ofStmt rfl
    · exact Track.Moves.bind harg.movesAll fun _ =>
        Track.moves_returnValue trivial _
    · cases hx with
      | none => exact Value.holds_ofPrimitive _
      | some hx => exact hx
  | throw id arg =>
    have harg := evaluates_onExpr hΔ hfs hcx arg h
    refine (harg.andThen ?_ fun t x hx => completes_throwValue t.value x).ofStmt rfl
    exact Track.Moves.bind harg.movesAll fun _ =>
      Track.moves_throwValue trivial _
  | «break» id label => exact (completes_endControl (fun h => by cases h) rfl).ofStmt rfl
  | «continue» id label => exact (completes_endControl (fun h => by cases h) rfl).ofStmt rfl
  | «while» id test body =>
    have hw := cx.scopes.writesOnly_writtenIn (.while id test body)
    rw [Stmt.Bound] at h
    simp only [Stmt.nodes, List.cons_append, ScopeTree.writesOnly_cons,
      ScopeTree.writesOnly_append] at hw
    have htest : Bound? cx.scopes constants Δ (some test) := h.1
    have ht := simulates_testTruth hΔ hfs hcx htest
    have hb := executes_onStmt hfs hcx n body hΔ h.2 []
    have hu : Simulates cx fs Δ (pure ()) (pure ()) (fun _ _ => True) (fun _ => False) :=
      Simulates.pure trivial
    have hrounds := survives_rounds (hb.imp fun _ => Or.inr) ht hu
      (Track.moves_onStmt body (Stmt.Bound.allowed body h.2 hw.2.2))
      (Track.moves_onExpr? _ (fun _ _ => trivial) (htest.allowed hw.2.1)) (Track.Moves.pure ()) labels n
    refine (hrounds.congr fun p => ?_).imp fun _ _ => trivial
    exact congrArg Prod.snd (Track.while_apply (.while id test body) (Track.onExpr test)
      (Track.onStmt body) p)
  | doWhile id body test =>
    have hw := cx.scopes.writesOnly_writtenIn (.doWhile id body test)
    rw [Stmt.Bound] at h
    simp only [Stmt.nodes, List.cons_append, ScopeTree.writesOnly_cons,
      ScopeTree.writesOnly_append] at hw
    have htest : Bound? cx.scopes constants Δ (some test) := h.1
    have ht := simulates_testTruth hΔ hfs hcx htest
    have hb := executes_onStmt hfs hcx n body hΔ h.2 []
    have hrounds := survives_roundsAfter (hb.imp fun _ => Or.inr) ht
      (Track.moves_onStmt body (Stmt.Bound.allowed body h.2 hw.2.1))
      (Track.moves_onExpr? _ (fun _ _ => trivial) (htest.allowed hw.2.2)) labels n
    refine (hrounds.congr fun p => ?_).imp fun _ _ => trivial
    exact congrArg Prod.snd (Track.doWhile_apply (.doWhile id body test) (Track.onExpr test)
      (Track.onStmt body) p)
  | «for» id init test update body =>
    have hw := cx.scopes.writesOnly_writtenIn (.for id init test update body)
    rw [Stmt.Bound] at h
    obtain ⟨hid, hinit, htest, hupdate, hbody⟩ := h
    simp only [Stmt.nodes, List.cons_append, ScopeTree.writesOnly_cons,
      ScopeTree.writesOnly_append] at hw
    obtain ⟨-, ⟨⟨-, hwtest⟩, hwupdate⟩, hwbody⟩ := hw
    have hi := simulates_onHead? hΔ hfs hcx hinit
    have ht := simulates_testTruth hΔ hfs hcx htest
    have hu : Simulates cx fs Δ (Track.onExpr? update) (discard (eval? update)) (fun _ _ => True)
        (fun _ => False) :=
      (simulates_onExpr? hΔ hfs hcx update hupdate).mapRun (fun _ _ _ => trivial) fun _ h => h
    have hb := executes_onStmt hfs hcx n body hΔ hbody []
    have hrounds := survives_rounds (hb.imp fun _ => Or.inr) ht hu
      (Track.moves_onStmt body (Stmt.Bound.allowed body hbody hwbody))
      (Track.moves_onExpr? _ (fun _ _ => trivial) (htest.allowed hwtest))
      (Track.moves_onExpr? _ (fun _ _ => trivial) (hupdate.allowed hwupdate)) labels n
    have hloop := hrounds.congr fun p => congrArg Prod.snd
      (Track.for_apply (.for id init test update body) (Track.onExpr? test) (Track.onStmt body)
        (Track.onExpr? update) p)
    have hall := hi.andThen (hi.movesAll.bind fun _ => hloop.moves) fun _ _ _ => hloop
    exact (hall.inScope hid).imp fun _ _ => trivial
  | _ => exact h.elim
termination_by structural s

theorem completes_onBlock (hfs : fs ≠ ScopeTree.root) (hcx : cx.Knows constants) (n : Nat) :
    (b : Block) → {Δ : Layout} → Δ.Valid cx.scopes fs → b.Bound cx.scopes constants fs Δ →
    Completes cx fs Δ (Track.onBlock b) (b.exec n)
  | ⟨_, stmts⟩, _, hΔ, h => (completes_onStmts hfs hcx n stmts hΔ h.2).inScope h.1
termination_by structural b => b

theorem completes_onBlock? (hfs : fs ≠ ScopeTree.root) (hcx : cx.Knows constants) (n : Nat) :
    (b : Option Block) → {Δ : Layout} → Δ.Valid cx.scopes fs →
    BlockBound? cx.scopes constants fs b Δ → Completes cx fs Δ (Track.onBlock? b) (execBlock? n b)
  | none, _, _, _ => Executes.skip rfl
  | some b, _, hΔ, h => completes_onBlock hfs hcx n b hΔ h
termination_by structural b => b

theorem survives_onHandler? (hfs : fs ≠ ScopeTree.root) (hcx : cx.Knows constants) (n : Nat) :
    (c : Option CatchClause) → {Δ : Layout} → Δ.Valid cx.scopes fs →
    HandlerBound? cx.scopes constants fs c Δ →
    (∀ x, Survives cx fs Δ (Track.onHandler? c) (execHandler n c x)) ∧
      Survives cx fs Δ (Track.onHandler? c) (return .normal)
  | none, _, _, _ => ⟨fun _ => Executes.skip rfl, Executes.skip rfl⟩
  | some ⟨_, none, body⟩, Δ, hΔ, h => by
    have hbody := (completes_onBlock hfs hcx n body hΔ h.2).inScope h.1
    exact ⟨fun _ => hbody.unsure, Executes.unsure_skip hbody.moves⟩
  | some ⟨_, some param, body⟩, Δ, hΔ, ⟨hid, v, hparam, hv, howns, h⟩ => by
    have hbody := completes_onBlock hfs hcx n body (hΔ.cons hv howns) h
    have hvar (x : Primitive) := (executes_withVariable hparam hv howns hbody x).inScope hid
    exact ⟨fun x => (hvar x).unsure, Executes.unsure_skip (hvar .undefined).moves⟩
termination_by structural c => c

theorem completes_onStmts (hfs : fs ≠ ScopeTree.root) (hcx : cx.Knows constants) (n : Nat) :
    (ss : List Stmt) → {Δ : Layout} → Δ.Valid cx.scopes fs →
    StmtsBound cx.scopes constants fs ss Δ → Completes cx fs Δ (Track.onStmts ss) (execAll n ss)
  | [], _, _, _ => Executes.skip rfl
  | s :: rest, _, hΔ, h =>
    Completes.andThen ((executes_onStmt hfs hcx n s hΔ h.1 []).imp fun _ => Or.inr)
      (completes_onStmts hfs hcx n rest hΔ h.2)
termination_by structural ss => ss

end

end

end EsOptimizer
