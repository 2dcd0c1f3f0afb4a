import EsOptimizer.Pass.UnrollLoops
import EsOptimizer.Proofs.Rewrite.Hoisted

/-!
# Unrolled loops declare what the loops did

The body of an unrolled loop is left only in its copies, one for each key. A copy declares the same
names as its model (`Stmt.sameHoists_renumber`), so unrolling keeps what is hoisted, unless a loop
has an empty list of keys (`unrollLoops_sameHoists`). Of a loop with an empty list nothing is left
but its own variable, and what its body declares is lost.
-/

namespace EsOptimizer

/-! ## Copies -/

theorem copies_any {α : Type} (x : Fresh α) : Copies x fun _ => True :=
  fun _ _ => ⟨trivial, trivial⟩

/-- A copy of a declaration declares names of the same spelling. -/
structure VarDecl.SameNames (d x : VarDecl) : Prop where
  kind : x.kind = d.kind
  names : x.decls.map (·.name.name) = d.decls.map (·.name.name)

theorem VarDecl.sameNames_renumber (d : VarDecl) : Copies d.renumber d.SameNames := by
  obtain ⟨id, kind, decls⟩ := d
  have hdecls : Copies (renumberDecls decls) fun ds =>
      ds.map (·.name.name) = decls.map (·.name.name) := by
    induction decls with
    | nil => exact .pure rfl
    | cons d rest ih =>
      obtain ⟨id', name, init⟩ := d
      have hfirst : Copies (Declarator.renumber ⟨id', name, init⟩) (·.name.name = name.name) :=
        .fresh fun _ => .renamed fun _ => (copies_any _).bind fun _ _ => .pure rfl
      exact hfirst.bind fun x hx => ih.bind fun xs hxs => .pure (congrArg₂ List.cons hx hxs)
  exact .fresh fun _ => hdecls.bind fun ds hds => .pure ⟨rfl, hds⟩

namespace VarDecl.SameNames

variable {d x : VarDecl}

theorem varNames (h : d.SameNames x) :
    (Node.decl x).varNames.map (·.name) = (Node.decl d).varNames.map (·.name) := by
  rw [Node.varNames, Node.varNames, h.kind]
  split
  · rw [List.map_map, List.map_map]
    exact h.names
  · rfl

theorem sameHoists (h : d.SameNames x) : SameHoists (d.nodes false) (x.nodes false) := by
  obtain ⟨id, kind, decls⟩ := d
  obtain ⟨id', kind', decls'⟩ := x
  exact .cons h.varNames rfl (.declNodes decls decls')

theorem sameLoopHoists (h : d.SameNames x) :
    SameHoists ((ForHead.decl d).loopNodes false) ((ForHead.decl x).loopNodes false) := by
  obtain ⟨id, kind, decls⟩ := d
  obtain ⟨id', kind', decls'⟩ := x
  exact .cons h.varNames rfl (.declNodes decls decls')

end VarDecl.SameNames

theorem ForHead.sameHoists_renumber (head : ForHead) : Copies head.renumber fun x =>
    SameHoists (head.nodes false) (x.nodes false) ∧
      SameHoists (head.loopNodes false) (x.loopNodes false) := by
  cases head with
  | decl d => exact d.sameNames_renumber.bind fun x hx => .pure ⟨hx.sameHoists, hx.sameLoopHoists⟩
  | expr e => exact (copies_any _).bind fun x _ => .pure ⟨.expr e x, .expr e x⟩

theorem sameHoists_renumberHead? (head : Option ForHead) : Copies (renumberHead? head) fun x =>
    SameHoists (headNodes? false head) (headNodes? false x) := by
  cases head with
  | none => exact .pure (.refl _)
  | some head => exact head.sameHoists_renumber.bind fun x hx => .pure hx.1

attribute [local simp] Stmt.nodes Block.nodes blockNodes? handlerNodes? CatchClause.nodes stmtNodes?
  stmtNodes hoistedFunctions_cons Node.functionDecl?

mutual

/-- A copy of a statement that declares no functions declares what its model does. -/
theorem Stmt.sameHoists_renumber (s : Stmt) (hs : hoistedFunctions (s.nodes false) = []) :
    Copies s.renumber fun x => SameHoists (s.nodes false) (x.nodes false) := by
  cases s with
  | block b =>
    exact (Block.sameHoists_renumber b (by simpa using hs)).bind fun a ha =>
      .pure (.cons rfl rfl ha)
  | expr id e =>
    exact .fresh fun _ => (copies_any _).bind fun a _ => .pure (.cons rfl rfl (.expr e a))
  | var d =>
    exact d.sameNames_renumber.bind fun a ha => .pure (.cons rfl rfl ha.sameHoists)
  | function id name f => simp at hs
  | «if» id test yes no =>
    obtain ⟨hyes, hno⟩ : hoistedFunctions (yes.nodes false) = [] ∧
      hoistedFunctions (stmtNodes? false no) = [] := by simpa [-stmtNodes?] using hs
    exact .fresh fun _ => (copies_any _).bind fun a _ =>
      (Stmt.sameHoists_renumber yes hyes).bind fun b hb =>
        (sameHoists_renumberStmt? no hno).bind fun c hc =>
          .pure (.cons rfl rfl (((SameHoists.expr test a).append hb).append hc))
  | «for» id init test update body =>
    obtain ⟨hinit, hbody⟩ : hoistedFunctions (headNodes? false init) = [] ∧
      hoistedFunctions (body.nodes false) = [] := by simpa using hs
    exact .fresh fun _ => (sameHoists_renumberHead? init).bind fun a ha =>
      (copies_any _).bind fun b _ => (copies_any _).bind fun c _ =>
        (Stmt.sameHoists_renumber body hbody).bind fun x hx =>
          .pure (.cons rfl rfl (((ha.append (.expr? test b)).append (.expr? update c)).append hx))
  | forIn id head obj body =>
    obtain ⟨hhead, hbody⟩ : hoistedFunctions (head.loopNodes false) = [] ∧
      hoistedFunctions (body.nodes false) = [] := by simpa using hs
    exact .fresh fun _ => head.sameHoists_renumber.bind fun a ha => (copies_any _).bind fun b _ =>
      (Stmt.sameHoists_renumber body hbody).bind fun x hx =>
        .pure (.cons rfl rfl ((ha.2.append (.expr obj b)).append hx))
  | «while» id test body =>
    exact .fresh fun _ => (copies_any _).bind fun a _ =>
      (Stmt.sameHoists_renumber body (by simpa using hs)).bind fun x hx =>
        .pure (.cons rfl rfl ((SameHoists.expr test a).append hx))
  | doWhile id body test =>
    exact .fresh fun _ => (Stmt.sameHoists_renumber body (by simpa using hs)).bind fun x hx =>
      (copies_any _).bind fun a _ => .pure (.cons rfl rfl (hx.append (.expr test a)))
  | «return» id arg =>
    exact .fresh fun _ => (copies_any _).bind fun a _ => .pure (.cons rfl rfl (.expr? arg a))
  | labeled id label body =>
    exact .fresh fun _ => .renamed fun _ =>
      (Stmt.sameHoists_renumber body (by simpa using hs)).bind fun x hx => .pure (.cons rfl rfl hx)
  | throw id e =>
    exact .fresh fun _ => (copies_any _).bind fun a _ => .pure (.cons rfl rfl (.expr e a))
  | «with» id obj body =>
    exact .fresh fun _ => (copies_any _).bind fun a _ =>
      (Stmt.sameHoists_renumber body (by simpa using hs)).bind fun x hx =>
        .pure (.cons rfl rfl ((SameHoists.expr obj a).append hx))
  | «try» id block handler finalizer =>
    obtain ⟨hblock, hhandler, hfinalizer⟩ : hoistedFunctions (block.nodes false) = [] ∧
      hoistedFunctions (handlerNodes? false handler) = [] ∧
        hoistedFunctions (blockNodes? false finalizer) = [] := by
      simpa [-Block.nodes, -handlerNodes?, -blockNodes?] using hs
    exact .fresh fun _ => (Block.sameHoists_renumber block hblock).bind fun a ha =>
      (sameHoists_renumberHandler? handler hhandler).bind fun b hb =>
        (sameHoists_renumberBlock? finalizer hfinalizer).bind fun c hc =>
          .pure (.cons rfl rfl ((ha.append hb).append hc))
  | empty id => exact .fresh fun _ => .pure (.cons rfl rfl (.refl []))
  | «break» id label | «continue» id label =>
    exact .fresh fun _ => (copies_any _).bind fun _ _ => .pure (.cons rfl rfl (.refl []))
termination_by structural s

theorem sameHoists_renumberStmt? (s : Option Stmt)
    (hs : hoistedFunctions (stmtNodes? false s) = []) : Copies (renumberStmt? s) fun x =>
      SameHoists (stmtNodes? false s) (stmtNodes? false x) := by
  match s with
  | none => exact .pure (.refl _)
  | some s => exact (Stmt.sameHoists_renumber s hs).bind fun a ha => .pure ha
termination_by structural s

theorem sameHoists_renumberBlock? (b : Option Block)
    (hb : hoistedFunctions (blockNodes? false b) = []) : Copies (renumberBlock? b) fun x =>
      SameHoists (blockNodes? false b) (blockNodes? false x) := by
  match b with
  | none => exact .pure (.refl _)
  | some b => exact (Block.sameHoists_renumber b hb).bind fun a ha => .pure ha
termination_by structural b

theorem sameHoists_renumberHandler? (c : Option CatchClause)
    (hc : hoistedFunctions (handlerNodes? false c) = []) : Copies (renumberHandler? c) fun x =>
      SameHoists (handlerNodes? false c) (handlerNodes? false x) := by
  match c with
  | none => exact .pure (.refl _)
  | some ⟨_, param, body⟩ =>
    have hbody : hoistedFunctions (body.nodes false) = [] := by simpa [-Block.nodes] using hc
    exact .fresh fun _ => (copies_any _).bind fun name _ =>
      (Block.sameHoists_renumber body hbody).bind fun a ha =>
        .pure ((SameHoists.name? param name).append ha)
termination_by structural c

theorem Block.sameHoists_renumber (b : Block) (hb : hoistedFunctions (b.nodes false) = []) :
    Copies b.renumber fun x => SameHoists (b.nodes false) (x.nodes false) := by
  match b with
  | ⟨_, stmts⟩ =>
    exact .fresh fun _ => (sameHoists_renumberStmts stmts hb).bind fun a ha => .pure ha
termination_by structural b

theorem sameHoists_renumberStmts (ss : List Stmt)
    (hss : hoistedFunctions (stmtNodes false ss) = []) : Copies (renumberStmts ss) fun xs =>
      SameHoists (stmtNodes false ss) (stmtNodes false xs) := by
  match ss with
  | [] => exact .pure (.refl _)
  | s :: rest =>
    obtain ⟨hs, hrest⟩ : hoistedFunctions (s.nodes false) = [] ∧
      hoistedFunctions (stmtNodes false rest) = [] := by simpa using hss
    exact (Stmt.sameHoists_renumber s hs).bind fun a ha =>
      (sameHoists_renumberStmts rest hrest).bind fun b hb => .pure (ha.append hb)
termination_by structural ss

end

/-! ## Loops -/

/-- What declares no functions can be there several times. -/
theorem SameHoists.repeated {ns : List Node} {ss : List Stmt} (hns : hoistedFunctions ns = [])
    (hss : ∀ s ∈ ss, SameHoists ns (s.nodes false)) (hne : ss ≠ []) :
    SameHoists ns (stmtNodes false ss) := by
  induction ss with
  | nil => exact absurd rfl hne
  | cons s rest ih =>
    obtain ⟨hs, hrest⟩ := List.forall_mem_cons.mp hss
    cases rest with
    | nil =>
      rw [stmtNodes_singleton]
      exact hs
    | cons s' rest =>
      have h := ih hrest (List.cons_ne_nil s' rest)
      refine ⟨fun x => ?_, ?_⟩
      · rw [stmtNodes, hoistedNames_append, List.mem_append, hs.names x, h.names x, or_self]
      · rw [stmtNodes, hoistedFunctions_append, hs.functions, h.functions, hns, List.append_nil]

namespace UnrollLoops

variable {a : Analysis} {s : Stmt} {u : Unrollable}

theorem sameHoists_iteration (hbody : hoistedFunctions (u.body.nodes false) = []) (key : String) :
    Yields Basis.blank.Fresh (u.iteration key) fun x =>
      SameHoists (u.body.nodes false) (x.nodes false) := by
  refine (Basis.yields_blank _).bind fun _ _ => (Basis.yields_blank _).bind fun value _ =>
    (Make.declareNothing_expr value).bind fun store hstore => ?_
  have hcopy : Yields Basis.blank.Fresh (Edit.ofFresh u.body.renumber) fun x =>
      SameHoists (u.body.nodes false) (x.nodes false) :=
    fun s _ => ⟨Nat.zero_le _, (u.body.sameHoists_renumber hbody s.nextId trivial).2⟩
  refine hcopy.bind fun copy hx => Basis.yields_new fun id _ => .pure ?_
  have hblock : SameHoists (u.body.nodes false) (stmtNodes false [store, copy]) := by
    have hnothing : DeclareNothing [] := nofun
    rw [stmtNodes, stmtNodes_singleton]
    exact (SameHoists.ofNothing hnothing hstore).append hx
  exact hblock.trans (.block ⟨id, [store, copy]⟩)

/-- A loop that can be unrolled. -/
theorem of_unrollable? (h : unrollable? a s = some u) :
    ∃ id head obj, s = .forIn id head obj u.body ∧ a.forInKeys[id]? = some u.keys ∧
      loopVar? head = some (u.name, u.isDeclared) ∧ u.body.containsFunctionDecl = false := by
  cases s with
  | forIn id head obj body =>
    rw [unrollable?] at h
    split at h
    · rename_i keys name isDeclared hkeys hvar
      split at h
      · rename_i hguard
        cases h
        simp only [Bool.and_eq_true, Bool.not_eq_true'] at hguard
        exact ⟨id, head, obj, rfl, hkeys, hvar, hguard.2⟩
      · cases h
    · cases h
  | _ => cases h

/-- The variable of a loop is declared in front of the copies, if the loop declares it. -/
theorem sameHoists_declaration {head : ForHead}
    (h : loopVar? head = some (u.name, u.isDeclared)) :
    Yields Basis.blank.Fresh u.declaration fun ss =>
      SameHoists (head.loopNodes false) (stmtNodes false ss) := by
  unfold Unrollable.declaration
  match head with
  | .decl ⟨id, .var, [d]⟩ =>
    obtain ⟨hname, hdeclared⟩ := Prod.mk.inj (Option.some.inj h)
    rw [if_pos hdeclared.symm]
    have hrest := declareNothing_declNodes [d]
    have hnames (x : String) :
        x ∈ [u.name] ↔ x ∈ hoistedNames ((ForHead.decl ⟨id, .var, [d]⟩).loopNodes false) := by
      simp [ForHead.loopNodes, Node.varNames, hrest.names, hname]
    refine (Make.sameHoists_vars hnames hrest.functions).bind fun s hs => .pure ?_
    rwa [stmtNodes_singleton]
  | .expr (.ident i) =>
    obtain ⟨hname, hdeclared⟩ := Prod.mk.inj (Option.some.inj h)
    rw [if_neg (by simp [← hdeclared])]
    exact .pure (.ofNothing (Expr.ident i).declareNothing nofun)

/-- A loop becomes the declaration of its variable and at least one copy of its body. -/
theorem sameHoists_outcome (h : unrollable? a s = some u) (hkeys : u.keys ≠ []) :
    Yields Basis.blank.Fresh u.outcome fun x => SameHoists (s.nodes false) (x.nodes false) := by
  obtain ⟨id, head, obj, rfl, -, hvar, hnone⟩ := of_unrollable? h
  have hbody := Stmt.hoistedFunctions_eq_nil hnone
  refine (sameHoists_declaration hvar).bind fun first hfirst =>
    (Yields.mapM fun key _ => sameHoists_iteration hbody key).bind fun rest hrest =>
      Basis.yields_new fun blockId _ => .pure ?_
  have hne : rest ≠ [] := by
    rintro rfl
    exact hkeys (List.eq_nil_of_length_eq_zero hrest.1.symm)
  have hloop : SameHoists ((Stmt.forIn id head obj u.body).nodes false)
      (head.loopNodes false ++ u.body.nodes false) := by
    refine ⟨fun x => ?_, ?_⟩
    · simp [Node.varNames]
    · simp
  have hparts := hfirst.append (.repeated hbody hrest.2 hne)
  rw [← stmtNodes_append] at hparts
  exact hloop.trans (hparts.trans (.block ⟨blockId, first ++ rest⟩))

theorem transform_stmt (place : Place) (before s : Stmt) : (transform a).stmt place before s =
    match unrollable? a s with
    | none => pure [s]
    | some u => do
      Edit.markChanged
      return [← u.outcome] := rfl

/-- If no list of keys is empty, the names in a loop are declared by one of its copies. -/
theorem keepsHoists (hkeys : ∀ id : NodeId, a.forInKeys[id]? ≠ some []) :
    (transform a).KeepsHoists where
  stmt place before after := by
    rw [transform_stmt]
    split
    · refine .pure ?_
      rw [stmtNodes_singleton]
      exact .refl _
    · rename_i u hu
      obtain ⟨id, -, -, -, hfound, -⟩ := of_unrollable? hu
      have hne : u.keys ≠ [] := fun hnil => hkeys id (hnil ▸ hfound)
      refine Basis.yields_changed ((sameHoists_outcome hu hne).bind fun x hx => .pure ?_)
      rwa [stmtNodes_singleton]
  list isBody ss := .pure (.refl _)
  func _ := rfl

end UnrollLoops

/-- Unrolling keeps what a program declares, if no loop has an empty list of keys. -/
theorem unrollLoops_sameHoists {a : Analysis} (hkeys : ∀ id : NodeId, a.forInKeys[id]? ≠ some [])
    (src : Source) : SameHoists (stmtNodes false src.program.body)
      (stmtNodes false (unrollLoops a src).1.program.body) :=
  ((UnrollLoops.keepsHoists hkeys).onProgram src.program ⟨src.nextId, false, []⟩ (Nat.zero_le _)).2

end EsOptimizer
