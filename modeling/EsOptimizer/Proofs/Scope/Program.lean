import EsOptimizer.Proofs.Scope.Entry

/-!
# What a program declares

The outermost scope gets the variables of the program first, then its functions, each name once, and
undeclared names after them (`ScopeTree.HasProgram`). A function that is declared by a statement has
its scope where the statement stands (`ScopeTree.HasDeclared`).
-/

namespace EsOptimizer

namespace ScopeTree

/-- A function was entered from a scope, as a declaration. -/
def HasDeclared (t : ScopeTree) (s : ScopeId) (f : Func) : Prop :=
  ∃ info, t.function? f.id = some info ∧ (t.scope info.scope).parent = some s ∧
    info.scope < t.scopes.size ∧ info.isDecl = true

/-- A program declares its own variables `Δ` and those of its functions `Φ`. -/
structure Declares (t : ScopeTree) (p : Program) (Δ Φ : List (String × VarId)) : Prop where
  names : Δ.map (·.1) = namesOf (((stmtNodes false p.body).flatMap Node.varNames).map (·.name))
  own : ∀ x ∈ Δ, ∃ i ∈ (stmtNodes false p.body).flatMap Node.varNames,
    (t.var x.2).MadeBy (i, .var)
  functions : ∀ x ∈ Φ, ∃ d ∈ functionDecls p.body, (t.var x.2).MadeBy (d.1, .function)
  hoisted : Resolve.HoistedAs (Δ ++ Φ) (functionDecls p.body) (t.scope root).hoisted

/-- What the finished tree says of a program. -/
structure HasProgram (t : ScopeTree) (p : Program) (Δ Φ : List (String × VarId)) : Prop
    extends t.Declares p Δ Φ where
  vars : ∃ others, (t.scope root).vars = Δ ++ Φ ++ others ∧
    ∀ x ∈ others, (t.var x.2).kind = .implicit
  body : StmtsResolved t p.body root
  declared : ∀ id i f, .function id i f ∈ p.body → Bare f.body.stmts → t.HasDeclared root f

end ScopeTree

namespace Resolve

open Resolution

/-! ## Functions that are declared -/

/-- A statement that declares a function. -/
theorem settled_declaredFunc (f : Func) (i : Ident) :
    Settled f.ids (f.nodes true) (fun t s => Bare f.body.stmts → t.HasDeclared s f)
      (onFunc f (.declared i)) := by
  intro hregular
  have hwalk := settled_onFunc f (.declared i) hregular
  refine ⟨hwalk.builds, ?_, ?_, hwalk.keeps⟩
  · intro t t' n J S s hok hok' hgrows hn hs hJ h hbare
    obtain ⟨info, hinfo, hparent, hlt, hdecl⟩ := h hbare
    have hid : f.id ∈ f.ids := by
      obtain ⟨id, params, body⟩ := f
      simp [Func.ids]
    obtain ⟨info', hinfo', hsame⟩ := hgrows.function_same (hJ _ hid) hinfo
    refine ⟨info', hinfo', ?_, ?_, ?_⟩
    · rw [hsame.scope, hgrows.parent _ hlt, hparent]
    · exact hsame.scope ▸ hlt.trans_le hgrows.size
    · exact hsame.isDecl.trans hdecl
  · intro r hr hunopened hbare
    obtain ⟨id, params, ⟨bodyId, body⟩⟩ := f
    have hnodup := hregular.nodup
    simp only [Func.ids, Block.ids, List.nodup_append', List.disjoint_singleton, List.mem_append,
      not_or] at hnodup
    obtain ⟨⟨-, ⟨hbody, -, -⟩, -⟩, -, -, hid, -⟩ := hnodup
    have hbuilds : Builds r.tree.scopes.size (fun _ => True) (entered r id bodyId)
        (atBody (.declared i) id params bodyId body r) :=
      builds_atBody hr trivial (fun _ _ => trivial) (fun _ _ => trivial) fun _ _ => trivial
    have hr₁ := ok_entered hr id bodyId
    have hr₂ := hbuilds.ok' hr₁
    have hname : id ∉ (FunctionName.declared i).ids := List.not_mem_nil
    obtain ⟨info, Δ, hscope, hdecl, hdeclared, -⟩ :=
      declared_atBody hr bodyId params hbare hid hname
    have hgrows := ((settled_onStmts body (.ofNodup hbody)).builds hr₂).grows
    obtain ⟨info', hinfo', hsame⟩ := hgrows.function_same hid hdeclared.function
    rw [onFunc_apply]
    refine ⟨info', hinfo', ?_, ?_, hsame.isDecl.trans hdecl⟩
    · have hparent : ((atBody (.declared i) id params bodyId body r).tree.scope
          r.tree.scopes.size).parent = some r.current :=
        (hbuilds.grows.parent _ hr₁.inside).trans (congrArg Scope.parent (entered_scope r id bodyId))
      change (ScopeTree.scope (onStmts body _).2.tree info'.scope).parent = some r.current
      rw [hsame.scope, hgrows.parent _ hdeclared.inside, hscope, hparent]
    · exact hsame.scope ▸ hdeclared.inside.trans_le hgrows.size

theorem settled_functions (ss : List Stmt) :
    Settled (stmtIds ss) (stmtNodes true ss)
      (fun t s => ∀ id i f, .function id i f ∈ ss → Bare f.body.stmts → t.HasDeclared s f)
      (onStmts ss) := by
  induction ss with
  | nil => exact fun _ => Settles.skip.congr fun _ _ => ⟨fun _ _ _ _ h => (by cases h), fun _ => trivial⟩
  | cons st rest ih =>
    have hrest {P : ScopeTree → ScopeId → Prop}
        (hst : Settled st.ids (st.nodes true) P (onStmt st))
        (hP : ∀ t s, P t s ↔ ∀ id i f, .function id i f = st → Bare f.body.stmts →
          t.HasDeclared s f) :
        Settled (stmtIds (st :: rest)) (stmtNodes true (st :: rest))
          (fun t s => ∀ id i f, .function id i f ∈ st :: rest → Bare f.body.stmts →
            t.HasDeclared s f) (onStmts (st :: rest)) := by
      refine (hst.seq ih).congr fun t s => ?_
      rw [hP]
      simp only [List.mem_cons]
      exact ⟨fun h id i f hf => hf.elim (h.1 id i f) (h.2 id i f),
        fun h => ⟨fun id i f hf => h id i f (Or.inl hf), fun id i f hf => h id i f (Or.inr hf)⟩⟩
    cases st with
    | function id i f =>
      have hname : Settled [i.id] [.name i] (fun t s => t.ResolvesAll [(i, .init)] s)
          (noteSite i .init) :=
        fun _ => settles_noteSite i .init List.mem_cons_self
      have hfn : Settled (Stmt.function id i f).ids ((Stmt.function id i f).nodes true)
          (fun t s => True ∧ (Bare f.body.stmts → t.HasDeclared s f)) (onStmt (.function id i f)) :=
        (hname.forget.seq (settled_declaredFunc f i)).node
      refine hrest hfn fun t s => ?_
      rw [true_and]
      exact ⟨by rintro h _ _ _ ⟨⟩; exact h, fun h => h id i f rfl⟩
    | _ => exact hrest (settled_onStmt _).forget fun t s => ⟨fun _ => nofun, fun _ => trivial⟩

end Resolve

/-! ## The outermost scope -/

namespace ScopeTree

open Resolve

/-- Where the body of a program starts, nothing else has been declared. -/
theorem declares_atProgramBody {p : Program} (hbare : Bare p.body) : ∃ Δ Φ,
    (atProgramBody p).tree.Declares p Δ Φ ∧
      ((atProgramBody p).tree.scope root).vars = Δ ++ Φ := by
  have hr := ok_atProgram p
  obtain ⟨hbuilds₁, hvars, hhoisted₁, -⟩ := declareVars_spec (s := root) hr
    ((stmtNodes false p.body).flatMap Node.varNames) hr.inside
  have hr₁ := hbuilds₁.ok' hr
  have hbody : atProgramBody p = (declareFunctions root (functionDecls p.body)
      (declareVars root ((stmtNodes false p.body).flatMap Node.varNames) (atProgram p)).2).2 :=
    (declareLexicals_bare hbare _).trans (congrArg Prod.snd (hoist_apply (r := atProgram p) _ rfl))
  set r₁ := (declareVars root ((stmtNodes false p.body).flatMap Node.varNames) (atProgram p)).2
  obtain ⟨hbuilds₂, hfns, ⟨hoisted, hhoisted₂, hhoistedAs⟩, -⟩ :=
    declareFunctions_spec (s := root) hr₁ (functionDecls p.body)
      (hr.inside.trans_le hbuilds₁.grows.size)
  have hr₂ := hbuilds₂.ok' hr₁
  rw [← hbody] at hbuilds₂ hfns hhoisted₂ hhoistedAs hr₂
  obtain ⟨Φ, hΦ⟩ := hfns.kept
  refine ⟨(r₁.tree.scope root).vars, Φ, ⟨?_, fun x hx => ?_, fun x hx => ?_, ?_⟩, hΦ.symm⟩
  · rw [hvars.names, List.map_map]
    rfl
  · obtain ⟨d, hd, hmade⟩ := (hvars.fresh x hx).resolve_left List.not_mem_nil
    obtain ⟨i, hi, rfl⟩ := List.mem_map.mp hd
    exact ⟨i, hi, hmade.extends (hbuilds₂.grows.extended x.2 (hr₁.tree.listed root x hx).1)⟩
  · -- Variables are listed once, so those of `Φ` are new.
    have hdistinct := hr₂.tree.distinct root
    rw [← hΦ, List.map_append, List.nodup_append'] at hdistinct
    have hnew : x ∉ (r₁.tree.scope root).vars := fun hold =>
      hdistinct.2.2 (List.mem_map_of_mem hold) (List.mem_map_of_mem hx)
    obtain ⟨d, hd, hmade⟩ :=
      (hfns.fresh x (hΦ ▸ List.mem_append_right _ hx)).resolve_left hnew
    obtain ⟨y, hy, rfl⟩ := List.mem_map.mp hd
    exact ⟨y, hy, hmade⟩
  · rw [hΦ, hhoisted₂, hhoisted₁]
    exact hhoistedAs

theorem hasProgram_ofProgram {p : Program} (h : p.Regular) (hbare : Bare p.body) :
    ∃ Δ Φ, (ofProgram p).HasProgram p Δ Φ := by
  obtain ⟨Δ, Φ, hdeclares, hvars⟩ := declares_atProgramBody hbare
  have hstart := builds_atProgramBody p
  have hr := hstart.ok' (ok_atProgram p)
  have hcurrent : (atProgramBody p).current = root := hstart.current
  have hnodup : (stmtIds p.body).Nodup := (List.nodup_append'.mp h.nodup).1
  have hunopened : (atProgramBody p).tree.Unopened (stmtIds p.body) := unopened_atProgramBody h
  have hstmts := settled_onStmts p.body (.ofNodup hnodup)
  have hfunctions := settled_functions p.body (.ofNodup hnodup)
  have hbuilds : Resolution.Builds _ _ (atProgramBody p) (onStmts p.body (atProgramBody p)).2 :=
    hstmts.builds hr
  have hgrows : (atProgramBody p).tree.Grows _ _ _ (ofProgram p) := hbuilds.grows
  have hok : (ofProgram p).Ok := hbuilds.ok
  have hroot : root < (atProgramBody p).tree.scopes.size := hcurrent ▸ hr.inside
  obtain ⟨others, hothers⟩ := hgrows.rootVars hroot
  rw [hvars] at hothers
  have hmade {x : String × VarId} (hx : x ∈ Δ ++ Φ) {d : Ident × VarKind}
      (hd : ((atProgramBody p).tree.var x.2).MadeBy d) : ((ofProgram p).var x.2).MadeBy d :=
    hd.extends (hgrows.extended x.2 (hr.tree.listed root x (hvars ▸ hx)).1)
  refine ⟨Δ, Φ, ⟨hdeclares.names, fun x hx => ?_, fun x hx => ?_, ?_⟩,
    ⟨others, hothers.symm, fun x hx => ?_⟩, ?_, ?_⟩
  · obtain ⟨i, hi, hd⟩ := hdeclares.own x hx
    exact ⟨i, hi, hmade (List.mem_append_left _ hx) hd⟩
  · obtain ⟨i, hi, hd⟩ := hdeclares.functions x hx
    exact ⟨i, hi, hmade (List.mem_append_right _ hx) hd⟩
  · rw [hgrows.rootHoisted hroot]
    exact hdeclares.hoisted
  · have hdistinct := hok.distinct root
    rw [← hothers, List.map_append, List.nodup_append'] at hdistinct
    have hmem : x ∈ ((ofProgram p).scope root).vars := hothers ▸ List.mem_append_right _ hx
    refine ((hgrows.rootNew hroot x hmem).resolve_left fun hold => ?_).2
    exact hdistinct.2.2 (List.mem_map_of_mem (hvars ▸ hold)) (List.mem_map_of_mem hx)
  · have hbody := hstmts.holds hr hunopened
    rwa [hcurrent] at hbody
  · have hbody := hfunctions.holds hr hunopened
    rwa [hcurrent] at hbody

end ScopeTree

end EsOptimizer
