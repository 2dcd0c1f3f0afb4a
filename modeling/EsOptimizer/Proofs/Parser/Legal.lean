import EsOptimizer.Parser.Grammar
import EsOptimizer.Proofs.Parser.Builds
import EsOptimizer.Proofs.Syntax.Legal

/-!
# What the grammar accepts

Every tree that a parser of the grammar returns is legal where it stands, and its nodes have ids of
their own. The induction is on the depth, with one step for each parser.
-/

namespace EsOptimizer

open EsOptimizer.Tree (stock Legal)

/-- What stands around a statement that is parsed in a context. The label of a loop can be continued
as soon as the loop begins. -/
def ParseContext.around (ctx : ParseContext) : Surroundings where
  inFunction := ctx.inFunction
  inLoop := ctx.inLoop
  labels := ctx.labels.map (·.name)
  loops := (ctx.labels.filter (·.isLoop)).map (·.name)

attribute [local simp] Tree.stock Tree.ids Tree.nodes Tree.Legal Node.tally Node.isLegal
  Property.isLegal Expr.ids Expr.nodes elemIds elemNodes exprIds exprNodes exprIds? exprNodes?
  PropertyKey.ids PropertyKey.nodes Property.ids Property.nodes propIds propNodes Func.ids Func.nodes
  Block.ids Block.nodes blockIds? blockNodes? Declarator.ids Declarator.nodes declIds declNodes
  VarDecl.ids VarDecl.nodes ForHead.ids ForHead.nodes headIds? headNodes? CatchClause.ids
  CatchClause.nodes handlerIds? handlerNodes? supplied_loopNodes Stmt.ids Stmt.nodes stmtIds?
  stmtNodes? stmtIds stmtNodes Ident.ids?

namespace Parser

/-! ## Loops -/

/-- Whatever the parser returns is a loop. -/
def ReturnsLoop (x : Parser Stmt) : Prop := ∀ s a s', x s = .ok (a, s') → a.isLoop = true

theorem ReturnsLoop.ofFails {x : Parser Stmt} (h : Fails x) : ReturnsLoop x :=
  fun s a s' hx => absurd hx (h s (a, s'))

theorem ReturnsLoop.bind {α : Type} {x : Parser α} {f : α → Parser Stmt}
    (h : ∀ a, ReturnsLoop (f a)) : ReturnsLoop (x >>= f) := by
  intro s a s' ha
  obtain ⟨b, t, -, ha⟩ := bind_eq_ok ha
  exact h b t a s' ha

theorem ReturnsLoop.pure {a : Stmt} (h : a.isLoop = true) : ReturnsLoop (Pure.pure a) := by
  intro s b s' hb
  cases hb
  exact h

theorem returnsLoop_forRest (d : Nat) (ctx : ParseContext) (init : Option ForHead) :
    ReturnsLoop (forRest d ctx init) := by
  cases d with
  | zero => exact .ofFails fails_tooDeep
  | succ d =>
    rw [forRest]
    refine .bind fun _ => .bind fun _ => ?_
    dsimp only
    split <;>
    · refine .bind fun _ => .bind fun _ => .bind fun _ => ?_
      split <;> exact .bind fun _ => .bind fun _ => .bind fun _ => .bind fun _ => .pure rfl

theorem returnsLoop_forInRest (d : Nat) (ctx : ParseContext) (head : ForHead) :
    ReturnsLoop (forInRest d ctx head) := by
  cases d with
  | zero => exact .ofFails fails_tooDeep
  | succ d =>
    rw [forInRest]
    exact .bind fun _ => .bind fun _ => .bind fun _ => .bind fun _ => .bind fun _ => .pure rfl

theorem returnsLoop_forStmt (d : Nat) (ctx : ParseContext) : ReturnsLoop (forStmt d ctx) := by
  cases d with
  | zero => exact .ofFails fails_tooDeep
  | succ d =>
    rw [forStmt]
    refine .bind fun _ => .bind fun _ => .bind fun _ => ?_
    split
    · exact returnsLoop_forRest d ctx none
    iterate 3
      refine .bind fun decl => .bind fun _ => ?_
      split
      · split
        · exact returnsLoop_forInRest d ctx _
        · exact .ofFails (fails_fail _)
      · exact returnsLoop_forRest d ctx _
    · refine .bind fun e => .bind fun _ => ?_
      split
      · split
        · exact returnsLoop_forInRest d ctx _
        · exact .ofFails (fails_fail _)
      · exact returnsLoop_forRest d ctx _

theorem returnsLoop_whileStmt (d : Nat) (ctx : ParseContext) : ReturnsLoop (whileStmt d ctx) := by
  cases d with
  | zero => exact .ofFails fails_tooDeep
  | succ d =>
    rw [whileStmt]
    exact .bind fun _ => .bind fun _ => .bind fun _ => .bind fun _ => .pure rfl

theorem returnsLoop_doWhileStmt (d : Nat) (ctx : ParseContext) :
    ReturnsLoop (doWhileStmt d ctx) := by
  cases d with
  | zero => exact .ofFails fails_tooDeep
  | succ d =>
    rw [doWhileStmt]
    exact .bind fun _ => .bind fun _ => .bind fun _ => .bind fun _ => .bind fun _ => .bind fun _ =>
      .pure rfl

/-- Whether a token begins a loop. -/
def beginsLoop (t : Token) : Bool := t == .kw .for || t == .kw .while || t == .kw .do

theorem isLoop_of_beginsLoop {d : Nat} {ctx : ParseContext} {s s' : ParseState} {a : Stmt}
    (ht : beginsLoop s.current.token = true) (h : stmt d ctx s = .ok (a, s')) : a.isLoop = true := by
  cases d with
  | zero => exact absurd h (fails_tooDeep s (a, s'))
  | succ d =>
    rw [stmt] at h
    obtain ⟨t, u, hpeek, h⟩ := bind_eq_ok h
    cases hpeek
    simp only [beginsLoop, Bool.or_eq_true, beq_iff_eq] at ht
    rcases ht with (ht | ht) | ht
    · rw [ht] at h
      exact returnsLoop_forStmt d ctx s a s' h
    · rw [ht] at h
      exact returnsLoop_whileStmt d ctx s a s' h
    · rw [ht] at h
      exact returnsLoop_doWhileStmt d ctx s a s' h

/-- Members of a sequence follow a comma. -/
theorem commaExprs_ne_nil {d : Nat} {ctx : ParseContext} {s s' : ParseState} {rest : List Expr}
    (ht : s.current.token = .punct .comma) (h : commaExprs d ctx s = .ok (rest, s')) :
    rest ≠ [] := by
  cases d with
  | zero => exact absurd h (fails_tooDeep s (rest, s'))
  | succ d =>
    rw [commaExprs] at h
    obtain ⟨b, u, heat, h⟩ := bind_eq_ok h
    obtain ⟨seen, v, hsees, heat⟩ := bind_eq_ok heat
    cases hsees
    rw [ht] at heat
    cases heat
    obtain ⟨e, u, -, h⟩ := bind_eq_ok h
    obtain ⟨es, v, -, h⟩ := bind_eq_ok h
    cases h
    exact List.cons_ne_nil _ _

/-! ## The parsers -/

/-- A statement is legal where it stands. -/
def LegalAt (cx : Surroundings) (s : Stmt) : Prop := Legal s ∧ s.isPlaced cx = true

/-- What stands in front of `in` in the head of a loop is legal. -/
def LegalHead : ForHead → Prop
  | .decl d => AllLegal ((ForHead.decl d).loopNodes true)
  | .expr e => Legal e ∧ e.isTarget = true

theorem legalHead_decl {d : VarDecl} {id : NodeId} {name : Ident} (hdecls : d.decls = [⟨id, name, none⟩])
    (h : Legal d) : LegalHead (.decl d) := by
  obtain ⟨did, kind, decls⟩ := d
  cases hdecls
  exact allLegal_cons.mpr ⟨rfl, (allLegal_cons.mp h).2⟩

theorem around_inside (ctx : ParseContext) : ctx.around.inside = ctx.around := rfl

/-- A label is put on a statement that was parsed where the label stands around it. -/
theorem isPlaced_labeled {ctx : ParseContext} {name : String} {isLoop : Bool} {s : Stmt}
    (hloop : isLoop = true → s.isLoop = true)
    (h : s.isPlaced { ctx with labels := ⟨name, isLoop⟩ :: ctx.labels }.around = true) :
    s.isPlaced (ctx.around.labeled name) = true := by
  cases isLoop with
  | false =>
    have hinside : s.isPlaced (ctx.around.labeled name).inside = true := h
    exact Stmt.isPlaced_of_inside hinside
  | true =>
    -- Only the body of the loop sees the difference, and there the label is around it either way.
    cases s with
    | «for» | forIn | «while» | doWhile => exact h
    | _ => cases hloop rfl

attribute [local simp] LegalAt LegalHead Stmt.isPlaced Block.isPlaced isPlaced? blockPlaced?
  handlerPlaced? allPlaced

theorem builds_jumpStmt (isBreak : Bool) (ctx : ParseContext) :
    Builds (stock .none) (LegalAt ctx.around) (jumpStmt isBreak ctx) fun _ => 0 := by
  rw [jumpStmt]
  refine .skip quiet_advance fun _ => .skip quiet_peek fun t => .skip quiet_afterLineEnd fun _ => ?_
  extract_lets rest
  have hrest (label : Option Ident)
      (hlabel : ∀ id, LegalAt ctx.around (if isBreak then .break id label else .continue id label)) :
      Builds (stock .none) (LegalAt ctx.around) (rest label) (stock .none label) := by
    refine .skip quiet_semicolon fun _ => .node hlabel fun id k => ?_
    cases isBreak <;> simp <;> omega
  split
  · refine .bind builds_ident fun label _ => ?_
    split
    · rename_i target htarget
      have hname : target.name = label.name := by simpa using List.find?_some htarget
      have hmem := List.mem_of_find?_eq_some htarget
      refine .guard (fails_fail _) fun hkind => hrest (some label) fun id => ?_
      cases isBreak with
      | true => simpa [ParseContext.around] using ⟨target, hmem, hname⟩
      | false => simpa [ParseContext.around] using ⟨target, ⟨hmem, by simpa using hkind⟩, hname⟩
    · exact .ofFails ((fails_fail _).bind _)
  · refine .guard (fails_fail _) fun hloop => hrest none fun id => ?_
    cases isBreak <;> simpa [ParseContext.around] using hloop

mutual

theorem builds_stmt : (d : Nat) → (ctx : ParseContext) →
    Builds (stock .none) (LegalAt ctx.around) (stmt d ctx) fun _ => 0
  | 0, _ => .ofFails fails_tooDeep
  | d + 1, ctx => by
    rw [stmt]
    refine .skip quiet_peek fun t => ?_
    split
    · exact .bind (builds_block d ctx) fun b hb => .pure (by simp_all [around_inside]) fun k => by simp
    · exact .skip quiet_advance fun _ => .node (fun id => by simp) fun id k => by simp
    · refine .skip quiet_peekSecond fun _ => ?_
      exact .ite (fun _ => builds_labeledStmt d ctx) fun _ => builds_exprStmt d ctx
    · split
      iterate 3
        exact .bind (builds_varDecl d ctx) fun decl hdecl => .skip quiet_semicolon fun _ =>
          .pure (by simp_all) fun k => by simp
      · exact builds_functionDecl d ctx
      · exact builds_ifStmt d ctx
      · exact builds_forStmt d ctx
      · exact builds_whileStmt d ctx
      · exact builds_doWhileStmt d ctx
      · exact builds_returnStmt d ctx
      · exact builds_jumpStmt true ctx
      · exact builds_jumpStmt false ctx
      · exact builds_throwStmt d ctx
      · exact builds_tryStmt d ctx
      · exact builds_withStmt d ctx
      iterate 5 exact .ofFails (fails_fail _)
      · exact builds_exprStmt d ctx
    · exact builds_exprStmt d ctx

theorem builds_block : (d : Nat) → (ctx : ParseContext) →
    Builds (stock .none) (fun b => Legal b ∧ b.isPlaced ctx.around = true) (block d ctx) fun _ => 0
  | 0, _ => .ofFails fails_tooDeep
  | d + 1, ctx => by
    rw [block]
    refine .skip (quiet_expect _) fun _ => .bind (builds_stmtsToBrace d ctx) fun ss hss => ?_
    exact .node (fun id => hss) fun id k => by simp; omega

theorem builds_stmtsToBrace : (d : Nat) → (ctx : ParseContext) →
    Builds (stock .none) (fun ss => Legal ss ∧ allPlaced ctx.around ss = true)
      (stmtsToBrace d ctx) fun _ => 0
  | 0, _ => .ofFails fails_tooDeep
  | d + 1, ctx => by
    rw [stmtsToBrace]
    refine .skip (quiet_eat _) fun _ => .ite (fun _ => .pure (by simp) (by simp)) fun _ => ?_
    refine .skip (quiet_sees _) fun _ => .reject (fails_unexpected _) fun _ => ?_
    refine .bind (builds_stmt d ctx) fun s hs => .bind (builds_stmtsToBrace d ctx) fun ss hss => ?_
    exact .pure (by simp_all) fun k => by simp; omega

theorem builds_exprStmt : (d : Nat) → (ctx : ParseContext) →
    Builds (stock .none) (LegalAt ctx.around) (exprStmt d ctx) fun _ => 0
  | 0, _ => .ofFails fails_tooDeep
  | d + 1, ctx => by
    rw [exprStmt]
    refine .bind (builds_expr d ctx.allowIn) fun e he => .skip quiet_semicolon fun _ => ?_
    exact .node (fun id => by simp_all) fun id k => by simp; omega

theorem builds_varDecl : (d : Nat) → (ctx : ParseContext) →
    Builds (stock .none) Legal (varDecl d ctx) fun _ => 0
  | 0, _ => .ofFails fails_tooDeep
  | d + 1, ctx => by
    rw [varDecl]
    refine .skip quiet_peek fun t => ?_
    extract_lets rest
    have hrest (kind : DeclKind) : Builds (stock .none) Legal (rest kind) fun _ => 0 := by
      refine .skip quiet_advance fun _ => .bind (builds_declarators d ctx) fun ds hds => ?_
      exact .node (fun id => by simp_all) fun id k => by simp; omega
    split <;> exact .skip (quiet_pure _) hrest

theorem builds_declarators : (d : Nat) → (ctx : ParseContext) →
    Builds (stock .none) (fun ds => Legal ds ∧ ds ≠ []) (declarators d ctx) fun _ => 0
  | 0, _ => .ofFails fails_tooDeep
  | d + 1, ctx => by
    rw [declarators]
    refine .bind builds_ident fun name _ => .skip (quiet_eat _) fun _ => ?_
    refine .optional (n := stock .none) (R := Legal)
      ((builds_assignExpr d ctx).map (fun e he => he) fun e k => by simp) (by simp) (by simp) ?_
    intro init hinit
    refine .bind builds_newId fun id _ => .skip (quiet_eat _) fun _ => ?_
    refine .ite (fun _ => ?_) fun _ => .pure (by simp_all) fun k => by simp; omega
    refine .bind (builds_declarators d ctx) fun ds hds => ?_
    exact .pure (by simp_all) fun k => by simp; omega

theorem builds_functionDecl : (d : Nat) → (ctx : ParseContext) →
    Builds (stock .none) (LegalAt ctx.around) (functionDecl d ctx) fun _ => 0
  | 0, _ => .ofFails fails_tooDeep
  | d + 1, ctx => by
    rw [functionDecl]
    refine .skip (quiet_expectKeyword _) fun _ => .bind builds_ident fun name _ => ?_
    refine .bind (builds_functionRest d) fun fn hfn => ?_
    exact .node (fun id => by simp_all) fun id k => by simp; omega

theorem builds_functionRest : (d : Nat) → Builds (stock .none) Legal (functionRest d) fun _ => 0
  | 0 => .ofFails fails_tooDeep
  | d + 1 => by
    rw [functionRest]
    refine .skip (quiet_expect _) fun _ => .bind (builds_paramsToParen d) fun params _ => ?_
    refine .bind (builds_block d .function) fun body hbody => ?_
    refine .node (fun id => ?_) fun id k => by simp; omega
    exact allLegal_cons.mpr ⟨hbody.2, allLegal_append.mpr ⟨allLegal_names _, hbody.1⟩⟩

theorem builds_paramsToParen : (d : Nat) →
    Builds (stock .none) (fun _ => True) (paramsToParen d) fun _ => 0
  | 0 => .ofFails fails_tooDeep
  | d + 1 => by
    rw [paramsToParen]
    refine .skip (quiet_eat _) fun _ => .ite (fun _ => .pure trivial (by simp)) fun _ => ?_
    refine .bind builds_ident fun p _ => .skip (quiet_eat _) fun _ => .ite (fun _ => ?_) fun _ => ?_
    · refine .bind (builds_paramsToParen d) fun ps _ => .pure trivial fun k => by simp; omega
    · exact .skip (quiet_expect _) fun _ => .pure trivial fun k => by simp

theorem builds_ifStmt : (d : Nat) → (ctx : ParseContext) →
    Builds (stock .none) (LegalAt ctx.around) (ifStmt d ctx) fun _ => 0
  | 0, _ => .ofFails fails_tooDeep
  | d + 1, ctx => by
    rw [ifStmt]
    refine .skip quiet_advance fun _ => .bind (builds_parenExpr d ctx) fun test htest => ?_
    refine .bind (builds_stmt d ctx) fun yes hyes => .skip (quiet_eat _) fun _ => ?_
    refine .optional (n := stock .none) (R := fun no => Legal no ∧ isPlaced? ctx.around no = true)
      ((builds_stmt d ctx).map (fun s hs => hs) fun s k => by simp) (by simp) (by simp) ?_
    intro no hno
    exact .node (fun id => by simp_all [around_inside]) fun id k => by simp; omega

theorem builds_parenExpr : (d : Nat) → (ctx : ParseContext) →
    Builds (stock .none) Legal (parenExpr d ctx) fun _ => 0
  | 0, _ => .ofFails fails_tooDeep
  | d + 1, ctx => by
    rw [parenExpr]
    refine .skip (quiet_expect _) fun _ => .bind (builds_expr d ctx.allowIn) fun e he => ?_
    exact .skip (quiet_expect _) fun _ => .pure he fun k => Nat.le_refl _

theorem builds_loopBody : (d : Nat) → (ctx : ParseContext) →
    Builds (stock .none) (LegalAt ctx.around.loop) (loopBody d ctx) fun _ => 0
  | 0, _ => .ofFails fails_tooDeep
  | d + 1, ctx => by
    rw [loopBody]
    exact builds_stmt d { ctx with inLoop := true }

theorem builds_forStmt : (d : Nat) → (ctx : ParseContext) →
    Builds (stock .none) (LegalAt ctx.around) (forStmt d ctx) fun _ => 0
  | 0, _ => .ofFails fails_tooDeep
  | d + 1, ctx => by
    rw [forStmt]
    refine .skip quiet_advance fun _ => .skip (quiet_expect _) fun _ => .skip quiet_peek fun t => ?_
    split
    · exact builds_forRest d ctx none (by simp)
    iterate 3
      refine .bind (builds_varDecl d _) fun decl hdecl => .skip (quiet_sees _) fun _ => ?_
      refine .ite (fun _ => ?_) fun _ => ?_
      · split
        · rename_i hdecls
          exact builds_forInRest d ctx (.decl decl) (legalHead_decl hdecls hdecl)
        · exact .ofFails (fails_fail _)
      · exact builds_forRest d ctx (some (.decl decl)) hdecl
    · refine .bind (builds_expr d _) fun e he => .skip (quiet_sees _) fun _ => ?_
      refine .ite (fun _ => .ite (fun htarget => ?_) fun _ => .ofFails (fails_fail _)) fun _ => ?_
      · exact builds_forInRest d ctx (.expr e) (by simp_all)
      · exact builds_forRest d ctx (some (.expr e)) he

theorem builds_forRest : (d : Nat) → (ctx : ParseContext) → (init : Option ForHead) →
    Legal init → Builds (stock .none) (LegalAt ctx.around) (forRest d ctx init) (stock .none init)
  | 0, _, _, _ => .ofFails fails_tooDeep
  | d + 1, ctx, init, hinit => by
    rw [forRest]
    refine .skip (quiet_expect _) fun _ => .skip (quiet_sees _) fun _ => ?_
    extract_lets rest
    have hrest (test : Option Expr) (htest : Legal test) : Builds (stock .none) (LegalAt ctx.around)
        (rest test) fun k => stock .none test k + stock .none init k := by
      refine .skip (quiet_expect _) fun _ => .skip (quiet_sees _) fun _ => ?_
      extract_lets more
      have hmore (update : Option Expr) (hupdate : Legal update) : Builds (stock .none)
          (LegalAt ctx.around) (more update) fun k =>
            stock .none update k + (stock .none test k + stock .none init k) := by
        refine .skip (quiet_expect _) fun _ => .bind (builds_loopBody d ctx) fun body hbody => ?_
        exact .node (fun id => by simp_all) fun id k => by simp; omega
      refine .ite (fun _ => .bind (.pure (by simp) (by simp)) hmore) fun _ => ?_
      exact .bind ((builds_expr d _).map (fun e he => he) fun e k => by simp) hmore
    refine .ite (fun _ => .bind (.pure (by simp) (by simp)) hrest) fun _ => ?_
    exact .bind ((builds_expr d _).map (fun e he => he) fun e k => by simp) hrest

theorem builds_forInRest : (d : Nat) → (ctx : ParseContext) → (head : ForHead) →
    LegalHead head → Builds (stock .none) (LegalAt ctx.around) (forInRest d ctx head) (stock .none head)
  | 0, _, _, _ => .ofFails fails_tooDeep
  | d + 1, ctx, head, hhead => by
    rw [forInRest]
    refine .skip (quiet_expectKeyword _) fun _ => .bind (builds_expr d ctx.allowIn) fun obj hobj => ?_
    refine .skip (quiet_expect _) fun _ => .bind (builds_loopBody d ctx) fun body hbody => ?_
    refine .node (fun id => ?_) fun id k => by simp; omega
    rcases head with ⟨_, _, _⟩ | _ <;> simp_all [ForHead.loopNodes]

theorem builds_whileStmt : (d : Nat) → (ctx : ParseContext) →
    Builds (stock .none) (LegalAt ctx.around) (whileStmt d ctx) fun _ => 0
  | 0, _ => .ofFails fails_tooDeep
  | d + 1, ctx => by
    rw [whileStmt]
    refine .skip quiet_advance fun _ => .bind (builds_parenExpr d ctx) fun test htest => ?_
    refine .bind (builds_loopBody d ctx) fun body hbody => ?_
    exact .node (fun id => by simp_all) fun id k => by simp; omega

theorem builds_doWhileStmt : (d : Nat) → (ctx : ParseContext) →
    Builds (stock .none) (LegalAt ctx.around) (doWhileStmt d ctx) fun _ => 0
  | 0, _ => .ofFails fails_tooDeep
  | d + 1, ctx => by
    rw [doWhileStmt]
    refine .skip quiet_advance fun _ => .bind (builds_loopBody d ctx) fun body hbody => ?_
    refine .skip (quiet_expectKeyword _) fun _ => .bind (builds_parenExpr d ctx) fun test htest => ?_
    refine .skip ((quiet_eat _).map _) fun _ => ?_
    exact .node (fun id => by simp_all) fun id k => by simp; omega

theorem builds_returnStmt : (d : Nat) → (ctx : ParseContext) →
    Builds (stock .none) (LegalAt ctx.around) (returnStmt d ctx) fun _ => 0
  | 0, _ => .ofFails fails_tooDeep
  | d + 1, ctx => by
    rw [returnStmt]
    refine .guard (fails_fail _) fun hin => .skip quiet_advance fun _ => .skip (quiet_sees _) fun _ => ?_
    refine .skip quiet_endsStatement fun _ => ?_
    extract_lets rest
    have hrest (arg : Option Expr) (harg : Legal arg) :
        Builds (stock .none) (LegalAt ctx.around) (rest arg) fun k => stock .none arg k + 0 := by
      refine .skip quiet_semicolon fun _ => .node (fun id => ?_) fun id k => by simp; omega
      exact ⟨by simp_all, hin⟩
    refine .ite (fun _ => .bind (.pure (by simp) (by simp)) hrest) fun _ => ?_
    exact .bind ((builds_expr d _).map (fun e he => he) fun e k => by simp) hrest

theorem builds_labeledStmt : (d : Nat) → (ctx : ParseContext) →
    Builds (stock .none) (LegalAt ctx.around) (labeledStmt d ctx) fun _ => 0
  | 0, _ => .ofFails fails_tooDeep
  | d + 1, ctx => by
    rw [labeledStmt]
    refine .bind builds_ident fun label _ => .skip (quiet_expect _) fun _ => ?_
    refine .reject (fails_fail _) fun hnew => .look fun t => ?_
    refine BuildsAt.bind (P := LegalAt (ctx.around.labeled label.name)) (m := stock .none) ?_ fun body hbody => ?_
    · intro s body s' ht hbody
      have hmade := builds_stmt d _ s body s' hbody
      refine { hmade with holds := ⟨hmade.holds.1, isPlaced_labeled ?_ hmade.holds.2⟩ }
      intro hloop
      exact isLoop_of_beginsLoop (ht ▸ hloop) hbody
    · refine .node (fun id => ?_) fun id k => by simp; omega
      have hlabels : label.name ∉ ctx.around.labels := by
        simpa [ParseContext.around] using hnew
      simp_all

theorem builds_throwStmt : (d : Nat) → (ctx : ParseContext) →
    Builds (stock .none) (LegalAt ctx.around) (throwStmt d ctx) fun _ => 0
  | 0, _ => .ofFails fails_tooDeep
  | d + 1, ctx => by
    rw [throwStmt]
    refine .skip quiet_advance fun _ => .skip quiet_afterLineEnd fun _ => ?_
    refine .reject (fails_fail _) fun _ => .bind (builds_expr d ctx.allowIn) fun arg harg => ?_
    exact .skip quiet_semicolon fun _ => .node (fun id => by simp_all) fun id k => by simp; omega

theorem builds_tryStmt : (d : Nat) → (ctx : ParseContext) →
    Builds (stock .none) (LegalAt ctx.around) (tryStmt d ctx) fun _ => 0
  | 0, _ => .ofFails fails_tooDeep
  | d + 1, ctx => by
    rw [tryStmt]
    refine .skip quiet_advance fun _ => .bind (builds_block d ctx) fun body hbody => ?_
    refine .skip (quiet_eat _) fun _ => .optional (n := stock .none)
      (R := fun c => Legal c ∧ handlerPlaced? ctx.around c = true) 
      ((builds_catchClause d ctx).map (fun c hc => hc) fun c k => by simp) (by simp) (by simp) ?_
    intro handler hhandler
    refine .skip (quiet_eat _) fun _ => .optional (n := stock .none)
      (R := fun b => Legal b ∧ blockPlaced? ctx.around b = true)
      ((builds_block d ctx).map (fun b hb => hb) fun b k => by simp) (by simp) (by simp) ?_
    intro finalizer hfinalizer
    refine .reject (fails_fail _) fun hsome => .node (fun id => ?_) fun id k => by simp; omega
    rcases handler with _ | ⟨_, _, _⟩ <;> cases finalizer <;> simp_all [around_inside]

theorem builds_catchClause : (d : Nat) → (ctx : ParseContext) →
    Builds (stock .none) (fun c => Legal c ∧ handlerPlaced? ctx.around (some c) = true)
      (catchClause d ctx) fun _ => 0
  | 0, _ => .ofFails fails_tooDeep
  | d + 1, ctx => by
    rw [catchClause]
    refine .skip (quiet_eat _) fun _ => ?_
    extract_lets rest
    have hrest (param : Option Ident) (_ : True) : Builds (stock .none)
        (fun c => Legal c ∧ handlerPlaced? ctx.around (some c) = true) (rest param)
        fun k => stock .none param k + 0 := by
      refine .bind (builds_block d ctx) fun body hbody => ?_
      exact .node (fun id => by simp_all) fun id k => by simp; omega
    refine .ite (fun _ => ?_) fun _ => .bind (.pure trivial (by simp)) hrest
    refine .bind builds_ident fun i _ => .skip (quiet_expect _) fun _ => ?_
    exact (hrest (some i) trivial).weaken fun k => by simp

theorem builds_withStmt : (d : Nat) → (ctx : ParseContext) →
    Builds (stock .none) (LegalAt ctx.around) (withStmt d ctx) fun _ => 0
  | 0, _ => .ofFails fails_tooDeep
  | d + 1, ctx => by
    rw [withStmt]
    refine .skip quiet_advance fun _ => .bind (builds_parenExpr d ctx) fun obj hobj => ?_
    refine .bind (builds_stmt d ctx) fun body hbody => ?_
    exact .node (fun id => by simp_all [around_inside]) fun id k => by simp; omega

theorem builds_expr : (d : Nat) → (ctx : ParseContext) →
    Builds (stock .none) Legal (expr d ctx) fun _ => 0
  | 0, _ => .ofFails fails_tooDeep
  | d + 1, ctx => by
    rw [expr]
    refine .bind (builds_assignExpr d ctx) fun first hfirst => ?_
    rw [sees, bind_assoc]
    refine .look fun t => ?_
    rw [pure_bind]
    by_cases ht : t == .punct .comma
    · rw [if_pos ht]
      refine BuildsAt.bind (m := stock .none) (P := fun rest => Legal rest ∧ rest ≠ [])
        (fun s rest s' hs hrest => ?_) fun rest hrest => .node (fun id => ?_) fun id k => ?_
      · have hmade := builds_commaExprs d ctx s rest s' hrest
        exact { hmade with
          holds := ⟨hmade.holds, commaExprs_ne_nil (hs.trans (beq_iff_eq.mp ht)) hrest⟩ }
      · have hlength : 1 ≤ rest.length := List.length_pos_iff.mpr hrest.2
        simp_all
      · simp
        omega
    · rw [if_neg ht]
      exact fun s e s' _ h => Builds.pure hfirst (fun k => Nat.le_refl _) s e s' h

theorem builds_commaExprs : (d : Nat) → (ctx : ParseContext) →
    Builds (stock .none) Legal (commaExprs d ctx) fun _ => 0
  | 0, _ => .ofFails fails_tooDeep
  | d + 1, ctx => by
    rw [commaExprs]
    refine .skip (quiet_eat _) fun _ => .ite (fun _ => ?_) fun _ => .pure (by simp) (by simp)
    refine .bind (builds_assignExpr d ctx) fun e he => ?_
    refine .bind (builds_commaExprs d ctx) fun rest hrest => ?_
    exact .pure (by simp_all) fun k => by simp; omega

theorem builds_assignExpr : (d : Nat) → (ctx : ParseContext) →
    Builds (stock .none) Legal (assignExpr d ctx) fun _ => 0
  | 0, _ => .ofFails fails_tooDeep
  | d + 1, ctx => by
    rw [assignExpr]
    refine .skip quiet_position fun pos => .bind (builds_condExpr d ctx) fun left hleft => ?_
    refine .skip quiet_peek fun t => ?_
    split
    · refine .guard (fails_failAt _ _) fun htarget => .skip quiet_advance fun _ => ?_
      refine .bind (builds_assignExpr d ctx) fun right hright => ?_
      exact .node (fun id => by simp_all) fun id k => by simp; omega
    · exact .pure hleft fun k => Nat.le_refl _

theorem builds_condExpr : (d : Nat) → (ctx : ParseContext) →
    Builds (stock .none) Legal (condExpr d ctx) fun _ => 0
  | 0, _ => .ofFails fails_tooDeep
  | d + 1, ctx => by
    rw [condExpr]
    refine .bind (builds_binaryExpr d ctx 0) fun test htest => .skip (quiet_eat _) fun _ => ?_
    refine .ite (fun _ => ?_) fun _ => .pure htest fun k => Nat.le_refl _
    refine .bind (builds_assignExpr d ctx.allowIn) fun yes hyes => .skip (quiet_expect _) fun _ => ?_
    refine .bind (builds_assignExpr d ctx) fun no hno => ?_
    exact .node (fun id => by simp_all) fun id k => by simp; omega

theorem builds_binaryExpr : (d : Nat) → (ctx : ParseContext) → (least : Nat) →
    Builds (stock .none) Legal (binaryExpr d ctx least) fun _ => 0
  | 0, _, _ => .ofFails fails_tooDeep
  | d + 1, ctx, least => by
    rw [binaryExpr]
    exact .bind (builds_unaryExpr d ctx) fun left hleft => builds_binaryRest d ctx least left hleft

theorem builds_binaryRest : (d : Nat) → (ctx : ParseContext) → (least : Nat) → (left : Expr) →
    Legal left → Builds (stock .none) Legal (binaryRest d ctx least left) (stock .none left)
  | 0, _, _, _, _ => .ofFails fails_tooDeep
  | d + 1, ctx, least, left, hleft => by
    rw [binaryRest]
    refine .skip (quiet_binaryOp? ctx) fun op => ?_
    split
    · refine .ite (fun _ => .pure hleft fun k => Nat.le_refl _) fun _ => .skip quiet_advance fun _ => ?_
      refine .bind (builds_binaryExpr d ctx _) fun right hright => .bind builds_newId fun id _ => ?_
      exact (builds_binaryRest d ctx least _ (by simp_all)).weaken fun k => by simp; omega
    · exact .pure hleft fun k => Nat.le_refl _

theorem builds_unaryExpr : (d : Nat) → (ctx : ParseContext) →
    Builds (stock .none) Legal (unaryExpr d ctx) fun _ => 0
  | 0, _ => .ofFails fails_tooDeep
  | d + 1, ctx => by
    rw [unaryExpr]
    refine .skip quiet_peek fun t => ?_
    split
    iterate 7 exact builds_unaryOperand d ctx _
    iterate 2 exact builds_updateOperand d ctx _
    · exact builds_updatedExpr d ctx

theorem builds_unaryOperand : (d : Nat) → (ctx : ParseContext) → (op : UnaryOp) →
    Builds (stock .none) Legal (unaryOperand d ctx op) fun _ => 0
  | 0, _, _ => .ofFails fails_tooDeep
  | d + 1, ctx, op => by
    rw [unaryOperand]
    refine .skip quiet_advance fun _ => .bind (builds_unaryExpr d ctx) fun arg harg => ?_
    exact .node (fun id => by simp_all) fun id k => by simp; omega

theorem builds_updateOperand : (d : Nat) → (ctx : ParseContext) → (op : UpdateOp) →
    Builds (stock .none) Legal (updateOperand d ctx op) fun _ => 0
  | 0, _, _ => .ofFails fails_tooDeep
  | d + 1, ctx, op => by
    rw [updateOperand]
    refine .skip quiet_advance fun _ => .skip quiet_position fun pos => ?_
    refine .bind (builds_unaryExpr d ctx) fun arg harg => .guard (fails_failAt _ _) fun htarget => ?_
    exact .node (fun id => by simp_all) fun id k => by simp; omega

theorem builds_updatedExpr : (d : Nat) → (ctx : ParseContext) →
    Builds (stock .none) Legal (updatedExpr d ctx) fun _ => 0
  | 0, _ => .ofFails fails_tooDeep
  | d + 1, ctx => by
    rw [updatedExpr]
    refine .bind (builds_chainExpr d ctx true) fun e he => .skip quiet_peek fun t => ?_
    refine .skip quiet_afterLineEnd fun _ => ?_
    extract_lets rest
    have hrest (op : Option UpdateOp) :
        Builds (stock .none) Legal (rest op) fun k => stock .none e k + 0 := by
      dsimp only [rest]
      split
      · refine .guard (fails_fail _) fun htarget => .skip quiet_advance fun _ => ?_
        exact .node (fun id => by simp_all) fun id k => by simp; omega
      · exact .pure he fun k => by simp
    split <;> exact .skip (quiet_pure _) hrest

theorem builds_chainExpr : (d : Nat) → (ctx : ParseContext) → (calls : Bool) →
    Builds (stock .none) Legal (chainExpr d ctx calls) fun _ => 0
  | 0, _, _ => .ofFails fails_tooDeep
  | d + 1, ctx, calls => by
    rw [chainExpr]
    refine .skip (quiet_sees _) fun _ => ?_
    extract_lets rest
    have hrest (e : Expr) (he : Legal e) :
        Builds (stock .none) Legal (rest e) fun k => stock .none e k + 0 :=
      builds_chainRest d ctx calls e he
    exact .ite (fun _ => .bind (builds_newExpr d ctx) hrest)
      fun _ => .bind (builds_primaryExpr d ctx) hrest

theorem builds_chainRest : (d : Nat) → (ctx : ParseContext) → (calls : Bool) → (e : Expr) →
    Legal e → Builds (stock .none) Legal (chainRest d ctx calls e) (stock .none e)
  | 0, _, _, _, _ => .ofFails fails_tooDeep
  | d + 1, ctx, calls, e, he => by
    rw [chainRest]
    refine .skip quiet_peek fun t => ?_
    split
    · refine .skip quiet_advance fun _ => .bind builds_identName fun name _ => ?_
      refine .bind builds_newId fun id _ => ?_
      exact (builds_chainRest d ctx calls _ (by simp_all)).weaken fun k => by simp; omega
    · refine .skip quiet_advance fun _ => .bind (builds_expr d ctx.allowIn) fun key hkey => ?_
      refine .skip (quiet_expect _) fun _ => .bind builds_newId fun id _ => ?_
      exact (builds_chainRest d ctx calls _ (by simp_all)).weaken fun k => by simp; omega
    · refine .ite (fun _ => ?_) fun _ => .pure he fun k => Nat.le_refl _
      refine .bind (builds_arguments d ctx) fun args hargs => .bind builds_newId fun id _ => ?_
      exact (builds_chainRest d ctx calls _ (by simp_all)).weaken fun k => by simp; omega
    · exact .pure he fun k => Nat.le_refl _

theorem builds_newExpr : (d : Nat) → (ctx : ParseContext) →
    Builds (stock .none) Legal (newExpr d ctx) fun _ => 0
  | 0, _ => .ofFails fails_tooDeep
  | d + 1, ctx => by
    rw [newExpr]
    refine .skip (quiet_expectKeyword _) fun _ => .bind (builds_chainExpr d ctx false) fun callee hcallee => ?_
    refine .skip (quiet_sees _) fun _ => ?_
    extract_lets rest
    have hrest (args : List Expr) (hargs : Legal args) : Builds (stock .none) Legal (rest args)
        fun k => stock .none args k + (stock .none callee k + 0) :=
      .node (fun id => by simp_all) fun id k => by simp; omega
    refine .ite (fun _ => .bind (builds_arguments d ctx) hrest) fun _ => ?_
    exact .bind (.pure (by simp) (by simp)) hrest

theorem builds_arguments : (d : Nat) → (ctx : ParseContext) →
    Builds (stock .none) Legal (arguments d ctx) fun _ => 0
  | 0, _ => .ofFails fails_tooDeep
  | d + 1, ctx => by
    rw [arguments]
    exact .skip (quiet_expect _) fun _ => builds_argumentsToParen d ctx

theorem builds_argumentsToParen : (d : Nat) → (ctx : ParseContext) →
    Builds (stock .none) Legal (argumentsToParen d ctx) fun _ => 0
  | 0, _ => .ofFails fails_tooDeep
  | d + 1, ctx => by
    rw [argumentsToParen]
    refine .skip (quiet_eat _) fun _ => .ite (fun _ => .pure (by simp) (by simp)) fun _ => ?_
    refine .bind (builds_assignExpr d ctx.allowIn) fun e he => .skip (quiet_eat _) fun _ => ?_
    refine .ite (fun _ => ?_) fun _ => .skip (quiet_expect _) fun _ => ?_
    · refine .bind (builds_argumentsToParen d ctx) fun es hes => ?_
      exact .pure (by simp_all) fun k => by simp; omega
    · exact .pure (by simp_all) fun k => by simp

theorem builds_primaryExpr : (d : Nat) → (ctx : ParseContext) →
    Builds (stock .none) Legal (primaryExpr d ctx) fun _ => 0
  | 0, _ => .ofFails fails_tooDeep
  | d + 1, ctx => by
    rw [primaryExpr]
    refine .skip quiet_peek fun t => ?_
    split
    · refine .skip quiet_advance fun _ => .bind (builds_expr d ctx.allowIn) fun e he => ?_
      exact .skip (quiet_expect _) fun _ => .pure he fun k => Nat.le_refl _
    · refine .skip quiet_advance fun _ => .bind (builds_elementsToBracket d ctx) fun es hes => ?_
      exact .node (fun id => by simp_all) fun id k => by simp; omega
    · refine .skip quiet_advance fun _ => .bind (builds_propertiesToBrace d ctx) fun ps hps => ?_
      exact .node (fun id => allLegal_cons.mpr ⟨hps.2, hps.1⟩) fun id k => by simp; omega
    · exact builds_functionExpr d
    · exact .skip quiet_advance fun _ => .node (fun id => by simp) fun id k => by simp
    · exact .bind builds_ident fun i _ => .pure (by simp) fun k => by simp
    iterate 6
      exact .skip quiet_advance fun _ => .node (fun id => by simp) fun id k => by simp
    · exact .ofFails (fails_fail _)
    · exact .ofFails (fails_unexpected _)

theorem builds_elementsToBracket : (d : Nat) → (ctx : ParseContext) →
    Builds (stock .none) Legal (elementsToBracket d ctx) fun _ => 0
  | 0, _ => .ofFails fails_tooDeep
  | d + 1, ctx => by
    rw [elementsToBracket]
    refine .skip (quiet_eat _) fun _ => .ite (fun _ => .pure (by simp) (by simp)) fun _ => ?_
    refine .skip (quiet_eat _) fun _ => .ite (fun _ => ?_) fun _ => ?_
    · refine .bind (builds_elementsToBracket d ctx) fun es hes => ?_
      exact .pure (by simp_all) fun k => by simp
    refine .bind (builds_assignExpr d ctx.allowIn) fun e he => .skip (quiet_eat _) fun _ => ?_
    refine .ite (fun _ => ?_) fun _ => .skip (quiet_expect _) fun _ => ?_
    · refine .bind (builds_elementsToBracket d ctx) fun es hes => ?_
      exact .pure (by simp_all) fun k => by simp; omega
    · exact .pure (by simp_all) fun k => by simp

theorem builds_propertiesToBrace : (d : Nat) → (ctx : ParseContext) →
    Builds (stock .none) (fun ps => Legal ps ∧ ps.all Property.isLegal = true)
      (propertiesToBrace d ctx) fun _ => 0
  | 0, _ => .ofFails fails_tooDeep
  | d + 1, ctx => by
    rw [propertiesToBrace]
    refine .skip (quiet_eat _) fun _ => .ite (fun _ => .pure (by simp) (by simp)) fun _ => ?_
    refine .bind (builds_property d ctx) fun p hp => .skip (quiet_eat _) fun _ => ?_
    refine .ite (fun _ => ?_) fun _ => .skip (quiet_expect _) fun _ => ?_
    · refine .bind (builds_propertiesToBrace d ctx) fun ps hps => ?_
      exact .pure (by simp_all [-Property.isLegal]) fun k => by simp; omega
    · exact .pure (by simp_all [-Property.isLegal]) fun k => by simp

theorem builds_property : (d : Nat) → (ctx : ParseContext) →
    Builds (stock .none) (fun p => Legal p ∧ p.isLegal = true) (property d ctx) fun _ => 0
  | 0, _ => .ofFails fails_tooDeep
  | d + 1, ctx => by
    rw [property]
    refine .skip quiet_peekSecond fun _ => .skip quiet_peek fun t => ?_
    split
    iterate 2 exact builds_accessor d ctx _
    · refine .bind (builds_propertyKey d ctx) fun key hkey => .skip (quiet_sees _) fun _ => ?_
      refine .reject (fails_fail _) fun _ => .skip (quiet_expect _) fun _ => ?_
      refine .bind (builds_assignExpr d ctx.allowIn) fun value hvalue => ?_
      exact .node (fun id => by simp_all) fun id k => by simp; omega

theorem builds_accessor : (d : Nat) → (ctx : ParseContext) → (isGetter : Bool) →
    Builds (stock .none) (fun p => Legal p ∧ p.isLegal = true) (accessor d ctx isGetter) fun _ => 0
  | 0, _, _ => .ofFails fails_tooDeep
  | d + 1, ctx, isGetter => by
    rw [accessor]
    refine .skip quiet_advance fun _ => .bind (builds_propertyKey d ctx) fun key hkey => ?_
    refine .skip quiet_position fun pos => .bind (builds_functionRest d) fun fn hfn => ?_
    refine .ite (fun _ => ?_) fun _ => ?_
    · refine .guard (fails_failAt _ _) fun hparams => .node (fun id => ?_) fun id k => by simp; omega
      have hnone := List.length_eq_zero_iff.mpr (List.isEmpty_iff.mp hparams)
      exact ⟨allLegal_append.mpr ⟨hkey, hfn⟩, beq_iff_eq.mpr hnone⟩
    · refine .guard (fails_failAt _ _) fun hparams => .node (fun id => ?_) fun id k => by simp; omega
      exact ⟨allLegal_append.mpr ⟨hkey, hfn⟩, beq_iff_eq.mpr hparams⟩

theorem builds_propertyKey : (d : Nat) → (ctx : ParseContext) →
    Builds (stock .none) Legal (propertyKey d ctx) fun _ => 0
  | 0, _ => .ofFails fails_tooDeep
  | d + 1, ctx => by
    rw [propertyKey]
    refine .skip quiet_peek fun t => ?_
    split
    iterate 3
      exact .skip quiet_advance fun _ => .node (fun id => by simp) fun id k => by simp
    · refine .skip quiet_advance fun _ => .bind (builds_assignExpr d ctx.allowIn) fun e he => ?_
      exact .skip (quiet_expect _) fun _ => .pure (by simp_all) fun k => by simp
    · exact .ofFails (fails_unexpected _)

theorem builds_functionExpr : (d : Nat) → Builds (stock .none) Legal (functionExpr d) fun _ => 0
  | 0 => .ofFails fails_tooDeep
  | d + 1 => by
    rw [functionExpr]
    refine .skip quiet_advance fun _ => .skip quiet_peek fun t => ?_
    extract_lets rest
    have hrest (name : Option Ident) (_ : True) :
        Builds (stock .none) Legal (rest name) fun k => stock .none name k + 0 := by
      refine .bind (builds_functionRest d) fun fn hfn => ?_
      refine .node (fun id => ?_) fun id k => by simp; omega
      exact allLegal_cons.mpr ⟨rfl, allLegal_append.mpr ⟨allLegal_name? _, hfn⟩⟩
    split
    · exact .bind (builds_ident.map (fun _ _ => trivial) fun i k => by simp) hrest
    · exact .bind (.pure trivial (by simp)) hrest

end

theorem builds_stmtsToEnd : (d : Nat) → Builds (stock .none)
    (fun ss => Legal ss ∧ allPlaced {} ss = true) (stmtsToEnd d) fun _ => 0
  | 0 => .ofFails fails_tooDeep
  | d + 1 => by
    rw [stmtsToEnd]
    refine .skip (quiet_sees _) fun _ => .ite (fun _ => .pure (by simp) (by simp)) fun _ => ?_
    refine .bind (builds_stmt d {}) fun s hs => .bind (builds_stmtsToEnd d) fun ss hss => ?_
    exact .pure (by simp_all [ParseContext.around]) fun k => by simp; omega

theorem builds_program (d : Nat) :
    Builds (stock .none) (fun p => p.isLegal = true) (program d) fun _ => 0 := by
  refine .bind (builds_stmtsToEnd d) fun body hbody => .node (fun id => ?_) fun id k => ?_
  · simp only [Program.isLegal, Bool.and_eq_true, List.all_eq_true]
    exact hbody
  · simp [Program.ids, Program.nodes]
    omega

end Parser

/-- What is parsed is legal, and its nodes have ids of their own. -/
theorem legal_of_parse {text : String} {src : Source} (h : parse text = .ok src) :
    src.program.isLegal = true ∧
      ∀ k, stock .none src.program k ≤ Tally.new 0 src.nextId k := by
  obtain ⟨depth, s, s', hrun, hfirst, hnext⟩ := exists_run_of_parse h
  have hmade := Parser.builds_program depth s src.program s' hrun
  refine ⟨hmade.holds, fun k => ?_⟩
  have hdrawn := hmade.drawn k
  rwa [hfirst, hnext, Nat.zero_add] at hdrawn

end EsOptimizer
