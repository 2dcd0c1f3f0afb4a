import EsOptimizer.Parser.Grammar
import EsOptimizer.Proofs.Parser.Builds
import EsOptimizer.Proofs.Syntax.Ids

/-!
# Every id is used once

The parser hands ids out one after the other and drops none: the ids of the tree that it returns, read
in the order in which nodes end, are all the ids from the first one on (`dense_ids_of_parse`).

`Numbers` says so of one parser. A parser that goes on with an expression that is there already, as
those of operators and calls do, begins with the ids of that expression. So the list of the ids made
so far is an argument, and parsers that follow each other pass it on.
-/

namespace EsOptimizer

namespace Parser

variable {α β γ : Type} {before : List NodeId} {ids : α → List NodeId} {ids₂ : β → List NodeId}

/-- What the parser returns has the ids `before` and then all that were handed out meanwhile, in
their order. -/
def Numbers (before : List NodeId) (ids : α → List NodeId) (x : Parser α) : Prop :=
  ∀ s a s', x s = .ok (a, s') →
    ∃ n, s'.nextId = s.nextId + n ∧ ids a = before ++ List.range' s.nextId n

/-! ## Putting parsers together -/

namespace Numbers

theorem ofFails {x : Parser α} (h : Fails x) : Numbers before ids x :=
  fun s a s' hx => absurd hx (h s (a, s'))

theorem pure {a : α} (h : ids a = before) : Numbers before ids (Pure.pure a : Parser α) := by
  intro s b s' hb
  cases hb
  exact ⟨0, rfl, h.trans (List.append_nil before).symm⟩

/-- What is made first comes before the rest. -/
theorem bind {x : Parser α} {f : α → Parser β} (hx : Numbers before ids x)
    (hf : ∀ a, Numbers (ids a) ids₂ (f a)) : Numbers before ids₂ (x >>= f) := by
  intro s b s' hb
  obtain ⟨a, t, ha, hb⟩ := bind_eq_ok hb
  obtain ⟨n, hn, hids⟩ := hx s a t ha
  obtain ⟨m, hm, hids₂⟩ := hf a t b s' hb
  refine ⟨n + m, by rw [hm, hn, Nat.add_assoc], ?_⟩
  rw [hids₂, hids, hn, List.append_assoc, List.range'_append_1]

/-- More may stand in front. -/
theorem behind {x : Parser α} (h : Numbers [] ids x) : Numbers before (before ++ ids ·) x := by
  intro s a s' ha
  obtain ⟨n, hn, hids⟩ := h s a s' ha
  exact ⟨n, hn, congrArg (before ++ ·) hids⟩

/-- The next part of a tree. -/
theorem part {x : Parser α} {f : α → Parser β} (hx : Numbers [] ids x)
    (hf : ∀ a, Numbers (before ++ ids a) ids₂ (f a)) : Numbers before ids₂ (x >>= f) :=
  hx.behind.bind hf

theorem skip {x : Parser α} {f : α → Parser β} (hx : Quiet x)
    (hf : ∀ a, Numbers before ids₂ (f a)) : Numbers before ids₂ (x >>= f) := by
  intro s b s' hb
  obtain ⟨a, t, ha, hb⟩ := bind_eq_ok hb
  have hrest := hf a t b s' hb
  rwa [hx s a t ha] at hrest

theorem map {x : Parser α} {f : α → β} (hx : Numbers [] ids x) (h : ∀ a, ids₂ (f a) = ids a) :
    Numbers [] ids₂ (f <$> x) :=
  hx.bind fun a => .pure (h a)

theorem ite {c : Prop} [Decidable c] {x y : Parser α} (hx : Numbers before ids x)
    (hy : Numbers before ids y) : Numbers before ids (if c then x else y) := by
  split
  · exact hx
  · exact hy

/-- A condition without which parsing fails. -/
theorem guard {c : Prop} [Decidable c] {x : Parser α} {y : Parser γ} {f : γ → Parser α}
    (hy : Fails y) (hx : Numbers before ids x) :
    Numbers before ids (if c then x else y >>= f) :=
  ite hx (ofFails (hy.bind f))

/-- A condition with which parsing fails. -/
theorem reject {c : Prop} [Decidable c] {x : Parser α} {y : Parser γ} {f : γ → Parser α}
    (hy : Fails y) (hx : Numbers before ids x) :
    Numbers before ids (if c then y >>= f else x) :=
  ite (ofFails (hy.bind f)) hx

/-- A part that may be missing. -/
theorem optional (ids? : Option γ → List NodeId) {c : Prop} [Decidable c] {x : Parser (Option γ)}
    {f : Option γ → Parser α} (hx : Numbers [] ids? x) (hnone : ids? none = [])
    (hf : ∀ o, Numbers (before ++ ids? o) ids (f o)) :
    Numbers before ids
      (if c then x >>= f else (Pure.pure none : Parser (Option γ)) >>= f) :=
  ite (part hx hf) (part (.pure hnone) hf)

end Numbers

/-! ## Elementary steps -/

theorem numbers_newId : Numbers [] (fun id => [id]) newId := by
  intro s id s' h
  cases h
  exact ⟨1, rfl, rfl⟩

/-- A node ends behind its parts. -/
theorem Numbers.node {f : NodeId → α} (h : ∀ id, ids (f id) = before ++ [id]) :
    Numbers before ids (newId >>= fun id => Pure.pure (f id)) :=
  .part numbers_newId fun id => .pure (h id)

theorem numbers_ident : Numbers [] (fun i : Ident => [i.id]) ident := by
  refine .skip quiet_peek fun t => ?_
  split
  · exact .skip quiet_advance fun _ => .node fun id => rfl
  · exact .ofFails (fails_unexpected _)

theorem numbers_identName : Numbers [] (fun i : Ident => [i.id]) identName := by
  refine .skip quiet_peek fun t => ?_
  split
  · exact .skip quiet_advance fun _ => .node fun id => rfl
  · exact .ofFails (fails_unexpected _)

/-! ## The parsers -/

attribute [local simp] Expr.ids elemIds exprIds exprIds? PropertyKey.ids Property.ids propIds Func.ids
  Block.ids blockIds? Declarator.ids declIds VarDecl.ids ForHead.ids headIds? CatchClause.ids
  handlerIds? Stmt.ids stmtIds? stmtIds Ident.ids?

theorem numbers_jumpStmt (isBreak : Bool) (ctx : ParseContext) :
    Numbers [] Stmt.ids (jumpStmt isBreak ctx) := by
  rw [jumpStmt]
  refine .skip quiet_advance fun _ => .skip quiet_peek fun t => .skip quiet_afterLineEnd fun _ => ?_
  extract_lets rest
  have hrest (label : Option Ident) : Numbers (Ident.ids? label) Stmt.ids (rest label) := by
    refine .skip quiet_semicolon fun _ => .node fun id => ?_
    cases isBreak <;> simp
  split
  · refine .part numbers_ident fun label => ?_
    split
    · exact .guard (fails_fail _) (hrest (some label))
    · exact .ofFails ((fails_fail _).bind _)
  · exact .guard (fails_fail _) (hrest none)

mutual

theorem numbers_stmt : (d : Nat) → (ctx : ParseContext) → Numbers [] Stmt.ids (stmt d ctx)
  | 0, _ => .ofFails fails_tooDeep
  | d + 1, ctx => by
    rw [stmt]
    refine .skip quiet_peek fun t => ?_
    split
    · exact .part (numbers_block d ctx) fun b => .pure (by simp)
    · exact .skip quiet_advance fun _ => .node (by simp)
    · refine .skip quiet_peekSecond fun _ => ?_
      exact .ite (numbers_labeledStmt d ctx) (numbers_exprStmt d ctx)
    · split
      iterate 3
        exact .part (numbers_varDecl d ctx) fun decl => .skip quiet_semicolon fun _ =>
          .pure (by simp)
      · exact numbers_functionDecl d ctx
      · exact numbers_ifStmt d ctx
      · exact numbers_forStmt d ctx
      · exact numbers_whileStmt d ctx
      · exact numbers_doWhileStmt d ctx
      · exact numbers_returnStmt d ctx
      · exact numbers_jumpStmt true ctx
      · exact numbers_jumpStmt false ctx
      · exact numbers_throwStmt d ctx
      · exact numbers_tryStmt d ctx
      · exact numbers_withStmt d ctx
      iterate 5 exact .ofFails (fails_fail _)
      · exact numbers_exprStmt d ctx
    · exact numbers_exprStmt d ctx

theorem numbers_block : (d : Nat) → (ctx : ParseContext) → Numbers [] Block.ids (block d ctx)
  | 0, _ => .ofFails fails_tooDeep
  | d + 1, ctx => by
    rw [block]
    refine .skip (quiet_expect _) fun _ => .part (numbers_stmtsToBrace d ctx) fun ss => ?_
    exact .node (by simp)

theorem numbers_stmtsToBrace : (d : Nat) → (ctx : ParseContext) →
    Numbers [] stmtIds (stmtsToBrace d ctx)
  | 0, _ => .ofFails fails_tooDeep
  | d + 1, ctx => by
    rw [stmtsToBrace]
    refine .skip (quiet_eat _) fun _ => .ite (.pure (by simp)) ?_
    refine .skip (quiet_sees _) fun _ => .reject (fails_unexpected _) ?_
    refine .part (numbers_stmt d ctx) fun s => .part (numbers_stmtsToBrace d ctx) fun ss => ?_
    exact .pure (by simp)

theorem numbers_exprStmt : (d : Nat) → (ctx : ParseContext) → Numbers [] Stmt.ids (exprStmt d ctx)
  | 0, _ => .ofFails fails_tooDeep
  | d + 1, ctx => by
    rw [exprStmt]
    refine .part (numbers_expr d ctx.allowIn) fun e => .skip quiet_semicolon fun _ => ?_
    exact .node (by simp)

theorem numbers_varDecl : (d : Nat) → (ctx : ParseContext) → Numbers [] VarDecl.ids (varDecl d ctx)
  | 0, _ => .ofFails fails_tooDeep
  | d + 1, ctx => by
    rw [varDecl]
    refine .skip quiet_peek fun t => ?_
    extract_lets rest
    have hrest (kind : DeclKind) : Numbers [] VarDecl.ids (rest kind) := by
      refine .skip quiet_advance fun _ => .part (numbers_declarators d ctx) fun ds => ?_
      exact .node (by simp)
    split <;> exact .skip (quiet_pure _) hrest

theorem numbers_declarators : (d : Nat) → (ctx : ParseContext) →
    Numbers [] declIds (declarators d ctx)
  | 0, _ => .ofFails fails_tooDeep
  | d + 1, ctx => by
    rw [declarators]
    refine .part numbers_ident fun name => .skip (quiet_eat _) fun _ => ?_
    refine .optional exprIds? ((numbers_assignExpr d ctx).map (by simp)) (by simp) ?_
    intro init
    refine .part numbers_newId fun id => .skip (quiet_eat _) fun _ => .ite ?_ (.pure (by simp))
    exact .part (numbers_declarators d ctx) fun ds => .pure (by simp)

theorem numbers_functionDecl : (d : Nat) → (ctx : ParseContext) →
    Numbers [] Stmt.ids (functionDecl d ctx)
  | 0, _ => .ofFails fails_tooDeep
  | d + 1, ctx => by
    rw [functionDecl]
    refine .skip (quiet_expectKeyword _) fun _ => .part numbers_ident fun name => ?_
    exact .part (numbers_functionRest d) fun fn => .node (by simp)

theorem numbers_functionRest : (d : Nat) → Numbers [] Func.ids (functionRest d)
  | 0 => .ofFails fails_tooDeep
  | d + 1 => by
    rw [functionRest]
    refine .skip (quiet_expect _) fun _ => .part (numbers_paramsToParen d) fun params => ?_
    exact .part (numbers_block d .function) fun body => .node (by simp)

theorem numbers_paramsToParen : (d : Nat) → Numbers [] (List.map Ident.id) (paramsToParen d)
  | 0 => .ofFails fails_tooDeep
  | d + 1 => by
    rw [paramsToParen]
    refine .skip (quiet_eat _) fun _ => .ite (.pure rfl) ?_
    refine .part numbers_ident fun p => .skip (quiet_eat _) fun _ => .ite ?_ ?_
    · exact .part (numbers_paramsToParen d) fun ps => .pure rfl
    · exact .skip (quiet_expect _) fun _ => .pure rfl

theorem numbers_ifStmt : (d : Nat) → (ctx : ParseContext) → Numbers [] Stmt.ids (ifStmt d ctx)
  | 0, _ => .ofFails fails_tooDeep
  | d + 1, ctx => by
    rw [ifStmt]
    refine .skip quiet_advance fun _ => .part (numbers_parenExpr d ctx) fun test => ?_
    refine .part (numbers_stmt d ctx) fun yes => .skip (quiet_eat _) fun _ => ?_
    refine .optional stmtIds? ((numbers_stmt d ctx).map (by simp)) (by simp) fun no => ?_
    exact .node (by simp)

theorem numbers_parenExpr : (d : Nat) → (ctx : ParseContext) → Numbers [] Expr.ids (parenExpr d ctx)
  | 0, _ => .ofFails fails_tooDeep
  | d + 1, ctx => by
    rw [parenExpr]
    refine .skip (quiet_expect _) fun _ => .part (numbers_expr d ctx.allowIn) fun e => ?_
    exact .skip (quiet_expect _) fun _ => .pure rfl

theorem numbers_loopBody : (d : Nat) → (ctx : ParseContext) → Numbers [] Stmt.ids (loopBody d ctx)
  | 0, _ => .ofFails fails_tooDeep
  | d + 1, ctx => by
    rw [loopBody]
    exact numbers_stmt d { ctx with inLoop := true }

theorem numbers_forStmt : (d : Nat) → (ctx : ParseContext) → Numbers [] Stmt.ids (forStmt d ctx)
  | 0, _ => .ofFails fails_tooDeep
  | d + 1, ctx => by
    rw [forStmt]
    refine .skip quiet_advance fun _ => .skip (quiet_expect _) fun _ => .skip quiet_peek fun t => ?_
    split
    · exact numbers_forRest d ctx none
    iterate 3
      refine .part (numbers_varDecl d _) fun decl => .skip (quiet_sees _) fun _ => .ite ?_ ?_
      · split
        · exact numbers_forInRest d ctx (.decl decl)
        · exact .ofFails (fails_fail _)
      · exact numbers_forRest d ctx (some (.decl decl))
    · refine .part (numbers_expr d _) fun e => .skip (quiet_sees _) fun _ => .ite ?_ ?_
      · exact .ite (numbers_forInRest d ctx (.expr e)) (.ofFails (fails_fail _))
      · exact numbers_forRest d ctx (some (.expr e))

theorem numbers_forRest : (d : Nat) → (ctx : ParseContext) → (init : Option ForHead) →
    Numbers (headIds? init) Stmt.ids (forRest d ctx init)
  | 0, _, _ => .ofFails fails_tooDeep
  | d + 1, ctx, init => by
    rw [forRest]
    refine .skip (quiet_expect _) fun _ => .skip (quiet_sees _) fun _ => ?_
    extract_lets rest
    have hrest (test : Option Expr) :
        Numbers (headIds? init ++ exprIds? test) Stmt.ids (rest test) := by
      refine .skip (quiet_expect _) fun _ => .skip (quiet_sees _) fun _ => ?_
      extract_lets more
      have hmore (update : Option Expr) :
          Numbers (headIds? init ++ exprIds? test ++ exprIds? update) Stmt.ids (more update) := by
        refine .skip (quiet_expect _) fun _ => .part (numbers_loopBody d ctx) fun body => ?_
        exact .node (by simp)
      refine .ite (.part (.pure (by simp)) hmore) ?_
      exact .part ((numbers_expr d _).map (by simp)) hmore
    refine .ite (.part (.pure (by simp)) hrest) ?_
    exact .part ((numbers_expr d _).map (by simp)) hrest

theorem numbers_forInRest : (d : Nat) → (ctx : ParseContext) → (head : ForHead) →
    Numbers head.ids Stmt.ids (forInRest d ctx head)
  | 0, _, _ => .ofFails fails_tooDeep
  | d + 1, ctx, head => by
    rw [forInRest]
    refine .skip (quiet_expectKeyword _) fun _ => .part (numbers_expr d ctx.allowIn) fun obj => ?_
    refine .skip (quiet_expect _) fun _ => .part (numbers_loopBody d ctx) fun body => ?_
    exact .node (by simp [-ForHead.ids])

theorem numbers_whileStmt : (d : Nat) → (ctx : ParseContext) → Numbers [] Stmt.ids (whileStmt d ctx)
  | 0, _ => .ofFails fails_tooDeep
  | d + 1, ctx => by
    rw [whileStmt]
    refine .skip quiet_advance fun _ => .part (numbers_parenExpr d ctx) fun test => ?_
    exact .part (numbers_loopBody d ctx) fun body => .node (by simp)

theorem numbers_doWhileStmt : (d : Nat) → (ctx : ParseContext) →
    Numbers [] Stmt.ids (doWhileStmt d ctx)
  | 0, _ => .ofFails fails_tooDeep
  | d + 1, ctx => by
    rw [doWhileStmt]
    refine .skip quiet_advance fun _ => .part (numbers_loopBody d ctx) fun body => ?_
    refine .skip (quiet_expectKeyword _) fun _ => .part (numbers_parenExpr d ctx) fun test => ?_
    exact .skip ((quiet_eat _).map _) fun _ => .node (by simp)

theorem numbers_returnStmt : (d : Nat) → (ctx : ParseContext) →
    Numbers [] Stmt.ids (returnStmt d ctx)
  | 0, _ => .ofFails fails_tooDeep
  | d + 1, ctx => by
    rw [returnStmt]
    refine .guard (fails_fail _) (.skip quiet_advance fun _ => .skip (quiet_sees _) fun _ => ?_)
    refine .skip quiet_endsStatement fun _ => ?_
    extract_lets rest
    have hrest (arg : Option Expr) : Numbers (exprIds? arg) Stmt.ids (rest arg) :=
      .skip quiet_semicolon fun _ => .node (by simp)
    refine .ite (.part (.pure (by simp)) hrest) ?_
    exact .part ((numbers_expr d _).map (by simp)) hrest

theorem numbers_labeledStmt : (d : Nat) → (ctx : ParseContext) →
    Numbers [] Stmt.ids (labeledStmt d ctx)
  | 0, _ => .ofFails fails_tooDeep
  | d + 1, ctx => by
    rw [labeledStmt]
    refine .part numbers_ident fun label => .skip (quiet_expect _) fun _ => ?_
    refine .reject (fails_fail _) (.skip quiet_peek fun t => ?_)
    exact .part (numbers_stmt d _) fun body => .node (by simp)

theorem numbers_throwStmt : (d : Nat) → (ctx : ParseContext) → Numbers [] Stmt.ids (throwStmt d ctx)
  | 0, _ => .ofFails fails_tooDeep
  | d + 1, ctx => by
    rw [throwStmt]
    refine .skip quiet_advance fun _ => .skip quiet_afterLineEnd fun _ => ?_
    refine .reject (fails_fail _) (.part (numbers_expr d ctx.allowIn) fun arg => ?_)
    exact .skip quiet_semicolon fun _ => .node (by simp)

theorem numbers_tryStmt : (d : Nat) → (ctx : ParseContext) → Numbers [] Stmt.ids (tryStmt d ctx)
  | 0, _ => .ofFails fails_tooDeep
  | d + 1, ctx => by
    rw [tryStmt]
    refine .skip quiet_advance fun _ => .part (numbers_block d ctx) fun body => ?_
    refine .skip (quiet_eat _) fun _ => .optional handlerIds?
      ((numbers_catchClause d ctx).map (by simp)) (by simp) fun handler => ?_
    refine .skip (quiet_eat _) fun _ => .optional blockIds?
      ((numbers_block d ctx).map (by simp)) (by simp) fun finalizer => ?_
    exact .reject (fails_fail _) (.node (by simp))

theorem numbers_catchClause : (d : Nat) → (ctx : ParseContext) →
    Numbers [] CatchClause.ids (catchClause d ctx)
  | 0, _ => .ofFails fails_tooDeep
  | d + 1, ctx => by
    rw [catchClause]
    refine .skip (quiet_eat _) fun _ => ?_
    extract_lets rest
    have hrest (param : Option Ident) :
        Numbers (Ident.ids? param) CatchClause.ids (rest param) :=
      .part (numbers_block d ctx) fun body => .node (by simp)
    refine .ite ?_ (.bind (.pure rfl : Numbers [] Ident.ids? (pure none)) hrest)
    exact .part numbers_ident fun i => .skip (quiet_expect _) fun _ => hrest (some i)

theorem numbers_withStmt : (d : Nat) → (ctx : ParseContext) → Numbers [] Stmt.ids (withStmt d ctx)
  | 0, _ => .ofFails fails_tooDeep
  | d + 1, ctx => by
    rw [withStmt]
    refine .skip quiet_advance fun _ => .part (numbers_parenExpr d ctx) fun obj => ?_
    exact .part (numbers_stmt d ctx) fun body => .node (by simp)

theorem numbers_expr : (d : Nat) → (ctx : ParseContext) → Numbers [] Expr.ids (expr d ctx)
  | 0, _ => .ofFails fails_tooDeep
  | d + 1, ctx => by
    rw [expr]
    refine .part (numbers_assignExpr d ctx) fun first => .skip (quiet_sees _) fun _ => ?_
    refine .ite ?_ (.pure rfl)
    exact .part (numbers_commaExprs d ctx) fun rest => .node (by simp)

theorem numbers_commaExprs : (d : Nat) → (ctx : ParseContext) →
    Numbers [] exprIds (commaExprs d ctx)
  | 0, _ => .ofFails fails_tooDeep
  | d + 1, ctx => by
    rw [commaExprs]
    refine .skip (quiet_eat _) fun _ => .ite ?_ (.pure (by simp))
    refine .part (numbers_assignExpr d ctx) fun e => ?_
    exact .part (numbers_commaExprs d ctx) fun rest => .pure (by simp)

theorem numbers_assignExpr : (d : Nat) → (ctx : ParseContext) →
    Numbers [] Expr.ids (assignExpr d ctx)
  | 0, _ => .ofFails fails_tooDeep
  | d + 1, ctx => by
    rw [assignExpr]
    refine .skip quiet_position fun pos => .part (numbers_condExpr d ctx) fun left => ?_
    refine .skip quiet_peek fun t => ?_
    split
    · refine .guard (fails_failAt _ _) (.skip quiet_advance fun _ => ?_)
      exact .part (numbers_assignExpr d ctx) fun right => .node (by simp)
    · exact .pure rfl

theorem numbers_condExpr : (d : Nat) → (ctx : ParseContext) → Numbers [] Expr.ids (condExpr d ctx)
  | 0, _ => .ofFails fails_tooDeep
  | d + 1, ctx => by
    rw [condExpr]
    refine .part (numbers_binaryExpr d ctx 0) fun test => .skip (quiet_eat _) fun _ => ?_
    refine .ite (.part (numbers_assignExpr d ctx.allowIn) fun yes => ?_) (.pure rfl)
    refine .skip (quiet_expect _) fun _ => .part (numbers_assignExpr d ctx) fun no => ?_
    exact .node (by simp)

theorem numbers_binaryExpr : (d : Nat) → (ctx : ParseContext) → (least : Nat) →
    Numbers [] Expr.ids (binaryExpr d ctx least)
  | 0, _, _ => .ofFails fails_tooDeep
  | d + 1, ctx, least => by
    rw [binaryExpr]
    exact .part (numbers_unaryExpr d ctx) fun left => numbers_binaryRest d ctx least left

theorem numbers_binaryRest : (d : Nat) → (ctx : ParseContext) → (least : Nat) → (left : Expr) →
    Numbers left.ids Expr.ids (binaryRest d ctx least left)
  | 0, _, _, _ => .ofFails fails_tooDeep
  | d + 1, ctx, least, left => by
    rw [binaryRest]
    refine .skip (quiet_binaryOp? ctx) fun op => ?_
    split
    · refine .ite (.pure rfl) (.skip quiet_advance fun _ => ?_)
      refine .part (numbers_binaryExpr d ctx _) fun right => .part numbers_newId fun id => ?_
      have hrest := numbers_binaryRest d ctx least (.binary id ‹_› left right)
      rwa [Expr.ids] at hrest
    · exact .pure rfl

theorem numbers_unaryExpr : (d : Nat) → (ctx : ParseContext) → Numbers [] Expr.ids (unaryExpr d ctx)
  | 0, _ => .ofFails fails_tooDeep
  | d + 1, ctx => by
    rw [unaryExpr]
    refine .skip quiet_peek fun t => ?_
    split
    iterate 7 exact numbers_unaryOperand d ctx _
    iterate 2 exact numbers_updateOperand d ctx _
    · exact numbers_updatedExpr d ctx

theorem numbers_unaryOperand : (d : Nat) → (ctx : ParseContext) → (op : UnaryOp) →
    Numbers [] Expr.ids (unaryOperand d ctx op)
  | 0, _, _ => .ofFails fails_tooDeep
  | d + 1, ctx, op => by
    rw [unaryOperand]
    exact .skip quiet_advance fun _ => .part (numbers_unaryExpr d ctx) fun arg => .node (by simp)

theorem numbers_updateOperand : (d : Nat) → (ctx : ParseContext) → (op : UpdateOp) →
    Numbers [] Expr.ids (updateOperand d ctx op)
  | 0, _, _ => .ofFails fails_tooDeep
  | d + 1, ctx, op => by
    rw [updateOperand]
    refine .skip quiet_advance fun _ => .skip quiet_position fun pos => ?_
    refine .part (numbers_unaryExpr d ctx) fun arg => .guard (fails_failAt _ _) ?_
    exact .node (by simp)

theorem numbers_updatedExpr : (d : Nat) → (ctx : ParseContext) →
    Numbers [] Expr.ids (updatedExpr d ctx)
  | 0, _ => .ofFails fails_tooDeep
  | d + 1, ctx => by
    rw [updatedExpr]
    refine .part (numbers_chainExpr d ctx true) fun e => .skip quiet_peek fun t => ?_
    refine .skip quiet_afterLineEnd fun _ => ?_
    extract_lets rest
    have hrest (op : Option UpdateOp) : Numbers e.ids Expr.ids (rest op) := by
      dsimp only [rest]
      split
      · exact .guard (fails_fail _) (.skip quiet_advance fun _ => .node (by simp))
      · exact .pure rfl
    split <;> exact .skip (quiet_pure _) hrest

theorem numbers_chainExpr : (d : Nat) → (ctx : ParseContext) → (calls : Bool) →
    Numbers [] Expr.ids (chainExpr d ctx calls)
  | 0, _, _ => .ofFails fails_tooDeep
  | d + 1, ctx, calls => by
    rw [chainExpr]
    refine .skip (quiet_sees _) fun _ => ?_
    extract_lets rest
    have hrest (e : Expr) : Numbers e.ids Expr.ids (rest e) := numbers_chainRest d ctx calls e
    exact .ite (.bind (numbers_newExpr d ctx) hrest) (.bind (numbers_primaryExpr d ctx) hrest)

theorem numbers_chainRest : (d : Nat) → (ctx : ParseContext) → (calls : Bool) → (e : Expr) →
    Numbers e.ids Expr.ids (chainRest d ctx calls e)
  | 0, _, _, _ => .ofFails fails_tooDeep
  | d + 1, ctx, calls, e => by
    rw [chainRest]
    refine .skip quiet_peek fun t => ?_
    split
    · refine .skip quiet_advance fun _ => .part numbers_identName fun name => ?_
      refine .part numbers_newId fun id => ?_
      have hrest := numbers_chainRest d ctx calls (.member id e name)
      rwa [Expr.ids, List.append_cons] at hrest
    · refine .skip quiet_advance fun _ => .part (numbers_expr d ctx.allowIn) fun key => ?_
      refine .skip (quiet_expect _) fun _ => .part numbers_newId fun id => ?_
      have hrest := numbers_chainRest d ctx calls (.index id e key)
      rwa [Expr.ids] at hrest
    · refine .ite (.part (numbers_arguments d ctx) fun args => .part numbers_newId fun id => ?_)
        (.pure rfl)
      have hrest := numbers_chainRest d ctx calls (.call id e args)
      rwa [Expr.ids] at hrest
    · exact .pure rfl

theorem numbers_newExpr : (d : Nat) → (ctx : ParseContext) → Numbers [] Expr.ids (newExpr d ctx)
  | 0, _ => .ofFails fails_tooDeep
  | d + 1, ctx => by
    rw [newExpr]
    refine .skip (quiet_expectKeyword _) fun _ => .part (numbers_chainExpr d ctx false) fun callee => ?_
    refine .skip (quiet_sees _) fun _ => ?_
    extract_lets rest
    have hrest (args : List Expr) : Numbers (callee.ids ++ exprIds args) Expr.ids (rest args) :=
      .node (by simp)
    exact .ite (.part (numbers_arguments d ctx) hrest) (.part (.pure (by simp)) hrest)

theorem numbers_arguments : (d : Nat) → (ctx : ParseContext) → Numbers [] exprIds (arguments d ctx)
  | 0, _ => .ofFails fails_tooDeep
  | d + 1, ctx => by
    rw [arguments]
    exact .skip (quiet_expect _) fun _ => numbers_argumentsToParen d ctx

theorem numbers_argumentsToParen : (d : Nat) → (ctx : ParseContext) →
    Numbers [] exprIds (argumentsToParen d ctx)
  | 0, _ => .ofFails fails_tooDeep
  | d + 1, ctx => by
    rw [argumentsToParen]
    refine .skip (quiet_eat _) fun _ => .ite (.pure (by simp)) ?_
    refine .part (numbers_assignExpr d ctx.allowIn) fun e => .skip (quiet_eat _) fun _ => .ite ?_ ?_
    · exact .part (numbers_argumentsToParen d ctx) fun es => .pure (by simp)
    · exact .skip (quiet_expect _) fun _ => .pure (by simp)

theorem numbers_primaryExpr : (d : Nat) → (ctx : ParseContext) →
    Numbers [] Expr.ids (primaryExpr d ctx)
  | 0, _ => .ofFails fails_tooDeep
  | d + 1, ctx => by
    rw [primaryExpr]
    refine .skip quiet_peek fun t => ?_
    split
    · refine .skip quiet_advance fun _ => .part (numbers_expr d ctx.allowIn) fun e => ?_
      exact .skip (quiet_expect _) fun _ => .pure rfl
    · refine .skip quiet_advance fun _ => .part (numbers_elementsToBracket d ctx) fun es => ?_
      exact .node (by simp)
    · refine .skip quiet_advance fun _ => .part (numbers_propertiesToBrace d ctx) fun ps => ?_
      exact .node (by simp)
    · exact numbers_functionExpr d
    · exact .skip quiet_advance fun _ => .node (by simp)
    · exact .part numbers_ident fun i => .pure (by simp)
    iterate 6 exact .skip quiet_advance fun _ => .node (by simp)
    · exact .ofFails (fails_fail _)
    · exact .ofFails (fails_unexpected _)

theorem numbers_elementsToBracket : (d : Nat) → (ctx : ParseContext) →
    Numbers [] elemIds (elementsToBracket d ctx)
  | 0, _ => .ofFails fails_tooDeep
  | d + 1, ctx => by
    rw [elementsToBracket]
    refine .skip (quiet_eat _) fun _ => .ite (.pure (by simp)) (.skip (quiet_eat _) fun _ => ?_)
    refine .ite (.part (numbers_elementsToBracket d ctx) fun es => .pure (by simp)) ?_
    refine .part (numbers_assignExpr d ctx.allowIn) fun e => .skip (quiet_eat _) fun _ => .ite ?_ ?_
    · exact .part (numbers_elementsToBracket d ctx) fun es => .pure (by simp)
    · exact .skip (quiet_expect _) fun _ => .pure (by simp)

theorem numbers_propertiesToBrace : (d : Nat) → (ctx : ParseContext) →
    Numbers [] propIds (propertiesToBrace d ctx)
  | 0, _ => .ofFails fails_tooDeep
  | d + 1, ctx => by
    rw [propertiesToBrace]
    refine .skip (quiet_eat _) fun _ => .ite (.pure (by simp)) ?_
    refine .part (numbers_property d ctx) fun p => .skip (quiet_eat _) fun _ => .ite ?_ ?_
    · exact .part (numbers_propertiesToBrace d ctx) fun ps => .pure (by simp)
    · exact .skip (quiet_expect _) fun _ => .pure (by simp)

theorem numbers_property : (d : Nat) → (ctx : ParseContext) →
    Numbers [] Property.ids (property d ctx)
  | 0, _ => .ofFails fails_tooDeep
  | d + 1, ctx => by
    rw [property]
    refine .skip quiet_peekSecond fun _ => .skip quiet_peek fun t => ?_
    split
    iterate 2 exact numbers_accessor d ctx _
    · refine .part (numbers_propertyKey d ctx) fun key => .skip (quiet_sees _) fun _ => ?_
      refine .reject (fails_fail _) (.skip (quiet_expect _) fun _ => ?_)
      exact .part (numbers_assignExpr d ctx.allowIn) fun value => .node (by simp)

theorem numbers_accessor : (d : Nat) → (ctx : ParseContext) → (isGetter : Bool) →
    Numbers [] Property.ids (accessor d ctx isGetter)
  | 0, _, _ => .ofFails fails_tooDeep
  | d + 1, ctx, isGetter => by
    rw [accessor]
    refine .skip quiet_advance fun _ => .part (numbers_propertyKey d ctx) fun key => ?_
    refine .skip quiet_position fun pos => .part (numbers_functionRest d) fun fn => ?_
    exact .ite (.guard (fails_failAt _ _) (.node (by simp)))
      (.guard (fails_failAt _ _) (.node (by simp)))

theorem numbers_propertyKey : (d : Nat) → (ctx : ParseContext) →
    Numbers [] PropertyKey.ids (propertyKey d ctx)
  | 0, _ => .ofFails fails_tooDeep
  | d + 1, ctx => by
    rw [propertyKey]
    refine .skip quiet_peek fun t => ?_
    split
    iterate 3 exact .skip quiet_advance fun _ => .node (by simp)
    · refine .skip quiet_advance fun _ => .part (numbers_assignExpr d ctx.allowIn) fun e => ?_
      exact .skip (quiet_expect _) fun _ => .pure (by simp)
    · exact .ofFails (fails_unexpected _)

theorem numbers_functionExpr : (d : Nat) → Numbers [] Expr.ids (functionExpr d)
  | 0 => .ofFails fails_tooDeep
  | d + 1 => by
    rw [functionExpr]
    refine .skip quiet_advance fun _ => .skip quiet_peek fun t => ?_
    extract_lets rest
    have hrest (name : Option Ident) : Numbers (Ident.ids? name) Expr.ids (rest name) :=
      .part (numbers_functionRest d) fun fn => .node (by simp)
    split
    · have hname : Numbers [] Ident.ids? (some <$> ident) := numbers_ident.map fun i => rfl
      exact hname.bind hrest
    · exact .bind (.pure rfl : Numbers [] Ident.ids? (pure none)) hrest

end

theorem numbers_stmtsToEnd : (d : Nat) → Numbers [] stmtIds (stmtsToEnd d)
  | 0 => .ofFails fails_tooDeep
  | d + 1 => by
    rw [stmtsToEnd]
    refine .skip (quiet_sees _) fun _ => .ite (.pure (by simp)) ?_
    refine .part (numbers_stmt d {}) fun s => .part (numbers_stmtsToEnd d) fun ss => ?_
    exact .pure (by simp)

theorem numbers_program (d : Nat) : Numbers [] Program.ids (program d) :=
  .part (numbers_stmtsToEnd d) fun _ => .node fun _ => rfl

end Parser

/-- Whatever text is parsed, the ids of the nodes are the numbers below the next id, each once, and
the program itself has the last of them. -/
theorem dense_ids_of_parse {text : String} {src : Source} (h : parse text = .ok src) :
    src.program.ids = List.range src.nextId ∧ src.program.id + 1 = src.nextId := by
  obtain ⟨depth, s, s', hrun, hfirst, hnext⟩ := exists_run_of_parse h
  obtain ⟨n, hn, hids⟩ := Parser.numbers_program depth s src.program s' hrun
  rw [hfirst, Nat.zero_add, hnext] at hn
  rw [hfirst, ← hn, List.nil_append, ← List.range_eq_range'] at hids
  refine ⟨hids, ?_⟩
  -- The program ends last, so its id stands at the end of the list.
  cases hcount : src.nextId with
  | zero =>
    rw [hcount, Program.ids] at hids
    cases List.append_eq_nil_iff.mp hids |>.2
  | succ k =>
    rw [hcount, Program.ids, List.range_succ] at hids
    have hlast := List.append_inj_right' hids rfl
    rw [List.singleton_inj.mp hlast]

/-- Names as labels, keys, parameters and after a point. -/
def assorted : String :=
  "a: for (k in \x7b p: f \x7d) continue a; try \x7b \x7d catch (e) \x7b x = e.y ? [, 1] : -z \x7d"

theorem dense_ids_assorted : ∃ src, parse assorted = .ok src ∧
    src.program.ids = List.range src.nextId ∧ src.program.id + 1 = src.nextId := by
  have hparses : (parse assorted).toOption.isSome = true := by decide +kernel
  cases h : parse assorted with
  | error e =>
    rw [h] at hparses
    cases hparses
  | ok src => exact ⟨src, rfl, dense_ids_of_parse h⟩

end EsOptimizer
