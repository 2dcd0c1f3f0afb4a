import EsOptimizer.Proofs.Parser.Builds
import EsOptimizer.Proofs.Syntax.Shape
import EsOptimizer.Proofs.Token.Signs

/-!
# Parsed trees are told by their text

A parsed tree is printed as it is: no braces are put around a consequent, because the parser gives an
`else` to the innermost `if` that is still open (`Closes`), and no number loses a sign, because the
tokens have none. `Told` says so of a tree, and `Tells` of a parser that returns such trees.
-/

namespace EsOptimizer

/-- What is printed of a tree has the shape of the tree. -/
def Told {α : Type} (shape : Bool → α → α) (a : α) : Prop := shape true a = shape false a

/-- The tokens that are left have no signs. -/
def ParseState.Unsigned (s : ParseState) : Prop := ∀ l ∈ s.final :: s.pending, l.token.IsUnsigned

namespace ParseState.Unsigned

variable {s : ParseState}

theorem current (h : s.Unsigned) : s.current.token.IsUnsigned := by
  obtain ⟨pending, final, id⟩ := s
  refine h _ ?_
  cases pending with
  | nil => exact List.mem_cons_self
  | cons l rest => exact List.mem_cons_of_mem _ List.mem_cons_self

theorem advance (h : s.Unsigned) : s.advance.Unsigned := fun l hl =>
  h l ((List.mem_cons.mp hl).elim (fun heq => heq ▸ List.mem_cons_self) fun hl =>
    List.mem_cons_of_mem _ (List.mem_of_mem_tail hl))

end ParseState.Unsigned

namespace Parser

/-! ## An open `if` at the end -/

/-- If what the parser returns ends with an open `if`, then no `else` follows. -/
def Closes (x : Parser Stmt) : Prop :=
  ∀ s a s', x s = .ok (a, s') → a.endsWithOpenIf = true → s'.current.token ≠ .kw .else

namespace Closes

theorem ofFails {x : Parser Stmt} (h : Fails x) : Closes x :=
  fun s a s' hx => absurd hx (h s (a, s'))

theorem bind {α : Type} {x : Parser α} {f : α → Parser Stmt} (h : ∀ a, Closes (f a)) :
    Closes (x >>= f) := by
  intro s a s' ha
  obtain ⟨b, t, -, ha⟩ := bind_eq_ok ha
  exact h b t a s' ha

theorem pure {a : Stmt} (h : a.endsWithOpenIf = false) : Closes (Pure.pure a : Parser Stmt) := by
  intro s b s' hb hopen
  cases hb
  rw [h] at hopen
  cases hopen

theorem ite {c : Prop} [Decidable c] {x y : Parser Stmt} (hx : Closes x) (hy : Closes y) :
    Closes (if c then x else y) := by
  split
  · exact hx
  · exact hy

/-- A statement that ends with the statement in it. -/
theorem body {x : Parser Stmt} {f : NodeId → Stmt → Stmt} (hx : Closes x)
    (hf : ∀ id a, (f id a).endsWithOpenIf = a.endsWithOpenIf) :
    Closes (x >>= fun a => newId >>= fun id => Pure.pure (f id a)) := by
  intro s b s' hb hopen
  obtain ⟨a, t, ha, hb⟩ := bind_eq_ok hb
  cases hb
  exact hx s a t ha ((hf _ _).symm.trans hopen)

end Closes

theorem closes_jumpStmt (isBreak : Bool) (ctx : ParseContext) : Closes (jumpStmt isBreak ctx) := by
  rw [jumpStmt]
  refine .bind fun _ => .bind fun _ => .bind fun _ => ?_
  extract_lets rest
  have hrest (label : Option Ident) : Closes (rest label) :=
    .bind fun _ => .bind fun _ => .pure (by cases isBreak <;> rfl)
  split
  · refine .bind fun label => ?_
    split
    · exact .ite (.bind fun _ => hrest _) (.bind fun _ => hrest _)
    · exact .ofFails ((fails_fail _).bind _)
  · exact .ite (hrest _) (.bind fun _ => hrest _)

theorem closes_exprStmt (d : Nat) (ctx : ParseContext) : Closes (exprStmt d ctx) := by
  cases d with
  | zero => exact .ofFails fails_tooDeep
  | succ d =>
    rw [exprStmt]
    exact .bind fun _ => .bind fun _ => .bind fun _ => .pure rfl

theorem closes_functionDecl (d : Nat) (ctx : ParseContext) : Closes (functionDecl d ctx) := by
  cases d with
  | zero => exact .ofFails fails_tooDeep
  | succ d =>
    rw [functionDecl]
    exact .bind fun _ => .bind fun _ => .bind fun _ => .bind fun _ => .pure rfl

theorem closes_doWhileStmt (d : Nat) (ctx : ParseContext) : Closes (doWhileStmt d ctx) := by
  cases d with
  | zero => exact .ofFails fails_tooDeep
  | succ d =>
    rw [doWhileStmt]
    exact .bind fun _ => .bind fun _ => .bind fun _ => .bind fun _ => .bind fun _ => .bind fun _ =>
      .pure rfl

theorem closes_returnStmt (d : Nat) (ctx : ParseContext) : Closes (returnStmt d ctx) := by
  cases d with
  | zero => exact .ofFails fails_tooDeep
  | succ d =>
    rw [returnStmt]
    refine .ite (.bind fun _ => .bind fun _ => .bind fun _ => ?_) (.ofFails ((fails_fail _).bind _))
    extract_lets rest
    have hrest (arg : Option Expr) : Closes (rest arg) := .bind fun _ => .bind fun _ => .pure rfl
    exact .ite (.bind hrest) (.bind hrest)

theorem closes_throwStmt (d : Nat) (ctx : ParseContext) : Closes (throwStmt d ctx) := by
  cases d with
  | zero => exact .ofFails fails_tooDeep
  | succ d =>
    rw [throwStmt]
    refine .bind fun _ => .bind fun _ => .ite (.ofFails ((fails_fail _).bind _)) ?_
    exact .bind fun _ => .bind fun _ => .bind fun _ => .pure rfl

theorem closes_tryStmt (d : Nat) (ctx : ParseContext) : Closes (tryStmt d ctx) := by
  cases d with
  | zero => exact .ofFails fails_tooDeep
  | succ d =>
    rw [tryStmt]
    refine .bind fun _ => .bind fun _ => .bind fun _ => ?_
    extract_lets rest
    have hrest (handler : Option CatchClause) : Closes (rest handler) := by
      refine .bind fun _ => ?_
      extract_lets more
      have hmore (finalizer : Option Block) : Closes (more finalizer) :=
        .ite (.ofFails ((fails_fail _).bind _)) (.bind fun _ => .pure rfl)
      exact .ite (.bind hmore) (.bind hmore)
    exact .ite (.bind hrest) (.bind hrest)

/-- The parser moves over a token only if it is there. -/
theorem current_of_eat {t : Token} {s s' : ParseState} {eaten : Bool}
    (h : eat t s = .ok (eaten, s')) :
    if eaten then s.current.token = t else s' = s ∧ s.current.token ≠ t := by
  obtain ⟨seen, u, hseen, h⟩ := bind_eq_ok h
  cases hseen
  split at h
  · rename_i heq
    cases h
    exact eq_of_beq heq
  · rename_i hne
    cases h
    exact ⟨rfl, fun heq => hne (beq_iff_eq.mpr heq)⟩

mutual

theorem closes_stmt : (d : Nat) → (ctx : ParseContext) → Closes (stmt d ctx)
  | 0, _ => .ofFails fails_tooDeep
  | d + 1, ctx => by
    rw [stmt]
    refine .bind fun t => ?_
    split
    · exact .bind fun _ => .pure rfl
    · exact .bind fun _ => .bind fun _ => .pure rfl
    · exact .bind fun _ => .ite (closes_labeledStmt d ctx) (closes_exprStmt d ctx)
    · split
      iterate 3 exact .bind fun _ => .bind fun _ => .pure rfl
      · exact closes_functionDecl d ctx
      · exact closes_ifStmt d ctx
      · exact closes_forStmt d ctx
      · exact closes_whileStmt d ctx
      · exact closes_doWhileStmt d ctx
      · exact closes_returnStmt d ctx
      iterate 2 exact closes_jumpStmt _ ctx
      · exact closes_throwStmt d ctx
      · exact closes_tryStmt d ctx
      · exact closes_withStmt d ctx
      iterate 5 exact .ofFails (fails_fail _)
      · exact closes_exprStmt d ctx
    · exact closes_exprStmt d ctx

theorem closes_ifStmt : (d : Nat) → (ctx : ParseContext) → Closes (ifStmt d ctx)
  | 0, _ => .ofFails fails_tooDeep
  | d + 1, ctx => by
    rw [ifStmt]
    refine .bind fun _ => .bind fun test => .bind fun yes => ?_
    intro s a s' ha hopen
    obtain ⟨eaten, t, heat, ha⟩ := bind_eq_ok ha
    have heat := current_of_eat heat
    cases eaten with
    | true =>
      obtain ⟨no, u, hno, ha⟩ := bind_eq_ok ha
      obtain ⟨no', v, hno', hno⟩ := bind_eq_ok (f := fun a => Pure.pure (some a)) hno
      cases hno
      cases ha
      exact closes_stmt d ctx t no' u hno' hopen
    | false =>
      cases ha
      rw [heat.1]
      exact heat.2

theorem closes_loopBody : (d : Nat) → (ctx : ParseContext) → Closes (loopBody d ctx)
  | 0, _ => .ofFails fails_tooDeep
  | d + 1, ctx => by
    rw [loopBody]
    exact closes_stmt d _

theorem closes_forStmt : (d : Nat) → (ctx : ParseContext) → Closes (forStmt d ctx)
  | 0, _ => .ofFails fails_tooDeep
  | d + 1, ctx => by
    rw [forStmt]
    refine .bind fun _ => .bind fun _ => .bind fun _ => ?_
    split
    · exact closes_forRest d ctx none
    iterate 3
      refine .bind fun decl => .bind fun _ => .ite ?_ (closes_forRest d ctx _)
      split
      · exact closes_forInRest d ctx _
      · exact .ofFails (fails_fail _)
    · refine .bind fun e => .bind fun _ => .ite ?_ (closes_forRest d ctx _)
      exact .ite (closes_forInRest d ctx _) (.ofFails (fails_fail _))

theorem closes_forRest : (d : Nat) → (ctx : ParseContext) → (init : Option ForHead) →
    Closes (forRest d ctx init)
  | 0, _, _ => .ofFails fails_tooDeep
  | d + 1, ctx, init => by
    rw [forRest]
    refine .bind fun _ => .bind fun _ => ?_
    extract_lets rest
    have hrest (test : Option Expr) : Closes (rest test) := by
      refine .bind fun _ => .bind fun _ => ?_
      extract_lets more
      have hmore (update : Option Expr) : Closes (more update) :=
        .bind fun _ => .body (closes_loopBody d ctx) fun _ _ => rfl
      exact .ite (.bind hmore) (.bind hmore)
    exact .ite (.bind hrest) (.bind hrest)

theorem closes_forInRest : (d : Nat) → (ctx : ParseContext) → (head : ForHead) →
    Closes (forInRest d ctx head)
  | 0, _, _ => .ofFails fails_tooDeep
  | d + 1, ctx, head => by
    rw [forInRest]
    exact .bind fun _ => .bind fun _ => .bind fun _ => .body (closes_loopBody d ctx) fun _ _ => rfl

theorem closes_whileStmt : (d : Nat) → (ctx : ParseContext) → Closes (whileStmt d ctx)
  | 0, _ => .ofFails fails_tooDeep
  | d + 1, ctx => by
    rw [whileStmt]
    exact .bind fun _ => .bind fun _ => .body (closes_loopBody d ctx) fun _ _ => rfl

theorem closes_labeledStmt : (d : Nat) → (ctx : ParseContext) → Closes (labeledStmt d ctx)
  | 0, _ => .ofFails fails_tooDeep
  | d + 1, ctx => by
    rw [labeledStmt]
    refine .bind fun label => .bind fun _ => .ite (.ofFails ((fails_fail _).bind _)) ?_
    exact .bind fun _ => .body (closes_stmt d _) fun _ _ => rfl

theorem closes_withStmt : (d : Nat) → (ctx : ParseContext) → Closes (withStmt d ctx)
  | 0, _ => .ofFails fails_tooDeep
  | d + 1, ctx => by
    rw [withStmt]
    exact .bind fun _ => .bind fun _ => .body (closes_stmt d ctx) fun _ _ => rfl

end

/-! ## Trees and tokens -/

/-- Whatever the parser returns has the property `P`, if no token has a sign. -/
def Tells {α : Type} (P : α → Prop) (x : Parser α) : Prop :=
  ∀ s a s', s.Unsigned → x s = .ok (a, s') → s'.Unsigned ∧ P a

section

variable {α β γ : Type} {P : α → Prop} {Q : β → Prop} {R : γ → Prop}

namespace Tells

theorem ofFails {x : Parser α} (h : Fails x) : Tells P x :=
  fun s a s' _ hx => absurd hx (h s (a, s'))

theorem pure {a : α} (h : P a) : Tells P (Pure.pure a : Parser α) := by
  intro s b s' hs hb
  cases hb
  exact ⟨hs, h⟩

theorem bind {x : Parser α} {f : α → Parser β} (hx : Tells P x) (hf : ∀ a, P a → Tells Q (f a)) :
    Tells Q (x >>= f) := by
  intro s b s' hs hb
  obtain ⟨a, t, ha, hb⟩ := bind_eq_ok hb
  obtain ⟨ht, hP⟩ := hx s a t hs ha
  exact hf a hP t b s' ht hb

/-- A step of which the result does not matter. -/
theorem skip {x : Parser α} {f : α → Parser β} (hx : Tells (fun _ => True) x)
    (hf : ∀ a, Tells Q (f a)) : Tells Q (x >>= f) :=
  hx.bind fun a _ => hf a

theorem map {x : Parser α} {f : α → β} (hx : Tells P x) (h : ∀ a, P a → Q (f a)) :
    Tells Q (f <$> x) :=
  hx.bind fun a ha => .pure (h a ha)

theorem ite {c : Prop} [Decidable c] {x y : Parser α} (hx : Tells P x) (hy : Tells P y) :
    Tells P (if c then x else y) := by
  split
  · exact hx
  · exact hy

/-- A condition without which parsing fails. -/
theorem guard {c : Prop} [Decidable c] {x : Parser α} {y : Parser γ} {f : γ → Parser α}
    (hy : Fails y) (hx : Tells P x) : Tells P (if c then x else y >>= f) :=
  ite hx (ofFails (hy.bind f))

/-- A condition with which parsing fails. -/
theorem reject {c : Prop} [Decidable c] {x : Parser α} {y : Parser γ} {f : γ → Parser α}
    (hy : Fails y) (hx : Tells P x) : Tells P (if c then y >>= f else x) :=
  ite (ofFails (hy.bind f)) hx

/-- A part that may be missing. -/
theorem optional {c : Prop} [Decidable c] {x : Parser (Option γ)} {f : Option γ → Parser α}
    {R : Option γ → Prop} (hx : Tells R x) (hnone : R none) (hf : ∀ o, R o → Tells P (f o)) :
    Tells P (if c then x >>= f else (Pure.pure none : Parser (Option γ)) >>= f) :=
  ite (bind hx hf) (bind (.pure hnone) hf)

end Tells

end

theorem tells_peek : Tells Token.IsUnsigned peek := by
  intro s t s' hs h
  cases h
  exact ⟨hs, hs.current⟩

theorem tells_peekSecond : Tells (fun _ => True) peekSecond := by
  intro s t s' hs h
  cases h
  exact ⟨hs, trivial⟩

theorem tells_afterLineEnd : Tells (fun _ => True) afterLineEnd := by
  intro s b s' hs h
  cases h
  exact ⟨hs, trivial⟩

theorem tells_position : Tells (fun _ => True) position := by
  intro s pos s' hs h
  cases h
  exact ⟨hs, trivial⟩

theorem tells_advance : Tells (fun _ => True) advance := by
  intro s u s' hs h
  cases h
  exact ⟨hs.advance, trivial⟩

theorem tells_newId : Tells (fun _ => True) newId := by
  intro s id s' hs h
  cases h
  exact ⟨hs, trivial⟩

theorem tells_sees (t : Token) : Tells (fun _ => True) (sees t) :=
  tells_peek.bind fun _ _ => .pure trivial

theorem tells_eat (t : Token) : Tells (fun _ => True) (eat t) :=
  .skip (tells_sees t) fun _ => .ite (.skip tells_advance fun _ => .pure trivial) (.pure trivial)

theorem tells_expect (p : Punct) : Tells (fun _ => True) (expect p) :=
  .skip (tells_eat _) fun _ => .ite (.pure trivial) (.ofFails (fails_unexpected _))

theorem tells_expectKeyword (k : Keyword) : Tells (fun _ => True) (expectKeyword k) :=
  .skip (tells_eat _) fun _ => .ite (.pure trivial) (.ofFails (fails_unexpected _))

theorem tells_endsStatement : Tells (fun _ => True) endsStatement :=
  tells_peek.bind fun _ _ => .skip tells_afterLineEnd fun _ => .pure trivial

theorem tells_semicolon : Tells (fun _ => True) semicolon :=
  .skip (tells_eat _) fun _ => .ite (.pure trivial) <|
    .skip tells_endsStatement fun _ => .ite (.pure trivial) (.ofFails (fails_unexpected _))

theorem tells_binaryOp? (ctx : ParseContext) : Tells (fun _ => True) (binaryOp? ctx) :=
  tells_peek.bind fun _ _ => by split <;> exact .pure trivial

/-- A node is built last. -/
theorem Tells.node {α : Type} {P : α → Prop} {f : NodeId → α} (h : ∀ id, P (f id)) :
    Tells P (newId >>= fun id => Pure.pure (f id)) :=
  .skip tells_newId fun id => .pure (h id)

theorem tells_ident : Tells (fun _ => True) ident := by
  refine tells_peek.bind fun t _ => ?_
  split
  · exact .skip tells_advance fun _ => .node fun _ => trivial
  · exact .ofFails (fails_unexpected _)

theorem tells_identName : Tells (fun _ => True) identName := by
  refine tells_peek.bind fun t _ => ?_
  split
  · exact .skip tells_advance fun _ => .node fun _ => trivial
  · exact .ofFails (fails_unexpected _)

/-! ## The parsers -/

/-- A number without a sign is its own magnitude. -/
theorem abs_of_isUnsigned {x : Number} (h : (Token.number x).IsUnsigned) : x.abs = x :=
  if_neg (by rw [h x rfl]; exact Bool.false_ne_true)

attribute [local simp] Told Stmt.braced

theorem tells_jumpStmt (isBreak : Bool) (ctx : ParseContext) :
    Tells (Told Stmt.shape) (jumpStmt isBreak ctx) := by
  rw [jumpStmt]
  refine .skip tells_advance fun _ => tells_peek.bind fun t _ => .skip tells_afterLineEnd fun _ => ?_
  extract_lets rest
  have hrest (label : Option Ident) : Tells (Told Stmt.shape) (rest label) :=
    .skip tells_semicolon fun _ => .node fun id => by cases isBreak <;> rfl
  split
  · refine .skip tells_ident fun label => ?_
    split
    · exact .guard (fails_fail _) (hrest _)
    · exact .ofFails ((fails_fail _).bind _)
  · exact .guard (fails_fail _) (hrest none)

theorem tells_paramsToParen (d : Nat) : Tells (fun _ => True) (paramsToParen d) := by
  induction d with
  | zero => exact .ofFails fails_tooDeep
  | succ d ih =>
    rw [paramsToParen]
    refine .skip (tells_eat _) fun _ => .ite (.pure trivial) (.skip tells_ident fun p => ?_)
    refine .skip (tells_eat _) fun _ => .ite ?_ (.skip (tells_expect _) fun _ => .pure trivial)
    exact .skip ih fun _ => .pure trivial

mutual

theorem tells_stmt : (d : Nat) → (ctx : ParseContext) → Tells (Told Stmt.shape) (stmt d ctx)
  | 0, _ => .ofFails fails_tooDeep
  | d + 1, ctx => by
    rw [stmt]
    refine tells_peek.bind fun t _ => ?_
    split
    · exact (tells_block d ctx).bind fun b hb => .pure (by simp_all)
    · exact .skip tells_advance fun _ => .node fun _ => rfl
    · exact .skip tells_peekSecond fun _ => .ite (tells_labeledStmt d ctx) (tells_exprStmt d ctx)
    · split
      iterate 3
        exact (tells_varDecl d ctx).bind fun decl hdecl => .skip tells_semicolon fun _ =>
          .pure (by simp_all)
      · exact tells_functionDecl d ctx
      · exact tells_ifStmt d ctx
      · exact tells_forStmt d ctx
      · exact tells_whileStmt d ctx
      · exact tells_doWhileStmt d ctx
      · exact tells_returnStmt d ctx
      iterate 2 exact tells_jumpStmt _ ctx
      · exact tells_throwStmt d ctx
      · exact tells_tryStmt d ctx
      · exact tells_withStmt d ctx
      iterate 5 exact .ofFails (fails_fail _)
      · exact tells_exprStmt d ctx
    · exact tells_exprStmt d ctx

theorem tells_block : (d : Nat) → (ctx : ParseContext) → Tells (Told Block.shape) (block d ctx)
  | 0, _ => .ofFails fails_tooDeep
  | d + 1, ctx => by
    rw [block]
    exact .skip (tells_expect _) fun _ => (tells_stmtsToBrace d ctx).bind fun ss hss =>
      .node (by simp_all)

theorem tells_stmtsToBrace : (d : Nat) → (ctx : ParseContext) →
    Tells (Told stmtShapes) (stmtsToBrace d ctx)
  | 0, _ => .ofFails fails_tooDeep
  | d + 1, ctx => by
    rw [stmtsToBrace]
    refine .skip (tells_eat _) fun _ => .ite (.pure rfl) (.skip (tells_sees _) fun _ => ?_)
    refine .reject (fails_unexpected _) ((tells_stmt d ctx).bind fun s hs => ?_)
    exact (tells_stmtsToBrace d ctx).bind fun ss hss => .pure (by simp_all)

theorem tells_exprStmt : (d : Nat) → (ctx : ParseContext) → Tells (Told Stmt.shape) (exprStmt d ctx)
  | 0, _ => .ofFails fails_tooDeep
  | d + 1, ctx => by
    rw [exprStmt]
    exact (tells_expr d _).bind fun e he => .skip tells_semicolon fun _ => .node (by simp_all)

theorem tells_varDecl : (d : Nat) → (ctx : ParseContext) → Tells (Told VarDecl.shape) (varDecl d ctx)
  | 0, _ => .ofFails fails_tooDeep
  | d + 1, ctx => by
    rw [varDecl]
    refine tells_peek.bind fun t _ => ?_
    extract_lets rest
    have hrest (kind : DeclKind) : Tells (Told VarDecl.shape) (rest kind) :=
      .skip tells_advance fun _ => (tells_declarators d ctx).bind fun ds hds => .node (by simp_all)
    split <;> exact .skip (.pure trivial) hrest

theorem tells_declarators : (d : Nat) → (ctx : ParseContext) →
    Tells (Told declShapes) (declarators d ctx)
  | 0, _ => .ofFails fails_tooDeep
  | d + 1, ctx => by
    rw [declarators]
    refine .skip tells_ident fun name => .skip (tells_eat _) fun _ => ?_
    refine .optional (R := Told exprShape?)
      ((tells_assignExpr d ctx).map fun e he => by simp_all) rfl fun init hinit => ?_
    refine .skip tells_newId fun id => .skip (tells_eat _) fun _ => .ite ?_ (.pure (by simp_all))
    exact (tells_declarators d ctx).bind fun ds hds => .pure (by simp_all)

theorem tells_functionDecl : (d : Nat) → (ctx : ParseContext) →
    Tells (Told Stmt.shape) (functionDecl d ctx)
  | 0, _ => .ofFails fails_tooDeep
  | d + 1, ctx => by
    rw [functionDecl]
    refine .skip (tells_expectKeyword _) fun _ => .skip tells_ident fun name => ?_
    exact (tells_functionRest d).bind fun fn hfn => .node (by simp_all)

theorem tells_functionRest : (d : Nat) → Tells (Told Func.shape) (functionRest d)
  | 0 => .ofFails fails_tooDeep
  | d + 1 => by
    rw [functionRest]
    refine .skip (tells_expect _) fun _ => .skip (tells_paramsToParen d) fun params => ?_
    exact (tells_block d .function).bind fun body hbody => .node (by simp_all)

/-- An `else` follows only if the consequent is not open. -/
theorem tells_ifStmt : (d : Nat) → (ctx : ParseContext) → Tells (Told Stmt.shape) (ifStmt d ctx)
  | 0, _ => .ofFails fails_tooDeep
  | d + 1, ctx => by
    rw [ifStmt]
    refine .skip tells_advance fun _ => (tells_parenExpr d ctx).bind fun test htest => ?_
    intro s a s' hs ha
    obtain ⟨yes, t, hyes, ha⟩ := bind_eq_ok ha
    obtain ⟨ht, htold⟩ := tells_stmt d ctx s yes t hs hyes
    obtain ⟨eaten, u, heat, ha⟩ := bind_eq_ok ha
    have helse := current_of_eat heat
    obtain ⟨hu, -⟩ := tells_eat _ t eaten u ht heat
    cases eaten with
    | true =>
      have hclosed : yes.endsWithOpenIf = false :=
        Bool.eq_false_iff.mpr fun hopen => closes_stmt d ctx s yes t hyes hopen helse
      refine Tells.bind (P := Told stmtShape?) ((tells_stmt d ctx).map fun no hno => ?_)
        (fun no hno => .node fun id => ?_) u a s' hu ha
      · simp_all
      · simp_all
    | false =>
      cases ha
      exact ⟨hu, by simp_all⟩

theorem tells_parenExpr : (d : Nat) → (ctx : ParseContext) →
    Tells (Told Expr.shape) (parenExpr d ctx)
  | 0, _ => .ofFails fails_tooDeep
  | d + 1, ctx => by
    rw [parenExpr]
    exact .skip (tells_expect _) fun _ => (tells_expr d _).bind fun e he =>
      .skip (tells_expect _) fun _ => .pure he

theorem tells_loopBody : (d : Nat) → (ctx : ParseContext) → Tells (Told Stmt.shape) (loopBody d ctx)
  | 0, _ => .ofFails fails_tooDeep
  | d + 1, ctx => by
    rw [loopBody]
    exact tells_stmt d _

theorem tells_forStmt : (d : Nat) → (ctx : ParseContext) → Tells (Told Stmt.shape) (forStmt d ctx)
  | 0, _ => .ofFails fails_tooDeep
  | d + 1, ctx => by
    rw [forStmt]
    refine .skip tells_advance fun _ => .skip (tells_expect _) fun _ => tells_peek.bind fun t _ => ?_
    split
    · exact tells_forRest d ctx none rfl
    iterate 3
      refine (tells_varDecl d _).bind fun decl hdecl => .skip (tells_sees _) fun _ => .ite ?_ ?_
      · split
        · exact tells_forInRest d ctx (.decl decl) (by simp_all)
        · exact .ofFails (fails_fail _)
      · exact tells_forRest d ctx (some (.decl decl)) (by simp_all)
    · refine (tells_expr d _).bind fun e he => .skip (tells_sees _) fun _ => .ite ?_ ?_
      · exact .ite (tells_forInRest d ctx (.expr e) (by simp_all)) (.ofFails (fails_fail _))
      · exact tells_forRest d ctx (some (.expr e)) (by simp_all)

theorem tells_forRest : (d : Nat) → (ctx : ParseContext) → (init : Option ForHead) →
    Told headShape? init → Tells (Told Stmt.shape) (forRest d ctx init)
  | 0, _, _, _ => .ofFails fails_tooDeep
  | d + 1, ctx, init, hinit => by
    rw [forRest]
    refine .skip (tells_expect _) fun _ => .skip (tells_sees _) fun _ => ?_
    extract_lets rest
    have hrest (test : Option Expr) (htest : Told exprShape? test) :
        Tells (Told Stmt.shape) (rest test) := by
      refine .skip (tells_expect _) fun _ => .skip (tells_sees _) fun _ => ?_
      extract_lets more
      have hmore (update : Option Expr) (hupdate : Told exprShape? update) :
          Tells (Told Stmt.shape) (more update) :=
        .skip (tells_expect _) fun _ => (tells_loopBody d ctx).bind fun body hbody =>
          .node (by simp_all)
      exact .ite (.bind (P := Told exprShape?) (.pure rfl) hmore)
        (((tells_expr d _).map fun e he => by simp_all).bind hmore)
    exact .ite (.bind (P := Told exprShape?) (.pure rfl) hrest)
      (((tells_expr d _).map fun e he => by simp_all).bind hrest)

theorem tells_forInRest : (d : Nat) → (ctx : ParseContext) → (head : ForHead) →
    Told ForHead.shape head → Tells (Told Stmt.shape) (forInRest d ctx head)
  | 0, _, _, _ => .ofFails fails_tooDeep
  | d + 1, ctx, head, hhead => by
    rw [forInRest]
    refine .skip (tells_expectKeyword _) fun _ => (tells_expr d _).bind fun obj hobj => ?_
    refine .skip (tells_expect _) fun _ => (tells_loopBody d ctx).bind fun body hbody => ?_
    exact .node (by simp_all)

theorem tells_whileStmt : (d : Nat) → (ctx : ParseContext) →
    Tells (Told Stmt.shape) (whileStmt d ctx)
  | 0, _ => .ofFails fails_tooDeep
  | d + 1, ctx => by
    rw [whileStmt]
    refine .skip tells_advance fun _ => (tells_parenExpr d ctx).bind fun test htest => ?_
    exact (tells_loopBody d ctx).bind fun body hbody => .node (by simp_all)

theorem tells_doWhileStmt : (d : Nat) → (ctx : ParseContext) →
    Tells (Told Stmt.shape) (doWhileStmt d ctx)
  | 0, _ => .ofFails fails_tooDeep
  | d + 1, ctx => by
    rw [doWhileStmt]
    refine .skip tells_advance fun _ => (tells_loopBody d ctx).bind fun body hbody => ?_
    refine .skip (tells_expectKeyword _) fun _ => (tells_parenExpr d ctx).bind fun test htest => ?_
    exact .skip ((tells_eat _).map fun _ _ => trivial) fun _ => .node (by simp_all)

theorem tells_returnStmt : (d : Nat) → (ctx : ParseContext) →
    Tells (Told Stmt.shape) (returnStmt d ctx)
  | 0, _ => .ofFails fails_tooDeep
  | d + 1, ctx => by
    rw [returnStmt]
    refine .guard (fails_fail _) (.skip tells_advance fun _ => .skip (tells_sees _) fun _ => ?_)
    refine .skip tells_endsStatement fun _ => ?_
    extract_lets rest
    have hrest (arg : Option Expr) (harg : Told exprShape? arg) :
        Tells (Told Stmt.shape) (rest arg) :=
      .skip tells_semicolon fun _ => .node (by simp_all)
    exact .ite (.bind (P := Told exprShape?) (.pure rfl) hrest)
      (((tells_expr d _).map fun e he => by simp_all).bind hrest)

theorem tells_labeledStmt : (d : Nat) → (ctx : ParseContext) →
    Tells (Told Stmt.shape) (labeledStmt d ctx)
  | 0, _ => .ofFails fails_tooDeep
  | d + 1, ctx => by
    rw [labeledStmt]
    refine .skip tells_ident fun label => .skip (tells_expect _) fun _ => ?_
    refine .reject (fails_fail _) (tells_peek.bind fun t _ => ?_)
    exact (tells_stmt d _).bind fun body hbody => .node (by simp_all)

theorem tells_throwStmt : (d : Nat) → (ctx : ParseContext) →
    Tells (Told Stmt.shape) (throwStmt d ctx)
  | 0, _ => .ofFails fails_tooDeep
  | d + 1, ctx => by
    rw [throwStmt]
    refine .skip tells_advance fun _ => .skip tells_afterLineEnd fun _ => ?_
    refine .reject (fails_fail _) ((tells_expr d _).bind fun arg harg => ?_)
    exact .skip tells_semicolon fun _ => .node (by simp_all)

theorem tells_tryStmt : (d : Nat) → (ctx : ParseContext) → Tells (Told Stmt.shape) (tryStmt d ctx)
  | 0, _ => .ofFails fails_tooDeep
  | d + 1, ctx => by
    rw [tryStmt]
    refine .skip tells_advance fun _ => (tells_block d ctx).bind fun body hbody => ?_
    refine .skip (tells_eat _) fun _ => .optional (R := Told handlerShape?)
      ((tells_catchClause d ctx).map fun c hc => by simp_all) rfl fun handler hhandler => ?_
    refine .skip (tells_eat _) fun _ => .optional (R := Told blockShape?)
      ((tells_block d ctx).map fun b hb => by simp_all) rfl fun finalizer hfinalizer => ?_
    exact .reject (fails_fail _) (.node (by simp_all))

theorem tells_catchClause : (d : Nat) → (ctx : ParseContext) →
    Tells (Told CatchClause.shape) (catchClause d ctx)
  | 0, _ => .ofFails fails_tooDeep
  | d + 1, ctx => by
    rw [catchClause]
    refine .skip (tells_eat _) fun _ => ?_
    extract_lets rest
    have hrest (param : Option Ident) : Tells (Told CatchClause.shape) (rest param) :=
      (tells_block d ctx).bind fun body hbody => .node (by simp_all)
    refine .ite ?_ (.skip (.pure trivial) hrest)
    exact .skip tells_ident fun i => .skip (tells_expect _) fun _ => hrest (some i)

theorem tells_withStmt : (d : Nat) → (ctx : ParseContext) → Tells (Told Stmt.shape) (withStmt d ctx)
  | 0, _ => .ofFails fails_tooDeep
  | d + 1, ctx => by
    rw [withStmt]
    refine .skip tells_advance fun _ => (tells_parenExpr d ctx).bind fun obj hobj => ?_
    exact (tells_stmt d ctx).bind fun body hbody => .node (by simp_all)

theorem tells_expr : (d : Nat) → (ctx : ParseContext) → Tells (Told Expr.shape) (expr d ctx)
  | 0, _ => .ofFails fails_tooDeep
  | d + 1, ctx => by
    rw [expr]
    refine (tells_assignExpr d ctx).bind fun first hfirst => .skip (tells_sees _) fun _ => ?_
    exact .ite ((tells_commaExprs d ctx).bind fun rest hrest => .node (by simp_all)) (.pure hfirst)

theorem tells_commaExprs : (d : Nat) → (ctx : ParseContext) →
    Tells (Told exprShapes) (commaExprs d ctx)
  | 0, _ => .ofFails fails_tooDeep
  | d + 1, ctx => by
    rw [commaExprs]
    refine .skip (tells_eat _) fun _ => .ite ((tells_assignExpr d ctx).bind fun e he => ?_) (.pure rfl)
    exact (tells_commaExprs d ctx).bind fun rest hrest => .pure (by simp_all)

theorem tells_assignExpr : (d : Nat) → (ctx : ParseContext) →
    Tells (Told Expr.shape) (assignExpr d ctx)
  | 0, _ => .ofFails fails_tooDeep
  | d + 1, ctx => by
    rw [assignExpr]
    refine .skip tells_position fun pos => (tells_condExpr d ctx).bind fun left hleft => ?_
    refine tells_peek.bind fun t _ => ?_
    split
    · refine .guard (fails_failAt _ _) (.skip tells_advance fun _ => ?_)
      exact (tells_assignExpr d ctx).bind fun right hright => .node (by simp_all)
    · exact .pure hleft

theorem tells_condExpr : (d : Nat) → (ctx : ParseContext) → Tells (Told Expr.shape) (condExpr d ctx)
  | 0, _ => .ofFails fails_tooDeep
  | d + 1, ctx => by
    rw [condExpr]
    refine (tells_binaryExpr d ctx 0).bind fun test htest => .skip (tells_eat _) fun _ => ?_
    refine .ite ((tells_assignExpr d _).bind fun yes hyes => ?_) (.pure htest)
    refine .skip (tells_expect _) fun _ => (tells_assignExpr d ctx).bind fun no hno => ?_
    exact .node (by simp_all)

theorem tells_binaryExpr : (d : Nat) → (ctx : ParseContext) → (least : Nat) →
    Tells (Told Expr.shape) (binaryExpr d ctx least)
  | 0, _, _ => .ofFails fails_tooDeep
  | d + 1, ctx, least => by
    rw [binaryExpr]
    exact (tells_unaryExpr d ctx).bind fun left hleft => tells_binaryRest d ctx least left hleft

theorem tells_binaryRest : (d : Nat) → (ctx : ParseContext) → (least : Nat) → (left : Expr) →
    Told Expr.shape left → Tells (Told Expr.shape) (binaryRest d ctx least left)
  | 0, _, _, _, _ => .ofFails fails_tooDeep
  | d + 1, ctx, least, left, hleft => by
    rw [binaryRest]
    refine .skip (tells_binaryOp? ctx) fun op => ?_
    split
    · refine .ite (.pure hleft) (.skip tells_advance fun _ => ?_)
      refine (tells_binaryExpr d ctx _).bind fun right hright => .skip tells_newId fun id => ?_
      exact tells_binaryRest d ctx least _ (by simp_all)
    · exact .pure hleft

theorem tells_unaryExpr : (d : Nat) → (ctx : ParseContext) →
    Tells (Told Expr.shape) (unaryExpr d ctx)
  | 0, _ => .ofFails fails_tooDeep
  | d + 1, ctx => by
    rw [unaryExpr]
    refine tells_peek.bind fun t _ => ?_
    split
    iterate 7 exact tells_unaryOperand d ctx _
    iterate 2 exact tells_updateOperand d ctx _
    · exact tells_updatedExpr d ctx

theorem tells_unaryOperand : (d : Nat) → (ctx : ParseContext) → (op : UnaryOp) →
    Tells (Told Expr.shape) (unaryOperand d ctx op)
  | 0, _, _ => .ofFails fails_tooDeep
  | d + 1, ctx, op => by
    rw [unaryOperand]
    exact .skip tells_advance fun _ => (tells_unaryExpr d ctx).bind fun arg harg =>
      .node (by simp_all)

theorem tells_updateOperand : (d : Nat) → (ctx : ParseContext) → (op : UpdateOp) →
    Tells (Told Expr.shape) (updateOperand d ctx op)
  | 0, _, _ => .ofFails fails_tooDeep
  | d + 1, ctx, op => by
    rw [updateOperand]
    refine .skip tells_advance fun _ => .skip tells_position fun pos => ?_
    refine (tells_unaryExpr d ctx).bind fun arg harg => .guard (fails_failAt _ _) ?_
    exact .node (by simp_all)

theorem tells_updatedExpr : (d : Nat) → (ctx : ParseContext) →
    Tells (Told Expr.shape) (updatedExpr d ctx)
  | 0, _ => .ofFails fails_tooDeep
  | d + 1, ctx => by
    rw [updatedExpr]
    refine (tells_chainExpr d ctx true).bind fun e he => tells_peek.bind fun t _ => ?_
    refine .skip tells_afterLineEnd fun _ => ?_
    extract_lets rest
    have hrest (op : Option UpdateOp) : Tells (Told Expr.shape) (rest op) := by
      dsimp only [rest]
      split
      · exact .guard (fails_fail _) (.skip tells_advance fun _ => .node (by simp_all))
      · exact .pure he
    split <;> exact .skip (.pure trivial) hrest

theorem tells_chainExpr : (d : Nat) → (ctx : ParseContext) → (calls : Bool) →
    Tells (Told Expr.shape) (chainExpr d ctx calls)
  | 0, _, _ => .ofFails fails_tooDeep
  | d + 1, ctx, calls => by
    rw [chainExpr]
    refine .skip (tells_sees _) fun _ => ?_
    extract_lets rest
    have hrest (e : Expr) (he : Told Expr.shape e) : Tells (Told Expr.shape) (rest e) :=
      tells_chainRest d ctx calls e he
    exact .ite ((tells_newExpr d ctx).bind hrest) ((tells_primaryExpr d ctx).bind hrest)

theorem tells_chainRest : (d : Nat) → (ctx : ParseContext) → (calls : Bool) → (e : Expr) →
    Told Expr.shape e → Tells (Told Expr.shape) (chainRest d ctx calls e)
  | 0, _, _, _, _ => .ofFails fails_tooDeep
  | d + 1, ctx, calls, e, he => by
    rw [chainRest]
    refine tells_peek.bind fun t _ => ?_
    split
    · refine .skip tells_advance fun _ => .skip tells_identName fun name => ?_
      exact .skip tells_newId fun id => tells_chainRest d ctx calls _ (by simp_all)
    · refine .skip tells_advance fun _ => (tells_expr d _).bind fun key hkey => ?_
      refine .skip (tells_expect _) fun _ => .skip tells_newId fun id => ?_
      exact tells_chainRest d ctx calls _ (by simp_all)
    · refine .ite ((tells_arguments d ctx).bind fun args hargs => ?_) (.pure he)
      exact .skip tells_newId fun id => tells_chainRest d ctx calls _ (by simp_all)
    · exact .pure he

theorem tells_newExpr : (d : Nat) → (ctx : ParseContext) → Tells (Told Expr.shape) (newExpr d ctx)
  | 0, _ => .ofFails fails_tooDeep
  | d + 1, ctx => by
    rw [newExpr]
    refine .skip (tells_expectKeyword _) fun _ => ?_
    refine (tells_chainExpr d ctx false).bind fun callee hcallee => .skip (tells_sees _) fun _ => ?_
    extract_lets rest
    have hrest (args : List Expr) (hargs : Told exprShapes args) :
        Tells (Told Expr.shape) (rest args) := .node (by simp_all)
    exact .ite ((tells_arguments d ctx).bind hrest) (.bind (P := Told exprShapes) (.pure rfl) hrest)

theorem tells_arguments : (d : Nat) → (ctx : ParseContext) →
    Tells (Told exprShapes) (arguments d ctx)
  | 0, _ => .ofFails fails_tooDeep
  | d + 1, ctx => by
    rw [arguments]
    exact .skip (tells_expect _) fun _ => tells_argumentsToParen d ctx

theorem tells_argumentsToParen : (d : Nat) → (ctx : ParseContext) →
    Tells (Told exprShapes) (argumentsToParen d ctx)
  | 0, _ => .ofFails fails_tooDeep
  | d + 1, ctx => by
    rw [argumentsToParen]
    refine .skip (tells_eat _) fun _ => .ite (.pure rfl) ?_
    refine (tells_assignExpr d _).bind fun e he => .skip (tells_eat _) fun _ => .ite ?_ ?_
    · exact (tells_argumentsToParen d ctx).bind fun es hes => .pure (by simp_all)
    · exact .skip (tells_expect _) fun _ => .pure (by simp_all)

theorem tells_primaryExpr : (d : Nat) → (ctx : ParseContext) →
    Tells (Told Expr.shape) (primaryExpr d ctx)
  | 0, _ => .ofFails fails_tooDeep
  | d + 1, ctx => by
    rw [primaryExpr]
    refine tells_peek.bind fun t ht => ?_
    split
    · refine .skip tells_advance fun _ => (tells_expr d _).bind fun e he => ?_
      exact .skip (tells_expect _) fun _ => .pure he
    · refine .skip tells_advance fun _ => (tells_elementsToBracket d ctx).bind fun es hes => ?_
      exact .node (by simp_all)
    · refine .skip tells_advance fun _ => (tells_propertiesToBrace d ctx).bind fun ps hps => ?_
      exact .node (by simp_all)
    · exact tells_functionExpr d
    · exact .skip tells_advance fun _ => .node fun _ => rfl
    · exact .skip tells_ident fun i => .pure rfl
    iterate 3 exact .skip tells_advance fun _ => .node fun _ => rfl
    · have hvalue := abs_of_isUnsigned ht
      exact .skip tells_advance fun _ => .node (by simp_all)
    iterate 2 exact .skip tells_advance fun _ => .node fun _ => rfl
    · exact .ofFails (fails_fail _)
    · exact .ofFails (fails_unexpected _)

theorem tells_elementsToBracket : (d : Nat) → (ctx : ParseContext) →
    Tells (Told elemShapes) (elementsToBracket d ctx)
  | 0, _ => .ofFails fails_tooDeep
  | d + 1, ctx => by
    rw [elementsToBracket]
    refine .skip (tells_eat _) fun _ => .ite (.pure rfl) (.skip (tells_eat _) fun _ => ?_)
    refine .ite ((tells_elementsToBracket d ctx).bind fun es hes => .pure (by simp_all)) ?_
    refine (tells_assignExpr d _).bind fun e he => .skip (tells_eat _) fun _ => .ite ?_ ?_
    · exact (tells_elementsToBracket d ctx).bind fun es hes => .pure (by simp_all)
    · exact .skip (tells_expect _) fun _ => .pure (by simp_all)

theorem tells_propertiesToBrace : (d : Nat) → (ctx : ParseContext) →
    Tells (Told propShapes) (propertiesToBrace d ctx)
  | 0, _ => .ofFails fails_tooDeep
  | d + 1, ctx => by
    rw [propertiesToBrace]
    refine .skip (tells_eat _) fun _ => .ite (.pure rfl) ?_
    refine (tells_property d ctx).bind fun p hp => .skip (tells_eat _) fun _ => .ite ?_ ?_
    · exact (tells_propertiesToBrace d ctx).bind fun ps hps => .pure (by simp_all)
    · exact .skip (tells_expect _) fun _ => .pure (by simp_all)

theorem tells_property : (d : Nat) → (ctx : ParseContext) →
    Tells (Told Property.shape) (property d ctx)
  | 0, _ => .ofFails fails_tooDeep
  | d + 1, ctx => by
    rw [property]
    refine .skip tells_peekSecond fun _ => tells_peek.bind fun t _ => ?_
    split
    iterate 2 exact tells_accessor d ctx _
    · refine (tells_propertyKey d ctx).bind fun key hkey => .skip (tells_sees _) fun _ => ?_
      refine .reject (fails_fail _) (.skip (tells_expect _) fun _ => ?_)
      exact (tells_assignExpr d _).bind fun value hvalue => .node (by simp_all)

theorem tells_accessor : (d : Nat) → (ctx : ParseContext) → (isGetter : Bool) →
    Tells (Told Property.shape) (accessor d ctx isGetter)
  | 0, _, _ => .ofFails fails_tooDeep
  | d + 1, ctx, isGetter => by
    rw [accessor]
    refine .skip tells_advance fun _ => (tells_propertyKey d ctx).bind fun key hkey => ?_
    refine .skip tells_position fun pos => (tells_functionRest d).bind fun fn hfn => ?_
    exact .ite (.guard (fails_failAt _ _) (.node (by simp_all)))
      (.guard (fails_failAt _ _) (.node (by simp_all)))

theorem tells_propertyKey : (d : Nat) → (ctx : ParseContext) →
    Tells (Told PropertyKey.shape) (propertyKey d ctx)
  | 0, _ => .ofFails fails_tooDeep
  | d + 1, ctx => by
    rw [propertyKey]
    refine tells_peek.bind fun t ht => ?_
    split
    iterate 2 exact .skip tells_advance fun _ => .node fun _ => rfl
    · have hvalue := abs_of_isUnsigned ht
      exact .skip tells_advance fun _ => .node (by simp_all)
    · refine .skip tells_advance fun _ => (tells_assignExpr d _).bind fun e he => ?_
      exact .skip (tells_expect _) fun _ => .pure (by simp_all)
    · exact .ofFails (fails_unexpected _)

theorem tells_functionExpr : (d : Nat) → Tells (Told Expr.shape) (functionExpr d)
  | 0 => .ofFails fails_tooDeep
  | d + 1 => by
    rw [functionExpr]
    refine .skip tells_advance fun _ => tells_peek.bind fun t _ => ?_
    extract_lets rest
    have hrest (name : Option Ident) : Tells (Told Expr.shape) (rest name) :=
      (tells_functionRest d).bind fun fn hfn => .node (by simp_all)
    split
    · exact .skip (tells_ident.map fun _ _ => trivial) hrest
    · exact .skip (.pure trivial) hrest

end

theorem tells_stmtsToEnd : (d : Nat) → Tells (Told stmtShapes) (stmtsToEnd d)
  | 0 => .ofFails fails_tooDeep
  | d + 1 => by
    rw [stmtsToEnd]
    refine .skip (tells_sees _) fun _ => .ite (.pure rfl) ((tells_stmt d {}).bind fun s hs => ?_)
    exact (tells_stmtsToEnd d).bind fun ss hss => .pure (by simp_all)

theorem tells_program (d : Nat) : Tells (Told Program.shape) (program d) :=
  (tells_stmtsToEnd d).bind fun _ hbody => .node fun _ => congrArg (Program.mk 0) hbody

end Parser

/-- No token of a text has a sign. -/
theorem unsigned_ofLexemes {text : String} {ls : List Lexeme} (h : tokenize text = .ok ls) :
    (ParseState.ofLexemes ls).Unsigned := by
  have hall := Lexer.isUnsigned_of_tokensFrom h
  refine List.forall_mem_cons.mpr ⟨?_, fun l hl => hall l (List.dropLast_subset ls hl)⟩
  cases ls with
  | nil => nofun
  | cons l rest => exact hall _ (by simp [ParseState.ofLexemes, List.getLastD])

/-- A parsed program is told by its text. -/
theorem told_of_parse {text : String} {src : Source} (h : parse text = .ok src) :
    Told Program.shape src.program := by
  obtain ⟨ls, s', htokens, hrun, -⟩ := exists_run_of_tokens h
  exact (Parser.tells_program _ _ _ _ (unsigned_ofLexemes htokens) hrun).2

end EsOptimizer
