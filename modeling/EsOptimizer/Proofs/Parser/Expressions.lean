import EsOptimizer.Proofs.Parser.Reads

/-!
# Reading expressions

One lemma for each kind of expression: if its parts are read, so is the whole. An expression is
`Readable` if its marks are read at its own strength, which parentheses make the strongest of all.
-/

namespace EsOptimizer

/-- How strong an expression is for the parser. Behind `new`, one that starts at a call would lose
its arguments, and an assignment operator behind a conditional would belong to its last part. -/
def Expr.reach : Expr → Nat
  | .cond _ _ _ _ => 1
  | e => if e.startsAtCall then 16 else e.strength

theorem Expr.reach_le_strength {e : Expr} {k : Nat} (hk : k ≤ e.strength) (h2 : k ≠ 2)
    (hcall : e.startsAtCall = true → k ≤ 16) : k ≤ e.reach := by
  unfold reach
  split
  · have hle : k ≤ 2 := hk
    omega
  · split
    · exact hcall ‹_›
    · exact hk

/-- Only calls are as strong as calls. -/
theorem Expr.startsAtCall_of_strength {e : Expr} (h : e.strength = 16) : e.startsAtCall = true := by
  cases e with
  | call => rfl
  | binary id op =>
    have hweak : 2 + op.precedence = 16 := h
    have hprec := op.precedence_bounds
    omega
  | update id op before => cases before <;> cases h
  | _ => cases h

namespace Parser

open Piece Printer
open ParseContext (Ends)

variable {ctx : ParseContext} {b b' b'' noIn calls : Bool} {ms ms' rest out : List Mark}
  {e a arg left right obj key test yes no callee : Expr} {id : NodeId} {k : Nat} {Q : Expr → Prop}

/-- The printed expression is read at its own strength, unless it is an `in` test that needs
parentheses. -/
def Readable (e : Expr) : Prop :=
  ∀ b noIn, (noIn && e.isIn) = false → Reads (marks b (e.pieces noIn)) noIn e e.reach

theorem Allows.allowIn : Allows ctx.allowIn noIn := nofun

/-! ## Primary expressions -/

theorem ReadsChain.ofPrimary (hnew : ∀ rest, (Mark.next (ms ++ rest)).token ≠ .kw .new)
    (h : ∀ ctx rest, Allows ctx noIn →
      ParsesWithin 2 (primaryExpr · ctx) (ms ++ rest) rest (·.SpelledBy e)) :
    ReadsChain ms noIn e calls := by
  intro ctx rest out Q hctx hrest
  refine .step fun d hd => ?_
  rw [chainExpr]
  refine .sees ?_
  rw [if_neg (by simpa using hnew rest)]
  refine (h ctx rest hctx d hd).bind fun a ha => hrest a ha d ?_
  simp at hd
  omega

/-- A primary expression is of the strongest kind. -/
theorem Reads.ofPrimary {t : Token} (hnext : ∀ rest, (Mark.next (ms ++ rest)).token = t)
    (hnew : t ≠ .kw .new) (hstart : t.isPrefix = false) (hk : 17 ≤ k)
    (h : ∀ ctx rest, Allows ctx noIn →
      ParsesWithin 2 (primaryExpr · ctx) (ms ++ rest) rest (·.SpelledBy e)) :
    Reads ms noIn e k := by
  have hchain (calls : Bool) : ReadsChain ms noIn e calls :=
    .ofPrimary (fun rest => hnext rest ▸ hnew) h
  exact .ofChain (hchain true) (by omega) (fun _ => hchain false) fun rest => hnext rest ▸ hstart

/-- A primary expression of one token. -/
theorem Reads.ofToken {t : Token} (hnew : t ≠ .kw .new) (hstart : t.isPrefix = false)
    (hk : 17 ≤ k)
    (h : ∀ ctx rest d, Parses (primaryExpr (d + 1) ctx) (⟨t, b⟩ :: rest) rest (·.SpelledBy e)) :
    Reads [⟨t, b⟩] noIn e k :=
  .ofPrimary (fun _ => rfl) hnew hstart hk fun ctx rest _ => .step fun d _ => h ctx rest d

theorem readable_this : Readable (.this id) := fun b noIn _ => by
  simp only [Expr.pieces, keyword, marks, Token.ofText_words]
  refine .ofToken (by decide) rfl (show 17 ≤ 18 by decide) fun ctx rest d => ?_
  rw [primaryExpr]
  exact .peek (.advance (.newId fun id => .pure rfl))

theorem readable_null : Readable (.null id) := fun b noIn _ => by
  simp only [Expr.pieces, keyword, marks, Token.ofText_words]
  refine .ofToken (by decide) rfl (show 17 ≤ 18 by decide) fun ctx rest d => ?_
  rw [primaryExpr]
  exact .peek (.advance (.newId fun id => .pure rfl))

theorem readable_bool {value : Bool} : Readable (.bool id value) := fun b noIn _ => by
  cases value <;>
  · simp only [Expr.pieces, keyword, Bool.false_eq_true, if_true, if_false, marks,
      Token.ofText_words]
    refine .ofToken (by decide) rfl (show 17 ≤ 18 by decide) fun ctx rest d => ?_
    rw [primaryExpr]
    exact .peek (.advance (.newId fun id => .pure rfl))

theorem readable_string {value : String} : Readable (.string id value) := fun b noIn _ => by
  simp only [Expr.pieces, marks, Token.ofText_quoted]
  refine .ofToken (by simp [Token.kw]) rfl (show 17 ≤ 18 by decide) fun ctx rest d => ?_
  rw [primaryExpr]
  exact .peek (.advance (.newId fun id => .pure rfl))

theorem readable_number {value : Number} (h : value.isUnsigned = true) :
    Readable (.number id value) := fun b noIn _ => by
  simp only [Expr.pieces, marks, Token.ofText_number h]
  refine .ofToken (by simp [Token.kw]) rfl (show 17 ≤ 18 by decide) fun ctx rest d => ?_
  rw [primaryExpr]
  exact .peek (.advance (.newId fun id => .pure rfl))

theorem readable_ident {i : Ident} (hname : Text.isName i.name = true) : Readable (.ident i) :=
  fun b noIn _ => by
  simp only [Expr.pieces, identPieces, marks, Token.ofText_name hname]
  refine .ofToken (by simp [Token.kw]) rfl (show 17 ≤ 18 by decide) fun ctx rest d => ?_
  rw [primaryExpr]
  exact .peek (.ident rfl fun id => .pure rfl)

/-! ## Parentheses and operands -/

/-- In parentheses, an expression may stand anywhere. -/
theorem reads_parens {noIn' : Bool} (h : ReadsExpr ms noIn' e) (hk : 17 ≤ k) :
    Reads (⟨.punct .lparen, b⟩ :: (ms ++ [⟨.punct .rparen, b'⟩])) noIn e k := by
  refine .ofPrimary (fun _ => rfl) (by decide) rfl hk fun ctx rest _ => .step fun d hd => ?_
  rw [primaryExpr]
  simp only [List.cons_append, List.append_assoc, List.nil_append] at hd ⊢
  refine .peek (.advance ?_)
  refine (h .allowIn (.close (.inl rfl)) d ?_).bind fun a ha => .expect rfl (.pure ha)
  simp at hd ⊢
  omega

/-- An operand is read as its place asks. -/
theorem Readable.inPlace (h : Readable e) (b noIn : Bool) (k : Nat)
    (hk : k ≤ 16 ∧ k ≠ 2 ∨ k = 17 ∧ e.startsAtCall = false) :
    ∃ k', k ≤ k' ∧ (k = 16 → e.startsAtCall = false → 17 ≤ k') ∧
      Reads (marks b (operand e noIn k e.pieces)) noIn e k' := by
  unfold operand
  split
  · refine ⟨18, by omega, by omega, ?_⟩
    rw [marks_parens]
    exact reads_parens (h false false (Bool.false_and _)).expr (by decide)
  · rename_i hstrong
    simp only [Bool.or_eq_true, decide_eq_true_eq, not_or, Bool.not_eq_true] at hstrong
    have hle : k ≤ e.strength := Nat.le_of_not_lt hstrong.1
    refine ⟨e.reach, Expr.reach_le_strength hle (by omega) fun hcall => ?_, fun hk hcall => ?_,
      h b noIn hstrong.2⟩
    · rcases hk with hk | hk
      · exact hk.1
      · rw [hcall] at hk
        cases hk.2
    · have hne : e.strength ≠ 16 := fun h => by
        rw [Expr.startsAtCall_of_strength h] at hcall
        cases hcall
      have hlt : 17 ≤ e.strength := by
        subst hk
        exact Nat.lt_of_le_of_ne hle (Ne.symm hne)
      refine Expr.reach_le_strength hlt (by decide) fun h => ?_
      rw [hcall] at h
      cases h

namespace Readable

theorem sequence (h : Readable e) :
    ReadsExpr (marks b (operand e noIn .sequence e.pieces)) noIn e :=
  have ⟨_, _, _, hreads⟩ := h.inPlace _ _ 0 (.inl ⟨by decide, by decide⟩)
  hreads.expr

theorem assign (h : Readable e) :
    ReadsAssign (marks b (operand e noIn .assign e.pieces)) noIn e :=
  have ⟨_, hk, _, hreads⟩ := h.inPlace _ _ 1 (.inl ⟨by decide, by decide⟩)
  hreads.assign hk

theorem binary (h : Readable e) (b noIn : Bool) (prec : Nat) (hprec : 1 ≤ prec ∧ prec ≤ 11) :
    ∃ k, 2 + prec ≤ k ∧ ReadsBinary (marks b (operand e noIn (.binary prec) e.pieces)) noIn e k :=
  have ⟨k, hk, _, hreads⟩ := h.inPlace _ _ (2 + prec) (.inl ⟨by omega, by omega⟩)
  ⟨k, hk, hreads.binary⟩

theorem unary (h : Readable e) : ReadsUnary (marks b (operand e noIn .unary e.pieces)) noIn e :=
  have ⟨_, hk, _, hreads⟩ := h.inPlace _ _ 14 (.inl ⟨by decide, by decide⟩)
  hreads.unary hk

theorem updated (h : Readable e) : ReadsUnary (marks b (operand e noIn .updated e.pieces)) noIn e :=
  have ⟨_, hk, _, hreads⟩ := h.inPlace _ _ 15 (.inl ⟨by decide, by decide⟩)
  hreads.unary (by omega)

theorem target (h : Readable e) : ReadsCond (marks b (operand e noIn .call e.pieces)) noIn e :=
  have ⟨_, hk, _, hreads⟩ := h.inPlace _ _ 16 (.inl ⟨by decide, by decide⟩)
  hreads.cond (by omega)

/-- What is accessed or called. -/
theorem chain (h : Readable e) (hcall : calls = true ∨ e.startsAtCall = false) :
    ReadsChain (marks b (operand e noIn .call e.pieces)) noIn e calls := by
  obtain ⟨k, hk, hmember, hreads⟩ := h.inPlace b noIn 16
    (.inl ⟨by decide, by decide⟩)
  cases calls with
  | true => exact hreads.call hk
  | false => exact hreads.member (hmember rfl (hcall.resolve_left Bool.false_ne_true))

/-- What stands behind `new`. -/
theorem member (h : Readable e) (hcall : e.startsAtCall = false) :
    ReadsChain (marks b (operand e noIn .member e.pieces)) noIn e false :=
  have ⟨_, hk, _, hreads⟩ := h.inPlace _ _ 17 (.inr ⟨rfl, hcall⟩)
  hreads.member hk

end Readable

/-! ## Operators -/

theorem readable_unary {op : UnaryOp} (h : Readable arg) : Readable (.unary id op arg) := by
  intro b noIn _
  refine .ofUnary fun ctx rest hctx hends => .step fun d hd => ?_
  simp only [Expr.pieces, marks, Token.ofText_unary, List.cons_append] at hd ⊢
  have hoperand : ParsesWithin 0 (unaryOperand · ctx op)
      (⟨.ofUnary op, b⟩ :: (marks false (operand arg noIn .unary arg.pieces) ++ rest)) rest
      (·.SpelledBy (.unary id op arg)) := by
    intro d hd
    obtain ⟨d, rfl⟩ : ∃ k, d = k + 1 := ⟨d - 1, by simp at hd; omega⟩
    show Parses (unaryOperand (d + 1) ctx op) _ _ _
    rw [unaryOperand]
    refine .advance ((h.unary hctx hends d (by simp at hd ⊢; omega)).bind fun a ha => ?_)
    exact .newId fun id' => .pure (congrArg (Expr.unary 0 op) ha)
  rw [unaryExpr]
  refine .peek ?_
  cases op <;> exact hoperand d (by omega)

theorem readable_prefix {op : UpdateOp} (h : Readable arg) (htarget : arg.isTarget = true) :
    Readable (.update id op true arg) := by
  intro b noIn _
  refine .ofUnary fun ctx rest hctx hends => .step fun d hd => ?_
  simp only [Expr.pieces, marks, Token.ofText_update, List.cons_append] at hd ⊢
  have hoperand : ParsesWithin 0 (updateOperand · ctx op)
      (⟨.ofUpdate op, b⟩ :: (marks false (operand arg noIn .updated arg.pieces) ++ rest)) rest
      (·.SpelledBy (.update id op true arg)) := by
    intro d hd
    obtain ⟨d, rfl⟩ : ∃ k, d = k + 1 := ⟨d - 1, by simp at hd; omega⟩
    show Parses (updateOperand (d + 1) ctx op) _ _ _
    rw [updateOperand]
    refine .advance (.position fun pos => ?_)
    refine (h.updated hctx hends d (by simp at hd ⊢; omega)).bind fun a ha => ?_
    rw [if_pos (ha.isTarget.trans htarget)]
    exact .newId fun id' => .pure (congrArg (Expr.update 0 op true) ha)
  rw [unaryExpr]
  refine .peek ?_
  cases op <;> exact hoperand d (by omega)

theorem readable_binary {op : BinaryOp} (hleft : Readable left) (hright : Readable right) :
    Readable (.binary id op left right) := by
  intro b noIn hin
  have hprec := op.precedence_bounds
  refine .ofBinary (k := 2 + op.precedence) (fun ctx least rest out Q hctx hleast hends hrest => ?_)
    (by omega)
  simp only [Expr.pieces, marks_append, marks, Token.ofText_binary, List.append_assoc,
    List.cons_append, List.nil_append]
  obtain ⟨k, hk, hreads⟩ := hleft.binary b noIn op.precedence (by omega)
  refine hreads hctx (by omega) (.ofBinary (by omega)) fun a ha => .step fun d hd => ?_
  have hop : ctx.operator? (.ofBinary op) = some op := by
    cases op <;> try rfl
    -- `in` is an operator here.
    have hallowed : ctx.noIn = false := by
      cases hc : ctx.noIn with
      | false => rfl
      | true =>
        rw [hctx hc] at hin
        cases hin
    simp [Token.ofBinary, Token.kw, ParseContext.operator?, hallowed]
  rw [binaryRest]
  refine .operator ?_
  rw [Mark.next_cons, hop]
  dsimp only
  rw [if_neg (by omega)]
  refine .advance ?_
  obtain ⟨k', hk', hreads'⟩ := hright.binary _ noIn (op.precedence + 1) (by omega)
  refine (hreads' hctx (by omega) (hends.mono (by omega))
    (fun r hr => parses_binaryRest_end hends (by omega) hr) d (by simp at hd ⊢; omega)).bind
      fun r hr => .newId fun id' => hrest _ ?_ d (by simp at hd ⊢; omega)
  exact congrArg₂ (Expr.binary 0 op) ha hr

theorem readable_assign {op : AssignOp} (hleft : Readable left) (htarget : left.isTarget = true)
    (hright : Readable right) : Readable (.assign id op left right) := by
  intro b noIn _
  refine .ofAssign fun ctx rest hctx hends => .step fun d hd => ?_
  simp only [Expr.pieces, marks_append, marks, Token.ofText_assign, List.append_assoc,
    List.cons_append, List.nil_append] at hd ⊢
  rw [assignExpr]
  refine .position fun pos => ?_
  refine (hleft.target hctx (.ofAssign (by decide)) d (by simp at hd ⊢; omega)).bind
    fun a ha => .peek ?_
  dsimp only [Mark.next_cons]
  rw [if_pos (ha.isTarget.trans htarget)]
  refine .advance ((hright.assign hctx hends d (by simp at hd ⊢; omega)).bind fun r hr => ?_)
  exact .newId fun id' => .pure (congrArg₂ (Expr.assign 0 op) ha hr)

theorem readable_cond (htest : Readable test) (hyes : Readable yes) (hno : Readable no) :
    Readable (.cond id test yes no) := by
  intro b noIn _
  refine .ofAssign fun ctx rest hctx hends => ?_
  simp only [Expr.pieces, marks_append, marks, Token.ofText_punctuation, List.append_assoc,
    List.cons_append, List.nil_append]
  refine ParsesWithin.toAssign (.step fun d hd => ?_) hends
  rw [condExpr]
  obtain ⟨k, hk, hreads⟩ := htest.binary b noIn 1 (by decide)
  refine (hreads hctx (by omega) (.ofQuestion (by omega))
    (fun a ha => parses_binaryRest_end (.ofQuestion (k := 3) (by decide)) (by decide) ha) d
    (by simp at hd ⊢; omega)).bind fun a ha => .eat rfl ?_
  rw [if_pos rfl]
  refine (hyes.assign .allowIn (.close (by simp)) d (by simp at hd ⊢; omega)).bind
    fun y hy => .expect rfl ?_
  refine (hno.assign hctx hends d (by simp at hd ⊢; omega)).bind fun n hn => ?_
  refine .newId fun id' => .pure ?_
  change Expr.cond 0 _ _ _ = Expr.cond 0 _ _ _
  rw [show a.shape false = _ from ha, show y.shape false = _ from hy, show n.shape false = _ from hn]

/-! ## Lists -/

/-- An expression whose marks are read, and begin as the parser asks. -/
structure Printed (e : Expr) : Prop where
  reads : Readable e
  opens : ∀ b noIn, Mark.Opens b e.startsLikeStmt (16 ≤ e.strength) (marks b (e.pieces noIn))

/-- An operand is not the end of anything. -/
theorem Printed.opensExpr (h : Printed e) (rest : List Mark) :
    (Mark.next (marks b (operand e noIn k e.pieces) ++ rest)).token.opensExpr = true := by
  obtain ⟨t, hnext, hopens, -⟩ := (opens_operand k noIn (h.opens b)).next rest
  rw [hnext]
  exact hopens

theorem Printed.ne {t : Token} (h : Printed e) (ht : t.opensExpr = false) (rest : List Mark) :
    (Mark.next (marks b (operand e noIn k e.pieces) ++ rest)).token ≠ t :=
  Token.ne_of_opensExpr (h.opensExpr rest) ht

theorem parses_commaExprs_end (hends : ctx.Ends 0 (Mark.next rest).token) :
    ParsesWithin 1 (commaExprs · ctx) rest rest (· = []) := by
  refine .step fun d hd => ?_
  rw [commaExprs]
  refine .leave (hends.comma rfl) ?_
  rw [if_neg Bool.false_ne_true]
  exact .pure rfl

/-- More members of a sequence. -/
theorem parses_commaExprs (hctx : Allows ctx noIn) (hends : ctx.Ends 0 (Mark.next rest).token) :
    (es : List Expr) → (hne : es ≠ []) → (∀ e ∈ es, Printed e) → (b b' : Bool) →
    ParsesWithin 1 (commaExprs · ctx)
      (⟨.punct .comma, b⟩ :: (marks b' (commas (memberPieces es noIn)) ++ rest)) rest
      (fun as => exprShapes false as = exprShapes true es)
  | [], hne, _, _, _ => absurd rfl hne
  | [e], _, hes, b, b' => by
    refine .step fun d hd => ?_
    have he := hes e List.mem_cons_self
    simp only [memberPieces, commas] at hd ⊢
    rw [commaExprs]
    refine .eat rfl ?_
    rw [if_pos rfl]
    refine (he.reads.assign hctx (hends.mono (by decide)) d (by simp at hd ⊢; omega)).bind
      fun a ha => ?_
    refine (parses_commaExprs_end hends d (by simp at hd ⊢; omega)).bind fun as has => .pure ?_
    rw [has]
    exact congrArg (· :: []) ha
  | e :: e' :: es, _, hes, b, b' => by
    refine .step fun d hd => ?_
    have he := hes e List.mem_cons_self
    simp only [memberPieces, marks_commas, List.append_assoc, List.cons_append] at hd ⊢
    rw [commaExprs]
    refine .eat rfl ?_
    rw [if_pos rfl]
    refine (he.reads.assign hctx (.ofComma (by decide)) d (by simp at hd ⊢; omega)).bind
      fun a ha => ?_
    have hrest := parses_commaExprs hctx hends (e' :: es) (List.cons_ne_nil _ _)
      (fun e he => hes e (List.mem_cons_of_mem _ he))
    simp only [memberPieces] at hrest
    refine (hrest _ _ d (by simp at hd ⊢; omega)).bind fun as has => .pure ?_
    exact congrArg₂ List.cons ha has

theorem readable_seq {es : List Expr} (hlength : 2 ≤ es.length) (hes : ∀ e ∈ es, Printed e) :
    Readable (.seq id es) := by
  intro b noIn _
  match es with
  | e :: e' :: es =>
    refine .ofExpr fun ctx rest hctx hends => .step fun d hd => ?_
    have he := hes e List.mem_cons_self
    have hmore := parses_commaExprs hctx hends (e' :: es) (List.cons_ne_nil _ _)
      (fun e he => hes e (List.mem_cons_of_mem _ he))
    simp only [memberPieces] at hmore
    simp only [Expr.pieces, memberPieces, marks_commas, List.append_assoc, List.cons_append] at hd ⊢
    rw [Parser.expr]
    refine (he.reads.assign hctx (.ofComma (by decide)) d (by simp at hd ⊢; omega)).bind
      fun a ha => .sees ?_
    rw [if_pos (by simp)]
    refine (hmore _ _ d (by simp at hd ⊢; omega)).bind fun as has => .newId fun id' => .pure ?_
    exact congrArg (Expr.seq 0) (congrArg₂ List.cons ha has)

/-- Arguments, and the parenthesis behind them. -/
theorem parses_argumentsToParen : (es : List Expr) → (∀ e ∈ es, Printed e) → (b b' : Bool) →
    ParsesWithin 9 (argumentsToParen · ctx)
      (marks b (commas (argPieces es)) ++ ⟨.punct .rparen, b'⟩ :: rest) rest
      (fun as => exprShapes false as = exprShapes true es)
  | [], _, b, b' => by
    refine .step fun d hd => ?_
    rw [argumentsToParen]
    refine .eat rfl ?_
    rw [if_pos rfl]
    exact .pure rfl
  | [e], hes, b, b' => by
    refine .step fun d hd => ?_
    have he := hes e List.mem_cons_self
    simp only [argPieces, commas] at hd ⊢
    rw [argumentsToParen]
    refine .leave (he.ne rfl _) ?_
    rw [if_neg Bool.false_ne_true]
    refine (he.reads.assign .allowIn (.close (.inl rfl)) d (by simp at hd ⊢; omega)).bind
      fun a ha => .leave (by simp) ?_
    rw [if_neg Bool.false_ne_true]
    exact .expect rfl (.pure (congrArg (· :: []) ha))
  | e :: e' :: es, hes, b, b' => by
    refine .step fun d hd => ?_
    have he := hes e List.mem_cons_self
    simp only [argPieces, marks_commas, List.append_assoc, List.cons_append] at hd ⊢
    rw [argumentsToParen]
    refine .leave (he.ne rfl _) ?_
    rw [if_neg Bool.false_ne_true]
    refine (he.reads.assign .allowIn (.ofComma (by decide)) d (by simp at hd ⊢; omega)).bind
      fun a ha => .eat rfl ?_
    rw [if_pos rfl]
    have hrest := parses_argumentsToParen (e' :: es)
      (fun e he => hes e (List.mem_cons_of_mem _ he))
    simp only [argPieces] at hrest
    refine (hrest _ _ d (by simp at hd ⊢; omega)).bind fun as has => .pure ?_
    exact congrArg₂ List.cons ha has

/-- Arguments in parentheses. -/
theorem parses_arguments {es : List Expr} (hes : ∀ e ∈ es, Printed e) :
    ParsesWithin 1 (Parser.arguments · ctx)
      (⟨.punct .lparen, b⟩ :: (marks false (commas (argPieces es)) ++ ⟨.punct .rparen, b'⟩ :: rest))
      rest (fun as => exprShapes false as = exprShapes true es) := by
  refine .step fun d hd => ?_
  rw [Parser.arguments]
  exact .expect rfl (parses_argumentsToParen es hes _ _ d (by simp at hd ⊢; omega))

/-! ## Accesses and calls -/

/-- An expression of which accesses and calls begin. One that starts at a call is no callee of
`new`. -/
theorem readable_of_chain
    (h : ∀ b noIn calls, (calls = true ∨ e.startsAtCall = false) →
      ReadsChain (marks b (e.pieces noIn)) noIn e calls)
    (hopens : ∀ b noIn, Mark.Opens b e.startsLikeStmt (16 ≤ e.strength) (marks b (e.pieces noIn)))
    (hstrong : 16 ≤ e.strength) (hreach : e.reach = if e.startsAtCall then 16 else 17) :
    Readable e := by
  intro b noIn _
  have hle : 16 ≤ e.reach := by
    rw [hreach]
    split <;> decide
  refine .ofChain (h b noIn true (.inl rfl)) hle (fun hk => h b noIn false (.inr ?_))
    fun rest => ?_
  · by_contra hcall
    rw [hreach, if_pos (by simpa using hcall)] at hk
    exact absurd hk (by decide)
  · obtain ⟨t, hnext, -, hchain, -⟩ := (hopens b noIn).next rest
    rw [hnext]
    exact Token.isPrefix_of_opensChain (hchain hstrong)

/-- What stands in front of a point or a bracket. A number needs parentheses. -/
theorem reads_object (h : Readable obj) (hcall : calls = true ∨ obj.startsAtCall = false) :
    ReadsChain (marks b (if obj.isNumber then parens (obj.pieces noIn)
      else operand obj noIn .call obj.pieces)) noIn obj calls := by
  split
  · rename_i hnumber
    have hin : (noIn && obj.isIn) = false := by
      cases obj <;> first | exact Bool.and_false _ | cases hnumber
    rw [marks_parens]
    cases calls with
    | true => exact (reads_parens (h false noIn hin).expr (Nat.le_refl 17)).call (by decide)
    | false => exact (reads_parens (h false noIn hin).expr (Nat.le_refl 17)).member (Nat.le_refl 17)
  · exact h.chain hcall

theorem reads_member {name : Ident} (hname : Text.isWord name.name = true) (hobj : Readable obj)
    (hcall : calls = true ∨ obj.startsAtCall = false) :
    ReadsChain (marks b ((Expr.member id obj name).pieces noIn)) noIn (.member id obj name) calls := by
  intro ctx rest out Q hctx hrest
  simp only [Expr.pieces, marks_append, marks, Token.ofText_punctuation, identPieces,
    Token.ofText_word hname, List.append_assoc, List.cons_append, List.nil_append]
  refine reads_object hobj hcall hctx fun a ha => .step fun d hd => ?_
  rw [chainRest]
  refine .peek (.advance (.identName rfl fun i => .newId fun id' => ?_))
  refine hrest _ ?_ d (by simp at hd ⊢; omega)
  change Expr.member 0 _ ⟨0, _⟩ = Expr.member 0 _ ⟨0, _⟩
  rw [show a.shape false = _ from ha, Word.text_ofText]

theorem reads_index (hobj : Readable obj) (hkey : Readable key)
    (hcall : calls = true ∨ obj.startsAtCall = false) :
    ReadsChain (marks b ((Expr.index id obj key).pieces noIn)) noIn (.index id obj key) calls := by
  intro ctx rest out Q hctx hrest
  simp only [Expr.pieces, marks_append, marks, Token.ofText_punctuation, List.append_assoc,
    List.cons_append, List.nil_append]
  refine reads_object hobj hcall hctx fun a ha => .step fun d hd => ?_
  rw [chainRest]
  refine .peek (.advance ?_)
  refine (hkey.sequence .allowIn (.close (by simp)) d (by simp at hd ⊢; omega)).bind
    fun k hk => .expect rfl (.newId fun id' => ?_)
  refine hrest _ ?_ d (by simp at hd ⊢; omega)
  exact congrArg₂ (Expr.index 0) ha hk

theorem reads_call {args : List Expr} (hcallee : Readable callee) (hargs : ∀ e ∈ args, Printed e) :
    ReadsChain (marks b ((Expr.call id callee args).pieces noIn)) noIn (.call id callee args)
      true := by
  intro ctx rest out Q hctx hrest
  simp only [Expr.pieces, marks_append, marks_parens, List.append_assoc, List.cons_append,
    List.nil_append]
  refine hcallee.chain (.inl rfl) hctx fun a ha => .step fun d hd => ?_
  rw [chainRest]
  refine .peek ?_
  dsimp only [Mark.next_cons]
  rw [if_pos rfl]
  refine (parses_arguments hargs d ?_).bind fun as has => .newId fun id' => hrest _ ?_ d ?_
  · simp at hd ⊢
    omega
  · exact congrArg₂ (Expr.call 0) ha has
  · simp at hd ⊢
    omega

/-- Where calls are left alone, arguments end a chain. -/
theorem parses_chainRest_arguments {P : Expr → Prop} (ha : P a) :
    ParsesWithin 2 (chainRest · ctx false a) (⟨.punct .lparen, b⟩ :: rest)
      (⟨.punct .lparen, b⟩ :: rest) P := by
  refine .step fun d hd => ?_
  rw [chainRest]
  refine .peek ?_
  dsimp only [Mark.next_cons]
  rw [if_neg Bool.false_ne_true]
  exact .pure ha

theorem reads_new {args : List Expr} (hcallee : Readable callee) (hargs : ∀ e ∈ args, Printed e) :
    ReadsChain (marks b ((Expr.new id callee args).pieces noIn)) noIn (.new id callee args)
      calls := by
  intro ctx rest out Q hctx hrest
  have hstand : ReadsChain (marks false (if callee.startsAtCall
      then parens (operand callee noIn .sequence callee.pieces)
      else operand callee noIn .member callee.pieces)) noIn callee false := by
    split
    · rw [marks_parens]
      exact (reads_parens hcallee.sequence (Nat.le_refl 17)).member (Nat.le_refl 17)
    · rename_i hcall
      exact hcallee.member (by simpa using hcall)
  simp only [Expr.pieces, marks_append, marks, Token.ofText_words, marks_parens, List.append_assoc,
    List.cons_append, List.nil_append]
  refine .step fun d hd => ?_
  rw [chainExpr]
  refine .sees ?_
  rw [if_pos (by simp)]
  obtain ⟨d, rfl⟩ : ∃ k, d = k + 1 := ⟨d - 1, by simp at hd; omega⟩
  refine Parses.bind (P := (·.SpelledBy (.new id callee args))) ?_
    fun a ha => hrest a ha _ (by simp at hd ⊢; omega)
  rw [newExpr]
  refine .expectKeyword rfl ((hstand hctx (fun a ha => parses_chainRest_arguments ha) d ?_).bind
    fun a ha => .sees ?_)
  · simp at hd ⊢
    omega
  rw [if_pos (by simp)]
  refine (parses_arguments hargs d ?_).bind fun as has => .newId fun id' => .pure ?_
  · simp at hd ⊢
    omega
  · exact congrArg₂ (Expr.new 0) ha has

/-- What can be assigned to ends on the line of its last token. -/
theorem endsLine_target (htarget : arg.isTarget = true) :
    endsLine b (operand arg noIn .call arg.pieces) = false := by
  cases arg with
  | ident | member | index =>
    simp [operand, Expr.strength, Expr.isIn, Strength.call, Strength.member, Strength.primary,
      Expr.pieces, identPieces]
  | _ => cases htarget

theorem readable_postfix {op : UpdateOp} (h : Printed arg) (htarget : arg.isTarget = true) :
    Readable (.update id op false arg) := by
  intro b noIn _
  have hopens := opens_operand .call noIn (h.opens b)
  simp only [Expr.pieces, marks_append, marks, Token.ofText_update, endsLine_target htarget]
  refine .ofUpdated (fun ctx rest hctx hends => .step fun d hd => ?_) fun rest => ?_
  · simp only [List.append_assoc, List.cons_append, List.nil_append] at hd ⊢
    rw [updatedExpr]
    have hchain : ParsesWithin 3 (chainExpr · ctx true)
        (marks b (operand arg noIn .call arg.pieces) ++ ⟨.ofUpdate op, false⟩ :: rest)
        (⟨.ofUpdate op, false⟩ :: rest) (·.SpelledBy arg) :=
      h.reads.chain (.inl rfl) hctx fun a ha =>
        parses_chainRest_end (k := 16) (.ofUpdate (by decide)) ha
    refine (hchain d hd).bind fun a ha => .peek (.sameLine rfl ?_)
    have hupdate : Parses (do
        unless a.isTarget do fail .invalidTarget
        advance
        return Expr.update (← newId) op false a) (⟨.ofUpdate op, false⟩ :: rest) rest
        (·.SpelledBy (.update id op false arg)) := by
      rw [if_pos (ha.isTarget.trans htarget)]
      exact .advance (.newId fun id' => .pure (congrArg (Expr.update 0 op false) ha))
    cases op <;> exact .bind (.pure rfl) fun op? hop? => by subst hop?; exact hupdate
  · obtain ⟨t, hnext, -, hchain, -⟩ := hopens.next ([⟨.ofUpdate op, false⟩] ++ rest)
    rw [List.append_assoc, hnext]
    exact Token.isPrefix_of_opensChain (hchain (Nat.le_refl 16))

/-! ## Array and object literals -/

/-- Behind the first element stands a comma, and then the elements begin again. -/
theorem marks_elemPieces (elems : List (Option Expr)) (b : Bool) :
    marks b (elemPieces elems false) =
      if elems.isEmpty then [] else ⟨.punct .comma, b⟩ :: marks false (elemPieces elems true) := by
  cases elems with
  | nil => rfl
  | cons e rest => cases e <;> simp [elemPieces]

theorem parses_elementsToBracket : (elems : List (Option Expr)) → (∀ e, some e ∈ elems → Printed e) →
    (b b' : Bool) → ParsesWithin 9 (elementsToBracket · ctx)
      (marks b (elemPieces elems true) ++ ⟨.punct .rbracket, b'⟩ :: rest) rest
      (fun as => elemShapes false as = elemShapes true elems)
  | [], _, b, b' => by
    refine .step fun d hd => ?_
    rw [elementsToBracket]
    refine .eat rfl ?_
    rw [if_pos rfl]
    exact .pure rfl
  | none :: elems, hes, b, b' => by
    refine .step fun d hd => ?_
    rw [elementsToBracket]
    have hrest (b : Bool) := parses_elementsToBracket elems
      (fun e he => hes e (List.mem_cons_of_mem _ he)) b b'
    -- A hole is a comma, at the end of the elements too.
    have hmarks : marks b (elemPieces (none :: elems) true) =
        ⟨.punct .comma, b⟩ :: marks false (elemPieces elems true) := by
      cases elems <;> simp [elemPieces, marks_elemPieces]
    rw [hmarks, List.cons_append] at hd ⊢
    refine .leave (by simp) ?_
    rw [if_neg Bool.false_ne_true]
    refine .eat rfl ?_
    rw [if_pos rfl]
    refine (hrest _ d (by simp at hd ⊢; omega)).bind fun as has => .pure ?_
    exact congrArg (none :: ·) has
  | some e :: elems, hes, b, b' => by
    refine .step fun d hd => ?_
    rw [elementsToBracket]
    have he := hes e List.mem_cons_self
    have hrest (b : Bool) := parses_elementsToBracket elems
      (fun e he => hes e (List.mem_cons_of_mem _ he)) b b'
    simp only [elemPieces, if_true, List.nil_append, marks_append, marks_elemPieces,
      List.append_assoc] at hd ⊢
    refine .leave (he.ne rfl _) ?_
    rw [if_neg Bool.false_ne_true]
    refine .leave (he.ne rfl _) ?_
    rw [if_neg Bool.false_ne_true]
    cases elems with
    | nil =>
      refine (he.reads.assign .allowIn (.close (by simp)) d (by simp at hd ⊢; omega)).bind
        fun a ha => .leave (by simp) ?_
      rw [if_neg Bool.false_ne_true]
      exact .expect rfl (.pure (congrArg (some · :: []) ha))
    | cons elem elems =>
      rw [List.isEmpty_cons, if_neg Bool.false_ne_true] at hd ⊢
      refine (he.reads.assign .allowIn (.ofComma (by decide)) d (by simp at hd ⊢; omega)).bind
        fun a ha => .eat rfl ?_
      rw [if_pos rfl]
      refine (hrest _ d (by simp at hd ⊢; omega)).bind fun as has => .pure ?_
      exact congrArg₂ (some · :: ·) ha has

theorem readable_array {elems : List (Option Expr)} (hes : ∀ e, some e ∈ elems → Printed e) :
    Readable (.array id elems) := by
  intro b noIn _
  simp only [Expr.pieces, marks_append, marks, Token.ofText_punctuation, List.cons_append]
  refine .ofPrimary (fun _ => rfl) (by decide) rfl (show 17 ≤ 18 by decide)
    fun ctx rest _ => .step fun d hd => ?_
  simp only [List.cons_append, List.append_assoc, List.nil_append] at hd ⊢
  rw [primaryExpr]
  refine .peek (.advance ?_)
  refine (parses_elementsToBracket elems hes _ _ d (by simp at hd ⊢; omega)).bind
    fun as has => .newId fun id' => .pure ?_
  exact congrArg (Expr.array 0) has

end Parser

end EsOptimizer
