import EsOptimizer.Proofs.Printer.Opens
import EsOptimizer.Proofs.Syntax.Shape

/-!
# Marks that are read as an expression

The parser has a function for each strength with which expressions bind, and each calls the one for
the next strength first. `Reads ms noIn k e` says what they make of the marks `ms` of an expression
`e` of strength `k`: those for weaker strengths return `e`, if the token behind ends such an
expression (`Ends`). Accesses and calls, and binary operators, group to the left: there the parser
goes on with what it has, so `chain` and `binary` say how, whatever comes of it.
-/

namespace EsOptimizer

/-- The binary operator that a token is where `in` may not be one. -/
def ParseContext.operator? (ctx : ParseContext) : Token → Option BinaryOp
  | .binary op => some op
  | .word (.keyword .in) => if ctx.noIn then none else some .in
  | .word (.keyword .instanceof) => some .instanceOf
  | _ => none

attribute [local simp] ParseContext.operator?

/-- An expression of strength `k` ends in front of the token. -/
structure ParseContext.Ends (ctx : ParseContext) (k : Nat) (t : Token) : Prop where
  chain : t ≠ .punct .dot ∧ t ≠ .punct .lbracket ∧ t ≠ .punct .lparen
  update : k ≤ 15 → t ≠ .punct .plusPlus ∧ t ≠ .punct .minusMinus
  operator : ∀ op, ctx.operator? t = some op → 2 + op.precedence < k
  question : k ≤ 2 → t ≠ .punct .question
  assign : k ≤ 1 → ∀ op, t ≠ .assign op
  comma : k = 0 → t ≠ .punct .comma

namespace ParseContext.Ends

variable {ctx : ParseContext} {k k' : Nat} {t : Token}

theorem mono (h : ctx.Ends k t) (hk : k ≤ k') : ctx.Ends k' t where
  chain := h.chain
  update := fun hk' => h.update (Nat.le_trans hk hk')
  operator := fun op hop => Nat.lt_of_lt_of_le (h.operator op hop) hk
  question := fun hk' => h.question (Nat.le_trans hk hk')
  assign := fun hk' => h.assign (Nat.le_trans hk hk')
  comma := fun hk' => h.comma (Nat.le_zero.mp (hk' ▸ hk))

/-- Closing marks end every expression. -/
theorem close {p : Punct}
    (hp : p = .rparen ∨ p = .rbracket ∨ p = .rbrace ∨ p = .semicolon ∨ p = .colon) :
    ctx.Ends k (.punct p) := by
  constructor <;> rcases hp with rfl | rfl | rfl | rfl | rfl <;> simp [operator?]

theorem ofComma (hk : 0 < k) : ctx.Ends k (.punct .comma) := by
  constructor <;> simp [operator?]
  omega

theorem ofQuestion (hk : 2 < k) : ctx.Ends k (.punct .question) := by
  constructor <;> simp [operator?]
  omega

theorem ofAssign {op : AssignOp} (hk : 1 < k) : ctx.Ends k (.assign op) := by
  constructor <;> simp [operator?]
  omega

theorem ofUpdate {op : UpdateOp} (hk : 15 < k) : ctx.Ends k (.ofUpdate op) := by
  constructor <;> cases op <;> simp [operator?, Token.ofUpdate] <;> omega

theorem ofBinary {op : BinaryOp} (hk : 2 + op.precedence < k) : ctx.Ends k (.ofBinary op) := by
  refine ⟨?_, fun _ => ?_, fun op' hop => ?_, fun _ => ?_, fun _ => ?_, fun _ => ?_⟩
  case refine_3 =>
    have hsame : op' = op := by
      revert hop
      cases op <;> simp only [Token.ofBinary, Token.kw, operator?] <;> grind
    exact hsame ▸ hk
  all_goals cases op <;> simp [Token.ofBinary, Token.kw]

/-- In the head of a loop, `in` ends every expression. -/
theorem ofIn (h : ctx.noIn = true) : ctx.Ends k (.kw .in) := by
  constructor <;> simp [operator?, Token.kw, h]

end ParseContext.Ends

namespace Parser

open ParseContext (Ends)

variable {α β : Type} {ctx : ParseContext} {ms rest out : List Mark} {P Q : Expr → Prop}
  {noIn : Bool} {a e : Expr} {k : Nat}

theorem Parses.operator {f : Option BinaryOp → Parser β} {R : β → Prop}
    (h : Parses (f (ctx.operator? (Mark.next ms).token)) ms out R) :
    Parses (binaryOp? ctx >>= f) ms out R := by
  have hop : Parses (binaryOp? ctx) ms ms
      fun op? => op? = ctx.operator? (Mark.next ms).token := by
    refine peek ?_
    unfold ParseContext.operator?
    split <;> refine pure ?_ <;> simp only [*]
  exact hop.bind fun op? hop? => hop? ▸ h

/-! ## From one strength to the next -/

/-- A chain ends. -/
theorem parses_chainRest_end {calls : Bool} (hends : ctx.Ends k (Mark.next rest).token) (ha : P a) :
    ParsesWithin 2 (chainRest · ctx calls a) rest rest P := by
  refine .step fun d _ => ?_
  rw [chainRest]
  refine .peek ?_
  split
  · exact absurd ‹_› hends.chain.1
  · exact absurd ‹_› hends.chain.2.1
  · exact absurd ‹_› hends.chain.2.2
  · exact .pure ha

/-- Operators that bind too weakly are left alone. -/
theorem parses_binaryRest_end {least : Nat} (hends : ctx.Ends k (Mark.next rest).token)
    (hk : k ≤ least + 3) (ha : P a) : ParsesWithin 1 (binaryRest · ctx least a) rest rest P := by
  refine .step fun d _ => ?_
  rw [binaryRest]
  refine .operator ?_
  split
  · rename_i op hop
    have hweak := hends.operator op hop
    rw [if_pos (by omega)]
    exact .pure ha
  · exact .pure ha

theorem ParsesWithin.toUpdated (h : ParsesWithin 3 (chainExpr · ctx true) ms rest P)
    (hends : ctx.Ends 15 (Mark.next rest).token) :
    ParsesWithin 4 (updatedExpr · ctx) ms rest P := by
  refine .step fun d hd => ?_
  rw [updatedExpr]
  refine (h d hd).bind fun a ha => .peek (.afterLineEnd fun ended _ => ?_)
  extract_lets goOn
  split
  · exact absurd ‹_› (hends.update (Nat.le_refl _)).1
  · exact absurd ‹_› (hends.update (Nat.le_refl _)).2
  · exact .bind (.pure rfl) fun op? hop? => by subst hop?; exact .pure ha

theorem ParsesWithin.toUnary (h : ParsesWithin 4 (updatedExpr · ctx) ms rest P)
    (hopens : (Mark.next ms).token.isPrefix = false) :
    ParsesWithin 5 (unaryExpr · ctx) ms rest P := by
  refine .step fun d hd => ?_
  rw [unaryExpr]
  refine .peek ?_
  split
  case h_10 => exact h d hd
  all_goals
    rename_i htoken
    rw [htoken] at hopens
    cases hopens

theorem ParsesWithin.toBinary {least : Nat} (h : ParsesWithin 5 (unaryExpr · ctx) ms rest P)
    (hrest : ∀ a, P a → ParsesWithin 1 (binaryRest · ctx least a) rest out Q)
    (hlength : rest.length ≤ ms.length) :
    ParsesWithin 6 (binaryExpr · ctx least) ms out Q := by
  refine .step fun d hd => ?_
  rw [binaryExpr]
  exact (h d hd).bind fun a ha => hrest a ha d (by omega)

theorem ParsesWithin.toCond (h : ParsesWithin 6 (binaryExpr · ctx 0) ms rest P)
    (hends : ctx.Ends 2 (Mark.next rest).token) : ParsesWithin 7 (condExpr · ctx) ms rest P := by
  refine .step fun d hd => ?_
  rw [condExpr]
  exact (h d hd).bind fun a ha => .leave (hends.question (Nat.le_refl _)) (.pure ha)

theorem ParsesWithin.toAssign (h : ParsesWithin 7 (condExpr · ctx) ms rest P)
    (hends : ctx.Ends 1 (Mark.next rest).token) : ParsesWithin 8 (assignExpr · ctx) ms rest P := by
  refine .step fun d hd => ?_
  rw [assignExpr]
  refine .position fun pos => (h d hd).bind fun a ha => .peek ?_
  split
  · exact absurd ‹_› (hends.assign (Nat.le_refl _) _)
  · exact .pure ha

theorem ParsesWithin.toExpr (h : ParsesWithin 8 (assignExpr · ctx) ms rest P)
    (hends : ctx.Ends 0 (Mark.next rest).token) : ParsesWithin 9 (expr · ctx) ms rest P := by
  refine .step fun d hd => ?_
  rw [expr]
  refine (h d hd).bind fun a ha => .sees ?_
  rw [if_neg (by simpa using hends.comma rfl)]
  exact .pure ha

/-! ## Expressions by strength -/

/-- Marks that were printed where `in` may not be an operator can be read where it may. -/
def Allows (ctx : ParseContext) (noIn : Bool) : Prop := ctx.noIn = true → noIn = true

variable (ms noIn e)

/-- The parser of accesses, and of calls if `calls`, gets to `e` and goes on from there. -/
def ReadsChain (calls : Bool) : Prop :=
  ∀ ⦃ctx rest out⦄ ⦃Q : Expr → Prop⦄, Allows ctx noIn →
    (∀ a, a.SpelledBy e → ParsesWithin 2 (chainRest · ctx calls a) rest out Q) →
    ParsesWithin 3 (chainExpr · ctx calls) (ms ++ rest) out Q

def ReadsUpdated : Prop :=
  ∀ ⦃ctx rest⦄, Allows ctx noIn → ctx.Ends 15 (Mark.next rest).token →
    ParsesWithin 4 (updatedExpr · ctx) (ms ++ rest) rest (·.SpelledBy e)

def ReadsUnary : Prop :=
  ∀ ⦃ctx rest⦄, Allows ctx noIn → ctx.Ends 14 (Mark.next rest).token →
    ParsesWithin 5 (unaryExpr · ctx) (ms ++ rest) rest (·.SpelledBy e)

/-- The parser of operators that bind more strongly than some that are weaker than `k` gets to `e`
and goes on from there. -/
def ReadsBinary (k : Nat) : Prop :=
  ∀ ⦃ctx least rest out⦄ ⦃Q : Expr → Prop⦄, Allows ctx noIn → least + 3 ≤ k →
    ctx.Ends (min 14 (k + 1)) (Mark.next rest).token →
    (∀ a, a.SpelledBy e → ParsesWithin 1 (binaryRest · ctx least a) rest out Q) →
    ParsesWithin 6 (binaryExpr · ctx least) (ms ++ rest) out Q

def ReadsCond : Prop :=
  ∀ ⦃ctx rest⦄, Allows ctx noIn → ctx.Ends 2 (Mark.next rest).token →
    ParsesWithin 7 (condExpr · ctx) (ms ++ rest) rest (·.SpelledBy e)

def ReadsAssign : Prop :=
  ∀ ⦃ctx rest⦄, Allows ctx noIn → ctx.Ends 1 (Mark.next rest).token →
    ParsesWithin 8 (assignExpr · ctx) (ms ++ rest) rest (·.SpelledBy e)

def ReadsExpr : Prop :=
  ∀ ⦃ctx rest⦄, Allows ctx noIn → ctx.Ends 0 (Mark.next rest).token →
    ParsesWithin 9 (expr · ctx) (ms ++ rest) rest (·.SpelledBy e)

/-- The marks `ms` are read as `e` wherever an expression of strength `k` may stand. -/
structure Reads (k : Nat) : Prop where
  call : 16 ≤ k → ReadsChain ms noIn e true
  member : 17 ≤ k → ReadsChain ms noIn e false
  updated : 15 ≤ k → ReadsUpdated ms noIn e
  unary : 14 ≤ k → ReadsUnary ms noIn e
  binary : ReadsBinary ms noIn e k
  cond : 2 ≤ k → ReadsCond ms noIn e
  assign : 1 ≤ k → ReadsAssign ms noIn e
  expr : ReadsExpr ms noIn e

variable {ms noIn e}

theorem ReadsChain.updated (h : ReadsChain ms noIn e true) : ReadsUpdated ms noIn e :=
  fun _ _ hctx hends => (h hctx fun _ ha => parses_chainRest_end hends ha).toUpdated hends

theorem ReadsUpdated.unary (h : ReadsUpdated ms noIn e)
    (hopens : ∀ rest, (Mark.next (ms ++ rest)).token.isPrefix = false) : ReadsUnary ms noIn e :=
  fun _ _ hctx hends => (h hctx (hends.mono (by decide))).toUnary (hopens _)

theorem ReadsUnary.binary (h : ReadsUnary ms noIn e) (hk : 14 ≤ k) : ReadsBinary ms noIn e k := by
  intro ctx least rest out Q hctx _ hends hrest
  rw [show min 14 (k + 1) = 14 by omega] at hends
  exact (h hctx hends).toBinary hrest (by simp)

theorem ReadsBinary.cond (h : ReadsBinary ms noIn e k) (hk : 3 ≤ k) : ReadsCond ms noIn e := by
  intro ctx rest hctx hends
  have hbinary : ParsesWithin 6 (binaryExpr · ctx 0) (ms ++ rest) rest (·.SpelledBy e) :=
    h hctx hk (hends.mono (by omega)) fun a ha => parses_binaryRest_end hends (by omega) ha
  exact hbinary.toCond hends

theorem ReadsCond.assign (h : ReadsCond ms noIn e) : ReadsAssign ms noIn e :=
  fun _ _ hctx hends => (h hctx (hends.mono (by decide))).toAssign hends

theorem ReadsAssign.expr (h : ReadsAssign ms noIn e) : ReadsExpr ms noIn e :=
  fun _ _ hctx hends => (h hctx (hends.mono (by decide))).toExpr hends

namespace Reads

/-- A sequence. -/
theorem ofExpr (h : ReadsExpr ms noIn e) : Reads ms noIn e 0 where
  call := nofun
  member := nofun
  updated := nofun
  unary := nofun
  binary := fun _ _ _ _ _ _ hk => absurd hk (by omega)
  cond := nofun
  assign := nofun
  expr := h

/-- An assignment, or a conditional, whose last part may be one. -/
theorem ofAssign (h : ReadsAssign ms noIn e) : Reads ms noIn e 1 where
  call := fun hk => absurd hk (by decide)
  member := fun hk => absurd hk (by decide)
  updated := fun hk => absurd hk (by decide)
  unary := fun hk => absurd hk (by decide)
  binary := fun _ _ _ _ _ _ hk => absurd hk (by omega)
  cond := fun hk => absurd hk (by decide)
  assign := fun _ => h
  expr := h.expr

/-- A binary operator. -/
theorem ofBinary (h : ReadsBinary ms noIn e k) (hk : 3 ≤ k ∧ k < 14) : Reads ms noIn e k where
  call := fun hk' => absurd hk' (by omega)
  member := fun hk' => absurd hk' (by omega)
  updated := fun hk' => absurd hk' (by omega)
  unary := fun hk' => absurd hk' (by omega)
  binary := h
  cond := fun _ => h.cond hk.1
  assign := fun _ => (h.cond hk.1).assign
  expr := (h.cond hk.1).assign.expr

/-- An expression of one of the four strongest kinds. -/
theorem ofStrong (h : ReadsUnary ms noIn e) (hk : 14 ≤ k)
    (hupdated : 15 ≤ k → ReadsUpdated ms noIn e) (hcall : 16 ≤ k → ReadsChain ms noIn e true)
    (hmember : 17 ≤ k → ReadsChain ms noIn e false) : Reads ms noIn e k where
  call := hcall
  member := hmember
  updated := hupdated
  unary := fun _ => h
  binary := h.binary hk
  cond := fun _ => (h.binary hk).cond (by omega)
  assign := fun _ => ((h.binary hk).cond (by omega)).assign
  expr := ((h.binary hk).cond (by omega)).assign.expr

/-- A prefix operator. -/
theorem ofUnary (h : ReadsUnary ms noIn e) : Reads ms noIn e 14 :=
  ofStrong h (Nat.le_refl 14) (fun hk => absurd hk (by decide)) (fun hk => absurd hk (by decide))
    fun hk => absurd hk (by decide)

/-- An update behind its operand. -/
theorem ofUpdated (h : ReadsUpdated ms noIn e)
    (hopens : ∀ rest, (Mark.next (ms ++ rest)).token.isPrefix = false) : Reads ms noIn e 15 :=
  ofStrong (h.unary hopens) (by decide) (fun _ => h) (fun hk => absurd hk (by decide))
    fun hk => absurd hk (by decide)

/-- An access, a call, `new` or a primary expression. Only one without calls can stand behind
`new`. -/
theorem ofChain (h : ReadsChain ms noIn e true) (hk : 16 ≤ k)
    (hmember : 17 ≤ k → ReadsChain ms noIn e false)
    (hopens : ∀ rest, (Mark.next (ms ++ rest)).token.isPrefix = false) : Reads ms noIn e k :=
  ofStrong (h.updated.unary hopens) (by omega) (fun _ => h.updated) (fun _ => h) hmember

end Reads

end Parser

end EsOptimizer
