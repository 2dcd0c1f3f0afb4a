import EsOptimizer.Proofs.Printer.Spelling
import EsOptimizer.Proofs.Syntax.Legal

/-!
# How printed expressions begin

A tree can be written if each of its nodes is as the grammar asks, its names and numbers have a text,
and it has no slash, in front of which a text alone does not tell a division from a regular
expression (`AllWritable`). This is what printing and parsing is about.

The first token of a printed expression tells the parser which way to go, and it never is one at
which a list, a block or a statement ends. `Mark.Opens` collects what the parser asks of it.
-/

namespace EsOptimizer

/-! ## Trees that can be written -/

namespace Node

def isWritableKey : PropertyKey → Bool
  | .ident i => Text.isWord i.name
  | .number _ value => value.isUnsigned
  | .string _ _ | .computed _ => true

def isWritable : Node → Bool
  | .name i => Text.isName i.name
  | .expr (.number _ value) => value.isUnsigned
  | .expr (.binary _ op _ _) => op != .div
  | .expr (.assign _ op _ _) => op != .div
  | .expr (.regex _ _ _) | .expr (.invalid _) => false
  | .expr (.member _ _ i) => Text.isWord i.name
  | .expr (.object _ props) => props.all fun p => isWritableKey p.key
  | .stmt (.labeled _ label _) => Text.isName label.name
  | .stmt (.break _ label) | .stmt (.continue _ label) => label.all fun l => Text.isName l.name
  | _ => true

end Node

/-- Every node is as the grammar asks, and can be written. -/
def AllWritable (ns : List Node) : Prop := ∀ n ∈ ns, n.isLegal = true ∧ n.isWritable = true

section

variable {n : Node} {ns ms : List Node}

@[simp] theorem allWritable_nil : AllWritable [] := nofun

@[simp] theorem allWritable_cons : AllWritable (n :: ns) ↔
    (n.isLegal = true ∧ n.isWritable = true) ∧ AllWritable ns :=
  List.forall_mem_cons

@[simp] theorem allWritable_append :
    AllWritable (ns ++ ms) ↔ AllWritable ns ∧ AllWritable ms :=
  List.forall_mem_append

end

/-- Names that can be written are names. -/
theorem isName_of_writable {is : List Ident} (h : AllWritable (is.map .name)) :
    ∀ i ∈ is, Text.isName i.name = true := fun _ hi => (h _ (List.mem_map_of_mem hi)).2

theorem isName?_of_writable {name : Option Ident} (h : AllWritable (Node.name? name)) :
    ∀ i, name = some i → Text.isName i.name = true := by
  rintro i rfl
  exact (h _ List.mem_cons_self).2

/-! ## First tokens -/

namespace Token

/-- Whether an access, a call, `new` or a primary expression may begin with the token. -/
def opensChain : Token → Bool
  | .word (.keyword k) => k == .function || k == .this || k == .new
  | .word _ | .string _ | .number _ => true
  | .punct p => p == .lparen || p == .lbracket || p == .lbrace
  | _ => false

/-- Whether a prefix operator begins with the token. -/
def isPrefix : Token → Bool
  | .word (.keyword k) => k == .typeof || k == .void || k == .delete
  | .punct p => p == .bang || p == .tilde || p == .plusPlus || p == .minusMinus
  | .binary op => op == .add || op == .sub
  | _ => false

/-- Whether an expression may begin with the token. -/
def opensExpr (t : Token) : Bool := t.opensChain || t.isPrefix

/-- Whether a statement that begins with the token would not be an expression. -/
def opensStmt (t : Token) : Bool := t == .punct .lbrace || t == .kw .function

theorem ne_of_opensExpr {t u : Token} (h : t.opensExpr = true) (h' : u.opensExpr = false) :
    t ≠ u := by
  rintro rfl
  rw [h] at h'
  cases h'

/-- What begins an access, a call, `new` or a primary expression is no prefix operator. -/
theorem isPrefix_of_opensChain {t : Token} (h : t.opensChain = true) : t.isPrefix = false := by
  match t with
  | .word (.keyword k) => cases k <;> first | rfl | cases h
  | .word .null | .word .true | .word .false | .word (.ident _) | .string _ | .number _ => rfl
  | .punct p => cases p <;> first | rfl | cases h

def isIdent : Token → Bool
  | .word (.ident _) => true
  | _ => false

/-- A prefix operator begins no other statement, and is no name. -/
theorem IsPrefix.plain {t : Token} (h : t.isPrefix = true) :
    t.opensStmt = false ∧ t.isIdent = false := by
  match t with
  | .word (.keyword k) => cases k <;> first | exact ⟨rfl, rfl⟩ | cases h
  | .punct p => cases p <;> first | exact ⟨rfl, rfl⟩ | cases h
  | .binary _ => exact ⟨rfl, rfl⟩

end Token

/-- Marks that begin an expression: `chain` if it is an access, a call, `new` or primary. The token
behind a name is no colon, which would make it a label. -/
def Mark.Opens (b : Bool) (likeStmt : Bool) (chain : Prop) (ms : List Mark) : Prop :=
  ∃ t rest, ms = ⟨t, b⟩ :: rest ∧ t.opensExpr = true ∧ (chain → t.opensChain = true) ∧
    (likeStmt = false → t.opensStmt = false) ∧
    (t.isIdent = true → ∀ m, rest.head? = some m → m.token ≠ .punct .colon)

namespace Mark.Opens

variable {b likeStmt : Bool} {chain : Prop} {t : Token} {m : Mark} {ms rest : List Mark}

/-- An expression of one token. -/
theorem single (ht : t.opensChain = true) (hstmt : t.opensStmt = false) :
    Opens b likeStmt chain [⟨t, b⟩] :=
  ⟨t, [], rfl, by rw [Token.opensExpr, ht, Bool.true_or], fun _ => ht, fun _ => hstmt, nofun⟩

/-- A first token that is no name. -/
theorem mark (ht : t.opensChain = true) (hident : t.isIdent = false)
    (hstmt : likeStmt = true ∨ t.opensStmt = false) : Opens b likeStmt chain (⟨t, b⟩ :: rest) := by
  refine ⟨t, rest, rfl, by rw [Token.opensExpr, ht, Bool.true_or], fun _ => ht, ?_, ?_⟩
  · intro hlike
    rcases hstmt with h | h
    · rw [h] at hlike
      cases hlike
    · exact h
  · intro h
    rw [h] at hident
    cases hident

/-- A prefix operator. -/
theorem ofPrefix (ht : t.isPrefix = true) (hchain : ¬chain) :
    Opens b likeStmt chain (⟨t, b⟩ :: rest) := by
  obtain ⟨hstmt, hident⟩ := Token.IsPrefix.plain ht
  refine ⟨t, rest, rfl, by rw [Token.opensExpr, ht, Bool.or_true], fun h => absurd h hchain,
    fun _ => hstmt, fun h => ?_⟩
  rw [hident] at h
  cases h

/-- What follows an expression is no colon. -/
theorem append (h : Opens b likeStmt chain ms) (hm : m.token ≠ .punct .colon) :
    Opens b likeStmt chain (ms ++ m :: rest) := by
  obtain ⟨t, more, rfl, hopens, hchain, hstmt, hcolon⟩ := h
  refine ⟨t, more ++ m :: rest, rfl, hopens, hchain, hstmt, fun hident m' hm' => ?_⟩
  cases more with
  | nil =>
    cases hm'
    exact hm
  | cons m'' more => exact hcolon hident m' hm'

theorem mono {likeStmt' : Bool} {chain' : Prop} (h : Opens b likeStmt chain ms)
    (hstmt : likeStmt = true → likeStmt' = true) (hchain : chain' → chain) :
    Opens b likeStmt' chain' ms := by
  obtain ⟨t, more, rfl, hopens, hc, hs, hcolon⟩ := h
  refine ⟨t, more, rfl, hopens, fun h => hc (hchain h), fun h => hs ?_, hcolon⟩
  by_contra hlike
  rw [hstmt (by simpa using hlike)] at h
  cases h

/-- The first mark, in front of anything. -/
theorem next (h : Opens b likeStmt chain ms) (more : List Mark) :
    ∃ t, Mark.next (ms ++ more) = ⟨t, b⟩ ∧ t.opensExpr = true ∧ (chain → t.opensChain = true) ∧
      (likeStmt = false → t.opensStmt = false) := by
  obtain ⟨t, rest, rfl, hopens, hchain, hstmt, -⟩ := h
  exact ⟨t, rfl, hopens, hchain, hstmt⟩

end Mark.Opens

namespace Printer

open Piece

variable {b likeStmt : Bool}

@[simp] theorem marks_parens (ps : List Piece) : marks b (parens ps) =
    ⟨.punct .lparen, b⟩ :: (marks false ps ++ [⟨.punct .rparen, endsLine false ps⟩]) := by
  simp [parens]

@[simp] theorem endsLine_parens (ps : List Piece) : endsLine b (parens ps) = false := by
  simp [parens]

theorem opens_parens {chain : Prop} (ps : List Piece) :
    Mark.Opens b likeStmt chain (marks b (parens ps)) := by
  rw [marks_parens]
  exact .mark rfl rfl (.inr rfl)

theorem marks_commas (p q : List Piece) (rest : List (List Piece)) :
    marks b (commas (p :: q :: rest)) =
      marks b p ++ ⟨.punct .comma, endsLine b p⟩ :: marks false (commas (q :: rest)) := by
  simp [commas]

/-- An operand begins like the expression, or with a parenthesis. -/
theorem opens_operand {e : Expr} (k : Strength) (noIn : Bool)
    (h : ∀ noIn, Mark.Opens b e.startsLikeStmt (16 ≤ e.strength) (marks b (e.pieces noIn))) :
    Mark.Opens b e.startsLikeStmt (16 ≤ k) (marks b (operand e noIn k e.pieces)) := by
  unfold operand
  split
  · exact opens_parens _
  · rename_i hstrong
    refine (h noIn).mono id fun hk => ?_
    simp only [Bool.or_eq_true, Bool.and_eq_true, decide_eq_true_eq, not_or] at hstrong
    exact Nat.le_trans hk (Nat.le_of_not_lt hstrong.1)

end Printer

open Piece Printer

theorem Token.ofBinary_ne_colon (op : BinaryOp) : Token.ofBinary op ≠ .punct .colon := by
  cases op <;> decide

theorem Token.isPrefix_ofUnary (op : UnaryOp) : (Token.ofUnary op).isPrefix = true := by
  cases op <;> rfl

theorem Token.isPrefix_ofUpdate (op : UpdateOp) : (Token.ofUpdate op).isPrefix = true := by
  cases op <;> rfl

theorem Token.ofUpdate_ne_colon (op : UpdateOp) : Token.ofUpdate op ≠ .punct .colon := by
  cases op <;> decide

theorem Token.ofText_name {s : String} (h : Text.isName s = true) : ofText s = .word (.ident s) := by
  rw [Text.isName, Bool.and_eq_true, beq_iff_eq] at h
  rw [ofText_word h.1, h.2]

/-- Operators have ten levels. -/
theorem BinaryOp.precedence_bounds (op : BinaryOp) : 1 ≤ op.precedence ∧ op.precedence ≤ 10 := by
  cases op <;> decide

/-- An expression does not begin with a token at which it would end. -/
theorem Expr.opens_pieces (e : Expr) (hw : AllWritable (e.nodes true)) (b noIn : Bool) :
    Mark.Opens b e.startsLikeStmt (16 ≤ e.strength) (marks b (e.pieces noIn)) := by
  cases e with
  | array id elems =>
    simp only [Expr.pieces, marks, List.cons_append, Token.ofText_punctuation]
    exact .mark rfl rfl (.inr rfl)
  | object id props =>
    cases props <;> simp only [Expr.pieces, marks, List.cons_append, Token.ofText_punctuation] <;>
      exact .mark rfl rfl (.inl rfl)
  | function id name fn =>
    simp only [Expr.pieces, marks, List.cons_append, Token.ofText_words]
    exact .mark rfl rfl (.inl rfl)
  | new id callee args =>
    simp only [Expr.pieces, marks, List.cons_append, Token.ofText_words]
    exact .mark rfl rfl (.inr rfl)
  | unary id op arg =>
    simp only [Expr.pieces, marks, Token.ofText_unary]
    exact .ofPrefix (Token.isPrefix_ofUnary op) (by simp [Expr.strength, Strength.unary])
  | update id op before arg =>
    simp only [Expr.nodes, allWritable_cons] at hw
    cases before with
    | true =>
      simp only [Expr.pieces, marks, Token.ofText_update]
      exact .ofPrefix (Token.isPrefix_ofUpdate op) (by simp [Expr.strength, Strength.unary])
    | false =>
      simp only [Expr.pieces, marks_append, marks, Token.ofText_update]
      have harg := opens_operand .call noIn
        fun noIn => Expr.opens_pieces arg hw.2 b noIn
      exact (harg.append (Token.ofUpdate_ne_colon op)).mono (fun h => h)
        (by simp [Expr.strength, Strength.updated])
  | binary id op left right =>
    simp only [Expr.nodes, List.cons_append, allWritable_cons, allWritable_append] at hw
    simp only [Expr.pieces, marks_append, marks, List.append_assoc, List.cons_append,
      Token.ofText_binary]
    have hleft := opens_operand (.binary op.precedence) noIn
      fun noIn => Expr.opens_pieces left hw.2.1 b noIn
    refine (hleft.append (Token.ofBinary_ne_colon op)).mono (fun h => h) fun h => ?_
    have hprec := op.precedence_bounds
    have hstrong : 16 ≤ 2 + op.precedence := h
    omega
  | assign id op left right =>
    simp only [Expr.nodes, List.cons_append, allWritable_cons, allWritable_append] at hw
    simp only [Expr.pieces, marks_append, marks, List.append_assoc, List.cons_append,
      Token.ofText_assign]
    have hleft := opens_operand .call noIn
      fun noIn => Expr.opens_pieces left hw.2.1 b noIn
    exact (hleft.append (by simp)).mono (fun h => h) (by simp [Expr.strength, Strength.assign])
  | member id obj name =>
    simp only [Expr.nodes, allWritable_cons] at hw
    have hobj := opens_operand .call noIn
      fun noIn => Expr.opens_pieces obj hw.2 b noIn
    simp only [Expr.pieces, marks_append]
    split
    · rw [marks_parens]
      exact .mark rfl rfl (.inr rfl)
    · simp only [marks, Token.ofText_punctuation]
      exact (hobj.append (by simp)).mono (fun h => h) fun _ => Nat.le_refl _
  | index id obj key =>
    simp only [Expr.nodes, List.cons_append, allWritable_cons, allWritable_append] at hw
    have hobj := opens_operand .call noIn
      fun noIn => Expr.opens_pieces obj hw.2.1 b noIn
    simp only [Expr.pieces, marks_append, List.append_assoc]
    split
    · rw [marks_parens]
      exact .mark rfl rfl (.inr rfl)
    · simp only [marks, List.cons_append, Token.ofText_punctuation]
      exact (hobj.append (by simp)).mono (fun h => h) fun _ => Nat.le_refl _
  | cond id test yes no =>
    simp only [Expr.nodes, List.cons_append, allWritable_cons, allWritable_append] at hw
    simp only [Expr.pieces, marks_append, marks, List.append_assoc, List.cons_append,
      Token.ofText_punctuation]
    have htest := opens_operand (.binary 1) noIn
      fun noIn => Expr.opens_pieces test hw.2.1.1 b noIn
    exact (htest.append (by simp)).mono (fun h => h) (by simp [Expr.strength, Strength.cond])
  | call id callee args =>
    simp only [Expr.nodes, List.cons_append, allWritable_cons, allWritable_append] at hw
    have hcallee := opens_operand .call noIn
      fun noIn => Expr.opens_pieces callee hw.2.1 b noIn
    simp only [Expr.pieces, marks_append, marks_parens]
    exact (hcallee.append (by simp)).mono (fun h => h) fun _ => Nat.le_refl _
  | seq id exprs =>
    rcases exprs with _ | ⟨e, _ | ⟨e', rest⟩⟩
    · simp [Expr.nodes, Node.isLegal] at hw
    · simp [Expr.nodes, Node.isLegal] at hw
    · simp only [Expr.nodes, exprNodes, allWritable_cons, allWritable_append] at hw
      have he := opens_operand .assign noIn
        fun noIn => Expr.opens_pieces e hw.2.1 b noIn
      simp only [Expr.pieces, memberPieces, marks_commas]
      exact (he.append (by simp)).mono (fun h => h) (by simp [Expr.strength, Strength.sequence])
  | ident name =>
    simp only [Expr.nodes, allWritable_cons] at hw
    simp only [Expr.pieces, identPieces, marks, Token.ofText_name hw.2.1.2]
    exact .single rfl rfl
  | string id value =>
    simp only [Expr.pieces, marks, Token.ofText_quoted]
    exact .single rfl rfl
  | bool id value =>
    cases value <;> simp [Expr.pieces, keyword] <;> exact .single rfl rfl
  | number id value =>
    simp only [Expr.nodes, allWritable_cons, Node.isWritable] at hw
    simp only [Expr.pieces, marks, Token.ofText_number hw.1.2]
    exact .single rfl rfl
  | this | null =>
    simp only [Expr.pieces, keyword, marks, Token.ofText_words]
    exact .single rfl rfl
  | regex | invalid => simp [Expr.nodes, Node.isWritable] at hw
termination_by structural e

end EsOptimizer
