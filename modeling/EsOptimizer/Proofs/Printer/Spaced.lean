import EsOptimizer.Proofs.Printer.Leads

/-!
# Spacing of a tree

The texts that a tree is printed as stay apart. The induction is over the tree: an expression may stand
where one is awaited, and ends in a token behind which anything may follow, a number apart.
-/

namespace EsOptimizer

open Piece Printer
open Token (Free Ends Awaits ofText)

attribute [local simp] Node.isWritable Node.isWritableKey Expr.nodes elemNodes exprNodes exprNodes?
  PropertyKey.nodes Property.nodes propNodes Func.nodes Block.nodes blockNodes? Declarator.nodes
  declNodes VarDecl.nodes ForHead.nodes ForHead.loopNodes headNodes? CatchClause.nodes handlerNodes?
  Stmt.nodes stmtNodes? stmtNodes Node.name?

/-! ## Expressions -/

/-- How an expression may end. -/
def Expr.Final (e : Expr) (t : Token) : Prop :=
  t.Ends ∧ (16 ≤ e.strength → e.isNumber = false → t.Free)

def Expr.Spaced (e : Expr) : Prop := ∀ noIn, Leads Awaits e.Final (e.pieces noIn)

section

variable {e left right arg obj key callee test yes no : Expr} {id : NodeId} {s : String}
  {P Q : Token → Prop} {ps : List Piece}

theorem Expr.Spaced.ofFree (h : ∀ noIn, Leads Awaits Free (e.pieces noIn)) : e.Spaced :=
  fun noIn => (h noIn).mono (fun _ ht => ht) fun _ ht => ⟨ht.ends, fun _ _ => ht⟩

/-- An expression that no access can follow directly. -/
theorem Expr.Spaced.ofWeak (he : e.strength < 16) (h : ∀ noIn, Leads Awaits Ends (e.pieces noIn)) :
    e.Spaced :=
  fun noIn => (h noIn).mono (fun _ ht => ht) fun _ ht => 
    ⟨ht, fun hstrong => absurd hstrong (Nat.not_le.mpr he)⟩

theorem Expr.Spaced.leads (h : e.Spaced) (noIn : Bool) : Leads Awaits Ends (e.pieces noIn) :=
  (h noIn).mono (fun _ ht => ht) fun _ ht => ht.1

theorem leads_operand (h : e.Spaced) (noIn : Bool) (k : Nat) :
    Leads Awaits Ends (operand e noIn k e.pieces) := by
  unfold operand
  split
  · exact (leads_parens ((h.leads false).mono (fun _ ht => ht.awaits) fun _ ht => ht)).ends
  · exact h.leads noIn

/-- What an access may follow directly. -/
theorem leads_object (h : obj.Spaced) (noIn : Bool) : Leads Awaits Free
    (if obj.isNumber then parens (obj.pieces noIn) else operand obj noIn .call obj.pieces) := by
  have hinner (noIn : Bool) : Leads Free Ends (obj.pieces noIn) :=
    (h.leads noIn).mono (fun _ ht => ht.awaits) fun _ ht => ht
  split
  · exact leads_parens (hinner noIn)
  unfold operand
  split
  · exact leads_parens (hinner false)
  · rename_i hnumber hstrong
    simp only [Bool.or_eq_true, decide_eq_true_eq, not_or, Nat.not_lt] at hstrong
    exact (h noIn).mono (fun _ ht => ht) fun _ ht =>
      ht.2 hstrong.1 (Bool.eq_false_iff.mpr hnumber)

theorem leads_args {args : List Expr} (h : ∀ e ∈ args, e.Spaced) :
    Leads Free Ends (commas (argPieces args)) := by
  refine leads_commas_free ?_
  induction args with
  | nil => nofun
  | cons e args ih =>
    rw [List.forall_mem_cons] at h
    exact List.forall_mem_cons.mpr ⟨(leads_operand h.1 false _).ofAwaits.ofEnds, ih h.2⟩

theorem spaced_plain (h : ∀ noIn, e.pieces noIn = [.text s]) (hs : isPlain s = true)
    (hopens : (ofText s).opensExpr = true) : e.Spaced :=
  .ofFree fun noIn => by
    rw [h]
    exact .opening hs hopens (.nil fun _ ht => ht)

/-! ### Operators -/

theorem spelled_binary {op : BinaryOp} (hop : op ≠ .div) : Spelled op.text := by
  have hmark : op ≠ .div → op ≠ .in → op ≠ .instanceOf →
      (op.text, Token.binary op) ∈ Lexer.punctuation := by
    cases op <;> decide
  by_cases hin : op = .in
  · subst hin
    exact .word (by decide)
  by_cases hinstance : op = .instanceOf
  · subst hinstance
    exact .word (by decide)
  · exact .mark (hmark hop hin hinstance) (by revert hop; cases op <;> decide)

theorem spelled_assign {op : AssignOp} (hop : op ≠ .div) : Spelled op.text := by
  have hmark : (op.text, Token.assign op) ∈ Lexer.punctuation := by cases op <;> decide
  exact .mark hmark (by revert hop; cases op <;> decide)

theorem spelled_unary (op : UnaryOp) : Spelled op.text := by
  have hmark : op = .minus ∨ op = .plus ∨ op = .not ∨ op = .bitNot →
      (op.text, Token.ofUnary op) ∈ Lexer.punctuation := by
    cases op <;> decide
  cases op with
  | minus | plus | not | bitNot => exact .mark (hmark (by decide)) (by decide)
  | typeOf | void | delete => exact .word (by decide)

/-- An operator between its operands. -/
theorem leads_operator {rest : List Piece} (hs : Spelled s) (hne : ofText s ≠ .punct .dot)
    (hs' : (ofText s).Awaits) (hps : Leads P Ends ps) (hrest : Leads Awaits Q rest) :
    Leads P Q (ps ++ [.gap, .text s, .gap] ++ rest) := by
  rw [List.append_assoc]
  exact hps.append (leads_gap.mpr (.text hs (fun _ ht => ht _ hne) hs' (leads_gap.mpr hrest)))

theorem ofBinary_ne_dot (op : BinaryOp) : Token.ofBinary op ≠ .punct .dot := by
  cases op <;> nofun

theorem spaced_unary {op : UnaryOp} (harg : arg.Spaced) : (Expr.unary id op arg).Spaced :=
  .ofWeak (show 14 < 16 by decide) fun noIn => by
    rw [Expr.pieces]
    refine .text (spelled_unary op) (fun _ ht => ht _ ?_) ?_ (leads_operand harg noIn _)
    · rw [Token.ofText_unary]
      simp [Token.opensExpr, Token.isPrefix_ofUnary]
    · rw [Token.ofText_unary]
      exact Token.awaits_ofUnary op

theorem isPlain_update (op : UpdateOp) : isPlain op.text = true := by
  cases op <;> decide

theorem spaced_update {op : UpdateOp} {before : Bool} (harg : arg.Spaced) :
    (Expr.update id op before arg).Spaced := by
  cases before with
  | true =>
    refine .ofWeak (show 14 < 16 by decide) fun noIn => ?_
    rw [Expr.pieces]
    refine .opening (isPlain_update op) ?_
      ((leads_operand harg noIn _).mono (fun _ ht => ht.awaits) fun _ ht => ht)
    rw [Token.ofText_update]
    simp [Token.opensExpr, Token.isPrefix_ofUpdate]
  | false =>
    refine .ofWeak (show 15 < 16 by decide) fun noIn => ?_
    rw [Expr.pieces]
    exact (leads_operand harg noIn _).append (.ends (.last (isPlain_update op)))

theorem spaced_binary {op : BinaryOp} (hop : op ≠ .div) (hleft : left.Spaced)
    (hright : right.Spaced) : (Expr.binary id op left right).Spaced := by
  have hweak : (Expr.binary id op left right).strength < 16 := by
    have := (BinaryOp.precedence_bounds op).2
    show 2 + op.precedence < 16
    omega
  refine .ofWeak hweak fun noIn => ?_
  rw [Expr.pieces]
  refine leads_operator (spelled_binary hop) ?_ ?_ (leads_operand hleft noIn _)
    (leads_operand hright noIn _)
  · rw [Token.ofText_binary]
    exact ofBinary_ne_dot op
  · rw [Token.ofText_binary]
    exact Token.awaits_ofBinary op

theorem spaced_assign {op : AssignOp} (hop : op ≠ .div) (hleft : left.Spaced)
    (hright : right.Spaced) : (Expr.assign id op left right).Spaced :=
  .ofWeak (show 1 < 16 by decide) fun noIn => by
    rw [Expr.pieces]
    refine leads_operator (spelled_assign hop) ?_ ?_ (leads_operand hleft noIn _)
      (leads_operand hright noIn _)
    · rw [Token.ofText_assign]
      simp
    · rw [Token.ofText_assign]
      exact Token.awaits_assign op

theorem spaced_cond (htest : test.Spaced) (hyes : yes.Spaced) (hno : no.Spaced) :
    (Expr.cond id test yes no).Spaced :=
  .ofWeak (show 2 < 16 by decide) fun noIn => by
    rw [Expr.pieces]
    have hplain : ∀ s, isPlain s = true → Leads Ends Awaits [.gap, .text s, .gap] := fun s hs =>
      (Leads.last hs).mono (fun _ ht => ht) fun _ ht => ht.awaits
    exact ((((leads_operand htest noIn _).append (hplain "?" (by decide))).append
      (leads_operand hyes noIn _)).append (hplain ":" (by decide))).append (leads_operand hno noIn _)

/-! ### Accesses and calls -/

theorem leads_name {name : Ident} (h : Text.isWord name.name = true)
    (hP : ∀ t, P t → ∀ w, t.apart (.word w) = true) :
    Leads P Free (identPieces name) :=
  .text (.word h) (fun t ht => by rw [Token.ofText_word h]; exact hP t ht _)
    (by rw [Token.ofText_word h]; exact Token.free_word _) (.nil fun _ ht => ht)

theorem spaced_member {name : Ident} (hname : Text.isWord name.name = true) (hobj : obj.Spaced) :
    (Expr.member id obj name).Spaced :=
  .ofFree fun noIn => by
    rw [Expr.pieces]
    have hdot : ofText "." = .punct .dot := by simp
    refine (leads_object hobj noIn).append (.text (Q := (· = .punct .dot)) .dot
      (fun _ ht => ht _) hdot (leads_name hname ?_))
    rintro _ rfl w
    rfl

theorem spaced_index (hobj : obj.Spaced) (hkey : key.Spaced) : (Expr.index id obj key).Spaced :=
  .ofFree fun noIn => by
    rw [Expr.pieces, List.append_assoc]
    exact (leads_object hobj noIn).append (Leads.ofEnds (.plain (by decide)
      ((leads_operand hkey false _).ofAwaits.ofEnds.append (.last (by decide)))))

theorem spaced_call {args : List Expr} (hcallee : callee.Spaced) (hargs : ∀ e ∈ args, e.Spaced) :
    (Expr.call id callee args).Spaced :=
  .ofFree fun noIn => by
    rw [Expr.pieces]
    exact (leads_operand hcallee noIn _).append (leads_parens (leads_args hargs)).ofAwaits

theorem spaced_new {args : List Expr} (hcallee : callee.Spaced) (hargs : ∀ e ∈ args, e.Spaced) :
    (Expr.new id callee args).Spaced :=
  .ofFree fun noIn => by
    rw [Expr.pieces, List.append_assoc, List.cons_append, List.cons_append, List.nil_append]
    refine .opening (by decide) (by simp; rfl) (leads_space.mpr (.append (Q := Ends) ?_
      (leads_parens (leads_args hargs)).ofAwaits))
    have hinner := fun k => (leads_operand hcallee noIn k).ofAwaits.ofEnds
    split
    · exact (leads_parens (hinner _)).ends.ofAwaits.ofEnds
    · exact hinner _

theorem spaced_seq {exprs : List Expr} (hne : exprs ≠ []) (h : ∀ e ∈ exprs, e.Spaced) :
    (Expr.seq id exprs).Spaced :=
  .ofWeak (show 0 < 16 by decide) fun noIn => by
    cases exprs with
    | nil => exact absurd rfl hne
    | cons e rest =>
      rw [List.forall_mem_cons] at h
      rw [Expr.pieces, memberPieces]
      refine leads_commas (leads_operand h.1 noIn _) ?_
      have hrest := h.2
      clear h hne
      induction rest with
      | nil => exact List.forall_mem_nil _
      | cons e rest ih =>
        rw [List.forall_mem_cons] at hrest
        exact List.forall_mem_cons.mpr ⟨(leads_operand hrest.1 noIn _).ofAwaits.ofEnds, ih hrest.2⟩

/-! ### Literals -/

theorem leads_elems {elems : List (Option Expr)} (h : ∀ e, some e ∈ elems → e.Spaced)
    (first : Bool) : Leads Ends Ends (elemPieces elems first) := by
  induction elems generalizing first with
  | nil => exact .nil fun _ ht => ht
  | cons elem rest ih =>
    have hrest := ih (fun e he => h e (List.mem_cons_of_mem _ he)) false
    have hcomma : Leads Ends Ends [.text ","] := (Leads.last (by decide)).ends
    have hnil : Leads Ends Ends [] := .nil fun _ ht => ht
    cases elem with
    | none =>
      rw [elemPieces]
      have hfirst : Leads Ends Ends (if first then [] else [.text ","]) := by
        cases first
        · exact hcomma
        · exact hnil
      have hlast : Leads Ends Ends (if rest.isEmpty then [.text ","] else []) := by
        split
        · exact hcomma
        · exact hnil
      exact (hfirst.append hlast).append hrest
    | some e =>
      rw [elemPieces]
      refine .append (.append (Q := Ends) ?_
        (leads_operand (h e List.mem_cons_self) false _).ofAwaits) hrest
      cases first
      · exact .plain (by decide) (leads_gap.mpr (.nil fun _ ht => ht.ends))
      · exact hnil

theorem spaced_array {elems : List (Option Expr)} (h : ∀ e, some e ∈ elems → e.Spaced) :
    (Expr.array id elems).Spaced :=
  .ofFree fun noIn => by
    rw [Expr.pieces]
    exact .opening (by decide) (by simp; rfl)
      ((leads_elems h true).ofEnds.append (.last (by decide)))

theorem leads_props {props : List Property} (h : ∀ p ∈ props, Leads Ends Ends p.pieces)
    (first : Bool) : Leads Ends Ends (propPieces props first) := by
  induction props generalizing first with
  | nil => exact .nil fun _ ht => ht
  | cons p rest ih =>
    rw [List.forall_mem_cons] at h
    rw [propPieces]
    refine .append (.append (Q := Ends) ?_ h.1) (ih h.2 false)
    cases first
    · exact .plain (by decide) (leads_line.mpr (.nil fun _ ht => ht.ends))
    · exact .nil fun _ ht => ht

theorem spaced_object {props : List Property} (h : ∀ p ∈ props, Leads Ends Ends p.pieces) :
    (Expr.object id props).Spaced :=
  .ofFree fun noIn => by
    cases props with
    | nil => exact .opening (by decide) (by simp; rfl) (Leads.last (by decide)).ofEnds
    | cons p rest =>
      have hprops := leads_props h true
      rw [Expr.pieces]
      · simp only [List.cons_append, List.nil_append]
        refine .opening (by decide) (by simp; rfl) (leads_indent.mpr (leads_line.mpr ?_))
        exact hprops.ofEnds.append (leads_dedent.mpr (leads_line.mpr (.last (by decide))))
      · simp

/-! ### Functions and properties -/

theorem leads_free_name {name : Ident} (h : Text.isName name.name = true) :
    Leads Free Free (identPieces name) := by
  rw [Text.isName, Bool.and_eq_true] at h
  exact leads_name h.1 fun t ht w => ht _

theorem leads_func {fn : Func} (hparams : ∀ i ∈ fn.params, Text.isName i.name = true)
    (hbody : Leads Ends Free fn.body.pieces) : Leads Ends Free fn.pieces := by
  obtain ⟨id, params, body⟩ := fn
  rw [Func.pieces]
  refine .append (leads_parens (leads_commas_free ?_)).ofAwaits (leads_gap.mpr hbody.ofEnds)
  intro p hp
  obtain ⟨i, hi, rfl⟩ := List.mem_map.mp hp
  exact (leads_free_name (hparams i hi)).ends

theorem spaced_function {name : Option Ident} {fn : Func}
    (hname : ∀ i, name = some i → Text.isName i.name = true) (hfn : Leads Ends Free fn.pieces) :
    (Expr.function id name fn).Spaced :=
  .ofFree fun noIn => by
    cases name with
    | none => exact .opening (by decide) (by simp; rfl) hfn.ofEnds
    | some i =>
      exact .opening (by decide) (by simp; rfl)
        (leads_space.mpr ((leads_free_name (hname i rfl)).ends.append hfn))

theorem leads_value {key : PropertyKey} (hkey : Leads Ends Ends key.pieces) {value : Expr}
    (hvalue : value.Spaced) : Leads Ends Ends (Property.value id key value).pieces := by
  rw [Property.pieces, List.append_assoc]
  exact hkey.append (.plain (by decide) (leads_gap.mpr (leads_operand hvalue false _).ofAwaits.ofEnds))

theorem leads_accessor {key : PropertyKey} {fn : Func} (hs : isPlain s = true)
    (hkey : Leads Ends Ends key.pieces) (hfn : Leads Ends Free fn.pieces) :
    Leads Ends Ends ([.text s, .space] ++ key.pieces ++ fn.pieces) := by
  rw [List.append_assoc]
  exact .plain hs (leads_space.mpr (hkey.ofEnds.append hfn.ends))

theorem leads_key {key : PropertyKey} (h : Node.isWritableKey key = true)
    (hcomputed : ∀ e, key = .computed e → e.Spaced) : Leads Ends Ends key.pieces := by
  cases key with
  | ident i => exact (leads_name h fun _ ht w => ht _ nofun).ends
  | string id v =>
    exact .text (Q := Free) (.quoted v) (fun _ ht => ht _ (by rw [Token.ofText_quoted]; nofun))
      (by rw [Token.ofText_quoted]; exact Token.free_string _) (.nil fun _ ht => ht.ends)
  | number id v =>
    exact .text (Q := Ends) (.number h) (fun _ ht => ht _ (by rw [Token.ofText_number h]; nofun))
      (by rw [Token.ofText_number h]; exact Token.ends_number _) (.nil fun _ ht => ht)
  | computed e =>
    rw [PropertyKey.pieces]
    exact .plain (by decide) ((leads_operand (hcomputed e rfl) false _).ofAwaits.ofEnds.append
      (Leads.last (by decide)).ends)

end

/-! ## Statements -/

def Stmt.Spaced (s : Stmt) : Prop := Leads Free Free s.pieces

section

variable {e test obj : Expr} {s yes b : Stmt} {id : NodeId} {text : String} {ps : List Piece}
  {R : Token → Prop}

/-- A word or a bracket behind a statement. -/
theorem leads_plain (h : isPlain text = true) (hps : Leads Free R ps) :
    Leads Free R (.text text :: ps) :=
  (Leads.plain h hps).ofEnds

theorem leads_nil : Leads Free Free [] := .nil fun _ ht => ht

theorem leads_stmts {stmts : List Stmt} (h : ∀ s ∈ stmts, s.Spaced) :
    Leads Free Free (stmtPieces stmts) := by
  induction stmts with
  | nil => exact leads_nil
  | cons s rest ih =>
    rw [List.forall_mem_cons] at h
    exact .append h.1 (leads_line.mpr (ih h.2))

theorem leads_block {block : Block} (h : ∀ s ∈ block.stmts, s.Spaced) :
    Leads Ends Free block.pieces := by
  obtain ⟨id, stmts⟩ := block
  cases stmts with
  | nil => exact .plain (by decide) (leads_plain (by decide) leads_nil)
  | cons s rest =>
    rw [Block.pieces]
    · simp only [List.cons_append, List.nil_append]
      exact .plain (by decide) (leads_indent.mpr (leads_line.mpr ((leads_stmts h).append
        (leads_dedent.mpr (leads_plain (by decide) leads_nil)))))
    · nofun

/-- An expression between parentheses. -/
theorem leads_test (h : e.Spaced) :
    Leads Free Free (parens (operand e false .sequence e.pieces)) :=
  (leads_parens (leads_operand h false _).ofAwaits.ofEnds).ofAwaits.ofEnds

theorem leads_body (h : s.Spaced) (braces : Bool) : Leads Free Free (body s braces s.pieces) := by
  unfold body
  split
  · exact leads_gap.mpr h
  split
  · simp only [List.cons_append, List.nil_append]
    exact leads_gap.mpr (leads_plain (by decide) (leads_indent.mpr (leads_line.mpr
      (h.append (leads_line.mpr (leads_dedent.mpr (leads_plain (by decide) leads_nil)))))))
  · simp only [List.cons_append, List.nil_append]
    exact leads_indent.mpr (leads_line.mpr (h.append (leads_line.mpr (leads_dedent.mpr leads_nil))))

theorem leads_semicolon (h : Leads Free Ends ps) : Leads Free Free (ps ++ [.text ";"]) :=
  h.append (.last (by decide))

theorem spaced_expr (he : e.Spaced) : (Stmt.expr id e).Spaced := by
  have hinner := (leads_operand he false 0).ofAwaits.ofEnds
  refine leads_semicolon ?_
  split
  · exact (leads_parens hinner).ends.ofAwaits.ofEnds
  · exact hinner

/-- The initializer of a declarator. -/
theorem leads_init {init : Option Expr} (h : ∀ e, init = some e → e.Spaced) (noIn : Bool) :
    Leads Free Ends (initPieces init noIn) := by
  cases init with
  | none => exact .nil fun _ ht => ht.ends
  | some e =>
    have hassign : ofText "=" = .assign .assign := by simp
    refine leads_gap.mpr (.text (Q := Awaits) (.mark (t := .assign .assign) (by decide) (by decide))
      (fun _ ht => ht _) ?_ (leads_gap.mpr (leads_operand (h e rfl) noIn _)))
    rw [hassign]
    exact Token.awaits_assign _

structure Declarator.Spaced (d : Declarator) : Prop where
  name : Text.isName d.name.name = true
  init : ∀ e, d.init = some e → e.Spaced

theorem leads_decls {decls : List Declarator} (h : ∀ d ∈ decls, d.Spaced) (noIn : Bool) :
    Leads Free Ends (commas (declPieces decls noIn)) := by
  refine leads_commas_free ?_
  induction decls with
  | nil => nofun
  | cons d rest ih =>
    rw [List.forall_mem_cons] at h
    obtain ⟨did, name, init⟩ := d
    exact List.forall_mem_cons.mpr
      ⟨(leads_free_name h.1.name).append (leads_init h.1.init noIn), ih h.2⟩

theorem isPlain_declKind (kind : DeclKind) : isPlain kind.text = true := by
  cases kind <;> decide

theorem leads_decl {decl : VarDecl} (h : ∀ d ∈ decl.decls, d.Spaced) (noIn : Bool) :
    Leads Free Ends (decl.pieces noIn) := by
  obtain ⟨did, kind, decls⟩ := decl
  exact leads_plain (isPlain_declKind kind) (leads_space.mpr (leads_decls h noIn))

theorem leads_else {no : Option Stmt} (h : ∀ s, no = some s → s.Spaced) :
    Leads Free Free (elsePieces no) := by
  cases no with
  | none => exact leads_nil
  | some s =>
    refine leads_plain (by decide) ?_
    split
    · exact leads_space.mpr (h _ rfl)
    · exact leads_body (h s rfl) false

theorem spaced_if {no : Option Stmt} (htest : test.Spaced) (hyes : yes.Spaced)
    (hno : ∀ s, no = some s → s.Spaced) : (Stmt.if id test yes no).Spaced := by
  have hgap : ∀ c : Bool, Leads Free Free (if c then [.gap] else []) := fun c => by
    cases c
    · exact leads_nil
    · exact leads_gap.mpr leads_nil
  have hhead : Leads Free Free [.text "if", .gap] :=
    leads_plain (by decide) (leads_gap.mpr leads_nil)
  exact (((hhead.append (leads_test htest)).append (leads_body hyes _)).append (hgap _)).append
    (leads_else hno)

/-- A part of a head or an argument that may be missing. -/
theorem leads_part {part : Option Expr} (h : ∀ e, part = some e → e.Spaced) :
    Leads Free Ends (partPieces part) ∧ Leads Free Ends (argumentPieces part) := by
  cases part with
  | none => exact ⟨.nil fun _ ht => ht.ends, .nil fun _ ht => ht.ends⟩
  | some e =>
    have he := (leads_operand (h e rfl) false 0).ofAwaits.ofEnds
    exact ⟨leads_gap.mpr he, leads_space.mpr he⟩

theorem spaced_for {init : Option ForHead} {test update : Option Expr}
    (hinit : ∀ h, init = some h → Leads Free Ends h.pieces) (htest : ∀ e, test = some e → e.Spaced)
    (hupdate : ∀ e, update = some e → e.Spaced) (hb : b.Spaced) :
    (Stmt.for id init test update b).Spaced := by
  have hhead : Leads Free Ends (headPieces init) := by
    cases init with
    | none => exact .nil fun _ ht => ht.ends
    | some h => exact hinit h rfl
  have hsemicolon : Leads Ends Free [.text ";"] := .last (by decide)
  unfold Stmt.Spaced
  rw [Stmt.pieces]
  simp only [List.cons_append, List.nil_append, List.append_assoc]
  refine leads_plain (by decide) (leads_gap.mpr (leads_plain (by decide) (hhead.append ?_)))
  refine .plain (by decide) ((leads_part htest).1.append (.plain (by decide)
    ((leads_part hupdate).1.append (.plain (by decide) (leads_body hb false)))))

theorem spaced_forIn {head : ForHead} (hhead : Leads Free Ends head.pieces) (hobj : obj.Spaced)
    (hb : b.Spaced) : (Stmt.forIn id head obj b).Spaced := by
  unfold Stmt.Spaced
  rw [Stmt.pieces]
  simp only [List.cons_append, List.nil_append, List.append_assoc]
  refine leads_plain (by decide) (leads_gap.mpr (leads_plain (by decide) (hhead.append
    (leads_space.mpr (.plain (by decide) (leads_space.mpr ?_))))))
  exact (leads_operand hobj false _).ofAwaits.ofEnds.append (.plain (by decide) (leads_body hb false))

theorem spaced_while (htest : test.Spaced) (hb : b.Spaced) : (Stmt.while id test b).Spaced := by
  unfold Stmt.Spaced
  rw [Stmt.pieces]
  simp only [List.cons_append, List.nil_append]
  exact leads_plain (by decide) (leads_gap.mpr ((leads_test htest).append (leads_body hb false)))

theorem spaced_with (hobj : obj.Spaced) (hb : b.Spaced) : (Stmt.with id obj b).Spaced := by
  unfold Stmt.Spaced
  rw [Stmt.pieces]
  simp only [List.cons_append, List.nil_append]
  exact leads_plain (by decide) (leads_gap.mpr ((leads_test hobj).append (leads_body hb false)))

theorem spaced_doWhile (hb : b.Spaced) (htest : test.Spaced) : (Stmt.doWhile id b test).Spaced := by
  have hgap : Leads Free Free (if bodyIsOpen b false then [.gap] else []) := by
    split
    · exact leads_gap.mpr leads_nil
    · exact leads_nil
  unfold Stmt.Spaced
  rw [Stmt.pieces]
  simp only [List.cons_append, List.nil_append, List.append_assoc]
  refine leads_plain (by decide) ((leads_body hb false).append (hgap.append
    (leads_plain (by decide) (leads_gap.mpr ?_))))
  exact leads_semicolon (leads_test htest).ends

theorem spaced_return {arg : Option Expr} (h : ∀ e, arg = some e → e.Spaced) :
    (Stmt.return id arg).Spaced :=
  leads_plain (by decide) (leads_semicolon (leads_part h).2)

theorem spaced_throw (he : e.Spaced) : (Stmt.throw id e).Spaced :=
  leads_plain (by decide) (leads_space.mpr
    (leads_semicolon (leads_operand he false _).ofAwaits.ofEnds))

theorem leads_jump {label : Option Ident} (htext : isPlain text = true)
    (h : ∀ i, label = some i → Text.isName i.name = true) :
    Leads Free Free (.text text :: Stmt.pieces.labelPieces label ++ [.text ";"]) := by
  refine leads_plain htext (leads_semicolon ?_)
  cases label with
  | none => exact .nil fun _ ht => ht.ends
  | some i => exact leads_space.mpr (leads_free_name (h i rfl)).ends

theorem spaced_labeled {label : Ident} (hlabel : Text.isName label.name = true) (hb : b.Spaced) :
    (Stmt.labeled id label b).Spaced := by
  unfold Stmt.Spaced
  rw [Stmt.pieces, List.append_assoc, List.append_assoc]
  exact (leads_free_name hlabel).append (leads_plain (by decide) (leads_gap.mpr
    (hb.append (leads_line.mpr leads_nil))))

theorem spaced_function_decl {name : Ident} {fn : Func} (hname : Text.isName name.name = true)
    (hfn : Leads Ends Free fn.pieces) : (Stmt.function id name fn).Spaced := by
  unfold Stmt.Spaced
  rw [Stmt.pieces, List.append_assoc]
  exact leads_plain (by decide) (leads_space.mpr ((leads_free_name hname).append hfn.ofEnds))

theorem leads_handler {handler : Option CatchClause}
    (h : ∀ c, handler = some c → (∀ i, c.param = some i → Text.isName i.name = true) ∧
      Leads Ends Free c.body.pieces) : Leads Free Free (handlerPieces handler) := by
  cases handler with
  | none => exact leads_nil
  | some c =>
    obtain ⟨id, param, body⟩ := c
    obtain ⟨hparam, hbody⟩ := h _ rfl
    cases param with
    | none => exact leads_gap.mpr (leads_plain (by decide) (leads_gap.mpr hbody.ofEnds))
    | some i =>
      have hname := (leads_parens (leads_free_name (hparam i rfl)).ends).ofAwaits.ofEnds
      exact leads_gap.mpr (leads_plain (by decide) (leads_gap.mpr ((hname.append
        (leads_gap.mpr leads_nil)).append hbody.ofEnds)))

theorem spaced_try {block : Block} {handler : Option CatchClause} {finalizer : Option Block}
    (hblock : Leads Ends Free block.pieces)
    (hhandler : ∀ c, handler = some c → (∀ i, c.param = some i → Text.isName i.name = true) ∧
      Leads Ends Free c.body.pieces)
    (hfinalizer : ∀ f, finalizer = some f → Leads Ends Free f.pieces) :
    (Stmt.try id block handler finalizer).Spaced := by
  have hlast : Leads Free Free (finalizerPieces finalizer) := by
    cases finalizer with
    | none => exact leads_nil
    | some f =>
      exact leads_gap.mpr (leads_plain (by decide) (leads_gap.mpr (hfinalizer f rfl).ofEnds))
  unfold Stmt.Spaced
  rw [Stmt.pieces, List.append_assoc, List.append_assoc]
  exact leads_plain (by decide) (leads_gap.mpr (hblock.ofEnds.append
    ((leads_handler hhandler).append hlast)))

end

/-! ## Trees -/

theorem isName_of_label {label : Option Ident}
    (h : (label.all fun l => Text.isName l.name) = true) :
    ∀ i, label = some i → Text.isName i.name = true := by
  rintro i rfl
  exact h

mutual

theorem Expr.spaced (e : Expr) (hw : AllWritable (e.nodes true)) : e.Spaced := by
  cases e with
  | this => exact spaced_plain (fun _ => rfl) (by decide) (by simp; rfl)
  | array id elems =>
    simp only [Expr.nodes, allWritable_cons] at hw
    exact spaced_array (elems_spaced elems hw.2)
  | object id props =>
    simp only [Expr.nodes, allWritable_cons] at hw
    exact spaced_object (props_lead props hw.2 (List.all_eq_true.mp hw.1.2))
  | function id name fn =>
    simp only [Expr.nodes, List.cons_append, allWritable_cons, allWritable_append] at hw
    exact spaced_function (isName?_of_writable hw.2.1) (Func.leads fn hw.2.2)
  | unary id op arg =>
    simp only [Expr.nodes, allWritable_cons] at hw
    exact spaced_unary (Expr.spaced arg hw.2)
  | update id op before arg =>
    simp only [Expr.nodes, allWritable_cons] at hw
    exact spaced_update (Expr.spaced arg hw.2)
  | binary id op left right =>
    simp only [Expr.nodes, List.cons_append, allWritable_cons, allWritable_append] at hw
    exact spaced_binary (bne_iff_ne.mp hw.1.2) (Expr.spaced left hw.2.1) (Expr.spaced right hw.2.2)
  | assign id op left right =>
    simp only [Expr.nodes, List.cons_append, allWritable_cons, allWritable_append] at hw
    exact spaced_assign (bne_iff_ne.mp hw.1.2) (Expr.spaced left hw.2.1) (Expr.spaced right hw.2.2)
  | member id obj name =>
    simp only [Expr.nodes, allWritable_cons] at hw
    exact spaced_member hw.1.2 (Expr.spaced obj hw.2)
  | index id obj key =>
    simp only [Expr.nodes, List.cons_append, allWritable_cons, allWritable_append] at hw
    exact spaced_index (Expr.spaced obj hw.2.1) (Expr.spaced key hw.2.2)
  | cond id test yes no =>
    simp only [Expr.nodes, List.cons_append, allWritable_cons, allWritable_append] at hw
    exact spaced_cond (Expr.spaced test hw.2.1.1) (Expr.spaced yes hw.2.1.2)
      (Expr.spaced no hw.2.2)
  | call id callee args =>
    simp only [Expr.nodes, List.cons_append, allWritable_cons, allWritable_append] at hw
    exact spaced_call (Expr.spaced callee hw.2.1) (exprs_spaced args hw.2.2)
  | new id callee args =>
    simp only [Expr.nodes, List.cons_append, allWritable_cons, allWritable_append] at hw
    exact spaced_new (Expr.spaced callee hw.2.1) (exprs_spaced args hw.2.2)
  | seq id exprs =>
    simp only [Expr.nodes, allWritable_cons] at hw
    refine spaced_seq ?_ (exprs_spaced exprs hw.2)
    rintro rfl
    exact absurd hw.1.1 (by simp [Node.isLegal])
  | ident name =>
    simp only [Expr.nodes, allWritable_cons] at hw
    have hword : Text.isWord name.name = true := (Bool.and_eq_true_iff.mp hw.2.1.2).1
    exact spaced_plain (fun _ => rfl) (by rw [isPlain, hword]; rfl)
      (by rw [Token.ofText_name hw.2.1.2]; rfl)
  | string id v =>
    exact .ofFree fun _ => .text (.quoted v) (fun _ ht => ht _ (by rw [Token.ofText_quoted]; rfl))
      (by rw [Token.ofText_quoted]; exact Token.free_string _) leads_nil
  | bool id v =>
    cases v <;> exact spaced_plain (fun _ => rfl) (by decide) (by simp; rfl)
  | null => exact spaced_plain (fun _ => rfl) (by decide) (by simp; rfl)
  | number id v =>
    simp only [Expr.nodes, allWritable_cons, Node.isWritable] at hw
    intro noIn
    refine .text (.number hw.1.2) (fun _ ht => ht _ ?_) ?_ (.nil fun _ ht => ht)
    · rw [Token.ofText_number hw.1.2]
      rfl
    · rw [Token.ofText_number hw.1.2]
      exact ⟨Token.ends_number _, fun _ hnumber => absurd hnumber (by simp [Expr.isNumber])⟩
  | regex | invalid => simp at hw
termination_by structural e

theorem elems_spaced (elems : List (Option Expr)) (hw : AllWritable (elemNodes true elems)) :
    ∀ e, some e ∈ elems → e.Spaced := by
  match elems with
  | [] => nofun
  | none :: rest =>
    intro e he
    rcases List.mem_cons.mp he with he | he
    · cases he
    · exact elems_spaced rest hw e he
  | some e :: rest =>
    simp only [elemNodes, allWritable_append] at hw
    intro e' he
    rcases List.mem_cons.mp he with he | he
    · cases he
      exact Expr.spaced e hw.1
    · exact elems_spaced rest hw.2 e' he
termination_by structural elems

theorem exprs_spaced (exprs : List Expr) (hw : AllWritable (exprNodes true exprs)) :
    ∀ e ∈ exprs, e.Spaced := by
  match exprs with
  | [] => nofun
  | e :: rest =>
    simp only [exprNodes, allWritable_append] at hw
    exact List.forall_mem_cons.mpr ⟨Expr.spaced e hw.1, exprs_spaced rest hw.2⟩
termination_by structural exprs

theorem expr?_spaced (e : Option Expr) (hw : AllWritable (exprNodes? true e)) :
    ∀ e', e = some e' → e'.Spaced := by
  match e with
  | none => nofun
  | some e =>
    rintro e' ⟨⟩
    exact Expr.spaced e hw
termination_by structural e

theorem PropertyKey.leads (key : PropertyKey) (hw : AllWritable (key.nodes true))
    (hkey : Node.isWritableKey key = true) : Leads Ends Ends key.pieces := by
  cases key with
  | computed e => exact leads_key hkey fun e' he => by cases he; exact Expr.spaced e hw
  | ident | string | number => exact leads_key hkey nofun
termination_by structural key

theorem Property.leads (p : Property) (hw : AllWritable (p.nodes true))
    (hkey : Node.isWritableKey p.key = true) : Leads Ends Ends p.pieces := by
  cases p with
  | value id key value =>
    simp only [Property.nodes, allWritable_append] at hw
    exact leads_value (PropertyKey.leads key hw.1 hkey) (Expr.spaced value hw.2)
  | getter id key fn | setter id key fn =>
    simp only [Property.nodes, allWritable_append] at hw
    exact leads_accessor (by decide) (PropertyKey.leads key hw.1 hkey) (Func.leads fn hw.2)
termination_by structural p

theorem props_lead (props : List Property) (hw : AllWritable (propNodes true props))
    (hkeys : ∀ p ∈ props, Node.isWritableKey p.key = true) :
    ∀ p ∈ props, Leads Ends Ends p.pieces := by
  match props with
  | [] => nofun
  | p :: rest =>
    simp only [propNodes, allWritable_append] at hw
    rw [List.forall_mem_cons] at hkeys ⊢
    exact ⟨Property.leads p hw.1 hkeys.1, props_lead rest hw.2 hkeys.2⟩
termination_by structural props

theorem Func.leads (fn : Func) (hw : AllWritable (fn.nodes true)) : Leads Ends Free fn.pieces := by
  match fn with
  | ⟨id, params, body⟩ =>
    simp only [Func.nodes, if_true, allWritable_cons, allWritable_append] at hw
    exact leads_func (isName_of_writable hw.2.1) (Block.leads body hw.2.2)
termination_by structural fn

theorem Block.leads (block : Block) (hw : AllWritable (block.nodes true)) :
    Leads Ends Free block.pieces := by
  match block with
  | ⟨id, stmts⟩ => exact leads_block (stmts_spaced stmts hw)
termination_by structural block

theorem stmts_spaced (stmts : List Stmt) (hw : AllWritable (stmtNodes true stmts)) :
    ∀ s ∈ stmts, s.Spaced := by
  match stmts with
  | [] => nofun
  | s :: rest =>
    simp only [stmtNodes, allWritable_append] at hw
    exact List.forall_mem_cons.mpr ⟨Stmt.spaced s hw.1, stmts_spaced rest hw.2⟩
termination_by structural stmts

theorem Stmt.spaced (s : Stmt) (hw : AllWritable (s.nodes true)) : s.Spaced := by
  cases s with
  | block block =>
    simp only [Stmt.nodes, allWritable_cons] at hw
    exact (Block.leads block hw.2).ofEnds
  | empty id => exact leads_plain (by decide) leads_nil
  | expr id e =>
    simp only [Stmt.nodes, allWritable_cons] at hw
    exact spaced_expr (Expr.spaced e hw.2)
  | var decl =>
    simp only [Stmt.nodes, allWritable_cons] at hw
    exact leads_semicolon (VarDecl.leads decl hw.2 false)
  | function id name fn =>
    simp only [Stmt.nodes, allWritable_cons] at hw
    exact spaced_function_decl hw.2.1.2 (Func.leads fn hw.2.2)
  | «if» id test yes no =>
    simp only [Stmt.nodes, List.cons_append, allWritable_cons, allWritable_append] at hw
    exact spaced_if (Expr.spaced test hw.2.1.1) (Stmt.spaced yes hw.2.1.2) (stmt?_spaced no hw.2.2)
  | «for» id init test update body =>
    simp only [Stmt.nodes, List.cons_append, allWritable_cons, allWritable_append] at hw
    exact spaced_for (head?_leads init hw.2.1.1.1) (expr?_spaced test hw.2.1.1.2)
      (expr?_spaced update hw.2.1.2) (Stmt.spaced body hw.2.2)
  | forIn id head obj body =>
    simp only [Stmt.nodes, List.cons_append, allWritable_cons, allWritable_append] at hw
    exact spaced_forIn (ForHead.leads head hw.2.1.1) (Expr.spaced obj hw.2.1.2)
      (Stmt.spaced body hw.2.2)
  | «while» id test body =>
    simp only [Stmt.nodes, List.cons_append, allWritable_cons, allWritable_append] at hw
    exact spaced_while (Expr.spaced test hw.2.1) (Stmt.spaced body hw.2.2)
  | doWhile id body test =>
    simp only [Stmt.nodes, List.cons_append, allWritable_cons, allWritable_append] at hw
    exact spaced_doWhile (Stmt.spaced body hw.2.1) (Expr.spaced test hw.2.2)
  | «return» id arg =>
    simp only [Stmt.nodes, allWritable_cons] at hw
    exact spaced_return (expr?_spaced arg hw.2)
  | «break» id label | «continue» id label =>
    simp only [Stmt.nodes, allWritable_cons] at hw
    exact leads_jump (by decide) (isName_of_label hw.1.2)
  | labeled id label body =>
    simp only [Stmt.nodes, allWritable_cons] at hw
    exact spaced_labeled hw.1.2 (Stmt.spaced body hw.2)
  | throw id arg =>
    simp only [Stmt.nodes, allWritable_cons] at hw
    exact spaced_throw (Expr.spaced arg hw.2)
  | «with» id obj body =>
    simp only [Stmt.nodes, List.cons_append, allWritable_cons, allWritable_append] at hw
    exact spaced_with (Expr.spaced obj hw.2.1) (Stmt.spaced body hw.2.2)
  | «try» id block handler finalizer =>
    simp only [Stmt.nodes, List.cons_append, allWritable_cons, allWritable_append] at hw
    exact spaced_try (Block.leads block hw.2.1.1) (handler?_leads handler hw.2.1.2)
      (block?_leads finalizer hw.2.2)
termination_by structural s

theorem stmt?_spaced (s : Option Stmt) (hw : AllWritable (stmtNodes? true s)) :
    ∀ s', s = some s' → s'.Spaced := by
  match s with
  | none => nofun
  | some s =>
    rintro s' ⟨⟩
    exact Stmt.spaced s hw
termination_by structural s

theorem decls_spaced (decls : List Declarator) (hw : AllWritable (declNodes true decls)) :
    ∀ d ∈ decls, d.Spaced := by
  match decls with
  | [] => nofun
  | ⟨id, name, init⟩ :: rest =>
    simp only [declNodes, Declarator.nodes, List.cons_append, allWritable_cons,
      allWritable_append] at hw
    exact List.forall_mem_cons.mpr ⟨⟨hw.1.2, expr?_spaced init hw.2.1⟩, decls_spaced rest hw.2.2⟩
termination_by structural decls

theorem VarDecl.leads (decl : VarDecl) (hw : AllWritable (decl.nodes true)) (noIn : Bool) :
    Leads Free Ends (decl.pieces noIn) := by
  match decl with
  | ⟨id, kind, decls⟩ =>
    simp only [VarDecl.nodes, allWritable_cons] at hw
    exact leads_decl (decls_spaced decls hw.2) noIn
termination_by structural decl

theorem head?_leads (head : Option ForHead) (hw : AllWritable (headNodes? true head)) :
    ∀ h, head = some h → Leads Free Ends h.pieces := by
  match head with
  | none => nofun
  | some (.decl decl) =>
    rintro h ⟨⟩
    exact VarDecl.leads decl hw true
  | some (.expr e) =>
    rintro h ⟨⟩
    exact (leads_operand (Expr.spaced e hw) true _).ofAwaits.ofEnds
termination_by structural head

theorem ForHead.leads (head : ForHead) (hw : AllWritable (head.loopNodes true)) :
    Leads Free Ends head.pieces := by
  match head with
  | .decl ⟨id, kind, decls⟩ =>
    simp only [ForHead.loopNodes, allWritable_cons] at hw
    exact leads_decl (decls_spaced decls hw.2) true
  | .expr e => exact (leads_operand (Expr.spaced e hw) true _).ofAwaits.ofEnds
termination_by structural head

theorem handler?_leads (handler : Option CatchClause) (hw : AllWritable (handlerNodes? true handler)) :
    ∀ c, handler = some c → (∀ i, c.param = some i → Text.isName i.name = true) ∧
      Leads Ends Free c.body.pieces := by
  match handler with
  | none => nofun
  | some ⟨id, param, body⟩ =>
    simp only [handlerNodes?, CatchClause.nodes, allWritable_append] at hw
    rintro c ⟨⟩
    exact ⟨isName?_of_writable hw.1, Block.leads body hw.2⟩
termination_by structural handler

theorem block?_leads (block : Option Block) (hw : AllWritable (blockNodes? true block)) :
    ∀ b, block = some b → Leads Ends Free b.pieces := by
  match block with
  | none => nofun
  | some block =>
    rintro b ⟨⟩
    exact Block.leads block hw
termination_by structural block

end

end EsOptimizer
