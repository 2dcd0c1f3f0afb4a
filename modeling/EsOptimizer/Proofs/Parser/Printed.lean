import EsOptimizer.Proofs.Parser.Statements

/-!
# Reading printed programs

Every legal tree that can be written is read back from its marks. The induction is over the tree, with
the lemma for each kind of expression and statement.
-/

namespace EsOptimizer

open Piece Printer
open EsOptimizer.Parser

attribute [local simp] Node.isLegal Node.isWritable Property.isLegal Node.isWritableKey Expr.nodes
  elemNodes exprNodes exprNodes? PropertyKey.nodes Property.nodes propNodes Func.nodes Block.nodes
  blockNodes? Declarator.nodes declNodes VarDecl.nodes ForHead.nodes ForHead.loopNodes headNodes?
  CatchClause.nodes handlerNodes? Stmt.nodes stmtNodes? stmtNodes Node.name?

mutual

theorem Expr.printed (e : Expr) (hw : AllWritable (e.nodes true)) : Printed e := by
  refine ⟨?_, fun b noIn => e.opens_pieces hw b noIn⟩
  cases e with
  | this => exact readable_this
  | array id elems =>
    simp only [Expr.nodes, allWritable_cons] at hw
    exact readable_array (elems_printed elems hw.2)
  | object id props =>
    simp only [Expr.nodes, allWritable_cons] at hw
    exact readable_object (props_read props hw.2 (List.all_eq_true.mp hw.1.1) (List.all_eq_true.mp hw.1.2))
  | function id name fn =>
    simp only [Expr.nodes, List.cons_append, allWritable_cons, allWritable_append] at hw
    exact readable_function (isName?_of_writable hw.2.1) (Func.reads fn hw.2.2)
  | unary id op arg =>
    simp only [Expr.nodes, allWritable_cons] at hw
    exact readable_unary (Expr.printed arg hw.2).reads
  | update id op before arg =>
    simp only [Expr.nodes, allWritable_cons] at hw
    have harg := Expr.printed arg hw.2
    cases before with
    | true => exact readable_prefix harg.reads hw.1.1
    | false => exact readable_postfix harg hw.1.1
  | binary id op left right =>
    simp only [Expr.nodes, List.cons_append, allWritable_cons, allWritable_append] at hw
    exact readable_binary (Expr.printed left hw.2.1).reads (Expr.printed right hw.2.2).reads
  | assign id op left right =>
    simp only [Expr.nodes, List.cons_append, allWritable_cons, allWritable_append] at hw
    exact readable_assign (Expr.printed left hw.2.1).reads hw.1.1 (Expr.printed right hw.2.2).reads
  | member id obj name =>
    have hopens := fun b noIn => (Expr.member id obj name).opens_pieces hw b noIn
    simp only [Expr.nodes, allWritable_cons] at hw
    exact readable_of_chain (fun b noIn calls => reads_member hw.1.2 (Expr.printed obj hw.2).reads)
      hopens (Nat.le_succ 16) rfl
  | index id obj key =>
    have hopens := fun b noIn => (Expr.index id obj key).opens_pieces hw b noIn
    simp only [Expr.nodes, List.cons_append, allWritable_cons, allWritable_append] at hw
    exact readable_of_chain (fun b noIn calls => reads_index (Expr.printed obj hw.2.1).reads
      (Expr.printed key hw.2.2).reads) hopens (Nat.le_succ 16) rfl
  | cond id test yes no =>
    simp only [Expr.nodes, List.cons_append, allWritable_cons, allWritable_append] at hw
    exact readable_cond (Expr.printed test hw.2.1.1).reads (Expr.printed yes hw.2.1.2).reads
      (Expr.printed no hw.2.2).reads
  | call id callee args =>
    have hopens := fun b noIn => (Expr.call id callee args).opens_pieces hw b noIn
    simp only [Expr.nodes, List.cons_append, allWritable_cons, allWritable_append] at hw
    refine readable_of_chain (fun b noIn calls hcalls => ?_) hopens (Nat.le_refl 16) rfl
    rw [hcalls.resolve_right (by simp [Expr.startsAtCall])]
    exact reads_call (Expr.printed callee hw.2.1).reads (exprs_printed args hw.2.2)
  | new id callee args =>
    have hopens := fun b noIn => (Expr.new id callee args).opens_pieces hw b noIn
    simp only [Expr.nodes, List.cons_append, allWritable_cons, allWritable_append] at hw
    exact readable_of_chain (fun b noIn calls _ => reads_new (Expr.printed callee hw.2.1).reads
      (exprs_printed args hw.2.2)) hopens (Nat.le_succ 16) rfl
  | seq id exprs =>
    simp only [Expr.nodes, allWritable_cons] at hw
    exact readable_seq (of_decide_eq_true hw.1.1) (exprs_printed exprs hw.2)
  | ident name =>
    simp only [Expr.nodes, allWritable_cons] at hw
    exact readable_ident hw.2.1.2
  | string => exact readable_string
  | bool => exact readable_bool
  | null => exact readable_null
  | number id value =>
    simp only [Expr.nodes, allWritable_cons, Node.isWritable] at hw
    exact readable_number hw.1.2
  | regex | invalid => simp at hw
termination_by structural e

theorem elems_printed (elems : List (Option Expr)) (hw : AllWritable (elemNodes true elems)) :
    ∀ e, some e ∈ elems → Printed e := by
  match elems with
  | [] => nofun
  | none :: rest =>
    intro e he
    rcases List.mem_cons.mp he with he | he
    · cases he
    · exact elems_printed rest hw e he
  | some e :: rest =>
    simp only [elemNodes, allWritable_append] at hw
    intro e' he
    rcases List.mem_cons.mp he with he | he
    · cases he
      exact Expr.printed e hw.1
    · exact elems_printed rest hw.2 e' he
termination_by structural elems

theorem exprs_printed (exprs : List Expr) (hw : AllWritable (exprNodes true exprs)) :
    ∀ e ∈ exprs, Printed e := by
  match exprs with
  | [] => nofun
  | e :: rest =>
    simp only [exprNodes, allWritable_append] at hw
    exact List.forall_mem_cons.mpr ⟨Expr.printed e hw.1, exprs_printed rest hw.2⟩
termination_by structural exprs

theorem expr?_printed (e : Option Expr) (hw : AllWritable (exprNodes? true e)) :
    ∀ e', e = some e' → Printed e' := by
  match e with
  | none => nofun
  | some e =>
    rintro e' ⟨⟩
    exact Expr.printed e hw
termination_by structural e

theorem PropertyKey.reads (key : PropertyKey) (hw : AllWritable (key.nodes true))
    (hkey : Node.isWritableKey key = true) : ReadsKey key := by
  cases key with
  | ident i => exact readsKey_ident hkey
  | string => exact readsKey_string
  | number id value => exact readsKey_number hkey
  | computed e => exact readsKey_computed (Expr.printed e hw).reads
termination_by structural key

theorem Property.reads (p : Property) (hw : AllWritable (p.nodes true)) (hlegal : p.isLegal = true)
    (hkey : Node.isWritableKey p.key = true) : ReadsProperty p := by
  cases p with
  | value id key value =>
    simp only [Property.nodes, allWritable_append] at hw
    exact readsProperty_value (PropertyKey.reads key hw.1 hkey) (Expr.printed value hw.2).reads
  | getter id key fn =>
    simp only [Property.nodes, allWritable_append] at hw
    exact readsProperty_accessor true (PropertyKey.reads key hw.1 hkey)
      (Func.reads fn hw.2) (beq_iff_eq.mp hlegal)
  | setter id key fn =>
    simp only [Property.nodes, allWritable_append] at hw
    exact readsProperty_accessor false (PropertyKey.reads key hw.1 hkey)
      (Func.reads fn hw.2) (beq_iff_eq.mp hlegal)
termination_by structural p

theorem props_read (props : List Property) (hw : AllWritable (propNodes true props))
    (hlegal : ∀ p ∈ props, p.isLegal = true)
    (hkeys : ∀ p ∈ props, Node.isWritableKey p.key = true) : ∀ p ∈ props, ReadsProperty p := by
  match props with
  | [] => nofun
  | p :: rest =>
    simp only [propNodes, allWritable_append] at hw
    rw [List.forall_mem_cons] at hlegal hkeys ⊢
    exact ⟨Property.reads p hw.1 hlegal.1 hkeys.1, props_read rest hw.2 hlegal.2 hkeys.2⟩
termination_by structural props

theorem Func.reads (fn : Func) (hw : AllWritable (fn.nodes true)) : ReadsFunc fn := by
  match fn with
  | ⟨id, params, body⟩ =>
    simp only [Func.nodes, if_true, allWritable_cons, allWritable_append] at hw
    exact readsFunc (isName_of_writable hw.2.1)
      (readsBlock (Block.printed body hw.2.2 hw.1.1) fun _ => .function)
termination_by structural fn

theorem Block.printed {cx : Surroundings} (block : Block) (hw : AllWritable (block.nodes true))
    (hplaced : block.isPlaced cx = true) : ∀ s ∈ block.stmts, PrintedStmt cx s := by
  match block with
  | ⟨id, stmts⟩ => exact stmts_printed stmts hw hplaced
termination_by structural block

theorem stmts_printed {cx : Surroundings} (stmts : List Stmt) (hw : AllWritable (stmtNodes true stmts))
    (hplaced : allPlaced cx stmts = true) : ∀ s ∈ stmts, PrintedStmt cx s := by
  match stmts with
  | [] => nofun
  | s :: rest =>
    simp only [stmtNodes, allWritable_append] at hw
    simp only [allPlaced, Bool.and_eq_true] at hplaced
    exact List.forall_mem_cons.mpr ⟨Stmt.printed s hw.1 hplaced.1, stmts_printed rest hw.2 hplaced.2⟩
termination_by structural stmts

theorem Stmt.printed {cx : Surroundings} (s : Stmt) (hw : AllWritable (s.nodes true))
    (hplaced : s.isPlaced cx = true) : PrintedStmt cx s := by
  cases s with
  | block block =>
    simp only [Stmt.nodes, allWritable_cons] at hw
    exact ⟨reads_block (Block.printed block hw.2 hplaced), opens_stmt _ hw.1.2 nofun⟩
  | empty id =>
    exact ⟨reads_empty, opens_stmt _ rfl nofun⟩
  | expr id e =>
    simp only [Stmt.nodes, allWritable_cons] at hw
    have he := Expr.printed e hw.2
    exact ⟨reads_expr he, opens_stmt _ rfl fun _ _ h => by cases h; exact he⟩
  | var decl =>
    simp only [Stmt.nodes, allWritable_cons] at hw
    exact ⟨reads_var (VarDecl.printed decl hw.2), opens_stmt _ rfl nofun⟩
  | function id name fn =>
    simp only [Stmt.nodes, allWritable_cons] at hw
    exact ⟨reads_function hw.2.1.2 (Func.reads fn hw.2.2), opens_stmt _ rfl nofun⟩
  | «if» id test yes no =>
    simp only [Stmt.nodes, List.cons_append, allWritable_cons, allWritable_append] at hw
    simp only [Stmt.isPlaced, Bool.and_eq_true] at hplaced
    exact ⟨reads_if (Expr.printed test hw.2.1.1).reads (Stmt.printed yes hw.2.1.2 hplaced.1)
      (stmt?_printed no hw.2.2 hplaced.2), opens_stmt _ rfl nofun⟩
  | «for» id init test update body =>
    simp only [Stmt.nodes, List.cons_append, allWritable_cons, allWritable_append] at hw
    exact ⟨reads_for (head?_printed init hw.2.1.1.1) (expr?_printed test hw.2.1.1.2)
      (expr?_printed update hw.2.1.2) (Stmt.printed body hw.2.2 hplaced), opens_stmt _ rfl nofun⟩
  | forIn id head obj body =>
    simp only [Stmt.nodes, List.cons_append, allWritable_cons, allWritable_append] at hw
    obtain ⟨hhead, hassigned⟩ := ForHead.printed head hw.2.1.1 fun e he => by
      subst he
      exact hw.1.1
    exact ⟨reads_forIn hhead hassigned (Expr.printed obj hw.2.1.2).reads
      (Stmt.printed body hw.2.2 hplaced), opens_stmt _ rfl nofun⟩
  | «while» id test body =>
    simp only [Stmt.nodes, List.cons_append, allWritable_cons, allWritable_append] at hw
    exact ⟨reads_while (Expr.printed test hw.2.1).reads (Stmt.printed body hw.2.2 hplaced),
      opens_stmt _ rfl nofun⟩
  | doWhile id body test =>
    simp only [Stmt.nodes, List.cons_append, allWritable_cons, allWritable_append] at hw
    exact ⟨reads_doWhile (Expr.printed test hw.2.2).reads (Stmt.printed body hw.2.1 hplaced),
      opens_stmt _ rfl nofun⟩
  | «return» id arg =>
    simp only [Stmt.nodes, allWritable_cons] at hw
    exact ⟨reads_return (expr?_printed arg hw.2) hplaced, opens_stmt _ rfl nofun⟩
  | «break» id label =>
    simp only [Stmt.nodes, allWritable_cons] at hw
    have hjump : ReadsStmt cx (jumpOf true id label) :=
      reads_jump (fun i hi => by subst hi; exact hw.1.2) hplaced
    exact ⟨hjump, opens_stmt _ hw.1.2 nofun⟩
  | «continue» id label =>
    simp only [Stmt.nodes, allWritable_cons] at hw
    have hjump : ReadsStmt cx (jumpOf false id label) :=
      reads_jump (fun i hi => by subst hi; exact hw.1.2) hplaced
    exact ⟨hjump, opens_stmt _ hw.1.2 nofun⟩
  | labeled id label body =>
    simp only [Stmt.nodes, allWritable_cons] at hw
    simp only [Stmt.isPlaced, Bool.and_eq_true, Bool.not_eq_true', List.contains_eq_mem,
      decide_eq_false_iff_not] at hplaced
    exact ⟨reads_labeled hw.1.2 hplaced.1 (Stmt.printed body hw.2 hplaced.2),
      opens_stmt _ hw.1.2 nofun⟩
  | throw id arg =>
    simp only [Stmt.nodes, allWritable_cons] at hw
    exact ⟨reads_throw (Expr.printed arg hw.2), opens_stmt _ rfl nofun⟩
  | «with» id obj body =>
    simp only [Stmt.nodes, List.cons_append, allWritable_cons, allWritable_append] at hw
    exact ⟨reads_with (Expr.printed obj hw.2.1).reads (Stmt.printed body hw.2.2 hplaced),
      opens_stmt _ rfl nofun⟩
  | «try» id block handler finalizer =>
    simp only [Stmt.nodes, List.cons_append, allWritable_cons, allWritable_append] at hw
    simp only [Stmt.isPlaced, Bool.and_eq_true] at hplaced
    have hhandler := handler?_printed handler hw.2.1.2 hplaced.1.2
    exact ⟨reads_try (Block.printed block hw.2.1.1 hplaced.1.1) (fun c hc => (hhandler c hc).1)
      (fun c hc => (hhandler c hc).2) (block?_printed finalizer hw.2.2 hplaced.2) hw.1.1,
      opens_stmt _ rfl nofun⟩
termination_by structural s

theorem stmt?_printed {cx : Surroundings} (s : Option Stmt) (hw : AllWritable (stmtNodes? true s))
    (hplaced : isPlaced? cx s = true) : ∀ s', s = some s' → PrintedStmt cx s' := by
  match s with
  | none => nofun
  | some s =>
    rintro s' ⟨⟩
    exact Stmt.printed s hw hplaced
termination_by structural s

theorem decls_printed (decls : List Declarator) (hw : AllWritable (declNodes true decls)) :
    ∀ x ∈ decls, PrintedDeclarator x := by
  match decls with
  | [] => nofun
  | ⟨id, name, init⟩ :: rest =>
    simp only [declNodes, Declarator.nodes, List.cons_append, allWritable_cons, allWritable_append] at hw
    refine List.forall_mem_cons.mpr ⟨⟨hw.1.2, fun e he => ?_⟩, decls_printed rest hw.2.2⟩
    exact (expr?_printed init hw.2.1 e he).reads
termination_by structural decls

theorem VarDecl.printed (decl : VarDecl) (hw : AllWritable (decl.nodes true)) : PrintedDecl decl := by
  match decl with
  | ⟨id, kind, decls⟩ =>
    simp only [VarDecl.nodes, allWritable_cons] at hw
    exact ⟨by simpa using hw.1.1, decls_printed decls hw.2⟩
termination_by structural decl

theorem head?_printed (head : Option ForHead) (hw : AllWritable (headNodes? true head)) :
    ∀ h, head = some h → PrintedHead h := by
  match head with
  | none => nofun
  | some (.decl decl) =>
    rintro h ⟨⟩
    exact VarDecl.printed decl hw
  | some (.expr e) =>
    rintro h ⟨⟩
    exact Expr.printed e hw
termination_by structural head

theorem ForHead.printed (head : ForHead) (hw : AllWritable (head.loopNodes true))
    (hlegal : ∀ e, head = .expr e → e.isTarget = true) :
    PrintedHead head ∧ AssignedHead head := by
  match head with
  | .decl ⟨id, kind, decls⟩ =>
    simp only [ForHead.loopNodes, allWritable_cons] at hw
    have hdecls := decls_printed decls hw.2
    match decls, hw.1.1 with
    | [x], hinit => exact ⟨⟨List.cons_ne_nil _ _, hdecls⟩, x, rfl, Option.isNone_iff_eq_none.mp hinit⟩
  | .expr e => exact ⟨Expr.printed e hw, hlegal e rfl⟩
termination_by structural head

theorem handler?_printed {cx : Surroundings} (handler : Option CatchClause)
    (hw : AllWritable (handlerNodes? true handler)) (hplaced : handlerPlaced? cx handler = true) :
    ∀ c, handler = some c → (∀ i, c.param = some i → Text.isName i.name = true) ∧
      ∀ s ∈ c.body.stmts, PrintedStmt cx s := by
  match handler with
  | none => nofun
  | some ⟨id, param, body⟩ =>
    simp only [handlerNodes?, CatchClause.nodes, allWritable_append] at hw
    rintro c ⟨⟩
    exact ⟨isName?_of_writable hw.1, Block.printed body hw.2 hplaced⟩
termination_by structural handler

theorem block?_printed {cx : Surroundings} (block : Option Block)
    (hw : AllWritable (blockNodes? true block)) (hplaced : blockPlaced? cx block = true) :
    ∀ block', block = some block' → ∀ s ∈ block'.stmts, PrintedStmt cx s := by
  match block with
  | none => nofun
  | some block =>
    rintro block' ⟨⟩
    exact Block.printed block hw hplaced
termination_by structural block

end

namespace Parser

/-- The statements of a program, up to the end of the input. -/
theorem parses_stmtsToEnd : (ss : List Stmt) → (∀ s ∈ ss, PrintedStmt {} s) → (b : Bool) →
    ParsesWithin 12 stmtsToEnd (marks b (stmtPieces ss)) []
      (stmtShapes false · = stmtShapes true ss)
  | [], _, b => by
    refine .step fun d hd => ?_
    rw [stmtsToEnd]
    exact .sees (.pure rfl)
  | s :: ss, hss, b => by
    refine .step fun d hd => ?_
    have hs := hss s List.mem_cons_self
    have hss' : ∀ s ∈ ss, PrintedStmt {} s := fun s hs => hss s (List.mem_cons_of_mem _ hs)
    obtain ⟨t, ms, hms, ht, -⟩ := hs.opens b
    simp only [stmtPieces, marks_append, marks] at hd ⊢
    rw [stmtsToEnd]
    refine .sees ?_
    rw [if_neg (by simpa [hms] using Token.ne_of_opensStatement ht rfl)]
    have hends : s.EndsBefore (Mark.next (marks true (stmtPieces ss) ++ [])).token :=
      endsBefore_list hss' (.inr rfl)
    rw [List.append_nil] at hends
    refine (hs.reads {} b _ .program hends d (by omega)).bind fun s' hs' => ?_
    refine (parses_stmtsToEnd ss hss' _ d ?_).bind fun ss' hss' => .pure ?_
    · rw [hms] at hd
      simp at hd ⊢
      omega
    · exact congrArg₂ List.cons hs' hss'

/-- The marks of a printed program are read as the program. -/
theorem parses_program {p : Program} (hw : AllWritable p.nodes) (hplaced : allPlaced {} p.body = true)
    {d : Nat} (hd : 16 * (marks true (stmtPieces p.body)).length + 12 ≤ d) :
    Parses (program d) (marks true (stmtPieces p.body)) [] (·.shape false = p.shape true) := by
  rw [program]
  refine (parses_stmtsToEnd p.body (stmts_printed p.body hw hplaced) true d hd).bind fun ss hss =>
    .newId fun id => .pure ?_
  exact congrArg (Program.mk 0) hss

end Parser

end EsOptimizer
