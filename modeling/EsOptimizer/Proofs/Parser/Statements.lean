import EsOptimizer.Proofs.Parser.Legal
import EsOptimizer.Proofs.Parser.Objects

/-!
# Reading statements

One lemma for each kind of statement, as for expressions. Where a statement stands matters twice: what
is around decides which jumps and labels are accepted, and the token behind must not be one with which
the statement could go on.
-/

namespace EsOptimizer

namespace Token

/-- Whether a statement may begin with the token. -/
def opensStatement (t : Token) : Bool :=
  t.opensExpr || match t with
    | .punct p => p == .semicolon
    | .word (.keyword k) =>
      k ∈ [.var, .let, .const, .if, .for, .while, .do, .return, .break, .continue, .throw, .with, .try]
    | _ => false

theorem ne_of_opensStatement {t u : Token} (h : t.opensStatement = true)
    (h' : u.opensStatement = false) : t ≠ u := by
  rintro rfl
  rw [h] at h'
  cases h'

end Token

/-- The token does not go on with the statement. -/
structure Stmt.EndsBefore (s : Stmt) (t : Token) : Prop where
  openIf : s.endsWithOpenIf = true → t ≠ .kw .else
  handler : t ≠ .kw .catch ∧ t ≠ .kw .finally

/-- What may stand in the surroundings is accepted in the context. If the statement there is a loop,
the label on it is known to be one of a loop. -/
structure Surroundings.Fits (cx : Surroundings) (ctx : ParseContext) (isLoop : Bool) : Prop where
  noIn : ctx.noIn = false
  inFunction : cx.inFunction = true → ctx.inFunction = true
  inLoop : cx.inLoop = true → ctx.inLoop = true
  labels : ctx.labels.map (·.name) = cx.labels
  loops : ∀ l ∈ cx.loops, ctx.labels.find? (·.name == l) = some ⟨l, true⟩
  own : isLoop = true → ∀ l, cx.own = some l → ctx.labels.find? (·.name == l) = some ⟨l, true⟩

namespace Surroundings.Fits

variable {cx : Surroundings} {ctx : ParseContext} {isLoop isLoop' : Bool} {l : String}

theorem inside (h : cx.Fits ctx isLoop) : cx.inside.Fits ctx isLoop' :=
  { h with own := nofun }

theorem loop (h : cx.Fits ctx true) : cx.loop.Fits { ctx with inLoop := true } isLoop' where
  noIn := h.noIn
  inFunction := h.inFunction
  inLoop := fun _ => rfl
  labels := h.labels
  loops := fun l hl => by
    rcases List.mem_append.mp hl with hl | hl
    · exact h.own rfl l (Option.mem_toList.mp hl)
    · exact h.loops l hl
  own := nofun

/-- A label of its own, which none around has. -/
theorem labeled (h : cx.Fits ctx isLoop) (hnew : l ∉ cx.labels) :
    (cx.labeled l).Fits { ctx with labels := ⟨l, isLoop'⟩ :: ctx.labels } isLoop' where
  noIn := h.noIn
  inFunction := h.inFunction
  inLoop := h.inLoop
  labels := congrArg (l :: ·) h.labels
  loops := fun l' hl' => by
    have hfound := h.loops l' hl'
    have hne : l ≠ l' := by
      rintro rfl
      have hmem := List.mem_map_of_mem (f := (·.name)) (List.mem_of_find?_eq_some hfound)
      rw [h.labels] at hmem
      exact hnew hmem
    rw [List.find?_cons_of_neg (by simpa using hne)]
    exact hfound
  own := fun hloop l' hl' => by
    cases hl'
    rw [hloop]
    exact List.find?_cons_of_pos (by simp)

/-- The beginning of a function's body. -/
theorem function : Surroundings.function.Fits .function isLoop' :=
  ⟨rfl, fun _ => rfl, nofun, rfl, nofun, nofun⟩

/-- The beginning of a program. -/
theorem program : ({} : Surroundings).Fits {} isLoop' :=
  ⟨rfl, nofun, nofun, rfl, nofun, nofun⟩

end Surroundings.Fits

namespace Parser

open Piece Printer
open ParseContext (Ends)

variable {cx : Surroundings} {ctx : ParseContext} {b b' noIn : Bool} {ms rest out : List Mark}
  {e test obj : Expr} {id : NodeId} {s body yes : Stmt}

/-- A statement is read where it stands, in front of a token that does not go on with it. -/
def ReadsStmt (cx : Surroundings) (s : Stmt) : Prop :=
  ∀ ctx b rest, cx.Fits ctx s.isLoop → s.EndsBefore (Mark.next rest).token →
    ParsesWithin 11 (stmt · ctx) (marks b s.pieces ++ rest) rest (·.shape false = s.shape true)

/-! ## Expressions as statements -/

/-- The token sends the parser to the expressions. -/
theorem parses_stmt_expr {d : Nat} {t : Token} {P : Stmt → Prop}
    (hopens : t.opensExpr = true) (hstmt : t.opensStmt = false)
    (hcolon : t.isIdent = true → (Mark.next ms).token ≠ .punct .colon)
    (h : Parses (exprStmt d ctx) (⟨t, b⟩ :: ms) rest P) :
    Parses (stmt (d + 1) ctx) (⟨t, b⟩ :: ms) rest P := by
  rw [stmt]
  refine .peek ?_
  rw [Mark.next_cons]
  match t with
  | .word (.ident _) =>
    refine .peekSecond ?_
    rw [Mark.second_cons, if_neg (by simpa using hcolon rfl)]
    exact h
  | .word (.keyword k) =>
    cases k <;> first
      | exact h
      | exact absurd hopens (by decide)
      | exact absurd hstmt (by decide)
  | .punct p =>
    cases p <;> first
      | exact h
      | exact absurd hopens (by decide)
      | exact absurd hstmt (by decide)
  | .word .null | .word .true | .word .false | .string _ | .number _ | .binary _ => exact h

/-- An expression that begins like another statement stands in parentheses. -/
theorem marks_expr (b : Bool) (id : NodeId) (h : Printed e) : ∃ ms b',
    marks b (Stmt.expr id e).pieces = ms ++ [⟨.punct .semicolon, b'⟩] ∧
      ReadsExpr ms false e ∧ Mark.Opens b false False ms := by
  simp only [Stmt.pieces, marks_append, marks, Token.ofText_punctuation]
  refine ⟨_, _, rfl, ?_⟩
  split
  · rw [marks_parens]
    exact ⟨(reads_parens h.reads.sequence (Nat.le_refl 17)).expr, .mark rfl rfl (.inr rfl)⟩
  · rename_i hlike
    exact ⟨h.reads.sequence, (opens_operand 0 false (h.opens b)).mono (absurd · hlike) False.elim⟩

theorem reads_expr (h : Printed e) : ReadsStmt cx (.expr id e) := by
  intro ctx b rest _ _
  obtain ⟨ms, b', hms, hreads, hopens⟩ := marks_expr b id h
  rw [hms, List.append_assoc, List.cons_append, List.nil_append]
  refine .step fun d hd => ?_
  have hparsed : Parses (exprStmt d ctx) (ms ++ ⟨.punct .semicolon, b'⟩ :: rest) rest
      (·.shape false = (Stmt.expr id e).shape true) := by
    obtain ⟨d, rfl⟩ : ∃ k, d = k + 1 := ⟨d - 1, by omega⟩
    rw [exprStmt]
    refine (hreads .allowIn (.close (by simp)) d (by omega)).bind fun a ha => ?_
    exact .semicolon rfl (.newId fun id' => .pure (congrArg (Stmt.expr 0) ha))
  have happended : Mark.Opens b false False (ms ++ ⟨.punct .semicolon, b'⟩ :: rest) :=
    hopens.append (by simp)
  obtain ⟨t, more, hmore, hexpr, -, hstmt, hcolon⟩ := happended
  rw [hmore] at hparsed ⊢
  refine parses_stmt_expr hexpr (hstmt rfl) (fun hident => ?_) hparsed
  cases more with
  | nil => simp
  | cons m more => exact hcolon hident m rfl

/-! ## Blocks and bodies -/

/-- A statement that is read, and begins as the parser asks. -/
structure PrintedStmt (cx : Surroundings) (s : Stmt) : Prop where
  reads : ReadsStmt cx s
  opens : ∀ b, ∃ t ms, marks b s.pieces = ⟨t, b⟩ :: ms ∧ t.opensStatement = true ∧
    beginsLoop t = s.isLoop

/-- What follows a statement in a list is the next one, or what ends the list. -/
theorem endsBefore_list {ss : List Stmt} (hss : ∀ s ∈ ss, PrintedStmt cx s)
    (hend : (Mark.next rest).token = .punct .rbrace ∨ (Mark.next rest).token = .eof) :
    s.EndsBefore (Mark.next (marks b (stmtPieces ss) ++ rest)).token := by
  cases ss with
  | nil =>
    rw [stmtPieces, marks, List.nil_append]
    rcases hend with h | h <;> rw [h] <;> exact ⟨fun _ => by decide, by decide⟩
  | cons s' ss =>
    obtain ⟨t, ms, hms, ht, -⟩ := (hss s' List.mem_cons_self).opens b
    rw [stmtPieces, marks_append, hms]
    exact ⟨fun _ => Token.ne_of_opensStatement ht rfl, Token.ne_of_opensStatement ht rfl,
      Token.ne_of_opensStatement ht rfl⟩

theorem parses_stmtsToBrace : (ss : List Stmt) → (∀ s ∈ ss, PrintedStmt cx s) →
    (hcx : ∀ isLoop, cx.Fits ctx isLoop) → (b b' : Bool) →
    ParsesWithin 12 (stmtsToBrace · ctx)
      (marks b (stmtPieces ss) ++ ⟨.punct .rbrace, b'⟩ :: rest) rest
      (stmtShapes false · = stmtShapes true ss)
  | [], _, _, b, b' => by
    refine .step fun d hd => ?_
    rw [stmtsToBrace]
    refine .eat rfl ?_
    rw [if_pos rfl]
    exact .pure rfl
  | s :: ss, hss, hcx, b, b' => by
    refine .step fun d hd => ?_
    have hs := hss s List.mem_cons_self
    have hss' : ∀ s ∈ ss, PrintedStmt cx s := fun s hs => hss s (List.mem_cons_of_mem _ hs)
    obtain ⟨t, ms, hms, ht, -⟩ := hs.opens b
    have hnext (more : List Mark) : (Mark.next (marks b s.pieces ++ more)).token = t := by
      rw [hms]
      rfl
    simp only [stmtPieces, marks_append, marks, List.append_assoc] at hd ⊢
    rw [stmtsToBrace]
    refine .leave (hnext _ ▸ Token.ne_of_opensStatement ht rfl) ?_
    rw [if_neg Bool.false_ne_true]
    refine .sees ?_
    rw [if_neg (by simpa [hnext] using Token.ne_of_opensStatement ht rfl)]
    refine (hs.reads ctx b _ (hcx _) (endsBefore_list hss' (.inl rfl)) d (by omega)).bind
      fun s' hs' => ?_
    refine (parses_stmtsToBrace ss hss' hcx _ b' d ?_).bind fun ss' hss' => .pure ?_
    · rw [hms] at hd
      simp at hd ⊢
      omega
    · exact congrArg₂ List.cons hs' hss'

/-- Where a block stands. -/
theorem readsBlock {block : Block} (hss : ∀ s ∈ block.stmts, PrintedStmt cx s)
    (hcx : ∀ isLoop, cx.Fits ctx isLoop) : ReadsBlock ctx block := by
  intro b rest
  -- The braces of an empty block stand on one line.
  obtain ⟨b₁, b₂, hmarks⟩ : ∃ b₁ b₂, marks b block.pieces =
      ⟨.punct .lbrace, b⟩ :: (marks b₁ (stmtPieces block.stmts) ++ [⟨.punct .rbrace, b₂⟩]) := by
    obtain ⟨id, _ | ⟨s, ss⟩⟩ := block
    · exact ⟨false, false, by simp [Block.pieces, stmtPieces]⟩
    · exact ⟨true, endsLine true (stmtPieces (s :: ss)), by simp [Block.pieces]⟩
  refine .step fun d hd => ?_
  rw [hmarks, List.cons_append, List.append_assoc] at hd ⊢
  rw [Parser.block]
  refine .expect rfl ?_
  refine (parses_stmtsToBrace block.stmts hss hcx _ _ d (by simp at hd ⊢; omega)).bind
    fun ss hss => .newId fun id' => .pure ?_
  obtain ⟨id, stmts⟩ := block
  exact congrArg (Block.mk 0) hss

theorem marks_block (b : Bool) (block : Block) :
    ∃ ms, marks b block.pieces = ⟨.punct .lbrace, b⟩ :: ms := by
  obtain ⟨id, _ | ⟨s, ss⟩⟩ := block <;> simp [Block.pieces]

/-- A block is a statement. -/
theorem parses_stmt_block {block : Block} (h : ReadsBlock ctx block) :
    ParsesWithin 2 (stmt · ctx) (marks b block.pieces ++ rest) rest
      (·.shape false = .block (block.shape true)) := by
  refine .step fun d hd => ?_
  have hread := h b rest d hd
  obtain ⟨ms, hms⟩ := marks_block b block
  rw [hms] at hread ⊢
  rw [stmt]
  exact .peek (hread.bind fun block' hblock => .pure (congrArg Stmt.block hblock))

theorem reads_block {block : Block} (h : ∀ s ∈ block.stmts, PrintedStmt cx.inside s) :
    ReadsStmt cx (.block block) := by
  intro ctx b rest hcx _ d hd
  rw [Stmt.pieces] at hd ⊢
  exact parses_stmt_block (readsBlock h fun _ => hcx.inside) d (by omega)

/-- A body with braces around it or without. -/
theorem reads_body {braces : Bool} (h : PrintedStmt cx s) (hcx : ∀ isLoop, cx.Fits ctx isLoop)
    (hbraces : braces = true → s.endsWithOpenIf = true)
    (hends : braces = false → s.EndsBefore (Mark.next rest).token) :
    ParsesWithin 11 (stmt · ctx) (marks b (Printer.body s braces s.pieces) ++ rest) rest
      (·.shape false = (s.shape true).braced braces) := by
  cases braces with
  | false =>
    have hmarks : ∃ b', marks b (Printer.body s false s.pieces) = marks b' s.pieces := by
      cases s with
      | block => exact ⟨b, by simp [Printer.body]⟩
      | _ => exact ⟨true, by simp [Printer.body]⟩
    obtain ⟨b', hmarks⟩ := hmarks
    rw [hmarks]
    exact h.reads ctx b' rest (hcx _) (hends rfl)
  | true =>
    -- A block does not end with an open `if`.
    have hmarks : marks b (Printer.body s true s.pieces) =
        marks b (Block.pieces ⟨0, [s]⟩) := by
      cases s <;> first | cases hbraces rfl | simp [Printer.body, Block.pieces, stmtPieces]
    rw [hmarks]
    have hblock : ReadsBlock ctx ⟨0, [s]⟩ :=
      readsBlock (fun s' hs' => List.mem_singleton.mp hs' ▸ h) hcx
    intro d hd
    exact parses_stmt_block hblock d (by omega)

theorem reads_plainBody (h : PrintedStmt cx s) (hcx : ∀ isLoop, cx.Fits ctx isLoop)
    (hends : s.EndsBefore (Mark.next rest).token) :
    ParsesWithin 11 (stmt · ctx) (marks b (Printer.body s false s.pieces) ++ rest) rest
      (·.shape false = s.shape true) :=
  reads_body h hcx (fun hbraces => absurd hbraces Bool.false_ne_true) fun _ => hends

/-! ## Declarations -/

/-- A name that can be written, with an initializer that is read. -/
structure PrintedDeclarator (x : Declarator) : Prop where
  name : Text.isName x.name.name = true
  init : ∀ e, x.init = some e → Readable e

/-- A name and its initializer. -/
theorem parses_declarator {β : Type} {x : Declarator} {f : Ident → Option Expr → Parser β} {P : β → Prop}
    {d : Nat} (h : PrintedDeclarator x) (hctx : Allows ctx noIn)
    (hends : ctx.Ends 1 (Mark.next rest).token)
    (hd : 16 * (marks b (identPieces x.name ++ initPieces x.init noIn) ++ rest).length ≤ d)
    (hf : ∀ name init, (∀ id, (Declarator.mk id name init).shape false = x.shape true) →
      Parses (f name init) rest out P) :
    Parses (do
      let name ← ident
      let init ← if ← eat (.assign .assign) then some <$> assignExpr d ctx else pure none
      f name init)
      (marks b (identPieces x.name ++ initPieces x.init noIn) ++ rest) out P := by
  obtain ⟨id, name, init⟩ := x
  simp only [identPieces, marks, Token.ofText_name h.name, List.cons_append,
    List.nil_append] at hd ⊢
  refine .ident rfl fun id' => ?_
  cases init with
  | none =>
    rw [initPieces, marks, List.nil_append]
    refine .leave (hends.assign (Nat.le_refl 1) _) ?_
    rw [if_neg Bool.false_ne_true]
    exact .bind (.pure rfl) fun init hinit => by subst hinit; exact hf _ _ fun _ => rfl
  | some e =>
    simp only [initPieces, marks, Token.ofText_punctuation, List.cons_append, List.nil_append]
      at hd ⊢
    refine .eat rfl ?_
    rw [if_pos rfl]
    have hinit : ParsesWithin 8 (assignExpr · ctx)
        (marks false (operand e noIn .assign e.pieces) ++ rest) rest (·.SpelledBy e) :=
      (h.init e rfl).assign hctx hends
    refine ((hinit d (by simp at hd ⊢; omega)).map (g := some)
      (Q := fun init => exprShape? false init = exprShape? true (some e))
      fun a ha => congrArg some ha).bind fun init hinit => hf _ _ fun _ => ?_
    exact congrArg (Declarator.mk 0 name.shape) hinit

theorem declPieces_cons (x : Declarator) (xs : List Declarator) (noIn : Bool) :
    declPieces (x :: xs) noIn = (identPieces x.name ++ initPieces x.init noIn) :: declPieces xs noIn := by
  obtain ⟨id, name, init⟩ := x
  rw [declPieces]

theorem parses_declarators (hctx : Allows ctx noIn) (hends : ctx.Ends 0 (Mark.next rest).token) :
    (xs : List Declarator) → (hne : xs ≠ []) → (∀ x ∈ xs, PrintedDeclarator x) → (b : Bool) →
    ParsesWithin 1 (declarators · ctx) (marks b (commas (declPieces xs noIn)) ++ rest) rest
      (declShapes false · = declShapes true xs)
  | [], hne, _, _ => absurd rfl hne
  | [x], _, hxs, b => by
    refine .step fun d hd => ?_
    rw [declPieces_cons, declPieces, commas] at hd ⊢
    rw [declarators]
    refine parses_declarator (hxs x List.mem_cons_self) hctx (hends.mono (by decide)) hd
      fun name init hx => .newId fun id => .leave (hends.comma rfl) ?_
    rw [if_neg Bool.false_ne_true]
    exact .pure (congrArg (· :: []) (hx id))
  | x :: y :: xs, _, hxs, b => by
    refine .step fun d hd => ?_
    have hrest := parses_declarators hctx hends (y :: xs) (List.cons_ne_nil _ _)
      (fun x hx => hxs x (List.mem_cons_of_mem _ hx))
    rw [declPieces_cons] at hrest
    rw [declPieces_cons, declPieces_cons, marks_commas, List.append_assoc, List.cons_append] at hd ⊢
    rw [declarators]
    refine parses_declarator (hxs x List.mem_cons_self) hctx (.ofComma (by decide)) ?_
      fun name init hx => .newId fun id => .eat rfl ?_
    · simp at hd ⊢
      omega
    rw [if_pos rfl]
    refine (hrest _ d (by simp at hd ⊢; omega)).bind fun xs hxs => .pure ?_
    exact congrArg₂ List.cons (hx id) hxs

/-- A declaration that declares something. -/
structure PrintedDecl (decl : VarDecl) : Prop where
  ne_nil : decl.decls ≠ []
  decls : ∀ x ∈ decl.decls, PrintedDeclarator x

theorem reads_varDecl {decl : VarDecl} (h : PrintedDecl decl) (hctx : Allows ctx noIn)
    (hends : ctx.Ends 0 (Mark.next rest).token) :
    ParsesWithin 1 (varDecl · ctx) (marks b (decl.pieces noIn) ++ rest) rest
      (·.shape false = decl.shape true) := by
  obtain ⟨id, kind, decls⟩ := decl
  refine .step fun d hd => ?_
  simp only [VarDecl.pieces, marks, Token.ofText_declKind, List.cons_append, List.nil_append]
    at hd ⊢
  have hdecls := parses_declarators hctx hends decls h.ne_nil h.decls false d (by simp at hd ⊢; omega)
  rw [varDecl]
  refine .peek ?_
  cases kind <;>
    exact .bind (.pure rfl) fun kind hkind => by
      subst hkind
      exact .advance (hdecls.bind fun xs hxs => .newId fun id' => .pure (congrArg (VarDecl.mk 0 _) hxs))

/-- A declaration begins with its word. -/
theorem marks_varDecl (b noIn : Bool) (decl : VarDecl) :
    ∃ ms, marks b (decl.pieces noIn) = ⟨.ofDeclKind decl.kind, b⟩ :: ms := by
  obtain ⟨id, kind, decls⟩ := decl
  simp only [VarDecl.pieces, marks_append, marks, Token.ofText_declKind, List.cons_append]
  exact ⟨_, rfl⟩

theorem reads_var {decl : VarDecl} (h : PrintedDecl decl) : ReadsStmt cx (.var decl) := by
  intro ctx b rest hcx _
  refine .step fun d hd => ?_
  simp only [Stmt.pieces, marks_append, marks, Token.ofText_punctuation, List.append_assoc,
    List.cons_append, List.nil_append] at hd ⊢
  have hallows : Allows ctx false := fun hnoIn => by
    rw [hcx.noIn] at hnoIn
    cases hnoIn
  have hdecl : Parses (do
      let decl ← varDecl d ctx
      semicolon
      return Stmt.var decl)
      (marks b (decl.pieces false) ++ ⟨.punct .semicolon, endsLine b (decl.pieces false)⟩ :: rest)
      rest (·.shape false = (Stmt.var decl).shape true) :=
    (reads_varDecl h hallows (.close (by simp)) d (by omega)).bind
      fun decl' hdecl => .semicolon rfl (.pure (congrArg Stmt.var hdecl))
  obtain ⟨ms, hms⟩ := marks_varDecl b false decl
  rw [hms] at hdecl ⊢
  rw [stmt]
  refine .peek ?_
  obtain ⟨id, kind, decls⟩ := decl
  cases kind <;> exact hdecl

theorem reads_function {name : Ident} {fn : Func} (hname : Text.isName name.name = true)
    (hfn : ReadsFunc fn) : ReadsStmt cx (.function id name fn) := by
  intro ctx b rest hcx _
  refine .step fun d hd => ?_
  simp only [Stmt.pieces, identPieces, marks, Token.ofText_words, Token.ofText_name hname,
    List.cons_append, List.nil_append] at hd ⊢
  rw [stmt]
  refine .peek ?_
  obtain ⟨d, rfl⟩ : ∃ k, d = k + 1 := ⟨d - 1, by simp at hd; omega⟩
  show Parses (functionDecl (d + 1) ctx) _ _ _
  rw [functionDecl]
  refine .expectKeyword rfl (.ident rfl fun id' => ?_)
  refine (hfn _ rest d (by simp at hd ⊢; omega)).bind fun fn' hfn' => .newId fun id'' => .pure ?_
  exact congrArg (Stmt.function 0 name.shape) hfn'

/-! ## Statements with a test -/

theorem parses_parenExpr (h : Readable e) :
    ParsesWithin 1 (parenExpr · ctx)
      (marks b (parens (operand e false .sequence e.pieces)) ++ rest) rest (·.SpelledBy e) := by
  refine .step fun d hd => ?_
  rw [marks_parens, List.cons_append, List.append_assoc] at hd ⊢
  rw [parenExpr]
  refine .expect rfl ?_
  refine (h.sequence .allowIn (.close (.inl rfl)) d (by simp at hd ⊢; omega)).bind fun a ha => ?_
  exact .expect rfl (.pure ha)

theorem reads_empty : ReadsStmt cx (.empty id) := by
  intro ctx b rest _ _
  refine .step fun d hd => ?_
  simp only [Stmt.pieces, marks, Token.ofText_punctuation, List.cons_append, List.nil_append]
  rw [stmt]
  exact .peek (.advance (.newId fun id' => .pure rfl))

theorem reads_with (hobj : Readable obj) (hbody : PrintedStmt cx.inside body) :
    ReadsStmt cx (.with id obj body) := by
  intro ctx b rest hcx hends
  refine .step fun d hd => ?_
  simp only [Stmt.pieces, marks_append, marks, Token.ofText_words, List.append_assoc,
    List.cons_append, List.nil_append] at hd ⊢
  rw [stmt]
  refine .peek ?_
  obtain ⟨d, rfl⟩ : ∃ k, d = k + 1 := ⟨d - 1, by simp at hd; omega⟩
  show Parses (withStmt (d + 1) ctx) _ _ _
  rw [withStmt]
  refine .advance ((parses_parenExpr hobj d (by simp at hd ⊢; omega)).bind fun a ha => ?_)
  refine (reads_plainBody hbody (fun _ => hcx.inside) ⟨hends.openIf, hends.handler⟩ d
    (by simp at hd ⊢; omega)).bind fun s hs => .newId fun id' => .pure ?_
  exact congrArg₂ (Stmt.with 0) ha hs

theorem parses_loopBody (hbody : PrintedStmt cx.loop body) (hcx : cx.Fits ctx true)
    (hends : body.EndsBefore (Mark.next rest).token) :
    ParsesWithin 12 (loopBody · ctx) (marks b (Printer.body body false body.pieces) ++ rest) rest
      (·.shape false = body.shape true) := by
  refine .step fun d hd => ?_
  rw [loopBody]
  exact reads_plainBody hbody (fun _ => hcx.loop) hends d hd

theorem reads_while (htest : Readable test) (hbody : PrintedStmt cx.loop body) :
    ReadsStmt cx (.while id test body) := by
  intro ctx b rest hcx hends
  refine .step fun d hd => ?_
  simp only [Stmt.pieces, marks_append, marks, Token.ofText_words, List.append_assoc,
    List.cons_append, List.nil_append] at hd ⊢
  rw [stmt]
  refine .peek ?_
  obtain ⟨d, rfl⟩ : ∃ k, d = k + 1 := ⟨d - 1, by simp at hd; omega⟩
  show Parses (whileStmt (d + 1) ctx) _ _ _
  rw [whileStmt]
  refine .advance ((parses_parenExpr htest d (by simp at hd ⊢; omega)).bind fun a ha => ?_)
  refine (parses_loopBody hbody hcx ⟨hends.openIf, hends.handler⟩ d (by simp at hd ⊢; omega)).bind
    fun s hs => .newId fun id' => .pure ?_
  exact congrArg₂ (Stmt.while 0) ha hs

theorem reads_doWhile (htest : Readable test) (hbody : PrintedStmt cx.loop body) :
    ReadsStmt cx (.doWhile id body test) := by
  intro ctx b rest hcx hends
  have hmarks : ∃ b', marks b (Stmt.doWhile id body test).pieces =
      ⟨.kw .do, b⟩ :: (marks false (Printer.body body false body.pieces) ++ ⟨.kw .while, b'⟩ ::
        (marks false (parens (operand test false .sequence test.pieces)) ++
          [⟨.punct .semicolon, false⟩])) := by
    refine ⟨endsLine false (Printer.body body false body.pieces), ?_⟩
    cases hopen : bodyIsOpen body false <;> simp [Stmt.pieces, hopen, parens]
  obtain ⟨b', hmarks⟩ := hmarks
  rw [hmarks]
  refine .step fun d hd => ?_
  simp only [List.append_assoc, List.cons_append, List.nil_append] at hd ⊢
  rw [stmt]
  refine .peek ?_
  obtain ⟨d, rfl⟩ : ∃ k, d = k + 1 := ⟨d - 1, by simp at hd; omega⟩
  show Parses (doWhileStmt (d + 1) ctx) _ _ _
  rw [doWhileStmt]
  refine .advance ?_
  refine (parses_loopBody hbody hcx ⟨fun _ => by simp [Token.kw], by simp [Token.kw]⟩ d
    (by simp at hd ⊢; omega)).bind fun s hs => .expectKeyword rfl ?_
  refine (parses_parenExpr htest d (by simp at hd ⊢; omega)).bind fun a ha => ?_
  have hsemicolon : Parses (discard (Parser.eat (.punct .semicolon)))
      (⟨.punct .semicolon, false⟩ :: rest) rest fun _ => True :=
    (Parses.ofEat rfl).map fun _ _ => trivial
  exact hsemicolon.bind fun _ _ => .newId fun id' => .pure (congrArg₂ (Stmt.doWhile 0) hs ha)

/-- What stands behind `else`. -/
theorem reads_else {no : Stmt} (b : Bool) (rest : List Mark) (h : PrintedStmt cx no)
    (hcx : ∀ isLoop, cx.Fits ctx isLoop)
    (hends : no.EndsBefore (Mark.next rest).token) :
    ∃ ms, marks b (elsePieces (some no)) = ⟨.kw .else, b⟩ :: ms ∧
      ParsesWithin 11 (stmt · ctx) (ms ++ rest) rest (·.shape false = no.shape true) := by
  cases no with
  | «if» id test yes no' =>
    refine ⟨marks false (Stmt.if id test yes no').pieces, ?_, h.reads ctx false rest (hcx _) hends⟩
    simp only [elsePieces, marks, Token.ofText_words]
  | _ =>
    refine ⟨_, ?_, reads_plainBody (b := false) h hcx hends⟩
    simp only [elsePieces, marks, Token.ofText_words]

/-- Whether there is an `else` decides about the braces, and they decide whether the inner `if` gets it. -/
theorem reads_if {no : Option Stmt} (htest : Readable test) (hyes : PrintedStmt cx.inside yes)
    (hno : ∀ s, no = some s → PrintedStmt cx.inside s) : ReadsStmt cx (.if id test yes no) := by
  intro ctx b rest hcx hends
  obtain ⟨b₁, b₂, hmarks⟩ : ∃ b₁ b₂, marks b (Stmt.if id test yes no).pieces =
      ⟨.kw .if, b⟩ :: (marks false (parens (operand test false .sequence test.pieces)) ++
        (marks b₁ (Printer.body yes (no.isSome && yes.endsWithOpenIf) yes.pieces) ++
          marks b₂ (elsePieces no))) := by
    refine ⟨endsLine false (parens (operand test false .sequence test.pieces)),
      endsLine (endsLine false (parens (operand test false .sequence test.pieces)))
        (Printer.body yes (no.isSome && yes.endsWithOpenIf) yes.pieces), ?_⟩
    simp only [Stmt.pieces, marks_append, marks, Token.ofText_words, List.append_assoc,
      List.cons_append, List.nil_append]
    split <;> simp only [marks, endsLine, List.nil_append]
  have hbraces : (no.isSome && yes.endsWithOpenIf) = true → yes.endsWithOpenIf = true :=
    fun h => (Bool.and_eq_true_iff.mp h).2
  rw [hmarks]
  refine .step fun d hd => ?_
  simp only [List.append_assoc, List.cons_append] at hd ⊢
  rw [stmt]
  refine .peek ?_
  obtain ⟨d, rfl⟩ : ∃ k, d = k + 1 := ⟨d - 1, by simp at hd; omega⟩
  show Parses (ifStmt (d + 1) ctx) _ _ _
  rw [ifStmt]
  refine .advance ((parses_parenExpr htest d (by simp at hd ⊢; omega)).bind fun a ha => ?_)
  cases no with
  | none =>
    have hends' : yes.EndsBefore (Mark.next rest).token := ⟨fun _ => hends.openIf rfl, hends.handler⟩
    rw [elsePieces, marks, List.nil_append] at hd ⊢
    refine (reads_body hyes (fun _ => hcx.inside) hbraces (fun _ => hends') d
      (by simp at hd ⊢; omega)).bind fun y hy => .leave (hends.openIf rfl) ?_
    rw [if_neg Bool.false_ne_true]
    refine .bind (.pure rfl) fun no hno => .newId fun id' => .pure ?_
    subst hno
    exact congrArg₂ (Stmt.if 0 · · none) ha hy
  | some no =>
    obtain ⟨ms, hms, hread⟩ := reads_else b₂ rest (hno no rfl)
      (fun _ => hcx.inside : ∀ _, cx.inside.Fits ctx _) ⟨hends.openIf, hends.handler⟩
    rw [hms] at hd ⊢
    refine (reads_body hyes (fun _ => hcx.inside) hbraces (fun hopen => ?_) d
      (by simp at hd ⊢; omega)).bind fun y hy => .eat rfl ?_
    · refine ⟨fun h => ?_, by simp [Token.kw]⟩
      rw [h] at hopen
      cases hopen
    rw [if_pos rfl]
    refine ((hread d (by simp at hd ⊢; omega)).map (g := some)
      (Q := fun no' => stmtShape? false no' = stmtShape? true (some no))
      fun n hn => congrArg some hn).bind fun no' hno' => .newId fun id' => .pure ?_
    change Stmt.if 0 _ _ _ = Stmt.if 0 _ _ _
    rw [show a.shape false = _ from ha, hno']
    exact congrArg (Stmt.if 0 _ · _) hy

/-! ## Counting loops and `for-in` loops -/

/-- A part of a loop's head that may be missing, in front of the mark that tells. -/
theorem parses_part {β : Type} {part : Option Expr} {f : Option Expr → Parser β} {P : β → Prop}
    {p : Punct} {d : Nat} (h : ∀ e, part = some e → Printed e) (hp : p = .semicolon ∨ p = .rparen)
    (hd : 16 * (marks b (partPieces part) ++ ⟨.punct p, b'⟩ :: rest).length + 9 ≤ d)
    (hf : ∀ part', exprShape? false part' = exprShape? true part →
      Parses (f part') (⟨.punct p, b'⟩ :: rest) out P) :
    Parses (do
      let part' ← if ← sees (.punct p) then pure none else some <$> expr d ctx.allowIn
      f part')
      (marks b (partPieces part) ++ ⟨.punct p, b'⟩ :: rest) out P := by
  refine .sees ?_
  cases part with
  | none =>
    rw [partPieces, marks, List.nil_append, if_pos (by simp)]
    exact .bind (.pure rfl) fun part' hpart' => by subst hpart'; exact hf _ rfl
  | some e =>
    have he := h e rfl
    rw [partPieces, marks] at hd ⊢
    have hother : (Token.punct p).opensExpr = false := by rcases hp with rfl | rfl <;> rfl
    rw [if_neg (by simpa using he.ne hother _)]
    have hread : ParsesWithin 9 (expr · ctx.allowIn)
        (marks b (operand e false .sequence e.pieces) ++ ⟨.punct p, b'⟩ :: rest)
        (⟨.punct p, b'⟩ :: rest) (·.SpelledBy e) :=
      he.reads.sequence .allowIn (.close (by rcases hp with rfl | rfl <;> simp))
    exact ((hread d hd).map (g := some)
      (Q := fun part' => exprShape? false part' = exprShape? true (some e))
      fun a ha => congrArg some ha).bind hf

/-- The marks from the first semicolon in the head of a loop on. -/
theorem parses_forRest {init init' : Option ForHead} {test update : Option Expr} {b₁ b₂ b₃ b₄ : Bool}
    (hinit : headShape? false init' = headShape? true init)
    (htest : ∀ e, test = some e → Printed e) (hupdate : ∀ e, update = some e → Printed e)
    (hbody : PrintedStmt cx.loop body) (hcx : cx.Fits ctx true)
    (hends : body.EndsBefore (Mark.next rest).token) :
    ParsesWithin 1 (forRest · ctx init')
      (⟨.punct .semicolon, b⟩ :: (marks b₁ (partPieces test) ++ ⟨.punct .semicolon, b₂⟩ ::
        (marks b₃ (partPieces update) ++ ⟨.punct .rparen, b₄⟩ ::
          (marks false (Printer.body body false body.pieces) ++ rest)))) rest
      (·.shape false = (Stmt.for id init test update body).shape true) := by
  refine .step fun d hd => ?_
  rw [forRest]
  refine .expect rfl ?_
  refine parses_part htest (.inl rfl) (by simp at hd ⊢; omega) fun test' htest' => .expect rfl ?_
  refine parses_part hupdate (.inr rfl) (by simp at hd ⊢; omega) fun update' hupdate' => .expect rfl ?_
  refine (parses_loopBody hbody hcx hends d (by simp at hd ⊢; omega)).bind fun s hs =>
    .newId fun id' => .pure ?_
  change Stmt.for 0 _ _ _ _ = Stmt.for 0 _ _ _ _
  rw [hinit, htest', hupdate', show s.shape false = _ from hs]

/-- The marks from the `in` in the head of a loop on. -/
theorem parses_forInRest {head head' : ForHead} {b₁ : Bool}
    (hhead : head'.shape false = head.shape true) (hobj : Readable obj)
    (hbody : PrintedStmt cx.loop body) (hcx : cx.Fits ctx true)
    (hends : body.EndsBefore (Mark.next rest).token) :
    ParsesWithin 1 (forInRest · ctx head')
      (⟨.kw .in, b⟩ :: (marks false (operand obj false .sequence obj.pieces) ++
        ⟨.punct .rparen, b₁⟩ :: (marks false (Printer.body body false body.pieces) ++ rest))) rest
      (·.shape false = (Stmt.forIn id head obj body).shape true) := by
  refine .step fun d hd => ?_
  rw [forInRest]
  refine .expectKeyword rfl ?_
  refine (hobj.sequence .allowIn (.close (.inl rfl)) d (by simp at hd ⊢; omega)).bind fun a ha =>
    .expect rfl ?_
  refine (parses_loopBody hbody hcx hends d (by simp at hd ⊢; omega)).bind fun s hs =>
    .newId fun id' => .pure ?_
  change Stmt.forIn 0 _ _ _ = Stmt.forIn 0 _ _ _
  rw [hhead, show a.shape false = _ from ha, show s.shape false = _ from hs]

/-- What stands first in the head of a loop is read. -/
def PrintedHead : ForHead → Prop
  | .decl decl => PrintedDecl decl
  | .expr e => Printed e

/-- What the parser does once it has read the head, up to the mark that tells the loops apart. -/
def afterHead (d : Nat) (ctx : ParseContext) : ForHead → Parser Stmt
  | .decl decl => do
    if ← sees (.kw .in) then
      match decl.decls with
      | [⟨_, _, none⟩] => forInRest d ctx (.decl decl)
      | _ => fail .invalidForIn
    else forRest d ctx (some (.decl decl))
  | .expr e => do
    if ← sees (.kw .in) then
      if e.isTarget then forInRest d ctx (.expr e) else fail .invalidForIn
    else forRest d ctx (some (.expr e))

theorem parses_head {head : ForHead} {d : Nat} {P : Stmt → Prop} {b₁ b₂ : Bool}
    (h : PrintedHead head)
    (hends : ({ ctx with noIn := true } : ParseContext).Ends 0 (Mark.next rest).token)
    (hd : 16 * (marks false head.pieces ++ rest).length + 9 ≤ d)
    (hrest : ∀ head', head'.shape false = head.shape true →
      Parses (afterHead d ctx head') rest out P) :
    Parses (forStmt (d + 1) ctx)
      (⟨.kw .for, b₁⟩ :: ⟨.punct .lparen, b₂⟩ :: (marks false head.pieces ++ rest)) out P := by
  rw [forStmt]
  refine .advance (.expect rfl (.peek ?_))
  cases head with
  | decl decl =>
    have hread : Parses (varDecl d { ctx with noIn := true } >>= fun decl => afterHead d ctx (.decl decl))
        (marks false (decl.pieces true) ++ rest) out P :=
      (reads_varDecl h (fun _ => rfl) hends d (by rw [ForHead.pieces] at hd; omega)).bind
        fun decl' hdecl => hrest (.decl decl') (congrArg ForHead.decl hdecl)
    obtain ⟨ms, hms⟩ := marks_varDecl false true decl
    rw [ForHead.pieces, hms]
    rw [hms] at hread
    obtain ⟨id, kind, decls⟩ := decl
    cases kind <;> exact hread
  | expr e =>
    have hread : Parses (Parser.expr d { ctx with noIn := true } >>= fun e => afterHead d ctx (.expr e))
        (marks false (operand e true .sequence e.pieces) ++ rest) out P :=
      (h.reads.sequence (fun _ => rfl) hends d hd).bind fun e' he =>
        hrest (.expr e') (congrArg ForHead.expr he)
    obtain ⟨t, hnext, hopens, -⟩ := (opens_operand .sequence true (h.opens false)).next rest
    rw [ForHead.pieces, hnext]
    match t with
    | .word (.keyword k) => cases k <;> first | exact hread | exact absurd hopens (by decide)
    | .punct p => cases p <;> first | exact hread | exact absurd hopens (by decide)
    | .word (.ident _) | .word .null | .word .true | .word .false | .string _ | .number _
    | .binary _ => exact hread

theorem parses_afterHead_rest {head : ForHead} {d : Nat} {P : Stmt → Prop}
    (hnext : (Mark.next ms).token ≠ .kw .in) (h : Parses (forRest d ctx (some head)) ms rest P) :
    Parses (afterHead d ctx head) ms rest P := by
  cases head <;>
  · refine .sees ?_
    rw [if_neg (by simpa using hnext)]
    exact h

/-- One name without an initializer, or something that can be assigned to. -/
def AssignedHead : ForHead → Prop
  | .decl decl => ∃ x, decl.decls = [x] ∧ x.init = none
  | .expr e => e.isTarget = true

theorem parses_afterHead_in {head head' : ForHead} {d : Nat} {P : Stmt → Prop}
    (hnext : (Mark.next ms).token = .kw .in) (hassigned : AssignedHead head)
    (hhead : head'.shape false = head.shape true) (h : Parses (forInRest d ctx head') ms rest P) :
    Parses (afterHead d ctx head') ms rest P := by
  cases head' with
  | decl decl' =>
    cases head with
    | expr => cases hhead
    | decl decl =>
      obtain ⟨id, kind, decls⟩ := decl
      obtain ⟨id', kind', decls'⟩ := decl'
      obtain ⟨⟨xid, name, init⟩, rfl, rfl⟩ := hassigned
      refine .sees ?_
      rw [if_pos (by simpa using hnext)]
      match decls' with
      | [⟨_, _, none⟩] => exact h
      | [⟨_, _, some _⟩] | [] | _ :: _ :: _ => simp at hhead
  | expr e' =>
    cases head with
    | decl => cases hhead
    | expr e =>
      refine .sees ?_
      rw [if_pos (by simpa using hnext), if_pos]
      · exact h
      · exact (Expr.SpelledBy.isTarget (ForHead.expr.inj hhead)).trans hassigned

theorem reads_for {init : Option ForHead} {test update : Option Expr}
    (hinit : ∀ h, init = some h → PrintedHead h) (htest : ∀ e, test = some e → Printed e)
    (hupdate : ∀ e, update = some e → Printed e) (hbody : PrintedStmt cx.loop body) :
    ReadsStmt cx (.for id init test update body) := by
  intro ctx b rest hcx hends
  refine .step fun d hd => ?_
  simp only [Stmt.pieces, marks_append, marks, Token.ofText_words, Token.ofText_punctuation,
    List.append_assoc, List.cons_append, List.nil_append] at hd ⊢
  rw [stmt]
  refine .peek ?_
  obtain ⟨d, rfl⟩ : ∃ k, d = k + 1 := ⟨d - 1, by simp at hd; omega⟩
  show Parses (forStmt (d + 1) ctx) _ _ _
  cases init with
  | none =>
    rw [forStmt]
    refine .advance (.expect rfl (.peek ?_))
    exact parses_forRest rfl htest hupdate hbody hcx ⟨hends.openIf, hends.handler⟩ d
      (by simp at hd ⊢; omega)
  | some head =>
    rw [headPieces] at hd ⊢
    refine parses_head (hinit head rfl) (.close (by simp)) (by simp at hd ⊢; omega)
      fun head' hhead => parses_afterHead_rest (by simp [Token.kw]) ?_
    have hinit' : headShape? false (some head') = headShape? true (some head) :=
      congrArg some hhead
    exact parses_forRest hinit' htest hupdate hbody hcx ⟨hends.openIf, hends.handler⟩ d
      (by simp at hd ⊢; omega)

theorem reads_forIn {head : ForHead} (hhead : PrintedHead head) (hassigned : AssignedHead head)
    (hobj : Readable obj) (hbody : PrintedStmt cx.loop body) :
    ReadsStmt cx (.forIn id head obj body) := by
  intro ctx b rest hcx hends
  refine .step fun d hd => ?_
  simp only [Stmt.pieces, marks_append, marks, Token.ofText_words, Token.ofText_punctuation,
    List.append_assoc, List.cons_append, List.nil_append] at hd ⊢
  rw [stmt]
  refine .peek ?_
  obtain ⟨d, rfl⟩ : ∃ k, d = k + 1 := ⟨d - 1, by simp at hd; omega⟩
  show Parses (forStmt (d + 1) ctx) _ _ _
  refine parses_head hhead (.ofIn rfl) (by simp at hd ⊢; omega) fun head' hhead' => ?_
  refine parses_afterHead_in rfl hassigned hhead' ?_
  exact parses_forInRest hhead' hobj hbody hcx ⟨hends.openIf, hends.handler⟩ d
    (by simp at hd ⊢; omega)

/-! ## Jumps and labels -/

theorem reads_return {arg : Option Expr} (harg : ∀ e, arg = some e → Printed e)
    (hplaced : cx.inFunction = true) : ReadsStmt cx (.return id arg) := by
  intro ctx b rest hcx _
  refine .step fun d hd => ?_
  simp only [Stmt.pieces, marks_append, marks, Token.ofText_words, Token.ofText_punctuation,
    List.append_assoc, List.cons_append, List.nil_append] at hd ⊢
  rw [stmt]
  refine .peek ?_
  obtain ⟨d, rfl⟩ : ∃ k, d = k + 1 := ⟨d - 1, by simp at hd; omega⟩
  show Parses (returnStmt (d + 1) ctx) _ _ _
  rw [returnStmt, if_pos (hcx.inFunction hplaced)]
  refine .advance (.sees ?_)
  cases arg with
  | none =>
    rw [argumentPieces, marks, List.nil_append]
    refine .endsStatement fun ends _ => ?_
    rw [if_pos (by simp)]
    refine .bind (.pure rfl) fun arg harg => .semicolon rfl (.newId fun id' => .pure ?_)
    subst harg
    rfl
  | some e =>
    rw [argumentPieces, marks] at hd ⊢
    have he := harg e rfl
    obtain ⟨t, hnext, hopens, -⟩ := (opens_operand .sequence false (he.opens false)).next
      (⟨.punct .semicolon, endsLine false (.space :: operand e false .sequence e.pieces)⟩ :: rest)
    refine .endsStatement fun ends hends => ?_
    rw [hnext] at hends ⊢
    have hgoes : ends = false := by
      by_contra hended
      rcases hends (by simpa using hended) with h | h | h
      · exact Token.ne_of_opensExpr hopens rfl h
      · exact Token.ne_of_opensExpr hopens rfl h
      · cases h
    rw [hgoes, if_neg (by simpa using Token.ne_of_opensExpr hopens rfl)]
    refine ((he.reads.sequence .allowIn (.close (by simp)) d (by simp at hd ⊢; omega)).map (g := some)
      (Q := fun arg => exprShape? false arg = exprShape? true (some e))
      fun a ha => congrArg some ha).bind fun arg harg => .semicolon rfl (.newId fun id' => .pure ?_)
    exact congrArg (Stmt.return 0) harg

theorem reads_throw {arg : Expr} (harg : Printed arg) : ReadsStmt cx (.throw id arg) := by
  intro ctx b rest hcx _
  refine .step fun d hd => ?_
  simp only [Stmt.pieces, marks_append, marks, Token.ofText_words, Token.ofText_punctuation,
    List.append_assoc, List.cons_append, List.nil_append] at hd ⊢
  rw [stmt]
  refine .peek ?_
  obtain ⟨d, rfl⟩ : ∃ k, d = k + 1 := ⟨d - 1, by simp at hd; omega⟩
  show Parses (throwStmt (d + 1) ctx) _ _ _
  rw [throwStmt]
  refine .advance (.sameLine ?_ ?_)
  · obtain ⟨t, hnext, -⟩ := (opens_operand .sequence false (harg.opens false)).next _
    rw [hnext]
  · rw [if_neg Bool.false_ne_true]
    refine (harg.reads.sequence .allowIn (.close (by simp)) d (by simp at hd ⊢; omega)).bind
      fun a ha => .semicolon rfl (.newId fun id' => .pure ?_)
    exact congrArg (Stmt.throw 0) ha

/-- A jump, which may name a label around. -/
def jumpOf (isBreak : Bool) (id : NodeId) (label : Option Ident) : Stmt :=
  if isBreak then .break id label else .continue id label

/-- The parser finds the label of a jump, and knows that it is one of a loop where it has to be. -/
theorem find_label {isBreak : Bool} {label : Ident} (hcx : cx.Fits ctx false)
    (hplaced : (jumpOf isBreak id (some label)).isPlaced cx = true) :
    ∃ target, ctx.labels.find? (·.name == label.name) = some target ∧
      (isBreak || target.isLoop) = true := by
  cases isBreak with
  | false => exact ⟨_, hcx.loops _ (List.contains_iff_mem.mp hplaced), rfl⟩
  | true =>
    have hmem : label.name ∈ cx.labels := List.contains_iff_mem.mp hplaced
    rw [← hcx.labels] at hmem
    obtain ⟨l, hl, hname⟩ := List.mem_map.mp hmem
    obtain ⟨target, htarget⟩ := Option.isSome_iff_exists.mp
      (List.find?_isSome (p := (·.name == label.name)).mpr ⟨l, hl, by simpa using hname⟩)
    exact ⟨target, htarget, rfl⟩

theorem parses_jumpStmt {isBreak : Bool} {label : Option Ident} {m : Mark} {b' : Bool}
    (hname : ∀ i, label = some i → Text.isName i.name = true)
    (hplaced : (jumpOf isBreak id label).isPlaced cx = true) (hcx : cx.Fits ctx false) :
    Parses (jumpStmt isBreak ctx)
      (m :: (marks false (Stmt.pieces.labelPieces label) ++ ⟨.punct .semicolon, b'⟩ :: rest)) rest
      (·.shape false = (jumpOf isBreak id label).shape true) := by
  have hrest (label' : Option Ident) (hlabel : label'.map Ident.shape = label.map Ident.shape) :
      Parses (do
        semicolon
        let id ← newId
        return if isBreak then Stmt.break id label' else .continue id label')
        (⟨.punct .semicolon, b'⟩ :: rest) rest
        (·.shape false = (jumpOf isBreak id label).shape true) := by
    refine .semicolon rfl (.newId fun id' => .pure ?_)
    cases isBreak with
    | true => exact congrArg (Stmt.break 0) hlabel
    | false => exact congrArg (Stmt.continue 0) hlabel
  rw [jumpStmt]
  refine .advance ?_
  cases label with
  | none =>
    have hloop : ctx.inLoop = true := hcx.inLoop (by cases isBreak <;> exact hplaced)
    rw [Stmt.pieces.labelPieces, marks, List.nil_append]
    refine .peek (.afterLineEnd fun ended _ => ?_)
    dsimp only [Mark.next_cons]
    rw [if_pos hloop]
    exact .bind (.pure rfl) fun label' hlabel => by subst hlabel; exact hrest none rfl
  | some i =>
    obtain ⟨target, hfind, hloop⟩ := find_label hcx hplaced
    rw [Stmt.pieces.labelPieces, marks, identPieces, marks, marks, Token.ofText_name (hname i rfl)]
    refine .peek (.sameLine rfl (.ident rfl fun id' => ?_))
    dsimp only
    rw [hfind]
    dsimp only
    rw [if_pos hloop]
    exact .bind (.pure rfl) fun label' hlabel => by subst hlabel; exact hrest (some ⟨id', i.name⟩) rfl

theorem reads_jump {isBreak : Bool} {label : Option Ident}
    (hname : ∀ i, label = some i → Text.isName i.name = true)
    (hplaced : (jumpOf isBreak id label).isPlaced cx = true) :
    ReadsStmt cx (jumpOf isBreak id label) := by
  intro ctx b rest hcx _
  refine .step fun d hd => ?_
  have hcx' : cx.Fits ctx false := { hcx with own := nofun }
  cases isBreak <;>
  · simp only [jumpOf, Stmt.pieces, marks_append, marks, Token.ofText_words,
      Token.ofText_punctuation, List.append_assoc, List.cons_append, List.nil_append,
      if_true, Bool.false_eq_true, if_false]
    rw [stmt]
    exact .peek (parses_jumpStmt hname hplaced hcx')

/-- The labels around are other ones. -/
theorem reads_labeled {label : Ident} (hname : Text.isName label.name = true)
    (hnew : label.name ∉ cx.labels) (hbody : PrintedStmt (cx.labeled label.name) body) :
    ReadsStmt cx (.labeled id label body) := by
  intro ctx b rest hcx hends
  refine .step fun d hd => ?_
  simp only [Stmt.pieces, identPieces, marks_append, marks, Token.ofText_name hname,
    Token.ofText_punctuation, List.append_assoc, List.cons_append, List.nil_append] at hd ⊢
  obtain ⟨t, ms, hms, -, hloop⟩ := hbody.opens false
  have hnext (more : List Mark) : (Mark.next (marks false body.pieces ++ more)).token = t := by
    rw [hms]
    rfl
  rw [stmt]
  refine .peek (.peekSecond ?_)
  rw [if_pos (by simp)]
  obtain ⟨d, rfl⟩ : ∃ k, d = k + 1 := ⟨d - 1, by simp at hd; omega⟩
  rw [labeledStmt]
  refine .ident rfl fun id' => .expect rfl ?_
  rw [if_neg]
  · refine .peek ?_
    rw [hnext]
    have hfits : (cx.labeled label.name).Fits
        { ctx with labels := ⟨label.name, beginsLoop t⟩ :: ctx.labels } body.isLoop := by
      rw [hloop]
      exact hcx.labeled hnew
    refine (hbody.reads _ false rest hfits ⟨hends.openIf, hends.handler⟩ d
      (by simp at hd ⊢; omega)).bind fun s hs => .newId fun id'' => .pure ?_
    exact congrArg (Stmt.labeled 0 label.shape) hs
  · rw [← hcx.labels] at hnew
    simpa using hnew

/-! ## Exceptions -/

/-- What stands behind `catch`. -/
theorem parses_catchClause {c : CatchClause} (b : Bool) (rest : List Mark)
    (hparam : ∀ i, c.param = some i → Text.isName i.name = true)
    (hbody : ReadsBlock ctx c.body) :
    ∃ ms, marks b (handlerPieces (some c)) = ⟨.kw .catch, b⟩ :: ms ∧
      ParsesWithin 2 (catchClause · ctx) (ms ++ rest) rest (·.shape false = c.shape true) := by
  obtain ⟨id, param, body⟩ := c
  cases param with
  | none =>
    refine ⟨marks false body.pieces, by simp [handlerPieces], .step fun d hd => ?_⟩
    rw [catchClause]
    obtain ⟨ms, hms⟩ := marks_block false body
    have hread := hbody false rest d hd
    refine .leave (by rw [hms]; simp) ?_
    rw [if_neg Bool.false_ne_true]
    refine .bind (.pure rfl) fun param hparam => ?_
    subst hparam
    exact hread.bind fun body' hbody' => .newId fun id' => .pure (congrArg (CatchClause.mk 0 none) hbody')
  | some i =>
    refine ⟨⟨.punct .lparen, false⟩ :: ⟨.word (.ident i.name), false⟩ :: ⟨.punct .rparen, false⟩ ::
      marks false body.pieces, ?_, .step fun d hd => ?_⟩
    · simp [handlerPieces, identPieces, Token.ofText_name (hparam i rfl)]
    rw [catchClause]
    simp only [List.cons_append] at hd ⊢
    refine .eat rfl ?_
    rw [if_pos rfl]
    refine .ident rfl fun id' => .expect rfl (.bind (.pure rfl) fun param hparam => ?_)
    subst hparam
    refine (hbody false rest d (by simp at hd ⊢; omega)).bind fun body' hbody' =>
      .newId fun id'' => .pure ?_
    exact congrArg (CatchClause.mk 0 (some i.shape)) hbody'

theorem parses_handler {β : Type} {handler : Option CatchClause} {f : Option CatchClause → Parser β}
    {P : β → Prop} {d : Nat}
    (hparam : ∀ c, handler = some c → ∀ i, c.param = some i → Text.isName i.name = true)
    (hbody : ∀ c, handler = some c → ReadsBlock ctx c.body)
    (hnext : (Mark.next rest).token ≠ .kw .catch)
    (hd : 16 * (marks b (handlerPieces handler) ++ rest).length ≤ d)
    (hf : ∀ handler', handlerShape? false handler' = handlerShape? true handler →
      Parses (f handler') rest out P) :
    Parses (do
      let handler' ← if ← eat (.kw .catch) then some <$> catchClause d ctx else pure none
      f handler')
      (marks b (handlerPieces handler) ++ rest) out P := by
  cases handler with
  | none =>
    rw [handlerPieces, marks, List.nil_append]
    refine .leave hnext ?_
    rw [if_neg Bool.false_ne_true]
    exact .bind (.pure rfl) fun handler' h => by subst h; exact hf none rfl
  | some c =>
    obtain ⟨ms, hms, hread⟩ := parses_catchClause b rest (hparam c rfl) (hbody c rfl)
    rw [hms, List.cons_append] at hd ⊢
    refine .eat rfl ?_
    rw [if_pos rfl]
    exact ((hread d (by simp at hd ⊢; omega)).map (g := some)
      (Q := fun handler' => handlerShape? false handler' = handlerShape? true (some c))
      fun c' hc' => congrArg some hc').bind hf

theorem parses_finalizer {β : Type} {finalizer : Option Block} {f : Option Block → Parser β}
    {P : β → Prop} {d : Nat} (hbody : ∀ block, finalizer = some block → ReadsBlock ctx block)
    (hnext : (Mark.next rest).token ≠ .kw .finally)
    (hd : 16 * (marks b (finalizerPieces finalizer) ++ rest).length ≤ d)
    (hf : ∀ finalizer', blockShape? false finalizer' = blockShape? true finalizer →
      Parses (f finalizer') rest out P) :
    Parses (do
      let finalizer' ← if ← eat (.kw .finally) then some <$> block d ctx else pure none
      f finalizer')
      (marks b (finalizerPieces finalizer) ++ rest) out P := by
  cases finalizer with
  | none =>
    rw [finalizerPieces, marks, List.nil_append]
    refine .leave hnext ?_
    rw [if_neg Bool.false_ne_true]
    exact .bind (.pure rfl) fun finalizer' h => by subst h; exact hf none rfl
  | some block =>
    simp only [finalizerPieces, marks, Token.ofText_words, List.cons_append, List.nil_append] at hd ⊢
    refine .eat rfl ?_
    rw [if_pos rfl]
    exact ((hbody block rfl _ _ d (by simp at hd ⊢; omega)).map (g := some)
      (Q := fun finalizer' => blockShape? false finalizer' = blockShape? true (some block))
      fun c' hc' => congrArg some hc').bind hf

theorem reads_try {block : Block} {handler : Option CatchClause} {finalizer : Option Block}
    (hblock : ∀ s ∈ block.stmts, PrintedStmt cx.inside s)
    (hparam : ∀ c, handler = some c → ∀ i, c.param = some i → Text.isName i.name = true)
    (hhandler : ∀ c, handler = some c → ∀ s ∈ c.body.stmts, PrintedStmt cx.inside s)
    (hfinalizer : ∀ block, finalizer = some block → ∀ s ∈ block.stmts, PrintedStmt cx.inside s)
    (hlegal : (handler.isSome || finalizer.isSome) = true) :
    ReadsStmt cx (.try id block handler finalizer) := by
  intro ctx b rest hcx hends
  have hinside : ∀ isLoop, cx.inside.Fits ctx isLoop := fun _ => hcx.inside
  refine .step fun d hd => ?_
  simp only [Stmt.pieces, marks_append, marks, Token.ofText_words, List.append_assoc,
    List.cons_append, List.nil_append] at hd ⊢
  rw [stmt]
  refine .peek ?_
  obtain ⟨d, rfl⟩ : ∃ k, d = k + 1 := ⟨d - 1, by simp at hd; omega⟩
  show Parses (tryStmt (d + 1) ctx) _ _ _
  rw [tryStmt]
  refine .advance ((readsBlock hblock hinside _ _ d (by simp at hd ⊢; omega)).bind
    fun block' hblock' => ?_)
  refine parses_handler hparam (fun c hc => readsBlock (hhandler c hc) hinside) ?_
    (by simp at hd ⊢; omega) fun handler' hhandler' => ?_
  · cases finalizer with
    | none => exact hends.handler.1
    | some block => simp [finalizerPieces, Token.kw]
  refine parses_finalizer (fun block hblock => readsBlock (hfinalizer block hblock) hinside)
    hends.handler.2 (by simp at hd ⊢; omega) fun finalizer' hfinalizer' => ?_
  rw [if_neg]
  · refine .newId fun id' => .pure ?_
    change Stmt.try 0 _ _ _ = Stmt.try 0 _ _ _
    rw [show block'.shape false = _ from hblock', hhandler', hfinalizer']
  · cases handler <;> cases handler' <;> cases finalizer <;> cases finalizer' <;> simp_all

/-! ## The first token of a statement -/

/-- It tells loops from other statements. -/
theorem opens_stmt (s : Stmt) (hw : (Node.stmt s).isWritable = true)
    (hexpr : ∀ id e, s = .expr id e → Printed e) (b : Bool) :
    ∃ t ms, marks b s.pieces = ⟨t, b⟩ :: ms ∧ t.opensStatement = true ∧
      beginsLoop t = s.isLoop := by
  cases s with
  | block block =>
    obtain ⟨ms, hms⟩ := marks_block b block
    exact ⟨_, ms, hms, rfl, rfl⟩
  | expr id e =>
    obtain ⟨ms, b', hms, -, hopens⟩ := marks_expr b id (hexpr id e rfl)
    obtain ⟨t, more, rfl, ht, -⟩ := hopens
    refine ⟨t, _, hms, Bool.or_eq_true_iff.mpr (.inl ht), ?_⟩
    show beginsLoop t = false
    simp only [beginsLoop, Bool.or_eq_false_iff, beq_eq_false_iff_ne]
    exact ⟨⟨Token.ne_of_opensExpr ht rfl, Token.ne_of_opensExpr ht rfl⟩, Token.ne_of_opensExpr ht rfl⟩
  | var decl =>
    obtain ⟨ms, hms⟩ := marks_varDecl b false decl
    simp only [Stmt.pieces, marks_append, hms, List.cons_append]
    exact ⟨_, _, rfl, by cases decl.kind <;> exact ⟨rfl, rfl⟩⟩
  | labeled id label body =>
    simp only [Stmt.pieces, identPieces, marks_append, marks, Token.ofText_name hw, List.cons_append]
    exact ⟨_, _, rfl, rfl, rfl⟩
  | _ =>
    simp only [Stmt.pieces, marks_append, marks, Token.ofText_words, Token.ofText_punctuation,
      List.cons_append]
    exact ⟨_, _, rfl, rfl, rfl⟩

end Parser

end EsOptimizer
