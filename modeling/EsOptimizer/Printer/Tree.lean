import EsOptimizer.Number.Text
import EsOptimizer.Printer.Piece
import EsOptimizer.Syntax.Tree
import EsOptimizer.Text.Quoted

/-!
# From the tree to pieces

`Stmt.pieces` and `Expr.pieces` spell out a tree. Parentheses are put where the tree's structure
would otherwise be lost: around an operand that binds too weakly for its place, around `in` in the
head of a loop, around an expression statement that would start like a declaration or a block. A
consequent that ends with an open `if` gets braces in front of an `else`.
-/

namespace EsOptimizer

/-! ## How strongly expressions bind -/

/-- How strongly an expression holds together; a weaker one in a stronger place is put in
parentheses. -/
abbrev Strength := Nat

namespace Strength

def sequence : Strength := 0
def assign : Strength := 1
def cond : Strength := 2
def binary (precedence : Nat) : Strength := 2 + precedence
def unary : Strength := 14
def updated : Strength := 15
def call : Strength := 16
def member : Strength := 17
def primary : Strength := 18

end Strength

/-- How strongly an expression holds together. Arguments of `new` are always printed, so it binds
like an access. -/
def Expr.strength : Expr → Strength
  | .seq _ _ => .sequence
  | .assign _ _ _ _ => .assign
  | .cond _ _ _ _ => .cond
  | .binary _ op _ _ => .binary op.precedence
  | .unary _ _ _ => .unary
  | .update _ _ before _ => if before then .unary else .updated
  | .call _ _ _ => .call
  | .new _ _ _ | .member _ _ _ | .index _ _ _ => .member
  | _ => .primary

/-- Whether an expression is an `in` test. -/
def Expr.isIn : Expr → Bool
  | .binary _ .in _ _ => true
  | _ => false

def Expr.isNumber : Expr → Bool
  | .number _ _ => true
  | _ => false

/-- Whether a chain of accesses starts at a call, which would take the arguments of a `new` in
front of it. -/
def Expr.startsAtCall : Expr → Bool
  | .call _ _ _ => true
  | .member _ obj _ | .index _ obj _ => obj.startsAtCall
  | _ => false

mutual

/-- Whether the text of an expression starts with a function or an object literal. -/
def Expr.startsLikeStmt : Expr → Bool
  | .function _ _ _ | .object _ _ => true
  | .binary _ _ left _ | .assign _ _ left _ => left.startsLikeStmt
  | .cond _ test _ _ => test.startsLikeStmt
  | .call _ callee _ => callee.startsLikeStmt
  | .member _ obj _ | .index _ obj _ => obj.startsLikeStmt
  | .update _ _ false arg => arg.startsLikeStmt
  | .seq _ exprs => firstStartsLikeStmt exprs
  | _ => false

def firstStartsLikeStmt : List Expr → Bool
  | [] => false
  | e :: _ => e.startsLikeStmt

end

mutual

/-- Whether an `if` without `else` is the last thing in a statement, so that an `else` behind it
would belong to that `if`. -/
def Stmt.endsWithOpenIf : Stmt → Bool
  | .if _ _ _ no => openIfAtEnd no
  | .for _ _ _ _ body | .forIn _ _ _ body | .while _ _ body | .labeled _ _ body
  | .with _ _ body => body.endsWithOpenIf
  | _ => false

def openIfAtEnd : Option Stmt → Bool
  | none => true
  | some no => no.endsWithOpenIf

end

/-! ## Pieces -/

namespace Printer

open Piece (text)

def keyword (s : String) : List Piece := [.text s]

/-- Pieces in parentheses. -/
def parens (inner : List Piece) : List Piece := .text "(" :: inner ++ [.text ")"]

/-- An expression in a place that asks for a strength of at least `least`. In the head of a loop,
where `noIn`, an `in` test is put in parentheses too; inside parentheses it is free again. -/
def operand (e : Expr) (noIn : Bool) (least : Strength) (inner : Bool → List Piece) : List Piece :=
  if e.strength < least || (noIn && e.isIn) then parens (inner false) else inner noIn

/-- Members of a list, with commas between them. -/
def commas : List (List Piece) → List Piece
  | [] => []
  | [p] => p
  | p :: rest => p ++ .text "," :: .gap :: commas rest

def identPieces (i : Ident) : List Piece := [.text i.name]

/-- A body that stands behind its head: a block on the same line, anything else on a line of its
own, with braces around it if asked. -/
def body (s : Stmt) (braces : Bool) (inner : List Piece) : List Piece :=
  match s with
  | .block _ => .gap :: inner
  | _ =>
    if braces then
      [.gap, .text "\x7b", .indent, .line] ++ inner ++ [.line, .dedent, .text "\x7d"]
    else [.indent, .line] ++ inner ++ [.line, .dedent]

/-- Whether `body` leaves the line open. -/
def bodyIsOpen (s : Stmt) (braces : Bool) : Bool :=
  match s with
  | .block _ => true
  | _ => braces

end Printer

open Printer

mutual

/-- The pieces of an expression, without parentheses around it. -/
def Expr.pieces : Expr → (noIn : Bool) → List Piece
  | .this _, _ => keyword "this"
  | .array _ elems, _ => .text "[" :: elemPieces elems true ++ [.text "]"]
  | .object _ props, _ =>
    match props with
    | [] => [.text "\x7b", .text "\x7d"]
    | props =>
      [.text "\x7b", .indent, .line] ++ propPieces props true ++
        [.dedent, .line, .text "\x7d"]
  | .function _ name fn, _ =>
    .text "function" ::
      (match name with
       | some name => .space :: identPieces name
       | none => []) ++ fn.pieces
  | .unary _ op arg, noIn => .text op.text :: operand arg noIn .unary arg.pieces
  | .update _ op true arg, noIn => .text op.text :: operand arg noIn .updated arg.pieces
  | .update _ op false arg, noIn => operand arg noIn .call arg.pieces ++ [.text op.text]
  | .binary _ op left right, noIn =>
    operand left noIn (.binary op.precedence) left.pieces ++
      [.gap, .text op.text, .gap] ++
      operand right noIn (.binary (op.precedence + 1)) right.pieces
  | .assign _ op left right, noIn =>
    operand left noIn .call left.pieces ++ [.gap, .text op.text, .gap] ++
      operand right noIn .assign right.pieces
  | .member _ obj name, noIn =>
    (if obj.isNumber then parens (obj.pieces noIn) else operand obj noIn .call obj.pieces) ++
      .text "." :: identPieces name
  | .index _ obj key, noIn =>
    (if obj.isNumber then parens (obj.pieces noIn) else operand obj noIn .call obj.pieces) ++
      .text "[" :: operand key false .sequence key.pieces ++ [.text "]"]
  | .cond _ test yes no, noIn =>
    operand test noIn (.binary 1) test.pieces ++ [.gap, .text "?", .gap] ++
      operand yes noIn .assign yes.pieces ++ [.gap, .text ":", .gap] ++
      operand no noIn .assign no.pieces
  | .call _ callee args, noIn =>
    operand callee noIn .call callee.pieces ++ parens (commas (argPieces args))
  | .new _ callee args, noIn =>
    [.text "new", .space] ++
      (if callee.startsAtCall then parens (operand callee noIn .sequence callee.pieces)
       else operand callee noIn .member callee.pieces) ++
      parens (commas (argPieces args))
  | .seq _ exprs, noIn => commas (memberPieces exprs noIn)
  | .ident name, _ => identPieces name
  | .string _ value, _ => [.text (Text.quoted value)]
  | .bool _ value, _ => keyword (if value then "true" else "false")
  | .null _, _ => keyword "null"
  | .number _ value, _ => [.text value.toText]
  | .regex _ body flags, _ => [.text ("/" ++ body ++ "/" ++ flags)]
  | .invalid _, _ => [.text "<invalid>"]

/-- Array elements with the commas in front of them; a hole at the end needs a comma of its own. -/
def elemPieces : List (Option Expr) → (first : Bool) → List Piece
  | [], _ => []
  | none :: rest, first =>
    (if first then [] else [.text ","]) ++ (if rest.isEmpty then [.text ","] else []) ++
      elemPieces rest false
  | some e :: rest, first =>
    (if first then [] else [.text ",", .gap]) ++ operand e false .assign e.pieces ++
      elemPieces rest false

def argPieces : List Expr → List (List Piece)
  | [] => []
  | e :: rest => operand e false .assign e.pieces :: argPieces rest

def memberPieces : List Expr → (noIn : Bool) → List (List Piece)
  | [], _ => []
  | e :: rest, noIn => operand e noIn .assign e.pieces :: memberPieces rest noIn

def propPieces : List Property → (first : Bool) → List Piece
  | [], _ => []
  | p :: rest, first =>
    (if first then [] else [.text ",", .line]) ++ p.pieces ++ propPieces rest false

def Property.pieces : Property → List Piece
  | .value _ key value => key.pieces ++ [.text ":", .gap] ++ operand value false .assign value.pieces
  | .getter _ key fn => [.text "get", .space] ++ key.pieces ++ fn.pieces
  | .setter _ key fn => [.text "set", .space] ++ key.pieces ++ fn.pieces

def PropertyKey.pieces : PropertyKey → List Piece
  | .ident name => identPieces name
  | .string _ value => [.text (Text.quoted value)]
  | .number _ value => [.text value.toText]
  | .computed e => .text "[" :: operand e false .assign e.pieces ++ [.text "]"]

/-- Parameters and body. -/
def Func.pieces : Func → List Piece
  | ⟨_, params, body⟩ =>
    parens (commas (params.map identPieces)) ++ .gap :: body.pieces

/-- A block, leaving the line open. -/
def Block.pieces : Block → List Piece
  | ⟨_, stmts⟩ =>
    match stmts with
    | [] => [.text "\x7b", .text "\x7d"]
    | stmts =>
      [.text "\x7b", .indent, .line] ++ stmtPieces stmts ++ [.dedent, .text "\x7d"]

def declPieces : List Declarator → (noIn : Bool) → List (List Piece)
  | [], _ => []
  | ⟨_, name, init⟩ :: rest, noIn => (identPieces name ++ initPieces init noIn) :: declPieces rest noIn

def initPieces : Option Expr → (noIn : Bool) → List Piece
  | none, _ => []
  | some e, noIn => [.gap, .text "=", .gap] ++ operand e noIn .assign e.pieces

/-- A declaration without its semicolon. -/
def VarDecl.pieces : VarDecl → (noIn : Bool) → List Piece
  | ⟨_, kind, decls⟩, noIn => [.text kind.text, .space] ++ commas (declPieces decls noIn)

/-- What stands first in the head of a loop. -/
def ForHead.pieces : ForHead → List Piece
  | .decl d => d.pieces true
  | .expr e => operand e true .sequence e.pieces

def headPieces : Option ForHead → List Piece
  | none => []
  | some h => h.pieces

/-- A part of a loop's head that may be missing. -/
def partPieces : Option Expr → List Piece
  | none => []
  | some e => .gap :: operand e false .sequence e.pieces

def argumentPieces : Option Expr → List Piece
  | none => []
  | some e => .space :: operand e false .sequence e.pieces

def handlerPieces : Option CatchClause → List Piece
  | none => []
  | some ⟨_, param, body⟩ =>
    [.gap, .text "catch", .gap] ++
      (match param with
       | some param => parens (identPieces param) ++ [.gap]
       | none => []) ++ body.pieces

def finalizerPieces : Option Block → List Piece
  | none => []
  | some b => [.gap, .text "finally", .gap] ++ b.pieces

/-- What follows the consequent of an `if`. Another `if` goes on the same line. -/
def elsePieces : Option Stmt → List Piece
  | none => []
  | some no =>
    .text "else" ::
      match no with
      | .if _ _ _ _ => .space :: no.pieces
      | _ => body no false no.pieces

/-- A statement, leaving the line open. -/
def Stmt.pieces : Stmt → List Piece
  | .block b => b.pieces
  | .empty _ => [.text ";"]
  | .expr _ e =>
    (if e.startsLikeStmt then parens (operand e false .sequence e.pieces)
     else operand e false .sequence e.pieces) ++ [.text ";"]
  | .var d => d.pieces false ++ [.text ";"]
  | .function _ name fn => [.text "function", .space] ++ identPieces name ++ fn.pieces
  | .if _ test yes no =>
    let braces := no.isSome && yes.endsWithOpenIf
    [.text "if", .gap] ++ parens (operand test false .sequence test.pieces) ++
      body yes braces yes.pieces ++
      (if no.isSome && bodyIsOpen yes braces then [.gap] else []) ++ elsePieces no
  | .for _ init test update b =>
    [.text "for", .gap, .text "("] ++ headPieces init ++ .text ";" :: partPieces test ++
      .text ";" :: partPieces update ++ .text ")" :: body b false b.pieces
  | .forIn _ head obj b =>
    [.text "for", .gap, .text "("] ++ head.pieces ++ [.space, .text "in", .space] ++
      operand obj false .sequence obj.pieces ++ .text ")" :: body b false b.pieces
  | .while _ test b =>
    [.text "while", .gap] ++ parens (operand test false .sequence test.pieces) ++
      body b false b.pieces
  | .doWhile _ b test =>
    .text "do" :: body b false b.pieces ++ (if bodyIsOpen b false then [.gap] else []) ++
      [.text "while", .gap] ++ parens (operand test false .sequence test.pieces) ++ [.text ";"]
  | .return _ arg => .text "return" :: argumentPieces arg ++ [.text ";"]
  | .break _ label => .text "break" :: labelPieces label ++ [.text ";"]
  | .continue _ label => .text "continue" :: labelPieces label ++ [.text ";"]
  | .labeled _ label b => identPieces label ++ [.text ":", .gap] ++ b.pieces ++ [.line]
  | .throw _ arg =>
    [.text "throw", .space] ++ operand arg false .sequence arg.pieces ++ [.text ";"]
  | .with _ obj b =>
    [.text "with", .gap] ++ parens (operand obj false .sequence obj.pieces) ++
      body b false b.pieces
  | .try _ block handler finalizer =>
    [.text "try", .gap] ++ block.pieces ++ handlerPieces handler ++ finalizerPieces finalizer
where
  labelPieces : Option Ident → List Piece
    | none => []
    | some label => .space :: identPieces label

/-- Statements, each ending its line. -/
def stmtPieces : List Stmt → List Piece
  | [] => []
  | s :: rest => s.pieces ++ .line :: stmtPieces rest

end

/-- The text of a program. Minified text has only the blanks that separate tokens. -/
def Program.print (p : Program) (minify : Bool) : String :=
  Piece.layout minify (stmtPieces p.body)

end EsOptimizer
