import EsOptimizer.Parser.Basic
import EsOptimizer.Token.Lexer

/-!
# From tokens to the tree

A recursive-descent parser. Each node gets its id once its parts have theirs, so ids count in the
order in which nodes end.

The first argument of each function bounds how deep it may go. Between two tokens a parse passes
through fewer than sixteen functions, so `parse` starts with sixteen levels for every token, and the
bound is never what ends a parse.
-/

namespace EsOptimizer
namespace Parser

/-- The depth ran out. This error is never that of a text: of the end of the input, `unexpected` says
`endOfInput`. -/
def tooDeep {α : Type} : Parser α := fail (.unexpected .eof .expression)

/-- `break` or `continue`. A label must be one of those around, and that of a loop in order to be
continued. -/
def jumpStmt (isBreak : Bool) (ctx : ParseContext) : Parser Stmt := do
  advance
  let label ← match ← peek, ← afterLineEnd with
    | .word (.ident _), false =>
      let label ← ident
      match ctx.labels.find? (·.name == label.name) with
      | some target =>
        unless isBreak || target.isLoop do fail (.undefinedLabel label.name)
        pure (some label)
      | none => fail (.undefinedLabel label.name)
    | _, _ =>
      unless ctx.inLoop do fail (if isBreak then .strayBreak else .strayContinue)
      pure none
  semicolon
  let id ← newId
  return if isBreak then .break id label else .continue id label

mutual

def stmt : (depth : Nat) → ParseContext → Parser Stmt
  | 0, _ => tooDeep
  | d + 1, ctx => do
    match ← peek with
    | .punct .lbrace => return .block (← block d ctx)
    | .punct .semicolon =>
      advance
      return .empty (← newId)
    | .word (.ident _) =>
      if (← peekSecond) == .punct .colon then labeledStmt d ctx else exprStmt d ctx
    | .word (.keyword k) =>
      match k with
      | .var | .let | .const =>
        let decl ← varDecl d ctx
        semicolon
        return .var decl
      | .function => functionDecl d ctx
      | .if => ifStmt d ctx
      | .for => forStmt d ctx
      | .while => whileStmt d ctx
      | .do => doWhileStmt d ctx
      | .return => returnStmt d ctx
      | .break => jumpStmt true ctx
      | .continue => jumpStmt false ctx
      | .throw => throwStmt d ctx
      | .try => tryStmt d ctx
      | .with => withStmt d ctx
      | .switch => fail (.unsupported .switchStmt)
      | .klass => fail (.unsupported .classDecl)
      | .debugger => fail (.unsupported .debuggerStmt)
      | .import | .export => fail (.unsupported .modules)
      | _ => exprStmt d ctx
    | _ => exprStmt d ctx

def block : (depth : Nat) → ParseContext → Parser Block
  | 0, _ => tooDeep
  | d + 1, ctx => do
    expect .lbrace
    let stmts ← stmtsToBrace d ctx
    return ⟨← newId, stmts⟩

/-- The statements up to a closing brace, which is moved over. -/
def stmtsToBrace : (depth : Nat) → ParseContext → Parser (List Stmt)
  | 0, _ => tooDeep
  | d + 1, ctx => do
    if ← eat (.punct .rbrace) then return []
    if ← sees .eof then unexpected (.punct .rbrace)
    let s ← stmt d ctx
    return s :: (← stmtsToBrace d ctx)

def exprStmt : (depth : Nat) → ParseContext → Parser Stmt
  | 0, _ => tooDeep
  | d + 1, ctx => do
    let e ← expr d ctx.allowIn
    semicolon
    return .expr (← newId) e

/-- A declaration without its semicolon. -/
def varDecl : (depth : Nat) → ParseContext → Parser VarDecl
  | 0, _ => tooDeep
  | d + 1, ctx => do
    let kind ← match ← peek with
      | .word (.keyword .var) => pure DeclKind.var
      | .word (.keyword .let) => pure DeclKind.let
      | _ => pure DeclKind.const
    advance
    let decls ← declarators d ctx
    return ⟨← newId, kind, decls⟩

def declarators : (depth : Nat) → ParseContext → Parser (List Declarator)
  | 0, _ => tooDeep
  | d + 1, ctx => do
    let name ← ident
    let init ← if ← eat (.assign .assign) then some <$> assignExpr d ctx else pure none
    let decl : Declarator := ⟨← newId, name, init⟩
    if ← eat (.punct .comma) then return decl :: (← declarators d ctx)
    else return [decl]

def functionDecl : (depth : Nat) → ParseContext → Parser Stmt
  | 0, _ => tooDeep
  | d + 1, _ => do
    expectKeyword .function
    let name ← ident
    let fn ← functionRest d
    return .function (← newId) name fn

/-- Parameters and body. -/
def functionRest : (depth : Nat) → Parser Func
  | 0 => tooDeep
  | d + 1 => do
    expect .lparen
    let params ← paramsToParen d
    let body ← block d .function
    return ⟨← newId, params, body⟩

/-- The parameters up to a closing parenthesis, which is moved over. -/
def paramsToParen : (depth : Nat) → Parser (List Ident)
  | 0 => tooDeep
  | d + 1 => do
    if ← eat (.punct .rparen) then return []
    let p ← ident
    if ← eat (.punct .comma) then return p :: (← paramsToParen d)
    expect .rparen
    return [p]

def ifStmt : (depth : Nat) → ParseContext → Parser Stmt
  | 0, _ => tooDeep
  | d + 1, ctx => do
    advance
    let test ← parenExpr d ctx
    let yes ← stmt d ctx
    let no ← if ← eat (.kw .else) then some <$> stmt d ctx else pure none
    return .if (← newId) test yes no

def parenExpr : (depth : Nat) → ParseContext → Parser Expr
  | 0, _ => tooDeep
  | d + 1, ctx => do
    expect .lparen
    let e ← expr d ctx.allowIn
    expect .rparen
    return e

def loopBody : (depth : Nat) → ParseContext → Parser Stmt
  | 0, _ => tooDeep
  | d + 1, ctx => stmt d { ctx with inLoop := true }

def forStmt : (depth : Nat) → ParseContext → Parser Stmt
  | 0, _ => tooDeep
  | d + 1, ctx => do
    advance
    expect .lparen
    match ← peek with
    | .punct .semicolon => forRest d ctx none
    | .word (.keyword .var) | .word (.keyword .let) | .word (.keyword .const) =>
      let decl ← varDecl d { ctx with noIn := true }
      if ← sees (.kw .in) then
        match decl.decls with
        | [⟨_, _, none⟩] => forInRest d ctx (.decl decl)
        | _ => fail .invalidForIn
      else forRest d ctx (some (.decl decl))
    | _ =>
      let e ← expr d { ctx with noIn := true }
      if ← sees (.kw .in) then
        if e.isTarget then forInRest d ctx (.expr e) else fail .invalidForIn
      else forRest d ctx (some (.expr e))

/-- The rest of a counting loop, from its first semicolon on. -/
def forRest : (depth : Nat) → ParseContext → Option ForHead → Parser Stmt
  | 0, _, _ => tooDeep
  | d + 1, ctx, init => do
    expect .semicolon
    let test ← if ← sees (.punct .semicolon) then pure none else some <$> expr d ctx.allowIn
    expect .semicolon
    let update ← if ← sees (.punct .rparen) then pure none else some <$> expr d ctx.allowIn
    expect .rparen
    let body ← loopBody d ctx
    return .for (← newId) init test update body

/-- The rest of a `for-in` loop, from its `in` on. -/
def forInRest : (depth : Nat) → ParseContext → ForHead → Parser Stmt
  | 0, _, _ => tooDeep
  | d + 1, ctx, head => do
    expectKeyword .in
    let obj ← expr d ctx.allowIn
    expect .rparen
    let body ← loopBody d ctx
    return .forIn (← newId) head obj body

def whileStmt : (depth : Nat) → ParseContext → Parser Stmt
  | 0, _ => tooDeep
  | d + 1, ctx => do
    advance
    let test ← parenExpr d ctx
    let body ← loopBody d ctx
    return .while (← newId) test body

/-- The semicolon after a `do-while` loop may always be left out. -/
def doWhileStmt : (depth : Nat) → ParseContext → Parser Stmt
  | 0, _ => tooDeep
  | d + 1, ctx => do
    advance
    let body ← loopBody d ctx
    expectKeyword .while
    let test ← parenExpr d ctx
    discard (eat (.punct .semicolon))
    return .doWhile (← newId) body test

def returnStmt : (depth : Nat) → ParseContext → Parser Stmt
  | 0, _ => tooDeep
  | d + 1, ctx => do
    unless ctx.inFunction do fail .strayReturn
    advance
    let arg ← if (← sees (.punct .semicolon)) || (← endsStatement) then pure none
      else some <$> expr d ctx.allowIn
    semicolon
    return .return (← newId) arg

def labeledStmt : (depth : Nat) → ParseContext → Parser Stmt
  | 0, _ => tooDeep
  | d + 1, ctx => do
    let label ← ident
    expect .colon
    if ctx.labels.any (·.name == label.name) then fail (.duplicateLabel label.name)
    let t ← peek
    let isLoop := t == .kw .for || t == .kw .while || t == .kw .do
    let body ← stmt d { ctx with labels := ⟨label.name, isLoop⟩ :: ctx.labels }
    return .labeled (← newId) label body

def throwStmt : (depth : Nat) → ParseContext → Parser Stmt
  | 0, _ => tooDeep
  | d + 1, ctx => do
    advance
    if ← afterLineEnd then fail .lineEndInThrow
    let arg ← expr d ctx.allowIn
    semicolon
    return .throw (← newId) arg

def tryStmt : (depth : Nat) → ParseContext → Parser Stmt
  | 0, _ => tooDeep
  | d + 1, ctx => do
    advance
    let body ← block d ctx
    let handler ← if ← eat (.kw .catch) then some <$> catchClause d ctx else pure none
    let finalizer ← if ← eat (.kw .finally) then some <$> block d ctx else pure none
    if handler.isNone && finalizer.isNone then fail .tryWithoutHandler
    return .try (← newId) body handler finalizer

/-- What follows `catch`. -/
def catchClause : (depth : Nat) → ParseContext → Parser CatchClause
  | 0, _ => tooDeep
  | d + 1, ctx => do
    let param ← if ← eat (.punct .lparen) then do
        let param ← ident
        expect .rparen
        pure (some param)
      else pure none
    let body ← block d ctx
    return ⟨← newId, param, body⟩

def withStmt : (depth : Nat) → ParseContext → Parser Stmt
  | 0, _ => tooDeep
  | d + 1, ctx => do
    advance
    let obj ← parenExpr d ctx
    let body ← stmt d ctx
    return .with (← newId) obj body

/-- An expression, in which commas separate the members of a sequence. -/
def expr : (depth : Nat) → ParseContext → Parser Expr
  | 0, _ => tooDeep
  | d + 1, ctx => do
    let first ← assignExpr d ctx
    if ← sees (.punct .comma) then
      let rest ← commaExprs d ctx
      return .seq (← newId) (first :: rest)
    else return first

/-- More members of a sequence, each behind a comma. -/
def commaExprs : (depth : Nat) → ParseContext → Parser (List Expr)
  | 0, _ => tooDeep
  | d + 1, ctx => do
    if ← eat (.punct .comma) then
      let e ← assignExpr d ctx
      return e :: (← commaExprs d ctx)
    else return []

def assignExpr : (depth : Nat) → ParseContext → Parser Expr
  | 0, _ => tooDeep
  | d + 1, ctx => do
    let pos ← position
    let left ← condExpr d ctx
    match ← peek with
    | .assign op =>
      unless left.isTarget do failAt pos .invalidTarget
      advance
      let right ← assignExpr d ctx
      return .assign (← newId) op left right
    | _ => return left

def condExpr : (depth : Nat) → ParseContext → Parser Expr
  | 0, _ => tooDeep
  | d + 1, ctx => do
    let test ← binaryExpr d ctx 0
    if ← eat (.punct .question) then
      let yes ← assignExpr d ctx.allowIn
      expect .colon
      let no ← assignExpr d ctx
      return .cond (← newId) test yes no
    else return test

/-- An expression of binary operators that bind more strongly than `least`. -/
def binaryExpr : (depth : Nat) → ParseContext → (least : Nat) → Parser Expr
  | 0, _, _ => tooDeep
  | d + 1, ctx, least => do
    let left ← unaryExpr d ctx
    binaryRest d ctx least left

/-- Goes on with operators that bind more strongly than `least`. -/
def binaryRest : (depth : Nat) → ParseContext → (least : Nat) → Expr → Parser Expr
  | 0, _, _, _ => tooDeep
  | d + 1, ctx, least, left => do
    match ← binaryOp? ctx with
    | some op =>
      if op.precedence ≤ least then return left
      advance
      let right ← binaryExpr d ctx op.precedence
      binaryRest d ctx least (.binary (← newId) op left right)
    | none => return left

def unaryExpr : (depth : Nat) → ParseContext → Parser Expr
  | 0, _ => tooDeep
  | d + 1, ctx => do
    match ← peek with
    | .punct .bang => unaryOperand d ctx .not
    | .punct .tilde => unaryOperand d ctx .bitNot
    | .binary .add => unaryOperand d ctx .plus
    | .binary .sub => unaryOperand d ctx .minus
    | .word (.keyword .typeof) => unaryOperand d ctx .typeOf
    | .word (.keyword .void) => unaryOperand d ctx .void
    | .word (.keyword .delete) => unaryOperand d ctx .delete
    | .punct .plusPlus => updateOperand d ctx .increment
    | .punct .minusMinus => updateOperand d ctx .decrement
    | _ => updatedExpr d ctx

/-- A unary operator, which comes next, and its operand. -/
def unaryOperand : (depth : Nat) → ParseContext → UnaryOp → Parser Expr
  | 0, _, _ => tooDeep
  | d + 1, ctx, op => do
    advance
    let arg ← unaryExpr d ctx
    return .unary (← newId) op arg

/-- An update operator, which comes next, in front of its operand. -/
def updateOperand : (depth : Nat) → ParseContext → UpdateOp → Parser Expr
  | 0, _, _ => tooDeep
  | d + 1, ctx, op => do
    advance
    let pos ← position
    let arg ← unaryExpr d ctx
    unless arg.isTarget do failAt pos .invalidTarget
    return .update (← newId) op true arg

/-- An expression that may have an update operator behind it, on the same line. -/
def updatedExpr : (depth : Nat) → ParseContext → Parser Expr
  | 0, _ => tooDeep
  | d + 1, ctx => do
    let e ← chainExpr d ctx true
    let op? ← match ← peek, ← afterLineEnd with
      | .punct .plusPlus, false => pure (some UpdateOp.increment)
      | .punct .minusMinus, false => pure (some UpdateOp.decrement)
      | _, _ => pure none
    match op? with
    | some op =>
      unless e.isTarget do fail .invalidTarget
      advance
      return .update (← newId) op false e
    | none => return e

/-- A primary expression or `new`, with accesses and calls behind it. Calls are left alone if
`calls` is false, so that `new a.b()` takes the arguments. -/
def chainExpr : (depth : Nat) → ParseContext → (calls : Bool) → Parser Expr
  | 0, _, _ => tooDeep
  | d + 1, ctx, calls => do
    let e ← if ← sees (.kw .new) then newExpr d ctx else primaryExpr d ctx
    chainRest d ctx calls e

/-- Goes on with accesses and calls. -/
def chainRest : (depth : Nat) → ParseContext → (calls : Bool) → Expr → Parser Expr
  | 0, _, _, _ => tooDeep
  | d + 1, ctx, calls, e => do
    match ← peek with
    | .punct .dot =>
      advance
      let name ← identName
      chainRest d ctx calls (.member (← newId) e name)
    | .punct .lbracket =>
      advance
      let key ← expr d ctx.allowIn
      expect .rbracket
      chainRest d ctx calls (.index (← newId) e key)
    | .punct .lparen =>
      if calls then
        let args ← arguments d ctx
        chainRest d ctx calls (.call (← newId) e args)
      else return e
    | _ => return e

def newExpr : (depth : Nat) → ParseContext → Parser Expr
  | 0, _ => tooDeep
  | d + 1, ctx => do
    expectKeyword .new
    let callee ← chainExpr d ctx false
    let args ← if ← sees (.punct .lparen) then arguments d ctx else pure []
    return .new (← newId) callee args

def arguments : (depth : Nat) → ParseContext → Parser (List Expr)
  | 0, _ => tooDeep
  | d + 1, ctx => do
    expect .lparen
    argumentsToParen d ctx

/-- The arguments up to a closing parenthesis, which is moved over. -/
def argumentsToParen : (depth : Nat) → ParseContext → Parser (List Expr)
  | 0, _ => tooDeep
  | d + 1, ctx => do
    if ← eat (.punct .rparen) then return []
    let e ← assignExpr d ctx.allowIn
    if ← eat (.punct .comma) then return e :: (← argumentsToParen d ctx)
    expect .rparen
    return [e]

def primaryExpr : (depth : Nat) → ParseContext → Parser Expr
  | 0, _ => tooDeep
  | d + 1, ctx => do
    match ← peek with
    | .punct .lparen =>
      advance
      let e ← expr d ctx.allowIn
      expect .rparen
      return e
    | .punct .lbracket =>
      advance
      let elems ← elementsToBracket d ctx
      return .array (← newId) elems
    | .punct .lbrace =>
      advance
      let props ← propertiesToBrace d ctx
      return .object (← newId) props
    | .word (.keyword .function) => functionExpr d
    | .word (.keyword .this) =>
      advance
      return .this (← newId)
    | .word (.ident _) => return .ident (← ident)
    | .word .null =>
      advance
      return .null (← newId)
    | .word .true =>
      advance
      return .bool (← newId) true
    | .word .false =>
      advance
      return .bool (← newId) false
    | .number value =>
      advance
      return .number (← newId) value
    | .string value =>
      advance
      return .string (← newId) value
    | .regex body flags =>
      advance
      return .regex (← newId) body flags
    | .word (.keyword .klass) => fail (.unsupported .classExpr)
    | _ => unexpected .expression

/-- The elements up to a closing bracket, which is moved over. A comma without an element in front
of it is a hole. -/
def elementsToBracket : (depth : Nat) → ParseContext → Parser (List (Option Expr))
  | 0, _ => tooDeep
  | d + 1, ctx => do
    if ← eat (.punct .rbracket) then return []
    if ← eat (.punct .comma) then return none :: (← elementsToBracket d ctx)
    let e ← assignExpr d ctx.allowIn
    if ← eat (.punct .comma) then return some e :: (← elementsToBracket d ctx)
    expect .rbracket
    return [some e]

/-- The properties up to a closing brace, which is moved over. -/
def propertiesToBrace : (depth : Nat) → ParseContext → Parser (List Property)
  | 0, _ => tooDeep
  | d + 1, ctx => do
    if ← eat (.punct .rbrace) then return []
    let p ← property d ctx
    if ← eat (.punct .comma) then return p :: (← propertiesToBrace d ctx)
    expect .rbrace
    return [p]

/-- A property. The words `get` and `set` start an accessor unless they are the key. -/
def property : (depth : Nat) → ParseContext → Parser Property
  | 0, _ => tooDeep
  | d + 1, ctx => do
    let isKey := match ← peekSecond with
      | .punct .colon | .punct .lparen | .punct .comma | .punct .rbrace => true
      | _ => false
    match ← peek, isKey with
    | .word (.ident "get"), false => accessor d ctx true
    | .word (.ident "set"), false => accessor d ctx false
    | _, _ =>
      let key ← propertyKey d ctx
      if ← sees (.punct .lparen) then fail (.unsupported .methodShorthand)
      expect .colon
      let value ← assignExpr d ctx.allowIn
      return .value (← newId) key value

/-- An accessor, from its first word on. A getter has no parameter and a setter one. -/
def accessor : (depth : Nat) → ParseContext → (isGetter : Bool) → Parser Property
  | 0, _, _ => tooDeep
  | d + 1, ctx, isGetter => do
    advance
    let key ← propertyKey d ctx
    let pos ← position
    let fn ← functionRest d
    if isGetter then
      unless fn.params.isEmpty do failAt pos .getterParam
      return .getter (← newId) key fn
    else
      unless fn.params.length = 1 do failAt pos .setterParam
      return .setter (← newId) key fn

def propertyKey : (depth : Nat) → ParseContext → Parser PropertyKey
  | 0, _ => tooDeep
  | d + 1, ctx => do
    match ← peek with
    | .word w =>
      advance
      return .ident ⟨← newId, w.text⟩
    | .string value =>
      advance
      return .string (← newId) value
    | .number value =>
      advance
      return .number (← newId) value
    | .punct .lbracket =>
      advance
      let e ← assignExpr d ctx.allowIn
      expect .rbracket
      return .computed e
    | _ => unexpected .propertyName

def functionExpr : (depth : Nat) → Parser Expr
  | 0 => tooDeep
  | d + 1 => do
    advance
    let name ← match ← peek with
      | .word (.ident _) => some <$> ident
      | _ => pure none
    let fn ← functionRest d
    return .function (← newId) name fn

end

/-- The statements up to the end of the input. -/
def stmtsToEnd : (depth : Nat) → Parser (List Stmt)
  | 0 => tooDeep
  | d + 1 => do
    if ← sees .eof then return []
    let s ← stmt d {}
    return s :: (← stmtsToEnd d)

/-- A whole program. -/
def program (depth : Nat) : Parser Program := do
  let body ← stmtsToEnd depth
  return ⟨← newId, body⟩

end Parser

/-- Splits the end of the input from the tokens in front of it. -/
def ParseState.ofLexemes (lexemes : List Lexeme) : ParseState :=
  { pending := lexemes.dropLast
    final := lexemes.getLastD ⟨.eof, false, ⟨1, 1⟩⟩
    nextId := 0 }

/-- The program that a text spells, with ids from zero up. -/
def parse (text : String) : Except SyntaxError Source := do
  let lexemes ← tokenize text
  let (program, s) ← (Parser.program (16 * (lexemes.length + 1))).run (.ofLexemes lexemes)
  return ⟨program, s.nextId⟩

end EsOptimizer
