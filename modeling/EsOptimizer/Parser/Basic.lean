import EsOptimizer.SyntaxError
import EsOptimizer.Syntax.Tree

/-!
# Reading tokens

The steps from which the grammar is built: looking at the next tokens, moving over them, insisting
on one, and handing out ids. The token stream never runs dry: behind the pending tokens stands the
end of the input, and moving over that changes nothing.
-/

namespace EsOptimizer

/-- The tokens that are left, and the next id. -/
structure ParseState where
  /-- The tokens in front of the end of the input. -/
  pending : List Lexeme
  /-- The end of the input. -/
  final : Lexeme
  nextId : NodeId

abbrev Parser := StateT ParseState (Except SyntaxError)

/-- A label of an enclosing statement, and whether that statement is a loop. -/
structure Label where
  name : String
  isLoop : Bool

/-- What the surroundings allow. -/
structure ParseContext where
  /-- Inside a function, so that `return` may stand. -/
  inFunction : Bool := false
  /-- Inside a loop of the same function, so that jumps without a label may stand. -/
  inLoop : Bool := false
  /-- In the head of a loop, where `in` ends an expression. -/
  noIn : Bool := false
  /-- The labels around, within the same function. -/
  labels : List Label := []

namespace ParseContext

/-- The context of an expression in which `in` is an operator again. -/
def allowIn (ctx : ParseContext) : ParseContext := { ctx with noIn := false }

/-- The context of a function's body. -/
def function : ParseContext := { inFunction := true }

end ParseContext

namespace ParseState

/-- The next token at its place. -/
def current (s : ParseState) : Lexeme := s.pending.headD s.final

/-- The token after the next. -/
def second (s : ParseState) : Token := (s.pending.tail.headD s.final).token

/-- The state after the next token. -/
def advance (s : ParseState) : ParseState := { s with pending := s.pending.tail }

end ParseState

namespace Parser

/-- The next token. -/
def peek : Parser Token := return (← get).current.token

/-- The token after the next. -/
def peekSecond : Parser Token := return (← get).second

/-- Whether a line ended in front of the next token. -/
def afterLineEnd : Parser Bool := return (← get).current.afterLineEnd

/-- Where the next token stands. -/
def position : Parser Position := return (← get).current.pos

/-- Moves over the next token. -/
def advance : Parser Unit := modify ParseState.advance

/-- The next id. -/
def newId : Parser NodeId := fun s => .ok (s.nextId, { s with nextId := s.nextId + 1 })

def failAt {α : Type} (pos : Position) (cause : SyntaxCause) : Parser α :=
  fun _ => .error ⟨pos, cause⟩

/-- An error at the next token. -/
def fail {α : Type} (cause : SyntaxCause) : Parser α := fun s => .error ⟨s.current.pos, cause⟩

/-- The next token is not what is needed. -/
def unexpected {α : Type} (expected : Expected) : Parser α := do
  match ← peek with
  | .eof => fail .endOfInput
  | got => fail (.unexpected got expected)

/-- Whether the next token is `t`. -/
def sees (t : Token) : Parser Bool := return (← peek) == t

/-- Moves over the next token if it is `t`, and tells whether it was. -/
def eat (t : Token) : Parser Bool := do
  if ← sees t then
    advance
    return true
  else return false

/-- Insists on a mark. -/
def expect (p : Punct) : Parser Unit := do
  unless ← eat (.punct p) do unexpected (.punct p)

/-- Insists on a keyword. -/
def expectKeyword (k : Keyword) : Parser Unit := do
  unless ← eat (.kw k) do unexpected (.keyword k)

/-- Whether a statement may end in front of the next token without a semicolon. -/
def endsStatement : Parser Bool := do
  let t ← peek
  return t == .punct .rbrace || t == .eof || (← afterLineEnd)

/-- Moves over a semicolon, or takes one as inserted. -/
def semicolon : Parser Unit := do
  unless ← eat (.punct .semicolon) do
    unless ← endsStatement do unexpected (.punct .semicolon)

/-- A name of a variable or label. -/
def ident : Parser Ident := do
  match ← peek with
  | .word (.ident name) =>
    advance
    return ⟨← newId, name⟩
  | _ => unexpected .identifier

/-- A name after a point, where keywords are names too. -/
def identName : Parser Ident := do
  match ← peek with
  | .word w =>
    advance
    return ⟨← newId, w.text⟩
  | _ => unexpected .identifier

/-- The binary operator that comes next. -/
def binaryOp? (ctx : ParseContext) : Parser (Option BinaryOp) := do
  match ← peek with
  | .binary op => return some op
  | .word (.keyword .in) => return if ctx.noIn then none else some .in
  | .word (.keyword .instanceof) => return some .instanceOf
  | _ => return none

end Parser

end EsOptimizer
