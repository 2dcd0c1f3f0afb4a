import EsOptimizer.Text.Escaped
import EsOptimizer.Token

/-!
# Syntax errors

Why a source text is refused, where, and the message that says so.
-/

namespace EsOptimizer

/-- What the parser was looking for. -/
inductive Expected where
  | punct (p : Punct)
  | keyword (k : Keyword)
  | identifier
  | expression
  | propertyName
deriving DecidableEq, Repr

def Expected.text : Expected → String
  | .punct p => "`" ++ p.text ++ "`"
  | .keyword k => "`" ++ k.text ++ "`"
  | .identifier => "an identifier"
  | .expression => "an expression"
  | .propertyName => "a property name"

/-- Parts of the full language that are left out. -/
inductive Feature where
  | octalEscape
  | switchStmt
  | classDecl
  | classExpr
  | debuggerStmt
  | modules
  | methodShorthand
deriving DecidableEq, Repr

def Feature.text : Feature → String
  | .octalEscape => "octal escape sequences"
  | .switchStmt => "switch statement"
  | .classDecl => "class declaration"
  | .classExpr => "class expression"
  | .debuggerStmt => "debugger statement"
  | .modules => "module syntax"
  | .methodShorthand => "method shorthand"

/-- Why a text is refused. -/
inductive SyntaxCause where
  | endOfInput
  | unexpectedChar (c : Char)
  | unterminatedString
  | unterminatedRegex
  | unterminatedComment
  | invalidNumber
  | invalidEscape
  | identAfterNumber
  | unexpected (got : Token) (expected : Expected)
  | unsupported (feature : Feature)
  | invalidTarget
  | invalidForIn
  | lineEndInThrow
  | strayReturn
  | strayBreak
  | strayContinue
  | undefinedLabel (label : String)
  | duplicateLabel (label : String)
  | tryWithoutHandler
  | getterParam
  | setterParam
deriving DecidableEq, Repr

def SyntaxCause.text : SyntaxCause → String
  | .endOfInput => "unexpected end of input"
  | .unexpectedChar c => "unexpected character " ++ Text.escapedSingle c
  | .unterminatedString => "unterminated string literal"
  | .unterminatedRegex => "unterminated regular expression"
  | .unterminatedComment => "unterminated block comment"
  | .invalidNumber => "invalid number literal"
  | .invalidEscape => "invalid escape sequence"
  | .identAfterNumber => "identifier directly after number literal"
  | .unexpected got expected => "expected " ++ expected.text ++ ", got " ++ got.shown
  | .unsupported feature => feature.text ++ " is not supported"
  | .invalidTarget => "invalid assignment target"
  | .invalidForIn => "invalid left-hand side in for-in"
  | .lineEndInThrow => "illegal newline after throw"
  | .strayReturn => "return outside of a function"
  | .strayBreak => "illegal break statement"
  | .strayContinue => "illegal continue statement"
  | .undefinedLabel label => "undefined label " ++ Text.escaped label
  | .duplicateLabel label => "label " ++ Text.escaped label ++ " has already been declared"
  | .tryWithoutHandler => "missing catch or finally after try"
  | .getterParam => "getter must not have any parameters"
  | .setterParam => "setter must have exactly one parameter"

structure SyntaxError where
  pos : Position
  cause : SyntaxCause
deriving DecidableEq, Repr

/-- The cause, and the line and column. -/
def SyntaxError.message (e : SyntaxError) : String :=
  e.cause.text ++ " at " ++ toString e.pos.line ++ ":" ++ toString e.pos.column

end EsOptimizer
