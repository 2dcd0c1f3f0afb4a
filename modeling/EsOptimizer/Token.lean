import EsOptimizer.Number.Basic
import EsOptimizer.Syntax.Operator

/-!
# Tokens

The words, marks and literals that a source text is made of. Each token remembers where it starts
and whether a line ended in front of it, which is what inserts semicolons.
-/

namespace EsOptimizer

/-- A place in a source text. Lines and columns count from one; a column is one character. -/
structure Position where
  line : Nat
  column : Nat
deriving DecidableEq, Repr

/-- The reserved words, each under its own name; `class` is `klass`. -/
inductive Keyword where
  | break | case | catch | klass | const | continue | debugger | default | delete | do | else
  | export | extends | finally | for | function | if | import | in | instanceof | let | new
  | return | super | switch | this | throw | try | typeof | var | void | while | with | yield
deriving DecidableEq, Repr

namespace Keyword

def text : Keyword → String
  | .break => "break"
  | .case => "case"
  | .catch => "catch"
  | .klass => "class"
  | .const => "const"
  | .continue => "continue"
  | .debugger => "debugger"
  | .default => "default"
  | .delete => "delete"
  | .do => "do"
  | .else => "else"
  | .export => "export"
  | .extends => "extends"
  | .finally => "finally"
  | .for => "for"
  | .function => "function"
  | .if => "if"
  | .import => "import"
  | .in => "in"
  | .instanceof => "instanceof"
  | .let => "let"
  | .new => "new"
  | .return => "return"
  | .super => "super"
  | .switch => "switch"
  | .this => "this"
  | .throw => "throw"
  | .try => "try"
  | .typeof => "typeof"
  | .var => "var"
  | .void => "void"
  | .while => "while"
  | .with => "with"
  | .yield => "yield"

def all : List Keyword :=
  [.break, .case, .catch, .klass, .const, .continue, .debugger, .default, .delete, .do, .else,
   .export, .extends, .finally, .for, .function, .if, .import, .in, .instanceof, .let, .new,
   .return, .super, .switch, .this, .throw, .try, .typeof, .var, .void, .while, .with, .yield]

/-- The keyword with the given text. -/
def ofText? (s : String) : Option Keyword := all.find? (·.text == s)

/-- Whether an expression follows the keyword. -/
def precedesExpr : Keyword → Bool
  | .case | .default | .delete | .do | .else | .in | .instanceof | .new | .return | .throw
  | .typeof | .void => true
  | _ => false

end Keyword

/-- A run of identifier characters. -/
inductive Word where
  | keyword (k : Keyword)
  | null
  | true
  | false
  | ident (name : String)
deriving DecidableEq, Repr

namespace Word

def text : Word → String
  | .keyword k => k.text
  | .null => "null"
  | .true => "true"
  | .false => "false"
  | .ident name => name

def ofText (s : String) : Word :=
  if s == "null" then .null
  else if s == "true" then .true
  else if s == "false" then .false
  else match Keyword.ofText? s with
    | some k => .keyword k
    | none => .ident s

end Word

/-- Punctuation that is neither a binary operator nor an assignment. -/
inductive Punct where
  | dot | bang | tilde
  | lparen | rparen | lbracket | rbracket | lbrace | rbrace
  | semicolon | comma | colon | question
  | plusPlus | minusMinus
deriving DecidableEq, Repr

def Punct.text : Punct → String
  | .dot => "."
  | .bang => "!"
  | .tilde => "~"
  | .lparen => "("
  | .rparen => ")"
  | .lbracket => "["
  | .rbracket => "]"
  | .lbrace => "\x7b"
  | .rbrace => "\x7d"
  | .semicolon => ";"
  | .comma => ","
  | .colon => ":"
  | .question => "?"
  | .plusPlus => "++"
  | .minusMinus => "--"

inductive Token where
  | word (w : Word)
  | punct (p : Punct)
  /-- A binary operator that is spelled with punctuation. -/
  | binary (op : BinaryOp)
  | assign (op : AssignOp)
  | string (value : String)
  | regex (body flags : String)
  | number (value : Number)
  | eof
deriving DecidableEq, Repr

namespace Token

/-- The token of a keyword. -/
def kw (k : Keyword) : Token := .word (.keyword k)

/-- Whether a slash after the token starts a regular expression rather than a division. -/
def precedesExpr : Token → Bool
  | .word (.keyword k) => k.precedesExpr
  | .word _ => false
  | .punct p =>
    match p with
    | .dot | .rparen | .rbracket => false
    | _ => true
  | .binary _ | .assign _ => true
  | .string _ | .regex _ _ | .number _ | .eof => false

/-- The token as messages show it. -/
def shown : Token → String
  | .word w => "`" ++ w.text ++ "`"
  | .punct p => "`" ++ p.text ++ "`"
  | .binary op => "`" ++ op.text ++ "`"
  | .assign op => "`" ++ op.text ++ "`"
  | .string _ => "string literal"
  | .regex _ _ => "regular expression"
  | .number _ => "number literal"
  | .eof => "end of input"

end Token

/-- A token at its place. -/
structure Lexeme where
  token : Token
  /-- Whether a line ended between the previous token and this one. -/
  afterLineEnd : Bool
  pos : Position
deriving DecidableEq, Repr

end EsOptimizer
