import EsOptimizer.Analysis
import EsOptimizer.Syntax.Transform

/-!
# Simple lists of statements

Code that cannot be reached, empty statements and expressions without effects are dropped from lists
of statements, and blocks inside them are dissolved.
-/

namespace EsOptimizer

/-- Whether a statement is just a string, as a directive is. -/
def Stmt.isDirective : Stmt → Bool
  | .expr _ (.string _ _) => true
  | _ => false

namespace SimplifyBlocks

/-- Whether a statement only declares what is in force before it is reached. -/
def isHoistedOnly : Stmt → Bool
  | .function _ _ _ => true
  | .var d => d.kind == .var && d.decls.all (·.init.isNone)
  | _ => false

def isFunction : Stmt → Bool
  | .function _ _ _ => true
  | _ => false

/-- Whether a statement that is not reached declares something that cannot be left standing alone. -/
def mustStay (s : Stmt) : Bool :=
  !isFunction s && (s.declaresBlockScoped || s.containsFunctionDecl)

/-- A list of statements, cut behind the first that leaves it. -/
def cut : List Stmt → List Stmt × List Stmt
  | [] => ([], [])
  | s :: rest =>
    if s.isAbrupt then ([s], rest)
    else
      let (reached, unreached) := cut rest
      (s :: reached, unreached)

/-- The declarations that statements have effect by although they are not reached. -/
def hoisted (stmts : List Stmt) : Edit (List Stmt) := do
  let functions := stmts.filter isFunction
  let names := (stmts.filter (!isFunction ·)).flatMap fun s => s.varNames.map (·.name)
  if names.isEmpty then return functions else return functions ++ [← Make.vars names]

/-- Drops what is not reached, except for declarations. -/
def dropUnreached (stmts : List Stmt) : Edit (List Stmt) := do
  let (reached, unreached) := cut stmts
  if unreached.all isHoistedOnly || unreached.any mustStay then return stmts
  Edit.markChanged
  return reached ++ (← hoisted unreached)

/-- What is left of a statement in a list; nothing means that it stays as it is. -/
def simplified? (a : Analysis) : Stmt → Option (List Stmt)
  | .empty _ => some []
  | .expr _ e => if a.isPure e.id then some [] else none
  | .block ⟨_, stmts⟩ => if stmts.any Stmt.declaresBlockScoped then none else some stmts
  | _ => none

/-- Simplifies the members of a list. -/
def simplifyMembers (a : Analysis) : List Stmt → Edit (List Stmt)
  | [] => return []
  | s :: rest => do
    match simplified? a s with
    | none => return s :: (← simplifyMembers a rest)
    | some stmts => do
      Edit.markChanged
      return stmts ++ (← simplifyMembers a rest)

/-- Simplifies a list. The directives that a body begins with stay. -/
def simplifyList (a : Analysis) (isBody : Bool) (stmts : List Stmt) : Edit (List Stmt) := do
  let stmts ← dropUnreached stmts
  if isBody then
    let (directives, rest) := stmts.span Stmt.isDirective
    return directives ++ (← simplifyMembers a rest)
  else simplifyMembers a stmts

def transform (a : Analysis) : Transform where
  list := simplifyList a

end SimplifyBlocks

/-- Simplifies all lists of statements. -/
def simplifyBlocks (a : Analysis) (src : Source) : Source × Bool :=
  (SimplifyBlocks.transform a).run src []

end EsOptimizer
