import EsOptimizer.Analysis
import EsOptimizer.Syntax.Transform

/-!
# Dead branches

A branch whose test always has the same truth value is removed, or takes the place of the whole.
`var` declarations in a removed branch still hoist, so their names stay declared. A test with effects
stays as an expression in front of what is left.
-/

namespace EsOptimizer

namespace DeadBranches

/-- A statement that a known test decides. -/
structure Decision where
  /-- What comes before the test. -/
  init : Option ForHead := none
  test : Expr
  /-- Whether the test can be left out. -/
  isPure : Bool
  removed : Option Stmt
  kept : Option Stmt := none

/-- A loop whose test is false from the start. -/
def neverRuns? (a : Analysis) (init : Option ForHead) (test : Expr) (body : Stmt) :
    Option Decision :=
  match a.truthiness? test.id with
  | some (false, isPure) => some { init, test, isPure, removed := some body }
  | _ => none

/-- What is known of a statement with a test. -/
def known? (a : Analysis) : Stmt → Option Decision
  | .if _ test yes no =>
    (a.truthiness? test.id).map fun (truthy, isPure) =>
      if truthy then { test, isPure, removed := no, kept := some yes }
      else { test, isPure, removed := some yes, kept := no }
  | .while _ test body => neverRuns? a none test body
  | .for _ init (some test) _ body => neverRuns? a init test body
  | _ => none

/-- A function declared in a branch keeps the branch. -/
def decision? (a : Analysis) (s : Stmt) : Option Decision :=
  (known? a s).filter fun d => !d.removed.any Stmt.containsFunctionDecl

/-- The head of a loop as a statement. -/
def headStmt : ForHead → Edit Stmt
  | .decl d => return .var d
  | .expr e => Make.expr e

namespace Decision

def initStmts (d : Decision) : Edit (List Stmt) :=
  match d.init with
  | none => return []
  | some head => return [← headStmt head]

def testStmts (d : Decision) : Edit (List Stmt) := do
  if d.isPure then return [] else return [← Make.expr d.test]

/-- The names that the removed branch declares. -/
def hoistedNames (d : Decision) : List String :=
  match d.removed with
  | none => []
  | some s => s.varNames.map (·.name)

def hoistedStmts (d : Decision) : Edit (List Stmt) := do
  if d.hoistedNames.isEmpty then return [] else return [← Make.vars d.hoistedNames]

/-- What takes the place of the statement. -/
def outcome (d : Decision) : Edit Stmt := do
  let before := (← d.initStmts) ++ (← d.testStmts)
  Make.single (before ++ (← d.hoistedStmts) ++ d.kept.toList)

end Decision

/-- The test of an expression, if it has to stay, and the branch that is taken. -/
def taken? (a : Analysis) : Expr → Option (Option Expr × Expr)
  | .cond _ test yes no =>
    (a.truthiness? test.id).map fun (truthy, isPure) =>
      (if isPure then none else some test, if truthy then yes else no)
  | .binary _ .and left right =>
    (a.truthiness? left.id).map fun (truthy, isPure) =>
      if truthy then (if isPure then none else some left, right) else (none, left)
  | .binary _ .or left right =>
    (a.truthiness? left.id).map fun (truthy, isPure) =>
      if truthy then (none, left) else (if isPure then none else some left, right)
  | _ => none

def transform (a : Analysis) : Transform where
  stmt _ _ s :=
    match decision? a s with
    | none => pure [s]
    | some d => do
      Edit.markChanged
      return [← d.outcome]
  expr _ e :=
    match taken? a e with
    | none => pure e
    | some (none, branch) => do
      Edit.markChanged
      return branch
    | some (some test, branch) => do
      Edit.markChanged
      Make.seq [test, branch]

end DeadBranches

/-- Removes branches that are never taken. -/
def removeDeadBranches (a : Analysis) (src : Source) : Source × Bool :=
  (DeadBranches.transform a).run src []

end EsOptimizer
