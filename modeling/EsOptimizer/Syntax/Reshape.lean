import EsOptimizer.Syntax.Transform

/-!
# Reshaped trees

Trees that no source text has, but that a change may leave behind: an `if` whose consequent lost its
braces, and an expression that was taken out of its place. They exercise what prints, copies and
analyses trees on the full range of trees.
-/

namespace EsOptimizer

/-- An `if` whose consequent is a block of one statement gets that statement as its consequent. -/
def Stmt.unwrapConsequent : Stmt → Stmt
  | .if id test (.block ⟨_, [s]⟩) no => .if id test s no
  | s => s

/-- An expression that is the name `HOLE` is taken out. -/
def Expr.punchHole : Expr → Expr
  | .ident ⟨_, "HOLE"⟩ => .invalid NodeId.dummy
  | e => e

/-- Applies the chosen reshapings everywhere. -/
def Transform.reshape (unwrap holes : Bool) : Transform where
  expr _ e := pure (if holes then e.punchHole else e)
  stmt _ _ s := pure [if unwrap then s.unwrapConsequent else s]

/-- The source with the chosen reshapings applied. -/
def Source.reshape (src : Source) (unwrap holes : Bool) : Source :=
  ((Transform.reshape unwrap holes).run src []).1

end EsOptimizer
