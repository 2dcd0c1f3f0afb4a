import EsOptimizer.Analysis
import EsOptimizer.Syntax.Transform

/-!
# Unrolled loops

A `for-in` loop that always visits the same properties becomes one copy of its body for each of them.
-/

namespace EsOptimizer

namespace UnrollLoops

/-- A loop that can be unrolled. -/
structure Unrollable where
  name : String
  /-- Whether the loop declares its variable. -/
  isDeclared : Bool
  keys : List String
  body : Stmt

/-- The variable of a loop, and whether the loop declares it. -/
def loopVar? : ForHead → Option (String × Bool)
  | .decl ⟨_, .var, [d]⟩ => some (d.name.name, true)
  | .expr (.ident i) => some (i.name, false)
  | _ => none

/-- A loop that is left early, or in which functions are declared, stays a loop. -/
def unrollable? (a : Analysis) : Stmt → Option Unrollable
  | .forIn id head obj body =>
    match a.forInKeys[id]?, loopVar? head with
    | some keys, some (name, isDeclared) =>
      if a.isPure obj.id && !body.containsJump && !body.containsFunctionDecl then
        some ⟨name, isDeclared, keys, body⟩
      else none
    | _, _ => none
  | _ => none

namespace Unrollable

/-- `name = "key"; body`, in a block. -/
def iteration (u : Unrollable) (key : String) : Edit Stmt := do
  let store ← Make.expr (← Make.assign u.name (.string (← Edit.newId) key))
  Make.block [store, ← Edit.ofFresh u.body.renumber]

def declaration (u : Unrollable) : Edit (List Stmt) := do
  if u.isDeclared then return [← Make.vars [u.name]] else return []

/-- What takes the place of the loop. -/
def outcome (u : Unrollable) : Edit Stmt := do
  Make.block ((← u.declaration) ++ (← u.keys.mapM u.iteration))

end Unrollable

def transform (a : Analysis) : Transform where
  stmt _ _ s :=
    match unrollable? a s with
    | none => pure [s]
    | some u => do
      Edit.markChanged
      return [← u.outcome]

end UnrollLoops

/-- Unrolls loops over known properties. -/
def unrollLoops (a : Analysis) (src : Source) : Source × Bool :=
  (UnrollLoops.transform a).run src []

end EsOptimizer
