import EsOptimizer.Flow.State

/-!
# Facts

What an analysis finds out. `NodeFacts` are about single expressions. `Facts` are about the
boundaries of functions: they are what one run of the analysis takes over from the run before, and a
run whose facts are those it started from is one whose results can be relied on.
-/

namespace EsOptimizer

/-- What is known of an expression, over all times it was evaluated. -/
structure NodeFacts where
  value : Value
  /-- Evaluating it does nothing but give its value. -/
  pure : Bool
deriving BEq, Repr

/-- What a call of a function does. -/
structure FunctionSummary where
  /-- All values that it may return. -/
  returns : Value
  /-- A call has no effect that could be observed. -/
  pure : Bool
deriving BEq, Repr

structure Facts where
  /-- The values of the parameters of each function of which all calls are known. -/
  params : Std.TreeMap NodeId (List Value) := {}
  /-- All values that were ever stored in a variable. -/
  possible : Std.TreeMap VarKey Value := {}
  summaries : Std.TreeMap NodeId FunctionSummary := {}
  /-- Objects that unknown code may hold. -/
  escaped : RefSet := {}

/-- Facts are compared by what they hold. -/
instance : BEq Facts where
  beq a b :=
    a.params.toList == b.params.toList && a.possible.toList == b.possible.toList &&
      a.summaries.toList == b.summaries.toList && a.escaped.same b.escaped

end EsOptimizer
