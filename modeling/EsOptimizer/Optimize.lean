import EsOptimizer.Pass.DeadBranches
import EsOptimizer.Pass.FoldConstants
import EsOptimizer.Pass.InlineFunctions
import EsOptimizer.Pass.RemoveUnused
import EsOptimizer.Pass.SimplifyBlocks
import EsOptimizer.Pass.TailCalls
import EsOptimizer.Pass.UnrollLoops

/-!
# The optimizer

A program is analyzed until the facts about it stay the same. Then the first pass that finds
something to do changes it, and the analysis starts over from nothing. That ends when no pass finds
anything to do, or after as many rounds as the options allow. Programs in which names may mean
something else at run time are left alone.
-/

namespace EsOptimizer

/-- The enabled passes, in the order in which they are tried. -/
def Options.enabledPasses (o : Options) : List (Analysis → Source → Source × Bool) :=
  ([(o.passes.deadBranches, removeDeadBranches),
    (o.passes.foldConstants, foldConstants),
    (o.passes.inlineFunctions, inlineFunctions),
    (o.passes.tailCalls, loopTailCalls),
    (o.passes.unrollLoops, unrollLoops),
    (o.passes.removeUnused, removeUnused o),
    (o.passes.simplifyBlocks, simplifyBlocks)].filter (·.1)).map (·.2)

/-- Lets passes work on a program in turn until one changes it, and tells whether one did. -/
def firstChange (a : Analysis) :
    List (Analysis → Source → Source × Bool) → Source → Source × Bool
  | [], src => (src, false)
  | pass :: rest, src =>
    match pass a src with
    | (next, true) => (next, true)
    | (next, false) => firstChange a rest next

/-- Optimizes for a number of rounds, given the facts so far, and tells whether anything changed. -/
def Source.optimizeFrom (options : Options) : (rounds : Nat) → Facts → Source → Source × Bool
  | 0, _, src => (src, false)
  | n + 1, facts, src =>
    let a := analyze src.program options facts false
    if a.facts == facts then
      match firstChange a options.enabledPasses src with
      | (next, true) => ((optimizeFrom options n {} next).1, true)
      | (next, false) => (next, false)
    else optimizeFrom options n a.facts src

/-- Optimizes a program and tells whether anything changed. -/
def Source.optimize (options : Options) (src : Source) : Source × Bool :=
  if (ScopeTree.ofProgram src.program).hasDynamicScope then (src, false)
  else src.optimizeFrom options options.maxIterations {}

end EsOptimizer
