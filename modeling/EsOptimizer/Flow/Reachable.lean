import EsOptimizer.Flow.State

/-!
# Reachable references

The references that can be reached from some roots by following objects of a state. Every reference
but the roots is held by an object of a layer or is a built-in one, which bounds the search.
-/

namespace EsOptimizer

/-- Everything that can be reached from the frontier in `n` steps, added to what was visited. -/
def closure (next : Reference → List Reference) : Nat → RefSet → List Reference → RefSet
  | 0, visited, frontier => visited.extend frontier
  | n + 1, visited, frontier =>
    let found := frontier.filter fun r => !visited.contains r
    if found.isEmpty then visited
    else closure next n (visited.extend found) ((RefSet.ofList found).toList.flatMap next)

namespace State

/-- The references that the objects of a state hold, in all versions of them. -/
def heldReferences (s : State) : List Reference :=
  s.layers.flatMap fun l => l.heap.toList.flatMap (·.2.references)

/-- The references that can be reached from `roots`, one link being what `next` gives. -/
def reachable (s : State) (next : Reference → List Reference) (roots : List Reference) : RefSet :=
  closure next (roots.length + s.heldReferences.length + Host.count) {} roots

end State

end EsOptimizer
