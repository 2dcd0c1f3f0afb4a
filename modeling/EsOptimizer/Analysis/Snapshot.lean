import EsOptimizer.Analysis

/-!
# Snapshots

What a state shows at an event: the variables that it knows a value of, and the objects that can be
reached from them.
-/

namespace EsOptimizer

/-- A variable with its value and the references that it may reach. -/
structure VarSnapshot where
  id : VarId
  value : Value
  reach : List Reference

structure Snapshot where
  dead : Bool
  vars : List VarSnapshot
  /-- Objects by reference; none for one that the loop around changes. -/
  objects : List (Reference × Option HeapObject)

namespace State

/-- The references that the state's own version of an object holds. -/
def linksOf (s : State) (r : Reference) : List Reference :=
  match s.lookupObject r with
  | .found o => o.references
  | _ => []

/-- An object as a snapshot shows it; one that the program has not touched is left out. -/
def shown? (s : State) (r : Reference) : Option (Reference × Option HeapObject) :=
  match s.lookupObject r with
  | .found o => some (r, some o)
  | .changing => some (r, none)
  | .missing => none

/-- The state as seen by a program with `count` variables. -/
def snapshot (s : State) (count : Nat) : Snapshot :=
  let vars := (List.range count).filterMap fun v =>
    (s.lookup v).map fun value => ⟨v, value, (s.reachOf v).toList⟩
  let roots := vars.flatMap fun v => v.value.references ++ v.reach
  { dead := s.isDead
    vars
    objects := (s.reachable s.linksOf roots).toList.filterMap s.shown? }

end State

end EsOptimizer
