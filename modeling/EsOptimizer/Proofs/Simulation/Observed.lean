import EsOptimizer.Proofs.Simulation.Program

/-!
# The calls that a run observes

All that a run does to the arguments it notes is to note more calls, so at its end they are those of
the calls that it came across, joined (`observed_result`). What it publishes about the parameters of
a function is read off these: each parameter is the join of what the calls pass for it.
-/

namespace EsOptimizer

open Track

/-- A run notes some calls, one after the other, and nothing else. -/
theorem observed_result (cx : Context) (program : Program) :
    Observes ∅ (cx.result program).calls := by
  have henter : Observes ∅ (enterScope ScopeTree.root cx
      (Progress.atBody { frame := { scope := ScopeTree.root } } ScopeTree.root)).2.calls :=
    (moves_enterScope (b := .all) ⟨fun _ _ _ => trivial, fun _ _ => trivial⟩ _).observed
  have hbody : Observes ∅ (onProgram program cx { frame := { scope := ScopeTree.root } }).2.calls := by
    rw [onProgram_apply]
    exact henter.trans (moves_onStmts program.body (allAllowed_all cx.scopes _) _).observed
  rw [Context.result, onAll_apply]
  exact hbody.trans (gathers_functions program.functions _).observed

/-! ## What a run publishes -/

/-- What is published about the parameters of a function that is called like this. -/
structure Publishes (calls : List (List Value)) (info : FunctionInfo) (params : List Value) :
    Prop where
  length : params.length = info.params.length
  join : ∀ i value, params[i]? = some value →
    Value.IsJoin (calls.map (·.getD i .undefined)) value
  /-- What no call passes is `undefined`. -/
  missing : ∀ i value, params[i]? = some value → (∀ args ∈ calls, args.length ≤ i) →
    value = .undefined

section

variable {options : Options} {scopes : ScopeTree} {f : NodeId} {calls : List (NodeId × List Value)}

theorem getElem?_publishedParams (noted : Std.TreeMap NodeId (List Value)) :
    (publishedParams options scopes noted)[f]? = noted[f]?.bind fun args =>
      (scopes.function? f).bind fun info => if hasKnownCalls options scopes info then
        some ((List.range info.params.length).map fun i => args.getD i .undefined) else none :=
  Std.TreeMap.getElem?_filterMap'

/-- Parameters are published for the functions that are called and of which all calls are known. -/
theorem isSome_publishedParams_iff :
    (publishedParams options scopes (noteCalls ∅ calls))[f]?.isSome = true ↔
      callsOf f calls ≠ [] ∧
        ∃ info, scopes.function? f = some info ∧ hasKnownCalls options scopes info = true := by
  rw [getElem?_publishedParams, Ne, ← noteCalls_eq_none_iff]
  cases (noteCalls ∅ calls)[f]? with
  | none => simp
  | some noted =>
    cases scopes.function? f with
    | none => simp
    | some info => simp

theorem publishes_of_publishedParams {params : List Value}
    (h : (publishedParams options scopes (noteCalls ∅ calls))[f]? = some params) :
    ∃ info, scopes.function? f = some info ∧ Publishes (callsOf f calls) info params := by
  rw [getElem?_publishedParams, Option.bind_eq_some_iff] at h
  obtain ⟨noted, hnoted, h⟩ := h
  obtain ⟨info, hinfo, h⟩ := Option.bind_eq_some_iff.mp h
  have hjoins := joins_of_noteCalls hnoted
  split at h
  · obtain rfl := Option.some.inj h
    have hvalue (i : Nat) (value : Value) (hi : ((List.range info.params.length).map fun i =>
        noted.getD i .undefined)[i]? = some value) : noted.getD i .undefined = value := by
      rw [List.getElem?_map, Option.map_eq_some_iff] at hi
      obtain ⟨j, hj, rfl⟩ := hi
      obtain ⟨hlt, rfl⟩ := List.getElem?_eq_some_iff.mp hj
      rw [List.getElem_range]
    refine ⟨info, hinfo, by simp, fun i value hi => ?_, fun i value hi hmissing => ?_⟩
    · rw [← hvalue i value hi]
      exact hjoins.join i
    · rw [← hvalue i value hi]
      exact hjoins.undefined hmissing
  · cases h

end

/-- Calls are joined exactly. What a run notes are the calls of some sequence, and of any sequence
that is observed call by call, of any functions and with any numbers of arguments: a function is
noted if it is called, with the join of what its calls pass; the order of the calls does not matter;
and the join is what is published of a function all of whose calls are known. -/
theorem observed_calls_joined (cx : Context) (program : Program) :
    (∃ calls, (cx.result program).calls = noteCalls ∅ calls) ∧
    ∀ (calls : List (NodeId × List Value)) (f : NodeId),
      (∀ p : Progress, p.calls = ∅ →
        (calls.forM (fun call => observeCall call.1 call.2) cx p).2.calls = noteCalls ∅ calls) ∧
      ((noteCalls ∅ calls)[f]? = none ↔ callsOf f calls = []) ∧
      (∀ noted, (noteCalls ∅ calls)[f]? = some noted → Joins (callsOf f calls) noted) ∧
      (∀ calls', calls.Perm calls' →
        ((noteCalls ∅ calls)[f]? == (noteCalls ∅ calls')[f]?) = true) ∧
      ((publishedParams cx.options cx.scopes (noteCalls ∅ calls))[f]?.isSome = true ↔
        callsOf f calls ≠ [] ∧ ∃ info, cx.scopes.function? f = some info ∧
          hasKnownCalls cx.options cx.scopes info = true) ∧
      ∀ params, (publishedParams cx.options cx.scopes (noteCalls ∅ calls))[f]? = some params →
        ∃ info, cx.scopes.function? f = some info ∧ Publishes (callsOf f calls) info params := by
  refine ⟨observed_result cx program, fun calls f => ⟨fun p hp => ?_, noteCalls_eq_none_iff,
    fun _ => joins_of_noteCalls, fun _ hperm => noteCalls_perm hperm f,
    isSome_publishedParams_iff, fun _ => publishes_of_publishedParams⟩⟩
  rw [observeCalls_calls, hp]

end EsOptimizer
