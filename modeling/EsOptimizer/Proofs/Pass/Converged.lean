import EsOptimizer.Proofs.Pass.Unchanged

/-!
# What is optimized stays as it is

A program on which the optimizer stopped because nothing was left to do is left alone when it is
optimized once more (`optimize_again`). Behind the last change the optimizer has analyzed the program
that it leaves from nothing on, and that is what it does again: the rounds of the second run are the
last rounds of the first one (`Learned`). Only the ids that are new may differ, and no pass looks at
these before it notes a change (`settled_of_pass`).
-/

namespace EsOptimizer

variable {o : Options} {a : Analysis} {src next : Source} {facts : Facts}

/-! ## Stopping -/

/-- Whether the optimizer stops within a number of rounds because no pass finds anything to do, given
the facts so far. -/
def Source.settlesFrom (o : Options) : (rounds : Nat) → Facts → Source → Bool
  | 0, _, _ => false
  | n + 1, facts, src =>
    let a := analyze src.program o facts false
    if a.facts == facts then
      match firstChange a o.enabledPasses src with
      | (next, true) => settlesFrom o n {} next
      | (_, false) => true
    else settlesFrom o n a.facts src

/-- Whether the optimizer stops because it leaves the program alone or because no pass finds anything
to do, and not because the rounds run out. -/
def Source.settles (o : Options) (src : Source) : Bool :=
  (ScopeTree.ofProgram src.program).hasDynamicScope || src.settlesFrom o o.maxIterations {}

/-! ## Passes -/

/-- A pass that finds nothing to do in a program finds nothing to do in it later on. -/
theorem settled_of_pass {pass : Analysis → Source → Source × Bool} (hpass : pass ∈ o.passList)
    (hsame : next.program = src.program) (h : (pass a src).2 = false) : (pass a next).2 = false := by
  obtain ⟨p, nextId⟩ := src
  obtain ⟨_, nextId'⟩ := next
  cases hsame
  obtain ⟨t, taken, ht, heq⟩ := candid_of_pass hpass a p
  rw [heq nextId] at h
  rw [heq nextId']
  exact ht.run_again h nextId'

theorem settled_of_firstChange {passes : List (Analysis → Source → Source × Bool)}
    (hpasses : passes ⊆ o.passList) (hsame : next.program = src.program)
    (h : (firstChange a passes src).2 = false) : (firstChange a passes next).2 = false := by
  induction passes generalizing src next with
  | nil => rfl
  | cons pass rest ih =>
    obtain ⟨hpass, hrest⟩ := List.cons_subset.mp hpasses
    rw [firstChange] at h ⊢
    split at h
    · cases h
    · rename_i after hafter
      have hquiet : (pass a src).2 = false := congrArg Prod.snd hafter
      have hquiet' := settled_of_pass hpass hsame hquiet
      have hkept := (unchanged_of_pass hpass hquiet).program
      have hkept' := (unchanged_of_pass hpass hquiet').program
      rw [hafter] at hkept
      split
      · rename_i after' hafter'
        rw [hafter'] at hquiet'
        cases hquiet'
      · rename_i after' hafter'
        rw [hafter'] at hkept'
        exact ih hrest (hkept'.trans (hsame.trans hkept.symm)) h

/-! ## Rounds -/

/-- The facts are what a number of rounds learns about a program, from nothing on. -/
def Learned (o : Options) (p : Program) (rounds : Nat) (facts : Facts) : Prop :=
  ∀ src : Source, src.program = p → ∀ more,
    src.optimizeFrom o (rounds + more) {} = src.optimizeFrom o more facts

theorem learned_nothing (o : Options) (p : Program) : Learned o p 0 {} := by
  intro src _ more
  rw [Nat.zero_add]

/-- A round that learns something new. -/
theorem Learned.step {p : Program} {rounds : Nat} (h : Learned o p rounds facts)
    (hnew : ¬((analyze p o facts false).facts == facts) = true) :
    Learned o p (rounds + 1) (analyze p o facts false).facts := by
  intro src hsrc more
  rw [Nat.add_assoc, Nat.add_comm 1, h src hsrc, Source.optimizeFrom, hsrc, if_neg hnew]

/-- The run that settles is run again from the last change on, if there are as many rounds. -/
theorem unchanged_of_settlesFrom {n rounds limit : Nat} (hfacts : Learned o src.program rounds facts)
    (hlimit : rounds + n ≤ limit) (h : src.settlesFrom o n facts = true) :
    ((src.optimizeFrom o n facts).1.optimizeFrom o limit {}).2 = false := by
  induction n generalizing rounds facts src with
  | zero => cases h
  | succ n ih =>
    rw [Source.settlesFrom] at h
    rw [Source.optimizeFrom]
    split at h
    · rename_i hstable
      rw [if_pos hstable]
      rcases hnext : firstChange (analyze src.program o facts false) o.enabledPasses src with
        ⟨next, changed⟩
      rw [hnext] at h
      cases changed with
      | true => exact ih (learned_nothing o next.program) (by omega) h
      | false =>
        have hquiet := congrArg Prod.snd hnext
        have hsame := (unchanged_of_firstChange o.enabledPasses_subset hquiet).program
        rw [hnext] at hsame
        -- The second run comes to the same facts and then finds nothing to do.
        obtain ⟨more, rfl⟩ := Nat.le.dest hlimit
        have hagain := settled_of_firstChange o.enabledPasses_subset hsame hquiet
        rw [show rounds + (n + 1) + more = rounds + (n + more + 1) by omega, hfacts next hsame,
          Source.optimizeFrom, hsame, if_pos hstable]
        split
        · rename_i after hafter
          rw [hafter] at hagain
          cases hagain
        · rfl
    · rename_i hnew
      rw [if_neg hnew]
      exact ih (hfacts.step hnew) (by omega) h

/-- If the optimizer stops because it leaves a program alone or because no pass finds anything to do,
then optimizing what it leaves changes nothing, ids included. -/
theorem optimize_again (h : src.settles o = true) :
    ((src.optimize o).1.optimize o).2 = false ∧
      ((src.optimize o).1.optimize o).1.program = (src.optimize o).1.program := by
  have hagain : ((src.optimize o).1.optimize o).2 = false := by
    unfold Source.settles at h
    cases hdynamic : (ScopeTree.ofProgram src.program).hasDynamicScope with
    | true =>
      have hleft : src.optimize o = (src, false) := by rw [Source.optimize, if_pos hdynamic]
      rw [hleft]
      exact congrArg Prod.snd hleft
    | false =>
      rw [hdynamic, Bool.false_or] at h
      have hleft : src.optimize o = src.optimizeFrom o o.maxIterations {} := by
        rw [Source.optimize, hdynamic, if_neg Bool.false_ne_true]
      rw [hleft, Source.optimize]
      split
      · rfl
      · exact unchanged_of_settlesFrom (learned_nothing o src.program) (by omega) h
  exact ⟨hagain, (unchanged_of_optimize hagain).program⟩

/-- `x = 1 + 2;`, which is changed once and settles then. -/
def sum : Source where
  program := ⟨6, [.expr 5 (.assign 4 .assign (.ident ⟨0, "x"⟩)
    (.binary 3 .add (.number 1 (.ofNat 1)) (.number 2 (.ofNat 2))))]⟩
  nextId := 7

theorem sum_optimized_again : (sum.optimize .trusting).2 = true ∧
    ((sum.optimize .trusting).1.optimize .trusting).2 = false :=
  ⟨by decide +kernel, (optimize_again (by decide +kernel)).1⟩

end EsOptimizer
