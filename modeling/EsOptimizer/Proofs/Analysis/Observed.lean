import EsOptimizer.Analysis.Track
import EsOptimizer.Proofs.Flow.Entries
import EsOptimizer.Proofs.Value.Lattice
import Mathlib.Data.List.Induction

/-!
# Observed calls

A run notes the arguments of every call that it comes across, joined position by position with those
of the calls before. `Joins` is what that has to come to, told without an order among the calls: of
each argument the least value above what any of them passed, where a call that left it out passed
`undefined`, and as many arguments as the longest of them passed.

The first call is noted as it is, and later ones pad or are padded. That cannot be seen in the
values, since a position that was never passed reads as `undefined` too (`getD_joinArgs`); so the
step from one call to the next is a join at every position, and calls may come in any order.
-/

namespace EsOptimizer

namespace Value

/-- The least value above all of some values. -/
structure IsJoin (vs : List Value) (v : Value) : Prop where
  above : ∀ w ∈ vs, w.Below v
  least : ∀ u, (∀ w ∈ vs, w.Below u) → v.Below u

theorem isJoin_single (v : Value) : IsJoin [v] v where
  above := fun w hw => by
    rw [List.mem_singleton.mp hw]
    exact Below.refl v
  least := fun _ hu => hu v (List.mem_singleton.mpr rfl)

theorem IsJoin.or {vs : List Value} {v : Value} (h : IsJoin vs v) (w : Value) :
    IsJoin (vs ++ [w]) (v.or w) where
  above := fun x hx => by
    rcases List.mem_append.mp hx with hx | hx
    · exact (h.above x hx).trans (below_or_left v w)
    · rw [List.mem_singleton.mp hx]
      exact below_or_right v w
  least := fun u hu => by
    refine or_below (h.least u fun x hx => hu x (List.mem_append_left _ hx)) (hu w ?_)
    exact List.mem_append_right _ (List.mem_singleton.mpr rfl)

/-- There is one join only, whatever order the values are in. -/
theorem IsJoin.beq {vs ws : List Value} {v w : Value} (h : IsJoin vs v) (h' : IsJoin ws w)
    (hperm : vs.Perm ws) : (v == w) = true := by
  refine beq_iff_below.mpr ⟨h.least w fun x hx => ?_, h'.least v fun x hx => ?_⟩
  · exact h'.above x (hperm.mem_iff.mp hx)
  · exact h.above x (hperm.mem_iff.mpr hx)

theorem beq_of_getD {as bs : List Value} (hlength : as.length = bs.length)
    (h : ∀ i, (as.getD i undefined == bs.getD i undefined) = true) : (as == bs) = true := by
  induction as generalizing bs with
  | nil =>
    cases bs with
    | nil => rfl
    | cons b bs => cases hlength
  | cons a as ih =>
    cases bs with
    | nil => cases hlength
    | cons b bs =>
      rw [List.cons_beq_cons, Bool.and_eq_true]
      exact ⟨h 0, ih (Nat.succ.inj hlength) fun i => h (i + 1)⟩

end Value

namespace Track

/-! ## Joining one call -/

/-- Arguments are joined position by position, where those left out are `undefined`. -/
theorem getD_joinArgs (as bs : List Value) (i : Nat) :
    (joinArgs as bs).getD i .undefined = (as.getD i .undefined).or (bs.getD i .undefined) := by
  induction as, bs using joinArgs.induct generalizing i with
  | case1 =>
    rw [joinArgs]
    rfl
  | case2 b bs ih =>
    rw [joinArgs]
    cases i with
    | zero => rfl
    | succ i => exact ih i
  | case3 a as ih =>
    rw [joinArgs]
    cases i with
    | zero => rfl
    | succ i => exact ih i
  | case4 a as b bs ih =>
    rw [joinArgs]
    cases i with
    | zero => rfl
    | succ i => exact ih i

theorem length_joinArgs (as bs : List Value) :
    (joinArgs as bs).length = max as.length bs.length := by
  induction as, bs using joinArgs.induct with
  | case1 =>
    rw [joinArgs]
    rfl
  | case2 b bs ih => simp [joinArgs, ih]
  | case3 a as ih => simp [joinArgs, ih]
  | case4 a as b bs ih => simp [joinArgs, ih, Nat.succ_max_succ]

/-- What is noted of some calls of a function. -/
structure Joins (calls : List (List Value)) (noted : List Value) : Prop where
  /-- No call passes more arguments. -/
  enough : ∀ args ∈ calls, args.length ≤ noted.length
  /-- Some call passes as many. -/
  longest : ∃ args ∈ calls, args.length = noted.length
  /-- Each argument is the join of what the calls pass, also behind the end of some or all of them. -/
  join : ∀ i, Value.IsJoin (calls.map (·.getD i .undefined)) (noted.getD i .undefined)

theorem joins_single (args : List Value) : Joins [args] args where
  enough := fun _ h => Nat.le_of_eq (congrArg List.length (List.mem_singleton.mp h))
  longest := ⟨args, List.mem_singleton.mpr rfl, rfl⟩
  join := fun _ => Value.isJoin_single _

theorem Joins.joinArgs {calls : List (List Value)} {noted : List Value} (h : Joins calls noted)
    (args : List Value) : Joins (calls ++ [args]) (joinArgs noted args) where
  enough := by
    intro args' hargs
    rw [length_joinArgs]
    rcases List.mem_append.mp hargs with hold | hnew
    · exact Nat.le_trans (h.enough args' hold) (Nat.le_max_left _ _)
    · rw [List.mem_singleton.mp hnew]
      exact Nat.le_max_right _ _
  longest := by
    rw [length_joinArgs]
    rcases Nat.le_total args.length noted.length with hle | hle
    · obtain ⟨args', hargs, hlength⟩ := h.longest
      exact ⟨args', List.mem_append_left _ hargs, by rw [hlength, Nat.max_eq_left hle]⟩
    · exact ⟨args, List.mem_append_right _ (List.mem_singleton.mpr rfl), (Nat.max_eq_right hle).symm⟩
  join := by
    intro i
    rw [getD_joinArgs, List.map_append]
    exact (h.join i).or _

/-- What is noted does not depend on the order of the calls. -/
theorem Joins.beq {calls calls' : List (List Value)} {noted noted' : List Value}
    (h : Joins calls noted) (h' : Joins calls' noted') (hperm : calls.Perm calls') :
    (noted == noted') = true := by
  refine Value.beq_of_getD (Nat.le_antisymm ?_ ?_) fun i => ?_
  · obtain ⟨args, hargs, hlength⟩ := h.longest
    exact hlength ▸ h'.enough args (hperm.mem_iff.mp hargs)
  · obtain ⟨args, hargs, hlength⟩ := h'.longest
    exact hlength ▸ h.enough args (hperm.mem_iff.mpr hargs)
  · exact (h.join i).beq (h'.join i) (hperm.map _)

/-- An argument that no call passes is `undefined`. -/
theorem Joins.undefined {calls : List (List Value)} {noted : List Value} (h : Joins calls noted)
    {i : Nat} (hi : ∀ args ∈ calls, args.length ≤ i) : noted.getD i .undefined = .undefined := by
  obtain ⟨args, hargs, hlength⟩ := h.longest
  have hend : noted.length ≤ i := hlength ▸ hi args hargs
  rw [List.getD_eq_getElem?_getD, List.getElem?_eq_none hend]
  rfl

/-! ## Joining call after call -/

/-- The calls of one function among some calls. -/
def callsOf (f : NodeId) (calls : List (NodeId × List Value)) : List (List Value) :=
  (calls.filter (·.1 == f)).map Prod.snd

/-- Notes one call more. -/
def noteCall (noted : Std.TreeMap NodeId (List Value)) (call : NodeId × List Value) :
    Std.TreeMap NodeId (List Value) :=
  noted.insert call.1 (match noted[call.1]? with
    | none => call.2
    | some old => joinArgs old call.2)

/-- Notes calls one after the other. -/
def noteCalls (noted : Std.TreeMap NodeId (List Value)) (calls : List (NodeId × List Value)) :
    Std.TreeMap NodeId (List Value) :=
  calls.foldl noteCall noted

/-- What was noted before, and some calls more. -/
def Observes (a b : Std.TreeMap NodeId (List Value)) : Prop := ∃ calls, b = noteCalls a calls

theorem Observes.refl (a : Std.TreeMap NodeId (List Value)) : Observes a a := ⟨[], rfl⟩

theorem Observes.trans {a b c : Std.TreeMap NodeId (List Value)} (hab : Observes a b)
    (hbc : Observes b c) : Observes a c := by
  obtain ⟨calls, rfl⟩ := hab
  obtain ⟨more, rfl⟩ := hbc
  exact ⟨calls ++ more, (List.foldl_append ..).symm⟩

/-- Calls observed one after the other are noted in that order. -/
theorem observeCalls_calls (cx : Context) (calls : List (NodeId × List Value)) (p : Progress) :
    (calls.forM (fun call => observeCall call.1 call.2) cx p).2.calls = noteCalls p.calls calls := by
  induction calls generalizing p with
  | nil => rfl
  | cons call rest ih => exact ih (observeCall call.1 call.2 cx p).2

theorem getElem?_noteCall (noted : Std.TreeMap NodeId (List Value)) (f g : NodeId)
    (args : List Value) : (noteCall noted (g, args))[f]? = if g = f then
      some (match noted[f]? with
        | none => args
        | some old => joinArgs old args)
      else noted[f]? := by
  rw [noteCall, getElem?_insert_of_key]
  by_cases h : g = f
  · subst h
    rw [if_pos rfl]
  · rw [if_neg h, if_neg h]

/-- Of each function just its own calls are noted. -/
theorem noteCalls_spec (f : NodeId) (calls : List (NodeId × List Value)) :
    match (noteCalls ∅ calls)[f]? with
    | none => callsOf f calls = []
    | some noted => Joins (callsOf f calls) noted := by
  -- The last call comes last, so the induction is on the calls from the end.
  induction calls using List.reverseRecOn with
  | nil => rfl
  | append_singleton calls call ih =>
    obtain ⟨g, args⟩ := call
    have hstep : noteCalls ∅ (calls ++ [(g, args)]) = noteCall (noteCalls ∅ calls) (g, args) :=
      List.foldl_append ..
    rw [hstep, getElem?_noteCall]
    by_cases hg : g = f
    · have hcalls : callsOf f (calls ++ [(g, args)]) = callsOf f calls ++ [args] := by
        simp [callsOf, hg]
      rw [if_pos hg, hcalls]
      cases hold : (noteCalls ∅ calls)[f]? with
      | none =>
        rw [hold] at ih
        rw [ih]
        exact joins_single args
      | some old =>
        rw [hold] at ih
        exact ih.joinArgs args
    · have hcalls : callsOf f (calls ++ [(g, args)]) = callsOf f calls := by
        simp [callsOf, hg]
      rw [if_neg hg, hcalls]
      exact ih

theorem noteCalls_eq_none_iff {f : NodeId} {calls : List (NodeId × List Value)} :
    (noteCalls ∅ calls)[f]? = none ↔ callsOf f calls = [] := by
  have hspec := noteCalls_spec f calls
  cases hnoted : (noteCalls ∅ calls)[f]? with
  | none =>
    rw [hnoted] at hspec
    exact iff_of_true rfl hspec
  | some noted =>
    rw [hnoted] at hspec
    obtain ⟨args, hargs, -⟩ := hspec.longest
    exact iff_of_false nofun (List.ne_nil_of_mem hargs)

theorem joins_of_noteCalls {f : NodeId} {calls : List (NodeId × List Value)} {noted : List Value}
    (h : (noteCalls ∅ calls)[f]? = some noted) : Joins (callsOf f calls) noted := by
  have hspec := noteCalls_spec f calls
  rw [h] at hspec
  exact hspec

/-- The calls may come in any order. -/
theorem noteCalls_perm {calls calls' : List (NodeId × List Value)} (h : calls.Perm calls')
    (f : NodeId) : ((noteCalls ∅ calls)[f]? == (noteCalls ∅ calls')[f]?) = true := by
  have hperm : (callsOf f calls).Perm (callsOf f calls') := (h.filter _).map _
  cases hnoted : (noteCalls ∅ calls)[f]? with
  | none =>
    rw [noteCalls_eq_none_iff] at hnoted
    rw [hnoted, List.nil_perm, ← noteCalls_eq_none_iff] at hperm
    rw [hperm]
    rfl
  | some noted =>
    cases hnoted' : (noteCalls ∅ calls')[f]? with
    | none =>
      rw [noteCalls_eq_none_iff] at hnoted'
      rw [hnoted', List.perm_nil, ← noteCalls_eq_none_iff, hnoted] at hperm
      cases hperm
    | some noted' => exact (joins_of_noteCalls hnoted).beq (joins_of_noteCalls hnoted') hperm

end Track

end EsOptimizer
