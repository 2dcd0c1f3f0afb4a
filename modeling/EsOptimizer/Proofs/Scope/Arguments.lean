import EsOptimizer.Proofs.Scope.Accounted

/-!
# Which functions use their own `arguments`

A function uses its own `arguments` where the name stands in its code and no variable has it, outside
of the functions in it. The walk notes a function just for the uses for which it finds no variable
(`usesArguments_ofProgram`). That is the same if no undeclared name `arguments` has become a global
variable (`usesArguments_iff`). Such a variable is made for a use outside of all functions, and then
hides the own `arguments` of each function that the walk comes to later.
-/

namespace EsOptimizer

namespace ScopeTree

/-- A use of the name `arguments`, where no variable has this name. -/
def FreeArguments (t : ScopeTree) (o : Occurrence) : Prop :=
  (∃ k, o.role = .use k) ∧ o.ident.name = "arguments" ∧
    ∃ s, t.scopeOf o.scope = some s ∧ t.lookup s "arguments" = none

/-- No undeclared name `arguments` is a variable. -/
def ArgumentsUndeclared (t : ScopeTree) : Prop :=
  ∀ s v, t.lookup s "arguments" = some v → (t.var v).kind ≠ .implicit

theorem Explains.isOwnArguments_iff_free {t : ScopeTree} {o : Occurrence} (h : t.Explains o)
    (hglobal : t.ArgumentsUndeclared) : t.IsOwnArguments o ↔ t.FreeArguments o := by
  refine and_congr_right fun ⟨k, hrole⟩ => ?_
  rw [Explains, hrole] at h
  constructor
  · intro hnone
    obtain ⟨hname, ⟨s, hs, -, hlookup⟩, -⟩ := h.resolve_left fun hmeans => hmeans.not_unnoted hnone
    refine ⟨hname, s, hs, ?_⟩
    cases hv : t.lookup s "arguments" with
    | none => rfl
    | some v => exact absurd (hlookup v (hname ▸ hv)) (hglobal s v hv)
  · rintro ⟨hname, s, hs, hfree⟩
    refine (h.resolve_left ?_).2.2
    rintro ⟨s', fs, v, hs', -, hv, -⟩
    obtain rfl := Option.some.inj (hs.symm.trans hs')
    rw [hname, hfree] at hv
    cases hv

section

variable {p : Program}

/-- A function is noted for each use in it that the walk finds no variable for, and for nothing
else. -/
theorem usesArguments_ofProgram (h : p.ids.Nodup) (f : NodeId) : (ofProgram p).UsesArguments f ↔
    ∃ o ∈ p.occurrences, o.function = f ∧ (ofProgram p).IsOwnArguments o := by
  have haccounts := Resolve.accounted_onStmts p.body (List.nodup_append'.mp h).1
  refine (haccounts.recognizes (Resolve.ready_atProgramBody h) f).trans (or_iff_right ?_)
  refine not_usesArguments ?_
  have hfunctions : (Resolve.atProgramBody p).tree.functions = (Resolve.atProgram p).tree.functions :=
    (Resolve.Leaves.declareLexicals Resolve.apart_functions p.body _).trans
      (Resolve.Leaves.hoist Resolve.apart_functions p.body _)
  rw [function?, hfunctions]
  rfl

/-- Where no undeclared `arguments` is a variable, a function is noted just if its own code, outside
of the functions in it, uses `arguments` where no variable has this name. -/
theorem usesArguments_iff (h : p.ids.Nodup) (hglobal : (ofProgram p).ArgumentsUndeclared)
    (f : NodeId) : (ofProgram p).UsesArguments f ↔
      ∃ o ∈ p.occurrences, o.function = f ∧ (ofProgram p).FreeArguments o := by
  obtain ⟨-, -, hexplains⟩ := explains_ofProgram h
  rw [usesArguments_ofProgram h]
  exact exists_congr fun o => and_congr_right fun ho => and_congr_right fun _ =>
    (hexplains o ho).isOwnArguments_iff_free hglobal

-- In `typeof arguments; function count() { return arguments; }` the first line takes the name.
example : ((ofProgram ⟨11, [
    .expr 3 (.unary 2 .typeOf (.ident ⟨1, "arguments"⟩)),
    .function 10 ⟨4, "count"⟩ ⟨9, [], ⟨8, [.return 6 (some (.ident ⟨5, "arguments"⟩))]⟩⟩
    ]⟩).function? 9).map (·.usesArguments) = some false := by
  decide +kernel

end

end ScopeTree

end EsOptimizer
