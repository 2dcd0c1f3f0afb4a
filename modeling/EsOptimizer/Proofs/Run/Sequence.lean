import EsOptimizer.Proofs.Run.Extends

/-!
# Statements one after another

A list of statements runs as its parts do, one after the other, up to the first that does not end
normally. A statement that leaves its list on every path never ends normally, so nothing behind it
runs.
-/

namespace EsOptimizer

namespace Run

/-- Runs `y` after `x`, if that ends normally. -/
def andThen (x y : Run Outcome) : Run Outcome := do
  let outcome ← x
  if outcome = .normal then y else return outcome

variable {x y z : Run Outcome} {w : World}

theorem andThen_of_normal (h : (x w).1 = .normal) : andThen x y w = y (x w).2 := by
  change (if (x w).1 = .normal then y else pure (x w).1) (x w).2 = _
  rw [if_pos h]

theorem andThen_of_ne_normal (h : (x w).1 ≠ .normal) : andThen x y w = x w := by
  change (if (x w).1 = .normal then y else pure (x w).1) (x w).2 = _
  rw [if_neg h]
  rfl

theorem andThen_normal (x : Run Outcome) : andThen x (pure .normal) = x := by
  funext w
  by_cases h : (x w).1 = .normal
  · rw [andThen_of_normal h, ← h]
    rfl
  · exact andThen_of_ne_normal h

theorem andThen_assoc (x y z : Run Outcome) :
    andThen (andThen x y) z = andThen x (andThen y z) := by
  funext w
  by_cases h : (x w).1 = .normal
  · have hxy : andThen x y w = y (x w).2 := andThen_of_normal h
    rw [andThen_of_normal h]
    by_cases hy : (y (x w).2).1 = .normal
    · rw [andThen_of_normal hy, andThen_of_normal (by rwa [hxy]), hxy]
    · rw [andThen_of_ne_normal hy, andThen_of_ne_normal (by rwa [hxy]), hxy]
  · have hxy : andThen x y w = x w := andThen_of_ne_normal h
    rw [andThen_of_ne_normal h, andThen_of_ne_normal (by rwa [hxy]), hxy]

theorem Extends.andThen (hx : Extends x) (hy : Extends y) : Extends (andThen x y) :=
  hx.bind fun _ => .ite hy (.pure _)

/-- What does not end normally does not matter to what follows, and the other way round. -/
theorem andThen_ne_normal (h : ∀ w, (x w).1 ≠ .normal ∨ ∀ w', (y w').1 ≠ .normal) (w : World) :
    (Run.andThen x y w).1 ≠ .normal := by
  by_cases hx : (x w).1 = .normal
  · rw [andThen_of_normal hx]
    exact (h w).resolve_left (not_not_intro hx) _
  · rwa [andThen_of_ne_normal hx]

end Run

open Run

/-! ## Lists -/

theorem execAll_cons (n : Nat) (s : Stmt) (rest : List Stmt) :
    execAll n (s :: rest) = andThen (s.exec n []) (execAll n rest) := by
  rw [execAll]
  exact bind_congr fun outcome => by cases outcome <;> rfl

theorem execAll_append (n : Nat) (ss rest : List Stmt) :
    execAll n (ss ++ rest) = andThen (execAll n ss) (execAll n rest) := by
  induction ss with
  | nil => rfl
  | cons s ss ih => rw [List.cons_append, execAll_cons, execAll_cons, ih, andThen_assoc]

theorem execAll_singleton (n : Nat) (s : Stmt) : execAll n [s] = s.exec n [] := by
  rw [execAll_cons]
  exact andThen_normal _

/-! ## Statements that leave -/

mutual

/-- A statement that leaves its list on every path does not end normally. -/
theorem Stmt.exec_ne_normal (s : Stmt) (h : s.isAbrupt = true) (n : Nat) (labels : List String)
    (w : World) : (s.exec n labels w).1 ≠ .normal := by
  cases s with
  | «return» id arg => nofun
  | throw id arg => nofun
  | «break» id label => nofun
  | «continue» id label => nofun
  | block c =>
    obtain ⟨id, ss⟩ := c
    exact execAll_ne_normal ss h n w
  | «if» id test yes no =>
    cases no with
    | none => cases h
    | some no =>
      rw [Stmt.isAbrupt, Bool.and_eq_true] at h
      change ((if (test.eval w).1.truthy then yes.exec n [] else no.exec n []) _).1 ≠ .normal
      split
      · exact Stmt.exec_ne_normal yes h.1 n [] _
      · exact Stmt.exec_ne_normal no h.2 n [] _
  | _ => cases h
termination_by structural s

theorem execAll_ne_normal (ss : List Stmt) (h : anyAbrupt ss = true) (n : Nat) (w : World) :
    (execAll n ss w).1 ≠ .normal := by
  match ss with
  | [] => cases h
  | s :: rest =>
    rw [anyAbrupt, Bool.or_eq_true] at h
    rw [execAll_cons]
    refine andThen_ne_normal (fun w => ?_) w
    exact h.imp (fun hs => Stmt.exec_ne_normal s hs n [] w) fun hrest => execAll_ne_normal rest hrest n
termination_by structural ss

end

end EsOptimizer
