import EsOptimizer.Proofs.Run.Sequence

/-!
# More rounds

A run that is not cut off does not depend on how many rounds loops may have: with more of them it is
the same run (`Run.Settles`). So a call has at most one result.
-/

namespace EsOptimizer

namespace Run

/-- Where `x` is not cut off, `y` is the same run. -/
def Settles (x y : Run Outcome) : Prop := ∀ w, (x w).1 ≠ .cutOff → y w = x w

namespace Settles

variable {x x' y y' : Run Outcome}

theorem refl (x : Run Outcome) : Settles x x := fun _ _ => rfl

/-- What comes first is the same in both. -/
theorem after {α : Type} (first : Run α) {f g : α → Run Outcome} (h : ∀ a, Settles (f a) (g a)) :
    Settles (first >>= f) (first >>= g) :=
  fun _ hw => h _ _ hw

theorem ite {c : Prop} [Decidable c] (h : Settles x x') (h' : Settles y y') :
    Settles (if c then x else y) (if c then x' else y') := by
  split
  · exact h
  · exact h'

/-- What follows on a part that is cut off is cut off as well. -/
theorem bind {f g : Outcome → Run Outcome} (h : Settles x x')
    (hcut : ∀ w, (f .cutOff w).1 = .cutOff) (hf : ∀ o, o ≠ .cutOff → Settles (f o) (g o)) :
    Settles (x >>= f) (x' >>= g) := by
  intro w hw
  change (f (x w).1 (x w).2).1 ≠ .cutOff at hw
  have hx : (x w).1 ≠ .cutOff := fun hx => by
    rw [hx] at hw
    exact hw (hcut _)
  change g (x' w).1 (x' w).2 = f (x w).1 (x w).2
  rw [h w hx]
  exact hf _ hx _ hw

theorem andThen (hx : Settles x x') (hy : Settles y y') : Settles (andThen x y) (andThen x' y') :=
  hx.bind (fun _ => rfl) fun _ _ => hy.ite (.refl _)

theorem withVariable (h : Settles x y) (name : String) (value : Primitive) :
    Settles (withVariable name value x) (withVariable name value y) := by
  intro w hw
  let w' : World := { w with env := (name, value) :: w.env }
  change ((y w').1, { (y w').2 with env := (y w').2.env.tail }) =
    ((x w').1, { (x w').2 with env := (x w').2.env.tail })
  rw [h w' hw]

section

variable {labels : List String} {test : Run Bool} {body body' : Run Outcome} {update : Run Unit}

theorem rounds (hbody : Settles body body') {n m : Nat} (h : n ≤ m) :
    Settles (rounds labels test body update n) (rounds labels test body' update m) := by
  have hends {yes : Run Outcome} {w : World} (htest : (test w).1 = false) :
      (do if ← test then yes else return .normal : Run Outcome) w = (.normal, (test w).2) := by
    change (if (test w).1 then yes else return .normal : Run Outcome) (test w).2 = _
    rw [htest]
    rfl
  induction n generalizing m with
  | zero =>
    intro w hw
    cases htest : (test w).1 with
    | false => cases m <;> exact (hends htest).trans (hends htest).symm
    | true =>
      refine absurd ?_ hw
      change ((if (test w).1 then return .cutOff else return .normal : Run Outcome) (test w).2).1 = _
      rw [htest]
      rfl
  | succ n ih =>
    cases m with
    | zero => cases h
    | succ m =>
      have hnext := ih (Nat.le_of_succ_le_succ h)
      refine .after test fun _ => .ite (hbody.bind (fun _ => rfl) fun o _ => ?_) (.refl _)
      cases o.leaves labels with
      | some o => exact .refl _
      | none => exact .after update fun _ => hnext

theorem roundsAfter (hbody : Settles body body') {n m : Nat} (h : n ≤ m) :
    Settles (roundsAfter labels test body n) (roundsAfter labels test body' m) := by
  refine hbody.bind (fun _ => rfl) fun o _ => ?_
  cases o.leaves labels with
  | some o => exact .refl _
  | none => exact rounds hbody h

end

theorem attempt {block block' finalizer finalizer' : Run Outcome}
    {handler handler' : Primitive → Run Outcome} (hb : Settles block block')
    (hh : ∀ value, Settles (handler value) (handler' value)) (hf : Settles finalizer finalizer') :
    Settles (attempt block handler finalizer) (attempt block' handler' finalizer') := by
  have hlast (o : Outcome) : Settles
      (do if o = .cutOff then return .cutOff else return o.finally (← finalizer))
      (do if o = .cutOff then return .cutOff else return o.finally (← finalizer')) :=
    .ite (.refl _) (hf.bind (fun _ => rfl) fun _ _ => .refl _)
  refine hb.bind (fun _ => rfl) fun o _ => ?_
  cases o with
  | throw value => exact (hh value).bind (fun _ => rfl) fun o _ => hlast o
  | _ => exact .after (pure _) hlast

end Settles

end Run

open Run

mutual

theorem Stmt.settles_exec {n m : Nat} (h : n ≤ m) (s : Stmt) (labels : List String) :
    Settles (s.exec n labels) (s.exec m labels) := by
  cases s with
  | block b => exact Block.settles_exec h b
  | «if» id test yes no =>
    exact .after test.eval fun _ => .ite (Stmt.settles_exec h yes []) (settles_exec? h no)
  | «while» id test body => exact .rounds (Stmt.settles_exec h body []) h
  | doWhile id body test => exact .roundsAfter (Stmt.settles_exec h body []) h
  | «for» id init test update body =>
    exact .after (execHead? init) fun _ => .rounds (Stmt.settles_exec h body []) h
  | labeled id label body =>
    exact (Stmt.settles_exec h body _).bind (fun _ => rfl) fun _ _ => .refl _
  | «try» id block handler finalizer =>
    exact .attempt (Block.settles_exec h block) (settles_execHandler h handler)
      (settles_execBlock? h finalizer)
  | _ => exact .refl _
termination_by structural s

theorem settles_exec? {n m : Nat} (h : n ≤ m) (s : Option Stmt) :
    Settles (exec? n s) (exec? m s) := by
  match s with
  | none => exact .refl _
  | some s => exact Stmt.settles_exec h s []
termination_by structural s

theorem Block.settles_exec {n m : Nat} (h : n ≤ m) (b : Block) : Settles (b.exec n) (b.exec m) := by
  match b with
  | ⟨_, stmts⟩ => exact settles_execAll h stmts
termination_by structural b

theorem settles_execBlock? {n m : Nat} (h : n ≤ m) (b : Option Block) :
    Settles (execBlock? n b) (execBlock? m b) := by
  match b with
  | none => exact .refl _
  | some b => exact Block.settles_exec h b
termination_by structural b

theorem settles_execHandler {n m : Nat} (h : n ≤ m) (c : Option CatchClause) (value : Primitive) :
    Settles (execHandler n c value) (execHandler m c value) := by
  match c with
  | none => exact .refl _
  | some ⟨_, some param, body⟩ => exact (Block.settles_exec h body).withVariable param.name value
  | some ⟨_, none, body⟩ => exact Block.settles_exec h body
termination_by structural c

theorem settles_execAll {n m : Nat} (h : n ≤ m) (ss : List Stmt) :
    Settles (execAll n ss) (execAll m ss) := by
  match ss with
  | [] => exact .refl _
  | s :: rest =>
    rw [execAll_cons, execAll_cons]
    exact (Stmt.settles_exec h s []).andThen (settles_execAll h rest)
termination_by structural ss

end

/-- A call has one result. -/
theorem Func.yields_unique {f : Func} {args : List Primitive} {r r' : Result}
    (h : f.Yields args r) (h' : f.Yields args r') : r = r' := by
  obtain ⟨n, hn⟩ := h
  obtain ⟨m, hm⟩ := h'
  have hsettled {n m : Nat} {r : Result} (hn : (f.exec n args).1.result? = some r) (hle : n ≤ m) :
      (f.exec m args).1.result? = some r := by
    have hne : (f.exec n args).1 ≠ .cutOff := fun hcut => by
      rw [hcut] at hn
      cases hn
    have heq : f.exec m args = f.exec n args :=
      settles_execAll hle f.body.stmts { env := f.entry args } hne
    rw [heq, hn]
  rcases Nat.le_total n m with hle | hle
  · exact Option.some.inj ((hsettled hn hle).symm.trans hm)
  · exact Option.some.inj (hn.symm.trans (hsettled hm hle))

end EsOptimizer
