import EsOptimizer.Proofs.Run.Sequence
import EsOptimizer.Proofs.Scope.Tree
import EsOptimizer.Proofs.Simulation.Follows
import EsOptimizer.Proofs.Syntax.Legal

/-!
# Two runs side by side

A change to code is right if its runs are as before. `Basis.Matches` compares a run of the code as
it was with a run of the code as it is now: they start with variables that agree, and if the facts
explain every evaluation of the first run, they end alike. Nothing is asked of the trace of the
second run, whose nodes may be new.

Variables agree if every name has the same value. Two lists of variables may have a different order,
but the parameters of handlers stand in front of both in the same way.
-/

namespace EsOptimizer

/-- Two values are the same value. -/
abbrev Primitive.SameValue (p q : Primitive) : Prop := (p == q) = true

/-! ## Variables -/

namespace Env

/-- Every name has the same value in two lists of variables, with the variables `inner` in front of
each, and every variable has one of the names `named`. -/
inductive Agree (named : String → Prop) : (inner : List String) → Env → Env → Prop where
  | base {env env' : Env} :
    (∀ x, Option.Rel Primitive.SameValue (env.lookup x) (env'.lookup x)) →
    (∀ x, env.has x = true → named x) → Agree named [] env env'
  | push {x : String} {p q : Primitive} {inner : List String} {env env' : Env} :
    named x → p.SameValue q → Agree named inner env env' →
    Agree named (x :: inner) ((x, p) :: env) ((x, q) :: env')

theorem lookup_cons (env : Env) (name x : String) (value : Primitive) :
    List.lookup x ((name, value) :: env) = if x = name then some value else env.lookup x := by
  rw [List.lookup_cons]
  by_cases hx : x = name
  · rw [if_pos hx, beq_iff_eq.mpr hx]
  · rw [if_neg hx, beq_eq_false_iff_ne.mpr hx]

theorem lookup_assign (env : Env) (name x : String) (value : Primitive) :
    (env.assign name value).lookup x =
      if x = name then (env.lookup x).map fun _ => value else env.lookup x := by
  induction env with
  | nil => split <;> rfl
  | cons e rest ih =>
    obtain ⟨y, old⟩ := e
    rw [assign]
    by_cases hname : name = y
    · rw [if_pos hname, lookup_cons, lookup_cons, hname]
      split <;> rfl
    · rw [if_neg hname, lookup_cons, lookup_cons, ih]
      by_cases hx : x = y
      · rw [if_pos hx, if_neg fun h => hname (h.symm.trans hx), if_pos hx]
      · rw [if_neg hx, if_neg hx]

namespace Agree

variable {named : String → Prop} {inner : List String} {env env' : Env}

theorem lookup (h : Agree named inner env env') (x : String) :
    Option.Rel Primitive.SameValue (env.lookup x) (env'.lookup x) := by
  induction h with
  | base hvalues _ => exact hvalues x
  | push _ hpq _ ih =>
    rw [lookup_cons, lookup_cons]
    split
    · exact .some hpq
    · exact ih

theorem named_of_has (h : Agree named inner env env') {x : String} (hx : env.has x = true) :
    named x := by
  induction h with
  | base _ hnamed => exact hnamed x hx
  | push hy _ _ ih =>
    rw [has, lookup_cons] at hx
    split at hx
    · rename_i heq
      rwa [heq]
    · exact ih hx

theorem read (h : Agree named inner env env') (x : String) :
    (env.read x).SameValue (env'.read x) := by
  have hx := h.lookup x
  rw [Env.read, Env.read]
  generalize env.lookup x = p, env'.lookup x = q at hx
  cases hx with
  | some hpq => exact hpq
  | none => exact BEq.rfl

/-- A name that no variable has means a constant in both. -/
theorem read_of_not_named (h : Agree named inner env env') {x : String} (hx : ¬named x) :
    env'.read x = (globalConstant? x).getD .undefined := by
  have hnone : env.lookup x = none := by
    rw [← Option.not_isSome_iff_eq_none]
    exact fun hsome => hx (h.named_of_has hsome)
  have hrel := h.lookup x
  rw [hnone] at hrel
  have hnone' : env'.lookup x = none := by
    cases hlookup : env'.lookup x with
    | none => rfl
    | some q =>
      rw [hlookup] at hrel
      cases hrel
  rw [Env.read, hnone']
  rfl

theorem assign (h : Agree named inner env env') (name : String) {p q : Primitive}
    (hpq : p.SameValue q) : Agree named inner (env.assign name p) (env'.assign name q) := by
  induction h with
  | @base env env' hvalues hnamed =>
    refine .base (fun x => ?_) fun x hx => hnamed x ?_
    · have hx := hvalues x
      rw [lookup_assign, lookup_assign]
      split
      · generalize env.lookup x = old, env'.lookup x = old' at hx
        cases hx with
        | some _ => exact .some hpq
        | none => exact .none
      · exact hx
    · rw [has, lookup_assign] at hx
      split at hx
      · rwa [Option.isSome_map] at hx
      · exact hx
  | push hy hvalue hrest ih =>
    rw [Env.assign, Env.assign]
    split
    · exact .push hy hpq hrest
    · exact .push hy hvalue ih

end Agree

end Env

open Run

/-! ## Runs -/

/-- What a change of code may rely on: the scopes of the code as it was, and facts recorded of it. -/
structure Basis where
  scopes : ScopeTree
  ok : scopes.Ok
  facts : Std.TreeMap NodeId NodeFacts
  /-- The first id that no node of the code has. -/
  nextId : NodeId
  unrecorded : ∀ id, nextId ≤ id → facts[id]? = none

namespace Basis

/-- A declared variable has the name. -/
def named (b : Basis) (x : String) : Prop :=
  ∃ v < b.scopes.vars.size, (b.scopes.var v).name = x ∧ (b.scopes.var v).kind ≠ .implicit

variable {b : Basis} {inner : List String} {α β γ δ : Type}

/-- The facts explain every evaluation so far. -/
def Explained (b : Basis) (w : World) : Prop := ∀ ev ∈ w.trace, Explains b.facts ev

/-- From variables that agree, two runs come to variables that agree and to results that are
related, if the facts explain the first run. -/
def Matches (b : Basis) (inner : List String) (R : α → β → Prop) (x : Run α) (y : Run β) : Prop :=
  ∀ w w', Env.Agree b.named inner w.env w'.env → b.Explained (x w).2 →
    R (x w).1 (y w').1 ∧ Env.Agree b.named inner (x w).2.env (y w').2.env

namespace Matches

variable {R : α → β → Prop} {x : Run α} {y : Run β}

theorem pure {a : α} {c : β} (h : R a c) : b.Matches inner R (Pure.pure a) (Pure.pure c) :=
  fun _ _ hagree _ => ⟨h, hagree⟩

theorem bind {S : γ → δ → Prop} {f : α → Run γ} {g : β → Run δ} (hx : b.Matches inner R x y)
    (hf : ∀ a, Extends (f a)) (h : ∀ a c, R a c → b.Matches inner S (f a) (g c)) :
    b.Matches inner S (x >>= f) (y >>= g) := by
  intro w w' hagree hexplained
  obtain ⟨hr, hagree'⟩ := hx w w' hagree fun ev hev => hexplained ev (hf _ _ hev)
  exact h _ _ hr _ _ hagree' hexplained

theorem imp {S : α → β → Prop} (hx : b.Matches inner R x y) (h : ∀ a c, R a c → S a c) :
    b.Matches inner S x y :=
  fun w w' hagree hexplained => (hx w w' hagree hexplained).imp_left (h _ _)

/-- The result only. -/
theorem map {S : γ → δ → Prop} {f : α → γ} {g : β → δ} (hx : b.Matches inner R x y)
    (h : ∀ a c, R a c → S (f a) (g c)) :
    b.Matches inner S (do return f (← x)) (do return g (← y)) :=
  hx.bind (fun _ => .pure _) fun a c hac => .pure (h a c hac)

theorem discard (hx : b.Matches inner R x y) :
    b.Matches inner (· = ·) (discard x) (discard y) :=
  hx.bind (fun _ => .pure _) fun _ _ _ => .pure rfl

theorem ite {c d : Prop} [Decidable c] [Decidable d] {x' : Run α} {y' : Run β} (hcd : c ↔ d)
    (hx : b.Matches inner R x y) (hx' : b.Matches inner R x' y') :
    b.Matches inner R (if c then x else x') (if d then y else y') := by
  by_cases h : c
  · rwa [if_pos h, if_pos (hcd.mp h)]
  · rwa [if_neg h, if_neg fun hd => h (hcd.mpr hd)]

end Matches

/-! ## Expressions -/

theorem matches_readName (name : String) :
    b.Matches inner Primitive.SameValue (readName name) (readName name) :=
  fun _ _ hagree _ => ⟨hagree.read name, hagree⟩

theorem matches_assignName (name : String) {p q : Primitive} (h : p.SameValue q) :
    b.Matches inner (· = ·) (assignName name p) (assignName name q) :=
  fun _ _ hagree _ => ⟨rfl, hagree.assign name h⟩

theorem Matches.evaluated {x y : Run Primitive} (hx : b.Matches inner Primitive.SameValue x y)
    (node node' : NodeId) :
    b.Matches inner Primitive.SameValue (evaluated node x) (evaluated node' y) :=
  fun w w' hagree hexplained =>
    hx w w' hagree fun ev hev => hexplained ev (List.mem_cons_of_mem _ hev)

theorem unary_sameValue {op : UnaryOp} {p q : Primitive} (h : p.SameValue q) :
    ((Primitive.unary op p).getD .undefined).SameValue ((Primitive.unary op q).getD .undefined) := by
  cases hp : Primitive.unary op p with
  | some r =>
    obtain ⟨r', hr', hsame⟩ := Primitive.unary_congr h hp
    rw [hr']
    exact hsame
  | none =>
    cases op <;> cases hp
    exact BEq.rfl

theorem binary_sameValue {op : BinaryOp} {p q p' q' : Primitive} (h : p.SameValue q)
    (h' : p'.SameValue q') :
    ((Primitive.binary op p p').getD .undefined).SameValue
      ((Primitive.binary op q q').getD .undefined) := by
  cases hp : Primitive.binary op p p' with
  | some r =>
    obtain ⟨r', hr', hsame⟩ := Primitive.binary_congr h h' hp
    rw [hr']
    exact hsame
  | none => cases op <;> cases hp <;> exact BEq.rfl

theorem Matches.logical {left left' right right' : Run Primitive} (isOr : Bool)
    (hl : b.Matches inner Primitive.SameValue left left')
    (hr : b.Matches inner Primitive.SameValue right right') (hright : Extends right) :
    b.Matches inner Primitive.SameValue (logical isOr left right) (logical isOr left' right') := by
  refine hl.bind (fun _ => .ite (.pure _) hright) fun p q hpq => ?_
  exact .ite (by rw [Primitive.truthy_congr hpq]) (.pure hpq) hr

theorem Matches.assigned {right right' : Run Primitive} (op : AssignOp) (name : String)
    (hr : b.Matches inner Primitive.SameValue right right') (hright : Extends right) :
    b.Matches inner Primitive.SameValue (assigned op name right) (assigned op name right') := by
  unfold Run.assigned
  split
  · exact hr
  · exact (matches_readName name).bind (fun _ => hright.bind fun _ => .pure _) fun p q hpq =>
      hr.map fun _ _ h => binary_sameValue hpq h

theorem matches_updateName (op : UpdateOp) (before : Bool) (name : String) :
    b.Matches inner Primitive.SameValue (updateName op before name) (updateName op before name) := by
  intro w w' hagree _
  have hold := Primitive.toNumber_congr (hagree.read name)
  have hnew : ((w.env.read name).toNumber.add (Track.updateStep op)).same
      ((w'.env.read name).toNumber.add (Track.updateStep op)) = true :=
    Number.same_congr (fun _ _ => Number.isNaN_arith) hold (Number.same_refl _)
  refine ⟨?_, hagree.assign name hnew⟩
  cases before with
  | true => exact hnew
  | false => exact hold

/-! ## Statements -/

end Basis

/-- Two outcomes are the same, with the same values; a label that a `continue` goes to is among
these. -/
inductive Outcome.Alike (loops : List String) : Outcome → Outcome → Prop where
  | normal : Alike loops .normal .normal
  | break (label : Option String) : Alike loops (.break label) (.break label)
  | continue {label : Option String} (h : ∀ l, label = some l → l ∈ loops) :
    Alike loops (.continue label) (.continue label)
  | return {p q : Primitive} (h : p.SameValue q) : Alike loops (.return p) (.return q)
  | throw {p q : Primitive} (h : p.SameValue q) : Alike loops (.throw p) (.throw q)
  | cutOff : Alike loops .cutOff .cutOff

namespace Outcome.Alike

variable {loops : List String} {o o' : Outcome}

theorem unlabeled (h : Alike loops o o') (label : String) :
    Alike loops (o.unlabeled label) (o'.unlabeled label) := by
  cases h with
  | «break» label =>
    cases label with
    | none => exact .break none
    | some l =>
      rw [Outcome.unlabeled]
      split
      · exact .normal
      · exact .break _
  | normal => exact .normal
  | «continue» h => exact .continue h
  | «return» h => exact .return h
  | throw h => exact .throw h
  | cutOff => exact .cutOff

theorem eq_normal_iff (h : Alike loops o o') : o = .normal ↔ o' = .normal := by
  cases h <;> simp

theorem eq_cutOff_iff (h : Alike loops o o') : o = .cutOff ↔ o' = .cutOff := by
  cases h <;> simp

theorem «finally» {f f' : Outcome} (h : Alike loops o o') (hf : Alike loops f f') :
    Alike loops (o.finally f) (o'.finally f') := by
  rw [Outcome.finally, Outcome.finally]
  by_cases hnormal : f = .normal
  · rwa [if_pos hnormal, if_pos (hf.eq_normal_iff.mp hnormal)]
  · rwa [if_neg hnormal, if_neg fun h => hnormal (hf.eq_normal_iff.mpr h)]

end Outcome.Alike

namespace Surroundings

/-- Labels around a statement are known as such. -/
structure Coherent (cx : Surroundings) : Prop where
  loops : cx.loops ⊆ cx.labels
  own : ∀ l, cx.own = some l → l ∈ cx.labels

/-- A statement may run with these labels: the one that stands on it is among them, and those of
loops around are not. -/
structure Admits (cx : Surroundings) (labels : List String) : Prop where
  own : ∀ l, cx.own = some l → l ∈ labels
  apart : ∀ l ∈ labels, l ∉ cx.loops

variable {cx : Surroundings} {labels labels' : List String}

theorem admits_nil (h : cx.own = none) : cx.Admits [] :=
  ⟨fun _ hl => absurd (h.symm.trans hl) nofun, nofun⟩

theorem Admits.inside (h : cx.Admits labels) : cx.inside.Admits labels := ⟨nofun, h.apart⟩

theorem Coherent.inside (h : cx.Coherent) : cx.inside.Coherent := ⟨h.loops, nofun⟩

theorem Coherent.loop (h : cx.Coherent) : cx.loop.Coherent := by
  refine ⟨List.append_subset.mpr ⟨fun l hl => h.own l ?_, h.loops⟩, nofun⟩
  rwa [Option.mem_toList] at hl

theorem Coherent.labeled (h : cx.Coherent) (label : String) : (cx.labeled label).Coherent := by
  refine ⟨List.Subset.trans h.loops (List.subset_cons_self _ _), fun l hl => ?_⟩
  cases hl
  exact List.mem_cons_self

theorem Admits.labeled (h : cx.Admits labels) (hcx : cx.Coherent) {label : String}
    (hnew : label ∉ cx.labels) : (cx.labeled label).Admits (label :: labels) := by
  refine ⟨fun l hl => ?_, fun l hl => ?_⟩
  · cases hl
    exact List.mem_cons_self
  · rcases List.mem_cons.mp hl with rfl | hl
    · exact fun hloops => hnew (hcx.loops hloops)
    · exact h.apart l hl

/-- After a round of a loop, both runs go on or both leave the loop. -/
theorem Admits.leaves (h : cx.Admits labels) (h' : cx.Admits labels') {o o' : Outcome}
    (ho : Outcome.Alike cx.loop.loops o o') :
    Option.Rel (Outcome.Alike cx.loops) (o.leaves labels) (o'.leaves labels') := by
  cases ho with
  | normal => exact .none
  | «break» label =>
    cases label with
    | none => exact .some .normal
    | some l => exact .some (.break _)
  | @«continue» label hl =>
    cases label with
    | none => exact .none
    | some l =>
      rw [Outcome.leaves, Outcome.leaves]
      rcases List.mem_append.mp (hl l rfl) with hown | hloops
      · have hown := Option.mem_toList.mp hown
        rw [if_pos (h.own l hown), if_pos (h'.own l hown)]
        exact .none
      · rw [if_neg fun hmem => h.apart l hmem hloops, if_neg fun hmem => h'.apart l hmem hloops]
        refine .some (.continue fun m hm => ?_)
        cases hm
        exact hloops
  | «return» hp => exact .some (.return hp)
  | throw hp => exact .some (.throw hp)
  | cutOff => exact .some .cutOff

end Surroundings

namespace Basis

variable {b : Basis} {inner : List String} {cx : Surroundings} {labels labels' : List String}

/-- A variable in front that both runs have. -/
theorem Matches.withVariable {α β : Type} {R : α → β → Prop} {x : Run α} {y : Run β} {name : String}
    (hname : b.named name) (hx : b.Matches (name :: inner) R x y) {p q : Primitive}
    (hpq : p.SameValue q) : b.Matches inner R (withVariable name p x) (withVariable name q y) := by
  intro w w' hagree hexplained
  obtain ⟨hr, hagree'⟩ := hx { w with env := (name, p) :: w.env } { w' with env := (name, q) :: w'.env }
    (.push hname hpq hagree) hexplained
  refine ⟨hr, ?_⟩
  change Env.Agree b.named inner (x _).2.env.tail (y _).2.env.tail
  generalize (x _).2.env = env, (y _).2.env = env' at hagree' ⊢
  cases hagree' with
  | push _ _ hrest => exact hrest

section

variable {test test' : Run Bool} {body body' : Run Outcome} {update update' : Run Unit}

/-- Behind the body a loop is left, or its next round begins. -/
theorem extends_next (labels : List String) (htest : Extends test) (hbody : Extends body)
    (hupdate : Extends update) (n : Nat) (o : Option Outcome) : Extends (match o with
      | some outcome => return outcome
      | none => do
        update
        Run.rounds labels test body update n : Run Outcome) := by
  cases o with
  | none => exact hupdate.bind fun _ => .rounds htest hbody hupdate n
  | some o => exact .pure _

theorem Matches.rounds (hlabels : cx.Admits labels) (hlabels' : cx.Admits labels')
    (ht : b.Matches inner (· = ·) test test')
    (hb : b.Matches inner (Outcome.Alike cx.loop.loops) body body') (hbody : Extends body)
    (hu : b.Matches inner (· = ·) update update') (hupdate : Extends update)
    (htest : Extends test) (n : Nat) :
    b.Matches inner (Outcome.Alike cx.loops) (rounds labels test body update n)
      (rounds labels' test' body' update' n) := by
  induction n with
  | zero =>
    refine ht.bind (fun _ => .ite (.pure _) (.pure _)) ?_
    rintro a _ rfl
    exact .ite Iff.rfl (.pure .cutOff) (.pure .normal)
  | succ n ih =>
    have hrest := extends_next labels htest hbody hupdate n
    refine ht.bind (fun _ => .ite (hbody.bind fun o => hrest _) (.pure _)) ?_
    rintro a _ rfl
    refine .ite Iff.rfl (hb.bind (fun o => hrest _) fun o o' ho => ?_) (.pure .normal)
    have hleaves := hlabels.leaves hlabels' ho
    generalize o.leaves labels = out, o'.leaves labels' = out' at hleaves
    cases hleaves with
    | some ho => exact .pure ho
    | none => exact hu.bind (fun _ => .rounds htest hbody hupdate n) fun _ _ _ => ih

theorem Matches.roundsAfter (hlabels : cx.Admits labels) (hlabels' : cx.Admits labels')
    (ht : b.Matches inner (· = ·) test test')
    (hb : b.Matches inner (Outcome.Alike cx.loop.loops) body body') (hbody : Extends body)
    (htest : Extends test) (n : Nat) :
    b.Matches inner (Outcome.Alike cx.loops) (roundsAfter labels test body n)
      (roundsAfter labels' test' body' n) := by
  have hnext : Extends (Run.rounds labels test body (Pure.pure ()) n) := .rounds htest hbody (.pure _) n
  refine hb.bind (fun o => ?_) fun o o' ho => ?_
  · cases o.leaves labels with
    | none => exact hnext
    | some o => exact .pure _
  · have hleaves := hlabels.leaves hlabels' ho
    generalize o.leaves labels = out, o'.leaves labels' = out' at hleaves
    cases hleaves with
    | some ho => exact .pure ho
    | none => exact .rounds hlabels hlabels' ht hb hbody (.pure rfl) (.pure _) htest n

end

theorem Matches.andThen {x x' y y' : Run Outcome} {loops : List String}
    (hx : b.Matches inner (Outcome.Alike loops) x x')
    (hy : b.Matches inner (Outcome.Alike loops) y y') (hextends : Extends y) :
    b.Matches inner (Outcome.Alike loops) (andThen x y) (andThen x' y') :=
  hx.bind (fun _ => .ite hextends (.pure _)) fun _ _ ho => .ite ho.eq_normal_iff hy (.pure ho)

theorem Matches.attempt {block block' finalizer finalizer' : Run Outcome}
    {handler handler' : Primitive → Run Outcome} {loops : List String}
    (hb : b.Matches inner (Outcome.Alike loops) block block')
    (hh : ∀ p q, p.SameValue q →
      b.Matches inner (Outcome.Alike loops) (handler p) (handler' q))
    (hhandler : ∀ p, Extends (handler p))
    (hf : b.Matches inner (Outcome.Alike loops) finalizer finalizer') (hfinalizer : Extends finalizer) :
    b.Matches inner (Outcome.Alike loops) (attempt block handler finalizer)
      (attempt block' handler' finalizer') := by
  have hextends (o : Outcome) : Extends (do
      if o = .cutOff then return .cutOff else return o.finally (← finalizer) : Run Outcome) :=
    .ite (.pure _) (hfinalizer.bind fun _ => .pure _)
  have hlast (o o' : Outcome) (ho : Outcome.Alike loops o o') :
      b.Matches inner (Outcome.Alike loops)
        (do if o = .cutOff then return .cutOff else return o.finally (← finalizer))
        (do if o' = .cutOff then return .cutOff else return o'.finally (← finalizer')) :=
    .ite ho.eq_cutOff_iff (.pure .cutOff) (hf.map fun _ _ h => ho.finally h)
  refine hb.bind (fun o => ?_) fun o o' ho => ?_
  · cases o with
    | throw p => exact (hhandler p).bind hextends
    | _ => exact (Extends.pure _).bind hextends
  · cases ho with
    | throw hpq => exact (hh _ _ hpq).bind hextends hlast
    | normal => exact hlast _ _ .normal
    | «break» label => exact hlast _ _ (.break label)
    | «continue» h => exact hlast _ _ (.continue h)
    | «return» h => exact hlast _ _ (.return h)
    | cutOff => exact hlast _ _ .cutOff

end Basis

end EsOptimizer
