import EsOptimizer.Proofs.Simulation.Covers

/-!
# Expressions of first-order code

Whatever a machine computes for a linked expression, the analysis of it covers. A call is the case
where the facts that the analysis started from come in: the arguments are among those that it expects
of the function, so the call is accounted for, and what it returns is in the summary that the
analysis reads.
-/

namespace EsOptimizer

/-! ## Calls of one function -/

namespace Track

theorem observeCall_calls (cx : Context) (f : NodeId) (args : List Value) (p : Progress) :
    ∃ values, (observeCall f args cx p).2.calls[f]? = some values ∧ ArgsBelow args values := by
  refine ⟨_, Std.TreeMap.getElem?_insert_self, ?_⟩
  split
  · exact ArgsBelow.refl _
  · exact (argsBelow_joinArgs _ _).2

theorem callFunction_apply (cx : Context) (f : NodeId) (this : Value) (args : List Value)
    (p : Progress) : callFunction f this args cx p = (match cx.prev.summaries[f]? with
      | none => callUnknown this args
      | some summary => do
        if !summary.pure then unknownCall (handedOver this args)
        return ⟨summary.returns, summary.pure⟩ : Track Tracked) cx (observeCall f args cx p).2 := rfl

/-- A call notes its arguments. -/
theorem callFunction_calls (cx : Context) (f : NodeId) (this : Value) (args : List Value)
    (p : Progress) : ∃ values, (callFunction f this args cx p).2.calls[f]? = some values ∧
      ArgsBelow args values := by
  obtain ⟨values, hvalues, hbelow⟩ := observeCall_calls cx f args p
  have hrest : Moves cx .all (match cx.prev.summaries[f]? with
      | none => callUnknown this args
      | some summary => do
        if !summary.pure then unknownCall (handedOver this args)
        return ⟨summary.returns, summary.pure⟩) := by
    split
    · exact moves_callUnknown this args
    · exact Moves.ite (fun _ => (moves_unknownCall _).bind fun _ => Moves.pure _) fun _ => Moves.pure _
  obtain ⟨more, hmore, hgrow⟩ := (hrest (observeCall f args cx p).2).calls f values hvalues
  exact ⟨more, hmore, hbelow.trans hgrow⟩

/-- A call gives what the summary of the function says. -/
theorem callFunction_value {cx : Context} {f : NodeId} {s : FunctionSummary}
    (h : cx.prev.summaries[f]? = some s) (this : Value) (args : List Value) (p : Progress) :
    (callFunction f this args cx p).1.value = s.returns := by
  rw [callFunction_apply, h]
  dsimp only
  split <;> rfl

/-- A value that is one function calls it. -/
theorem call_eq {callee : Value} {f : NodeId}
    (h : callee.singles? = some [.reference (.function f)]) (cx : Context) (this : Value)
    (args : List Value) (p : Progress) :
    (call callee this args cx p).1.value = (callFunction f this args cx p).1.value ∧
      (call callee this args cx p).2 = (callFunction f this args cx p).2 := by
  rw [call, h]
  exact ⟨rfl, rfl⟩

theorem callOutcome_apply (cx : Context) (callee : Tracked) (this : Value) (args : List Tracked)
    (p : Progress) : callOutcome callee this args cx p =
      ((call callee.value this (args.map (·.value)) cx p).1.after
        (callee.pure && args.all (·.pure)), (call callee.value this (args.map (·.value)) cx p).2) :=
  rfl

end Track

section

variable {α β γ δ : Type} {cx : Context} {F : Progress} {fns : List NodeId} {fs : ScopeId}
  {Δ : Layout} {link : String → Option Func} {call : Calling}

namespace Computes

/-! ## Operators -/

/-- The same outcome after parts that were pure, or not. -/
theorem after {right : Track Tracked} {right' : Process Primitive}
    (h : Computes cx F fns fs Δ right right') (pure : Bool) :
    Computes cx F fns fs Δ (do return (← right).after pure) right' :=
  h.view (fun _ _ hvalue => hvalue) fun _ hp => (Bool.and_eq_true_iff.mp hp).2

/-- The join of two values, of which one is held. -/
theorem join {u v : Value} {x : Primitive} (pure : Bool)
    (h : u.Holds (.primitive x) ∨ v.Holds (.primitive x)) :
    Computes cx F fns fs Δ (do return ⟨← Track.join u v, pure⟩) (return x) := by
  refine Covers.quiet ((Track.moves_join u v).bind fun _ => Track.Moves.pure _) fun p => ?_
  change ((Escaping.join u v) p.escaped).1.Holds _
  rw [Escaping.gives_join u v]
  rcases h with h | h
  · exact h.or_left
  · exact h.or_right

theorem logical {left right : Track Tracked} {left' right' : Process Primitive} (isOr : Bool)
    (hs : Setting cx F link call fs Δ) (hl : Computes cx F fns fs Δ left left')
    (hr : Computes cx F fns fs Δ right right') :
    Computes cx F fns fs Δ (Track.logical isOr left right) (Process.logical isOr left' right') := by
  refine hl.bind (fun t => Track.moves_logical isOr (Track.Moves.pure t) hr.moves)
    (fun t x hx => ?_) fun t p hp => ?_
  · cases ht : t.value.truthiness with
    | some truthy =>
      rw [show x.truthy = truthy from Value.truthy_of_truthiness hx ht]
      dsimp only
      split
      · exact Covers.pure hx
      · exact hr.after t.pure
    | none =>
      -- The right side may run, and what is kept of the left side is held if it does not.
      have hmoves (r : Tracked) : Track.Moves cx (.computing Δ) (do
          return (⟨← Track.join (t.value.filter (·.truthy == isOr)) r.value, t.pure && r.pure⟩ :
            Tracked)) :=
        (Track.moves_join _ _).bind fun _ => Track.Moves.pure _
      by_cases htruthy : x.truthy = isOr
      · have hkept : (t.value.filter (·.truthy == isOr)).Holds (.primitive x) :=
          hx.filter fun s hs => by rw [← Single.truthy_congr hs]; exact beq_iff_eq.mpr htruthy
        rw [if_pos htruthy]
        exact (Covers.skipped hs hr.moves x).finish hmoves
          (fun r y hy => hy ▸ join _ (Or.inl hkept)) fun _ _ _ => trivial
      · rw [if_neg htruthy]
        exact (Covers.tried hs hr).finish hmoves
          (fun r y hy => join _ (Or.inr hy)) fun _ _ h => (Bool.and_eq_true_iff.mp h).2
  · cases ht : t.value.truthiness with
    | none =>
      rw [ht] at hp
      exact (Bool.and_eq_true_iff.mp hp).1
    | some truthy =>
      rw [ht] at hp
      dsimp only at hp
      by_cases htruthy : truthy = isOr
      · rw [if_pos htruthy] at hp
        exact hp
      · rw [if_neg htruthy] at hp
        exact (Bool.and_eq_true_iff.mp hp).1

theorem choose {test yes no : Track Tracked} {test' yes' no' : Process Primitive}
    (hs : Setting cx F link call fs Δ) (ht : Computes cx F fns fs Δ test test')
    (hy : Computes cx F fns fs Δ yes yes') (hn : Computes cx F fns fs Δ no no') :
    Computes cx F fns fs Δ (Track.choose test yes no) (do
      if (← test').truthy then yes' else no') := by
  refine ht.bind (fun t => Track.moves_choose (Track.Moves.pure t) hy.moves hn.moves)
    (fun t x hx => ?_) fun t p hp => ?_
  · cases htruth : t.value.truthiness with
    | some truthy =>
      rw [show x.truthy = truthy from Value.truthy_of_truthiness hx htruth]
      cases truthy
      · exact hn.after t.pure
      · exact hy.after t.pure
    | none =>
      have hmoves (r : Tracked × Tracked) : Track.Moves cx (.computing Δ) (do
          return (⟨← Track.join r.1.value r.2.value, t.pure && r.1.pure && r.2.pure⟩ : Tracked)) :=
        (Track.moves_join _ _).bind fun _ => Track.Moves.pure _
      cases x.truthy with
      | true =>
        refine (Covers.left hs hy hn.moves).finish hmoves
          (fun r y hv => join _ (Or.inl hv)) fun _ _ h => ?_
        exact (Bool.and_eq_true_iff.mp (Bool.and_eq_true_iff.mp h).1).2
      | false =>
        refine (Covers.right hs hy.moves hn).finish hmoves
          (fun r y hv => join _ (Or.inr hv)) fun _ _ h => ?_
        exact (Bool.and_eq_true_iff.mp h).2
  · cases htruth : t.value.truthiness with
    | none =>
      rw [htruth] at hp
      exact (Bool.and_eq_true_iff.mp (Bool.and_eq_true_iff.mp hp).1).1
    | some truthy =>
      rw [htruth] at hp
      cases truthy <;> exact (Bool.and_eq_true_iff.mp hp).1

/-- A unary operator on an operand that was found. -/
theorem unary {arg : Track Tracked} {arg' : Process Primitive} {op : UnaryOp}
    {f : Tracked → Track Tracked} (h : Computes cx F fns fs Δ arg arg') (hop : op ≠ .delete)
    (hmoves : ∀ t, Track.Moves cx .none (f t))
    (hf : ∀ t x z, t.value.Holds (.primitive x) → Primitive.unary op x = some z →
      ∀ p, (f t cx p).1.value.Holds (.primitive z))
    (hpure : ∀ t p, (f t cx p).1.pure = true → t.pure = true) :
    Computes cx F fns fs Δ (arg >>= f)
      (do return (Primitive.unary op (← arg')).getD .undefined) := by
  refine h.bind (fun t p => (hmoves t p).mono (Bounds.none_within _)) (fun t x hx => ?_) hpure
  obtain ⟨z, hz⟩ : ∃ z, Primitive.unary op x = some z := by
    cases op <;> first | exact ⟨_, rfl⟩ | exact absurd rfl hop
  rw [hz]
  exact Covers.quiet (hmoves t) (hf t x z hx hz)

/-- A binary operator that evaluates both operands. -/
theorem binary {left right : Track Tracked} {left' right' : Process Primitive} {op : BinaryOp}
    (hop : ∀ x y, ∃ z, Primitive.binary op x y = some z) (hl : Computes cx F fns fs Δ left left')
    (hr : Computes cx F fns fs Δ right right') :
    Computes cx F fns fs Δ (do
      let left ← left
      let right ← right
      return (← Track.binary op left.value right.value).after (left.pure && right.pure)) (do
      let left ← left'
      let right ← right'
      return (Primitive.binary op left right).getD .undefined) := by
  have hbinary (t u : Tracked) : Track.Moves cx .none (do
      return (← Track.binary op t.value u.value).after (t.pure && u.pure)) :=
    (Track.moves_binary _ _ _).bind fun _ => Track.Moves.pure _
  have hmoves (t u : Tracked) : Track.Moves cx (.computing Δ) (do
      return (← Track.binary op t.value u.value).after (t.pure && u.pure)) :=
    fun p => (hbinary t u p).mono (Bounds.none_within _)
  refine hl.bind (fun t => hr.moves.bind (hmoves t)) (fun t x hx => ?_) fun t p h => ?_
  · refine hr.bind (hmoves t) (fun u y hy => ?_) fun u p h => ?_
    · obtain ⟨z, hz⟩ := hop x y
      rw [hz]
      exact Covers.quiet (hbinary t u) fun p => Track.binary_holds hx hy hz cx p
    · exact (Bool.and_eq_true_iff.mp (Bool.and_eq_true_iff.mp h).1).2
  · exact (Bool.and_eq_true_iff.mp (Bool.and_eq_true_iff.mp h).1).1

end Computes

/-! ## Calls -/

/-- Arguments that are left out are `undefined`. -/
theorem AllHold.getD {ts : List Tracked} {xs : List Primitive} (h : AllHold ts xs) (i : Nat) :
    ((ts.map Tracked.value).getD i .undefined).Holds (.primitive (xs.getD i .undefined)) := by
  induction h generalizing i with
  | nil => exact Value.holds_ofPrimitive _
  | cons htx _ ih =>
    cases i with
    | zero => exact htx
    | succ i => exact ih i

/-- The arguments of a call are among those that the finished analysis expects. -/
theorem Context.Expects.paramsHold (h : cx.Expects F link) {name : String} {f : Func}
    (hf : link name = some f) {ts : List Tracked} {xs : List Primitive} (hxs : AllHold ts xs)
    {p : Progress} (hcalls : ∃ values, p.calls[f.id]? = some values ∧
      ArgsBelow (ts.map (·.value)) values)
    (hF : Gathers fns p F) : cx.prev.ParamsHold f xs := by
  intro i hi
  obtain ⟨values, hvalues, hbelow⟩ := hcalls
  obtain ⟨more, hmore, hgrow⟩ := hF.calls _ _ hvalues
  exact h.params name f hf more hmore i hi _ (hgrow i _ (hbelow i _ (hxs.getD i)))

theorem computes_callOutcome (hs : Setting cx F link call fs Δ) {name : String} {f : Func}
    (hf : link name = some f) {callee : Tracked}
    (hcallee : callee.value.singles? = some [.reference (.function f.id)]) {ts : List Tracked}
    {xs : List Primitive} (hxs : AllHold ts xs) :
    Computes cx F fns fs Δ (Track.callOutcome callee .undefined ts) (call name xs) where
  moves := Track.moves_callOutcome callee .undefined ts
  runs := by
    intro p ρ m hp hm hF
    rw [Track.callOutcome_apply] at hF ⊢
    obtain ⟨hvalue, hplace⟩ := Track.call_eq hcallee cx .undefined (ts.map (·.value)) p
    have hcalls := Track.callFunction_calls cx f.id .undefined (ts.map (·.value)) p
    have hmoves : Advances cx.scopes .none p _ :=
      Track.moves_call callee.value .undefined (ts.map (·.value)) p
    generalize Track.call callee.value .undefined (ts.map (·.value)) cx p = r at *
    obtain ⟨t, q⟩ := r
    rw [← hplace] at hcalls
    obtain ⟨hm', hgo⟩ := hs.calls name f hf xs m (hs.expects.paramsHold hf hxs hcalls hF) hm
    refine ⟨hm', fun y hy => ?_⟩
    obtain ⟨henv, s, hs', hreturns⟩ := hgo y hy
    have hq := hp.advance hmoves fun _ h => h
    refine ⟨ρ, ⟨hq.follows, hq.stored, hq.functions, henv.trans hq.env⟩, ?_, fun _ => henv⟩
    change t.value.Holds _
    rw [hvalue, Track.callFunction_value hs']
    exact hreturns

theorem Track.onExpr_ident (i : Ident) :
    Track.onExpr (.ident i) = Track.recorded i.id (Track.readIdent i true) := rfl

theorem computes_call (hs : Setting cx F link call fs Δ) {i : Ident}
    (hi : cx.scopes.Links link i) {args : Track (List Tracked)} {args' : Process (List Primitive)}
    (hargs : Covers cx F fns fs Δ args args' AllHold (fun ts => ts.all (·.pure) = true)) :
    Computes cx F fns fs Δ (do
      let callee ← Track.onExpr (.ident i)
      Track.callOutcome callee .undefined (← args)) (do call i.name (← args')) := by
  obtain ⟨f, v, hf, hvar, hhoisted⟩ := hi
  have hmoves (callee : Tracked) (ts : List Tracked) :
      Track.Moves cx (.computing Δ) (Track.callOutcome callee .undefined ts) :=
    Track.moves_callOutcome callee .undefined ts
  refine Covers.after (T := fun t => t.value.singles? = some [.reference (.function f.id)])
    ?_ (fun hp => ?_) (fun callee => hargs.moves.bind (hmoves callee)) fun callee hcallee => ?_
  · rw [Track.onExpr_ident]
    exact Track.moves_recorded trivial (Track.moves_readIdent i true)
  · rw [Track.onExpr_ident]
    change (Track.readIdent i true cx _).1.value.singles? = _
    have hkind : (cx.scopes.var v).kind = .function := hs.functions (v, f.id) hhoisted
    rw [readIdent_eq true hvar (Or.inr (by simp [Variable.isBlockScoped, hkind]))]
    exact hp.functions (v, f.id) hhoisted
  · refine hargs.bind (hmoves callee) (fun ts xs hxs => computes_callOutcome hs hf hcallee hxs)
      fun ts p h => ?_
    rw [Track.callOutcome_apply] at h
    exact (Bool.and_eq_true_iff.mp (Bool.and_eq_true_iff.mp h).1).2

/-! ## The walk -/

mutual

/-- Whatever a machine computes for a linked expression, the analysis of it covers. -/
theorem computes_onExpr (hs : Setting cx F link call fs Δ) (e : Expr)
    (h : e.Linked cx.scopes link Δ) :
    Computes cx F fns fs Δ (Track.onExpr e) (e.run call) := by
  unfold Track.onExpr Expr.run
  refine Computes.recorded ?_ e.id
  cases e with
  | ident i =>
    obtain ⟨v, hlookup, hvar⟩ := h
    exact computes_readIdent true hs.vars hlookup hvar
  | string id s => exact Covers.pure (Value.holds_ofPrimitive _)
  | bool id s => exact Covers.pure (Value.holds_ofPrimitive _)
  | null id => exact Covers.pure (Value.holds_ofPrimitive _)
  | number id s => exact Covers.pure (Value.holds_ofPrimitive _)
  | unary id op arg =>
    rw [Expr.Linked] at h
    have harg := computes_onExpr hs arg h.2
    cases op with
    | typeOf =>
      have htype (t : Tracked) (x z : Primitive) (hx : t.value.Holds (.primitive x))
          (hz : Primitive.unary .typeOf x = some z) (p : Progress) :
          ((pure (Track.typeOfOutcome t) : Track Tracked) cx p).1.value.Holds (.primitive z) := by
        cases hz
        exact Track.typeOfOutcome_holds hx
      cases arg with
      | ident i =>
        obtain ⟨v, hlookup, hvar⟩ := h.2
        have hread : Computes cx F fns fs Δ (Track.readIdent i false)
            (Process.ofRun (Run.readName i.name)) := computes_readIdent false hs.vars hlookup hvar
        have hread := hread.recorded i.id
        exact hread.unary h.1 (fun _ => Track.Moves.pure _) htype fun _ _ hp => hp
      | _ => exact harg.unary h.1 (fun _ => Track.Moves.pure _) htype fun _ _ hp => hp
    | void =>
      refine harg.unary h.1 (fun _ => Track.Moves.pure _) (fun t x z hx hz p => ?_) fun _ _ hp => hp
      cases hz
      exact Value.holds_ofPrimitive _
    | not =>
      refine harg.unary h.1 (fun _ => Track.Moves.pure _) (fun t x z hx hz p => ?_) fun _ _ hp => hp
      cases hz
      exact Track.notOutcome_holds hx
    | delete => exact absurd rfl h.1
    | _ =>
      exact harg.unary h.1 (fun t => Track.moves_numeric _ t)
        (fun t x z hx hz p => Track.numeric_holds hx hz cx p) fun t p => Track.pure_of_numeric cx p
  | update id op before arg =>
    cases arg with
    | ident i => exact computes_updateIdent hs h
    | _ => exact h.elim
  | binary id op left right =>
    rw [Expr.Linked] at h
    obtain ⟨hin, hinst, hleft, hright⟩ := h
    have hl := computes_onExpr hs left hleft
    have hr := computes_onExpr hs right hright
    cases op with
    | or => exact hl.logical true hs hr
    | and => exact hl.logical false hs hr
    | «in» => exact absurd rfl hin
    | instanceOf => exact absurd rfl hinst
    | _ => exact hl.binary (fun _ _ => ⟨_, rfl⟩) hr
  | assign id op left right =>
    cases left with
    | ident i =>
      rw [Expr.Linked] at h
      exact computes_assignToIdent hs h.1 (computes_onExpr hs right h.2)
    | _ => exact h.elim
  | cond id test yes no =>
    rw [Expr.Linked] at h
    exact (computes_onExpr hs test h.1).choose hs (computes_onExpr hs yes h.2.1)
      (computes_onExpr hs no h.2.2)
  | call id callee args =>
    cases callee with
    | ident i =>
      rw [Expr.Linked] at h
      exact computes_call hs h.1 (covers_onExprs hs args h.2)
    | _ => exact h.elim
  | seq id exprs =>
    rw [Expr.Linked] at h
    exact (covers_onExprs hs exprs h).map (fun _ _ hall => hall.getLast) fun _ hp => hp
  | _ => exact h.elim
termination_by structural e

theorem covers_onExprs (hs : Setting cx F link call fs Δ) :
    (es : List Expr) → AreLinked cx.scopes link Δ es →
    Covers cx F fns fs Δ (Track.onExprs es) (runExprs call es) AllHold
      (fun ts => ts.all (·.pure) = true)
  | [], _ => by
    rw [Track.onExprs, runExprs]
    exact Covers.pure .nil
  | e :: rest, h => by
    rw [AreLinked] at h
    rw [Track.onExprs, runExprs]
    have he := computes_onExpr hs e h.1
    have hrest := covers_onExprs hs rest h.2
    refine he.bind (fun _ => hrest.moves.bind fun _ => Track.Moves.pure _)
      (fun t x hx => ?_) fun t p hp => ?_
    · exact hrest.map (fun ts xs hts => .cons hx hts) fun ts hp => (Bool.and_eq_true_iff.mp hp).2
    · exact (Bool.and_eq_true_iff.mp hp).1
termination_by structural es => es

end

/-- The analysis of an expression that may be missing covers whatever it evaluates to. -/
theorem covers_onExpr? (hs : Setting cx F link call fs Δ) (e : Option Expr)
    (h : Linked? cx.scopes link Δ e) :
    Covers cx F fns fs Δ (Track.onExpr? e) (runExpr? call e)
      (Option.Rel fun t x => t.value.Holds (.primitive x)) (fun _ => False) := by
  cases e with
  | none => exact Covers.pure .none
  | some e => exact (computes_onExpr hs e h).map (fun _ _ hx => .some hx) nofun

end

end EsOptimizer
