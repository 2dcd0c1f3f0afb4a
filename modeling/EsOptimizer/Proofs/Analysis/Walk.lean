import EsOptimizer.Analysis
import EsOptimizer.Proofs.Analysis.Moves
import EsOptimizer.Proofs.Syntax.Parts

/-!
# What following a program does

`moves_onExpr` and `moves_onStmt` say of all code, whatever it is made of, that following it only
adds to what was found out: `Node.Allowed` are the conditions under which a node records facts and
writes variables within given bounds, and code whose nodes all meet them stays within the bounds.
-/

namespace EsOptimizer

/-! ## What a node writes -/

/-- The names that a node gives values to. -/
def Node.targets : Node → List Ident
  | .expr (.assign _ _ (.ident i) _) | .expr (.update _ _ _ (.ident i))
  | .expr (.unary _ .delete (.ident i)) | .stmt (.forIn _ (.expr (.ident i)) _ _) => [i]
  | .decl ⟨_, kind, decls⟩ =>
    (decls.filter fun x => x.init.isSome || kind != .var).map (·.name)
  | .loopDecl d => d.decls.map (·.name)
  | .stmt (.try _ _ (some ⟨_, some param, _⟩) _) => [param]
  | _ => []

/-- The parts of a node that may open a scope. -/
def Node.scopeIds : Node → List NodeId
  | .stmt (.block b) => [b.id]
  | .stmt (.for id _ _ _ _) | .stmt (.forIn id _ _ _) => [id]
  | .stmt (.try _ block handler finalizer) =>
    block.id :: (handler.elim [] fun c => [c.id, c.body.id]) ++ (finalizer.map (·.id)).toList
  | _ => []

/-- Entering a scope writes none but the variables `vars`. -/
structure ScopeTree.Enters (scopes : ScopeTree) (vars : VarId → Prop) (s : ScopeId) : Prop where
  initial : ∀ x ∈ (scopes.scope s).vars, (scopes.initialValue x.2).isSome → vars x.2
  hoisted : ∀ x ∈ (scopes.scope s).hoisted, vars x.1

/-- Whether control never gets past a node. -/
def Node.endsControl : Node → Bool
  | .stmt (.return _ _) | .stmt (.throw _ _) | .stmt (.break _ _) | .stmt (.continue _ _) => true
  | _ => false

/-- A node by itself stays within the bounds. -/
structure Node.Allowed (scopes : ScopeTree) (b : Bounds) (n : Node) : Prop where
  records : ∀ e ∈ n.operands, b.ids e.id
  writes : ∀ i ∈ n.targets, ∀ v, scopes.varOf i.id = some v → b.vars v
  enters : ∀ id ∈ n.scopeIds, ∀ s, scopes.scopeOf id = some s → scopes.Enters b.vars s
  ends : n.endsControl = true → b.ends

/-- All nodes of a list stay within the bounds. -/
def AllAllowed (scopes : ScopeTree) (b : Bounds)
    (ns : List Node) : Prop :=
  ∀ n ∈ ns, n.Allowed scopes b

section

variable {scopes : ScopeTree} {b : Bounds}

theorem allAllowed_cons {n : Node} {ns : List Node} : AllAllowed scopes b (n :: ns) ↔
    n.Allowed scopes b ∧ AllAllowed scopes b ns :=
  List.forall_mem_cons

theorem allAllowed_append {ms ns : List Node} : AllAllowed scopes b (ms ++ ns) ↔
    AllAllowed scopes b ms ∧ AllAllowed scopes b ns :=
  List.forall_mem_append

end

namespace Track

section

variable {cx : Context} {b : Bounds}

/-! ## Parts of expressions -/

theorem moves_recorded {id : NodeId} (h : b.ids id) {step : Track Tracked}
    (hstep : Moves cx b step) : Moves cx b (recorded id step) :=
  hstep.bind fun t => (moves_record h t).bind fun _ =>
    (moves_notify .expr id).bind fun _ => Moves.pure t

theorem moves_readIdent (ident : Ident) (mayThrow : Bool) :
    Moves cx b (readIdent ident mayThrow) := by
  refine Moves.read ?_
  split
  · exact Moves.pure _
  · refine (moves_getVar _).bind fun v => (moves_readVar _).bind fun value => ?_
    refine moves_getState.bind fun s => Moves.get fun _ => ?_
    exact Moves.ite (fun _ => moves_noteEffect.bind fun _ => Moves.pure _) fun _ => Moves.pure _

theorem moves_assignIdent {ident : Ident} (h : ∀ v, cx.scopes.varOf ident.id = some v → b.vars v)
    (value : Value) : Moves cx b (assignIdent ident value) := by
  refine Moves.read ?_
  split
  · exact Moves.pure _
  · rename_i v hv
    exact (moves_getVar v).bind fun _ =>
      Moves.ite (fun _ => moves_noteEffect) fun _ => moves_writeVar (h v hv) value

theorem moves_initIdent {ident : Ident} (h : ∀ v, cx.scopes.varOf ident.id = some v → b.vars v)
    (value : Value) : Moves cx b (initIdent ident value) := by
  refine Moves.read ?_
  split
  · exact Moves.pure _
  · rename_i v hv
    exact moves_writeVar (h v hv) value

theorem moves_assigned (op : AssignOp) {old right : Track Tracked} (hold : Moves cx b old)
    (hright : Moves cx b right) : Moves cx b (assigned op old right) := by
  unfold assigned
  split
  · exact hright.bind fun _ => Moves.pure _
  · exact hold.bind fun _ => hright.bind fun _ => (moves_binary _ _ _).bind fun _ => Moves.pure _

theorem moves_assignToIdent (op : AssignOp) {ident : Ident} {right : Track Tracked}
    (h : ∀ v, cx.scopes.varOf ident.id = some v → b.vars v) (hright : Moves cx b right) :
    Moves cx b (assignToIdent op ident right) :=
  (moves_assigned op (moves_readIdent ident true) hright).bind fun _ =>
    (moves_assignIdent h _).bind fun _ => Moves.pure _

theorem moves_assignToProperty (op : AssignOp) (obj key : Value) {right : Track Tracked}
    (hright : Moves cx b right) : Moves cx b (assignToProperty op obj key right) :=
  (moves_assigned op (moves_readProperty obj key) hright).bind fun _ =>
    (moves_writeProperty obj key _).bind fun _ => Moves.pure _

theorem moves_updateIdent (op : UpdateOp) (before : Bool) {ident : Ident}
    (h : ∀ v, cx.scopes.varOf ident.id = some v → b.vars v) :
    Moves cx b (updateIdent op before ident) :=
  (moves_readIdent ident true).bind fun _ => (moves_updated op _).bind fun _ =>
    (moves_assignIdent h _).bind fun _ => Moves.pure _

theorem moves_updateProperty (op : UpdateOp) (before : Bool) (obj key : Value) :
    Moves cx b (updateProperty op before obj key) :=
  (moves_readProperty obj key).bind fun _ => (moves_updated op _).bind fun _ =>
    (moves_writeProperty obj key _).bind fun _ => Moves.pure _

theorem moves_deleteIdent {ident : Ident} (h : ∀ v, cx.scopes.varOf ident.id = some v → b.vars v) :
    Moves cx b (deleteIdent ident) := by
  have hrest : Moves cx b (do noteEffect; return Tracked.ofImpure .eitherBool) :=
    moves_noteEffect.bind fun _ => Moves.pure _
  refine Moves.read ?_
  dsimp only
  split
  · exact hrest
  · rename_i v hv
    refine (moves_getVar v).bind fun _ => Moves.ite (fun _ => ?_) fun _ => hrest
    exact (moves_writeVar (h v hv) _).bind fun _ => hrest

theorem moves_logical (isOr : Bool) {left right : Track Tracked} (hleft : Moves cx b left)
    (hright : Moves cx b right) : Moves cx b (logical isOr left right) := by
  refine hleft.bind fun left => ?_
  split
  · exact Moves.ite (fun _ => Moves.pure _) fun _ => hright.bind fun _ => Moves.pure _
  · exact (movesTo_inChild hright).bind fun r hr => (moves_mergeMaybe hr).bind fun _ =>
      (moves_join _ _).bind fun _ => Moves.pure _

theorem moves_choose {test yes no : Track Tracked} (htest : Moves cx b test)
    (hyes : Moves cx b yes) (hno : Moves cx b no) :
    Moves cx b (choose test yes no) := by
  refine htest.bind fun test => ?_
  split
  · exact hyes.bind fun _ => Moves.pure _
  · exact hno.bind fun _ => Moves.pure _
  · exact (movesTo_inChild hyes).bind fun a ha => (movesTo_inChild hno).bind fun d hd =>
      (moves_mergeOr ha hd).bind fun _ => (moves_join _ _).bind fun _ => Moves.pure _

theorem moves_allocateRegex (id : NodeId) : Moves cx b (allocateRegex id) :=
  (moves_allocate _ _).bind fun _ => Moves.pure _

theorem moves_refuseTarget (value : Value) : Moves cx b (refuseTarget value) :=
  moves_noteEffect.bind fun _ => Moves.pure _

theorem moves_callOutcome (callee : Tracked) (this : Value) (args : List Tracked) :
    Moves cx b (callOutcome callee this args) :=
  (moves_call _ _ _).bind fun _ => Moves.pure _

theorem moves_readCallee {node : NodeId} (h : b.ids node) (obj key : Tracked) :
    Moves cx b (readCallee node obj key) :=
  moves_recorded h ((moves_readProperty _ _).bind fun _ => Moves.pure _)

/-! ## Object literals -/

theorem moves_addUnknown (l : Literal) (refs : List Reference) :
    Moves cx b (l.addUnknown refs) :=
  (moves_escape refs).bind fun _ => Moves.pure _

theorem moves_setProto (l : Literal) (value : Value) : Moves cx b (l.setProto value) := by
  unfold Literal.setProto
  split
  · exact Moves.pure _
  · exact Moves.pure _
  · exact Moves.pure _
  · exact moves_addUnknown l _

theorem moves_addValue (l : Literal) (key : LiteralKey) (t : Tracked) :
    Moves cx b (l.addValue key t) := by
  unfold Literal.addValue
  dsimp only
  split
  · exact moves_addUnknown _ _
  · exact Moves.ite (fun _ => moves_setProto _ _) fun _ => Moves.pure _

theorem moves_addAccessor (l : Literal) (key : LiteralKey) (isGetter : Bool) (fn : Reference) :
    Moves cx b (l.addAccessor key isGetter fn) := by
  unfold Literal.addAccessor
  dsimp only
  split
  · exact moves_addUnknown _ _
  · exact Moves.pure _

theorem moves_finish (l : Literal) (id : NodeId) : Moves cx b (l.finish id) :=
  Moves.ite
    (fun _ => (moves_escape _).bind fun _ => (moves_allocate _ _).bind fun _ => Moves.pure _)
    fun _ => (moves_allocate _ _).bind fun _ => Moves.pure _

/-! ## Parts of statements -/

theorem moves_enterScope {s : ScopeId} (h : cx.scopes.Enters b.vars s) :
    Moves cx b (enterScope s) := by
  refine Moves.read (Moves.bind (Moves.forIn_mem (fun x hx _ => ?_) _) fun _ =>
    Moves.bind (Moves.forIn_mem (fun x hx _ => ?_) _) fun _ => Moves.pure _)
  · obtain ⟨name, v⟩ := x
    dsimp only
    split
    · rename_i hv
      exact (moves_writeVar (h.initial _ hx (by rw [hv]; rfl)) _).bind fun _ => Moves.pure _
    · exact Moves.pure _
  · exact (moves_allocateFunction _).bind fun _ =>
      (moves_writeVar (h.hoisted x hx) _).bind fun _ => Moves.pure _

theorem moves_inScope {node : NodeId} {body : Track Unit}
    (h : ∀ s, cx.scopes.scopeOf node = some s → cx.scopes.Enters b.vars s)
    (hbody : Moves cx b body) : Moves cx b (inScope node body) := by
  refine Moves.read ((movesTo_inChild ?_).bind fun r hr => moves_mergeBack hr _)
  dsimp only
  split
  · rename_i s hs
    exact (moves_enterScope (h s hs)).bind fun _ => hbody
  · exact hbody

theorem moves_followed (id : NodeId) {step : Track Unit} (h : Moves cx b step) :
    Moves cx b (followed id step) :=
  moves_getState.bind fun _ =>
    Moves.ite (fun _ => h.bind fun _ => moves_notify .stmt id) fun _ => Moves.pure _

theorem moves_endControl (h : b.ends) : Moves cx b endControl := by
  intro p
  have hp : Advances cx.scopes b p p := Advances.refl p
  exact { hp with
    dead := fun _ => rfl
    alive := fun hb => absurd h hb
    untouched := fun v _ => ⟨rfl, rfl⟩ }

theorem moves_branch {test : Track Tracked} {yes : Track Unit} {no : Option (Track Unit)}
    (htest : Moves cx b test) (hyes : Moves cx b yes)
    (hno : ∀ x, no = some x → Moves cx b x) : Moves cx b (branch test yes no) := by
  refine htest.bind fun test => ?_
  split
  · exact hyes
  · cases no with
    | none => exact Moves.pure _
    | some no => exact hno no rfl
  · refine (movesTo_inChild hyes).bind fun a ha => ?_
    cases no with
    | none => exact moves_mergeMaybe ha
    | some no => exact (movesTo_inChild (hno no rfl)).bind fun d hd => moves_mergeOr ha hd

theorem returnsBelow_joinTo (cx : Context) (value : Value) (p : Progress) :
    ∃ returns, (joinTo p.frame.returns value cx p).1 = some returns ∧
      value.Below returns ∧ ReturnsBelow p.frame.returns (some returns) := by
  cases h : p.frame.returns with
  | none => exact ⟨value, rfl, Value.Below.refl _, fun x hx => by cases hx⟩
  | some old =>
    refine ⟨old.or value, ?_, Value.below_or_right _ _, fun x hx => ?_⟩
    · exact congrArg some (Escaping.gives_join old value p.escaped)
    · cases hx
      exact ⟨_, rfl, Value.below_or_left _ _⟩

theorem joinTo_frame (acc : Option Value) (v : Value) (p : Progress) :
    (joinTo acc v cx p).2.frame = p.frame := by
  cases acc <;> rfl

theorem moves_returnValue (h : b.ends) (value : Value) : Moves cx b (returnValue value) := by
  intro p
  refine (moves_escape value.references p).trans ?_
  refine Advances.trans ?_ (moves_endControl h _)
  set q := (escape value.references cx p).2
  have hjoin : Advances cx.scopes b q _ := moves_joinTo q.frame.returns value q
  refine hjoin.trans { Advances.refl (joinTo q.frame.returns value cx q).2 with returns := ?_ }
  obtain ⟨returns, hreturns, -, hbelow⟩ := returnsBelow_joinTo cx value q
  rw [joinTo_frame]
  refine hbelow.trans ?_
  rw [← hreturns]
  exact ReturnsBelow.refl _

theorem moves_throwValue (h : b.ends) (value : Value) : Moves cx b (throwValue value) :=
  (moves_escape _).bind fun _ => moves_noteEffect.bind fun _ => moves_endControl h

theorem moves_keysAfter (obj : Value) (r : Reference) (keys : List String) :
    Moves cx b (keysAfter obj r keys) := by
  refine (moves_enumerate obj).bind fun ks => ?_
  split
  · exact Moves.pure _
  · exact Moves.pure _

theorem moves_forIn (id : NodeId) (set : VarSet) (obj : Value) {assign : Value → Track Unit}
    {body : Track Unit} (hassign : ∀ key, Moves cx b (assign key))
    (hbody : Moves cx b body) : Moves cx b (forIn id set obj assign body) := by
  refine (moves_enumerate obj).bind fun ks => ?_
  split
  · exact moves_recordForIn _ _
  · exact (moves_loop _ ((hassign _).bind fun _ => moves_unsure hbody)).bind fun _ =>
      (moves_keysAfter _ _ _).bind fun _ => moves_recordForIn _ _
  · exact (moves_loop _ ((hassign _).bind fun _ => moves_unsure hbody)).bind fun _ =>
      moves_recordForIn _ _

/-! ## The walk -/

mutual

/-- Evaluating an expression stays within the bounds of its nodes. -/
theorem moves_onExpr (e : Expr) (hid : b.ids e.id) (h : AllAllowed cx.scopes b (e.nodes false)) :
    Moves cx b (onExpr e) := by
  have he := h _ (e.mem_nodes false)
  unfold onExpr
  refine moves_recorded hid ?_
  cases e with
  | this | invalid | string | bool | null | number => exact Moves.pure _
  | ident i => exact moves_readIdent i true
  | regex id => exact moves_allocateRegex id
  | array id elems =>
    simp only [Expr.nodes, allAllowed_cons] at h
    exact (moves_onElems elems he.records h.2).bind fun _ =>
      (moves_allocateArray _ _).bind fun _ => Moves.pure _
  | object id props =>
    simp only [Expr.nodes, allAllowed_cons] at h
    exact (moves_onProps props {} he.records h.2).bind fun l => moves_finish l id
  | function => exact (moves_allocateFunction _).bind fun _ => Moves.pure _
  | unary id op arg =>
    simp only [Expr.nodes, allAllowed_cons] at h
    have hargId := he.records arg List.mem_cons_self
    have harg := moves_onExpr arg hargId h.2
    cases op with
    | typeOf =>
      cases arg with
      | ident i =>
        exact (moves_recorded hargId (moves_readIdent _ false)).bind fun _ => Moves.pure _
      | _ => exact harg.bind fun _ => Moves.pure _
    | delete =>
      cases arg with
      | ident i => exact moves_deleteIdent (he.writes i List.mem_cons_self)
      | member id obj name =>
        simp only [Expr.nodes, allAllowed_cons] at h
        exact (moves_onExpr obj (h.2.1.records obj (by simp [Node.operands])) h.2.2).bind fun _ =>
          (moves_deleteProperty _ _).bind fun _ => Moves.pure _
      | index id obj key =>
        simp only [Expr.nodes, List.cons_append, allAllowed_cons, allAllowed_append] at h
        exact (moves_onExpr obj (h.2.1.records obj (by simp [Node.operands])) h.2.2.1).bind fun _ =>
          (moves_onExpr key (h.2.1.records key (by simp [Node.operands])) h.2.2.2).bind fun _ =>
            (moves_deleteProperty _ _).bind fun _ => Moves.pure _
      | _ => exact harg.bind fun _ => Moves.pure _
    | void => exact harg.bind fun _ => Moves.pure _
    | not => exact harg.bind fun _ => Moves.pure _
    | _ => exact harg.bind fun _ => moves_numeric _ _
  | update id op before arg =>
    simp only [Expr.nodes, allAllowed_cons] at h
    have harg (hid : b.ids arg.id) := moves_onExpr arg hid h.2
    cases arg with
    | ident i => exact moves_updateIdent op before (he.writes i List.mem_cons_self)
    | member id obj name =>
      simp only [Expr.nodes, allAllowed_cons] at h
      exact (moves_onExpr obj (h.2.1.records obj (by simp [Node.operands])) h.2.2).bind fun _ =>
        moves_updateProperty op before _ _
    | index id obj key =>
      simp only [Expr.nodes, List.cons_append, allAllowed_cons, allAllowed_append] at h
      exact (moves_onExpr obj (h.2.1.records obj (by simp [Node.operands])) h.2.2.1).bind fun _ =>
        (moves_onExpr key (h.2.1.records key (by simp [Node.operands])) h.2.2.2).bind fun _ =>
          moves_updateProperty op before _ _
    | _ => exact (harg (he.records _ List.mem_cons_self)).map.bind fun _ => moves_refuseTarget _
  | binary id op left right =>
    simp only [Expr.nodes, List.cons_append, allAllowed_cons, allAllowed_append] at h
    have hleft := moves_onExpr left (he.records left (by simp [Node.operands])) h.2.1
    have hright := moves_onExpr right (he.records right (by simp [Node.operands])) h.2.2
    cases op with
    | or => exact moves_logical true hleft hright
    | and => exact moves_logical false hleft hright
    | _ =>
      exact hleft.bind fun _ => hright.bind fun _ => (moves_binary _ _ _).bind fun _ => Moves.pure _
  | assign id op left right =>
    simp only [Expr.nodes, List.cons_append, allAllowed_cons, allAllowed_append] at h
    have hleft (hid : b.ids left.id) := moves_onExpr left hid h.2.1
    have hright := moves_onExpr right (he.records right (by simp [Node.operands])) h.2.2
    cases left with
    | ident i => exact moves_assignToIdent op (he.writes i List.mem_cons_self) hright
    | member id obj name =>
      simp only [Expr.nodes, allAllowed_cons] at h
      exact (moves_onExpr obj (h.2.1.1.records obj (by simp [Node.operands])) h.2.1.2).bind fun _ =>
        moves_assignToProperty op _ _ hright
    | index id obj key =>
      simp only [Expr.nodes, List.cons_append, allAllowed_cons, allAllowed_append] at h
      exact (moves_onExpr obj (h.2.1.1.records obj (by simp [Node.operands])) h.2.1.2.1).bind fun _ =>
        (moves_onExpr key (h.2.1.1.records key (by simp [Node.operands])) h.2.1.2.2).bind fun _ =>
          moves_assignToProperty op _ _ hright
    | _ =>
      exact (hleft (he.records _ List.mem_cons_self)).map.bind fun _ => hright.bind fun _ =>
        moves_refuseTarget _
  | member id obj name =>
    simp only [Expr.nodes, allAllowed_cons] at h
    exact (moves_onExpr obj (he.records obj (by simp [Node.operands])) h.2).bind fun _ =>
      (moves_readProperty _ _).bind fun _ => Moves.pure _
  | index id obj key =>
    simp only [Expr.nodes, List.cons_append, allAllowed_cons, allAllowed_append] at h
    exact (moves_onExpr obj (he.records obj (by simp [Node.operands])) h.2.1).bind fun _ =>
      (moves_onExpr key (he.records key (by simp [Node.operands])) h.2.2).bind fun _ =>
        (moves_readProperty _ _).bind fun _ => Moves.pure _
  | cond id test yes no =>
    simp only [Expr.nodes, List.cons_append, allAllowed_cons, allAllowed_append] at h
    exact moves_choose (moves_onExpr test (he.records test (by simp [Node.operands])) h.2.1.1)
      (moves_onExpr yes (he.records yes (by simp [Node.operands])) h.2.1.2)
      (moves_onExpr no (he.records no (by simp [Node.operands])) h.2.2)
  | call id callee args =>
    simp only [Expr.nodes, List.cons_append, allAllowed_cons, allAllowed_append] at h
    have hcalleeId := he.records callee List.mem_cons_self
    have hcallee := moves_onExpr callee hcalleeId h.2.1
    have hargs := moves_onExprs args (fun e he' => he.records e (List.mem_cons_of_mem _ he')) h.2.2
    cases callee with
    | member id obj name =>
      simp only [Expr.nodes, allAllowed_cons] at h
      exact (moves_onExpr obj (h.2.1.1.records obj (by simp [Node.operands])) h.2.1.2).bind fun _ =>
        (moves_readCallee hcalleeId _ _).bind fun _ => hargs.bind fun _ => moves_callOutcome _ _ _
    | index id obj key =>
      simp only [Expr.nodes, List.cons_append, allAllowed_cons, allAllowed_append] at h
      exact (moves_onExpr obj (h.2.1.1.records obj (by simp [Node.operands])) h.2.1.2.1).bind fun _ =>
        (moves_onExpr key (h.2.1.1.records key (by simp [Node.operands])) h.2.1.2.2).bind fun _ =>
          (moves_readCallee hcalleeId _ _).bind fun _ => hargs.bind fun _ => moves_callOutcome _ _ _
    | _ => exact hcallee.bind fun _ => hargs.bind fun _ => moves_callOutcome _ _ _
  | new id callee args =>
    simp only [Expr.nodes, List.cons_append, allAllowed_cons, allAllowed_append] at h
    exact (moves_onExpr callee (he.records callee List.mem_cons_self) h.2.1).bind fun _ =>
      (moves_onExprs args (fun e he' => he.records e (List.mem_cons_of_mem _ he')) h.2.2).bind fun _ =>
        moves_construct id _ _
  | seq id exprs =>
    simp only [Expr.nodes, allAllowed_cons] at h
    exact (moves_onExprs exprs he.records h.2).bind fun _ => Moves.pure _
termination_by structural e

theorem moves_onElems : (es : List (Option Expr)) → (∀ e ∈ es.reduceOption, b.ids e.id) →
    AllAllowed cx.scopes b (elemNodes false es) → Moves cx b (onElems es)
  | [], _, _ => Moves.pure _
  | none :: rest, hids, h => by
    rw [onElems]
    exact (moves_onElems rest hids h).bind fun _ => Moves.pure _
  | some e :: rest, hids, h => by
    rw [elemNodes, allAllowed_append] at h
    rw [onElems]
    obtain ⟨hid, hids⟩ := List.forall_mem_cons.mp hids
    exact (moves_onExpr e hid h.1).bind fun _ => (moves_onElems rest hids h.2).bind fun _ =>
      Moves.pure _
termination_by structural es => es

theorem moves_onExprs : (es : List Expr) → (∀ e ∈ es, b.ids e.id) →
    AllAllowed cx.scopes b (exprNodes false es) → Moves cx b (onExprs es)
  | [], _, _ => Moves.pure _
  | e :: rest, hids, h => by
    rw [exprNodes, allAllowed_append] at h
    rw [onExprs]
    obtain ⟨hid, hids⟩ := List.forall_mem_cons.mp hids
    exact (moves_onExpr e hid h.1).bind fun _ => (moves_onExprs rest hids h.2).bind fun _ =>
      Moves.pure _
termination_by structural es => es

theorem moves_onKey : (key : PropertyKey) → (∀ e ∈ key.operands, b.ids e.id) →
    AllAllowed cx.scopes b (key.nodes false) → Moves cx b (onKey key)
  | .ident _, _, _ | .string _ _, _, _ | .number _ _, _, _ => Moves.pure _
  | .computed e, hids, h => by
    rw [onKey]
    exact (moves_onExpr e (hids e List.mem_cons_self) h).bind fun _ =>
      (moves_propertyName _).bind fun _ => Moves.pure _
termination_by structural key => key

theorem moves_onProperty : (p : Property) → (l : Literal) → (∀ e ∈ p.operands, b.ids e.id) →
    AllAllowed cx.scopes b (p.nodes false) → Moves cx b (onProperty p l)
  | .value _ key value, l, hids, h => by
    rw [Property.nodes, allAllowed_append] at h
    rw [onProperty]
    obtain ⟨hkey, hvalue⟩ := List.forall_mem_append.mp hids
    exact (moves_onKey key hkey h.1).bind fun _ =>
      (moves_onExpr value (hvalue value List.mem_cons_self) h.2).bind fun _ => moves_addValue _ _ _
  | .getter _ key fn, l, hids, h => by
    rw [Property.nodes, allAllowed_append] at h
    rw [onProperty]
    exact (moves_onKey key hids h.1).bind fun _ => (moves_allocateFunction _).bind fun _ =>
      moves_addAccessor _ _ _ _
  | .setter _ key fn, l, hids, h => by
    rw [Property.nodes, allAllowed_append] at h
    rw [onProperty]
    exact (moves_onKey key hids h.1).bind fun _ => (moves_allocateFunction _).bind fun _ =>
      moves_addAccessor _ _ _ _
termination_by structural p => p

theorem moves_onProps : (ps : List Property) → (l : Literal) →
    (∀ e ∈ ps.flatMap Property.operands, b.ids e.id) →
    AllAllowed cx.scopes b (propNodes false ps) → Moves cx b (onProps ps l)
  | [], _, _, _ => Moves.pure _
  | p :: rest, l, hids, h => by
    rw [propNodes, allAllowed_append] at h
    rw [List.flatMap_cons, List.forall_mem_append] at hids
    rw [onProps]
    exact (moves_onProperty p l hids.1 h.1).bind fun l => moves_onProps rest l hids.2 h.2
termination_by structural ps => ps

end

theorem moves_onExpr? : (e : Option Expr) → (∀ x ∈ e.toList, b.ids x.id) →
    AllAllowed cx.scopes b (exprNodes? false e) → Moves cx b (onExpr? e)
  | none, _, _ => Moves.pure _
  | some e, hids, h => by
    rw [onExpr?]
    exact (moves_onExpr e (hids e List.mem_cons_self) h).bind fun _ => Moves.pure _

/-- The names that declarations give values to are targets of the declaration. -/
theorem moves_onDeclarators (kind : DeclKind) : (ds : List Declarator) →
    (∀ x ∈ ds, (x.init.isSome || kind != .var) = true →
      ∀ v, cx.scopes.varOf x.name.id = some v → b.vars v) →
    (∀ e ∈ ds.filterMap (·.init), b.ids e.id) →
    AllAllowed cx.scopes b (declNodes false ds) → Moves cx b (onDeclarators ds kind)
  | [], _, _, _ => Moves.pure _
  | ⟨id, name, init⟩ :: rest, hw, hids, h => by
    rw [declNodes, Declarator.nodes, allAllowed_append, allAllowed_cons] at h
    rw [onDeclarators]
    have hrest := moves_onDeclarators kind rest (fun x hx => hw x (List.mem_cons_of_mem _ hx))
      (fun e he => hids e ((List.sublist_cons_self _ _).filterMap _ |>.subset he)) h.2
    have hname := hw _ List.mem_cons_self
    cases init with
    | some e =>
      rw [onExpr?]
      have hid := hids e (by simp)
      refine Moves.bind ((moves_onExpr e hid h.1.2).bind fun _ => Moves.pure _) fun t => ?_
      dsimp only
      split
      · exact (moves_initIdent (hname rfl) _).bind fun _ => hrest
      · exact Moves.ite (fun _ => (moves_initIdent (hname rfl) _).bind fun _ => hrest) fun _ => hrest
    | none =>
      rw [onExpr?]
      refine Moves.ite (fun hkind => ?_) fun _ => hrest
      exact (moves_initIdent (hname (by simpa using hkind)) _).bind fun _ => hrest

theorem moves_onDecl (d : VarDecl) (h : AllAllowed cx.scopes b (d.nodes false)) :
    Moves cx b (onDecl d) := by
  obtain ⟨id, kind, decls⟩ := d
  rw [VarDecl.nodes, allAllowed_cons] at h
  rw [onDecl]
  refine moves_onDeclarators kind decls (fun x hx hinit => ?_) h.1.records h.2
  exact h.1.writes x.name (List.mem_map.mpr ⟨x, List.mem_filter.mpr ⟨hx, hinit⟩, rfl⟩)

theorem moves_onHead? : (head : Option ForHead) →
    (∀ e ∈ (head.bind ForHead.expr?).toList, b.ids e.id) →
    AllAllowed cx.scopes b (headNodes? false head) → Moves cx b (onHead? head)
  | none, _, _ => Moves.pure _
  | some (.decl d), _, h => by
    rw [onHead?]
    exact moves_onDecl d h
  | some (.expr e), hids, h => by
    rw [onHead?]
    exact (moves_onExpr e (hids e List.mem_cons_self) h).map

theorem moves_onLoopHead (head : ForHead) (key : Value)
    (hw : ∀ i, head = .expr (.ident i) → ∀ v, cx.scopes.varOf i.id = some v → b.vars v)
    (hids : ∀ e ∈ head.expr?.elim [] Expr.operands, b.ids e.id)
    (h : AllAllowed cx.scopes b (head.loopNodes false)) :
    Moves cx b (onLoopHead head key) := by
  cases head with
  | decl d =>
    obtain ⟨id, kind, decls⟩ := d
    rw [ForHead.loopNodes, allAllowed_cons] at h
    rw [onLoopHead]
    have hx : ∀ x ∈ decls, Moves cx b (initIdent x.name key) := fun x hx =>
      moves_initIdent (h.1.writes x.name (List.mem_map_of_mem hx)) key
    clear h hw hids
    dsimp only
    induction decls with
    | nil => exact Moves.pure _
    | cons x rest ih =>
      exact (hx x List.mem_cons_self).bind fun _ => ih fun y hy => hx y (List.mem_cons_of_mem _ hy)
  | expr e =>
    rw [ForHead.loopNodes] at h
    have he (hid : b.ids e.id) := moves_onExpr e hid h
    cases e with
    | ident i => exact moves_assignIdent (hw i rfl) key
    | member id obj name =>
      simp only [Expr.nodes, allAllowed_cons] at h
      exact (moves_onExpr obj (h.1.records obj (by simp [Node.operands])) h.2).bind fun _ =>
        moves_writeProperty _ _ _
    | index id obj prop =>
      simp only [Expr.nodes, List.cons_append, allAllowed_cons, allAllowed_append] at h
      exact (moves_onExpr obj (h.1.records obj (by simp [Node.operands])) h.2.1).bind fun _ =>
        (moves_onExpr prop (h.1.records prop (by simp [Node.operands])) h.2.2).bind fun _ =>
          moves_writeProperty _ _ _
    | _ => exact (he (hids _ List.mem_cons_self)).map.bind fun _ => moves_noteEffect

mutual

/-- Following a statement stays within the bounds of its nodes. -/
theorem moves_onStmt (s : Stmt) (h : AllAllowed cx.scopes b (s.nodes false)) :
    Moves cx b (onStmt s) := by
  have hs := h _ (Stmt.mem_nodes false s)
  unfold onStmt
  refine moves_followed _ ?_
  cases s with
  | block block =>
    simp only [Stmt.nodes, allAllowed_cons] at h
    exact moves_onBlock block (hs.enters _ List.mem_cons_self) h.2
  | empty | function => exact Moves.pure _
  | expr id e =>
    simp only [Stmt.nodes, allAllowed_cons] at h
    exact (moves_onExpr e (hs.records e List.mem_cons_self) h.2).map
  | var d =>
    simp only [Stmt.nodes, allAllowed_cons] at h
    exact moves_onDecl d h.2
  | «if» id test yes no =>
    simp only [Stmt.nodes, List.cons_append, allAllowed_cons, allAllowed_append] at h
    exact moves_branch (moves_onExpr test (hs.records test List.mem_cons_self) h.2.1.1)
      (moves_onStmt yes h.2.1.2) (moves_onStmt? no h.2.2)
  | «while» id test body =>
    simp only [Stmt.nodes, List.cons_append, allAllowed_cons, allAllowed_append] at h
    have htest := moves_onExpr test (hs.records test List.mem_cons_self) h.2.1
    refine htest.bind fun t => Moves.ite (fun _ => Moves.read (moves_loop _ ?_)) fun _ => Moves.pure _
    exact htest.map.bind fun _ => moves_unsure (moves_onStmt body h.2.2)
  | doWhile id body test =>
    simp only [Stmt.nodes, List.cons_append, allAllowed_cons, allAllowed_append] at h
    refine Moves.read (moves_loop _ ?_)
    exact (moves_unsure (moves_onStmt body h.2.1)).bind fun _ =>
      (moves_onExpr test (hs.records test List.mem_cons_self) h.2.2).map
  | «for» id init test update body =>
    simp only [Stmt.nodes, List.cons_append, allAllowed_cons, allAllowed_append] at h
    obtain ⟨⟨hinitIds, htestIds⟩, hupdateIds⟩ :
        ((∀ e ∈ (init.bind ForHead.expr?).toList, b.ids e.id) ∧ ∀ e ∈ test.toList, b.ids e.id) ∧
          ∀ e ∈ update.toList, b.ids e.id := by
      rw [← List.forall_mem_append, ← List.forall_mem_append]
      exact hs.records
    have htest := moves_onExpr? test htestIds h.2.1.1.2
    refine moves_inScope (hs.enters _ List.mem_cons_self) ?_
    refine (moves_onHead? init hinitIds h.2.1.1.1).bind fun _ => htest.bind fun t => ?_
    refine Moves.ite (fun _ => Moves.read (moves_loop _ ?_)) fun _ => Moves.pure _
    exact htest.map.bind fun _ => (moves_unsure (moves_onStmt body h.2.2)).bind fun _ =>
      (moves_onExpr? update hupdateIds h.2.1.2).map
  | forIn id head obj body =>
    simp only [Stmt.nodes, List.cons_append, allAllowed_cons, allAllowed_append] at h
    obtain ⟨hheadIds, hobjIds⟩ := List.forall_mem_append.mp hs.records
    refine moves_inScope (hs.enters _ List.mem_cons_self) ?_
    refine (moves_onExpr obj (hobjIds obj List.mem_cons_self) h.2.1.2).bind fun _ => Moves.read ?_
    refine moves_forIn id _ _ (fun key => moves_onLoopHead head key ?_ hheadIds h.2.1.1)
      (moves_onStmt body h.2.2)
    rintro i rfl
    exact hs.writes i List.mem_cons_self
  | labeled id label body =>
    simp only [Stmt.nodes, allAllowed_cons] at h
    have hbody := moves_onStmt body h.2
    exact Moves.ite (fun _ => hbody) fun _ => moves_unsure hbody
  | «try» id block handler finalizer =>
    simp only [Stmt.nodes, List.cons_append, allAllowed_cons, allAllowed_append] at h
    refine (moves_unsure (moves_onBlock block ?_ h.2.1.1)).bind fun _ => Moves.bind ?_ fun _ => ?_
    · exact hs.enters _ List.mem_cons_self
    · refine moves_onHandler? handler (fun c hc => ?_) h.2.1.2
      subst hc
      refine ⟨hs.enters _ (by simp [Node.scopeIds]), hs.enters _ (by simp [Node.scopeIds]), ?_⟩
      intro param hparam
      refine hs.writes param ?_
      obtain ⟨id, cparam, body⟩ := c
      obtain rfl : cparam = some param := hparam
      exact List.mem_cons_self
    · refine moves_onBlock? finalizer (fun b hb => ?_) h.2.2
      subst hb
      exact hs.enters _ (by simp [Node.scopeIds])
  | «return» id arg =>
    simp only [Stmt.nodes, allAllowed_cons] at h
    exact (moves_onExpr? arg hs.records h.2).bind fun _ => moves_returnValue (hs.ends rfl) _
  | throw id arg =>
    simp only [Stmt.nodes, allAllowed_cons] at h
    exact (moves_onExpr arg (hs.records arg List.mem_cons_self) h.2).bind fun _ =>
      moves_throwValue (hs.ends rfl) _
  | «break» | «continue» => exact moves_endControl (hs.ends rfl)
  | «with» id obj body =>
    simp only [Stmt.nodes, List.cons_append, allAllowed_cons, allAllowed_append] at h
    exact (moves_onExpr obj (hs.records obj List.mem_cons_self) h.2.1).bind fun _ =>
      (moves_unknownCall _).bind fun _ => moves_unsure (moves_onStmt body h.2.2)
termination_by structural s

theorem moves_onStmt? : (s : Option Stmt) → AllAllowed cx.scopes b (stmtNodes? false s) →
    ∀ x, onStmt? s = some x → Moves cx b x
  | none, _, x, hx => by
    rw [onStmt?] at hx
    cases hx
  | some s, h, x, hx => by
    rw [onStmt?] at hx
    cases hx
    exact moves_onStmt s h
termination_by structural s => s

theorem moves_onBlock : (block : Block) →
    (∀ s, cx.scopes.scopeOf block.id = some s → cx.scopes.Enters b.vars s) →
    AllAllowed cx.scopes b (block.nodes false) → Moves cx b (onBlock block)
  | ⟨id, stmts⟩, hs, h => by
    rw [onBlock]
    exact moves_inScope hs (moves_onStmts stmts h)
termination_by structural block => block

theorem moves_onBlock? : (block : Option Block) →
    (∀ x, block = some x → ∀ s, cx.scopes.scopeOf x.id = some s → cx.scopes.Enters b.vars s) →
    AllAllowed cx.scopes b (blockNodes? false block) → Moves cx b (onBlock? block)
  | none, _, _ => Moves.pure _
  | some block, hs, h => by
    rw [onBlock?]
    exact moves_onBlock block (hs block rfl) h
termination_by structural block => block

theorem moves_onHandler? : (handler : Option CatchClause) →
    (∀ c, handler = some c →
      (∀ s, cx.scopes.scopeOf c.id = some s → cx.scopes.Enters b.vars s) ∧
      (∀ s, cx.scopes.scopeOf c.body.id = some s → cx.scopes.Enters b.vars s) ∧
      ∀ param, c.param = some param → ∀ v, cx.scopes.varOf param.id = some v → b.vars v) →
    AllAllowed cx.scopes b (handlerNodes? false handler) →
    Moves cx b (onHandler? handler)
  | none, _, _ => Moves.pure _
  | some ⟨id, param, body⟩, hc, h => by
    obtain ⟨hid, hbody, hparam⟩ := hc _ rfl
    rw [handlerNodes?, CatchClause.nodes, allAllowed_append] at h
    rw [onHandler?]
    have hblock := moves_onBlock body hbody h.2
    refine moves_unsure (moves_inScope hid ?_)
    cases param with
    | none => exact hblock
    | some param => exact (moves_initIdent (hparam param rfl) _).bind fun _ => hblock
termination_by structural c => c

theorem moves_onStmts : (ss : List Stmt) → AllAllowed cx.scopes b (stmtNodes false ss) →
    Moves cx b (onStmts ss)
  | [], _ => Moves.pure _
  | s :: rest, h => by
    rw [stmtNodes, allAllowed_append] at h
    rw [onStmts]
    exact (moves_onStmt s h.1).bind fun _ => moves_onStmts rest h.2
termination_by structural ss => ss

end

end

end Track

end EsOptimizer
