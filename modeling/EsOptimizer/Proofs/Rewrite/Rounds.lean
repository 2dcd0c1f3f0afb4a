import EsOptimizer.Proofs.Rewrite.Arguments
import EsOptimizer.Proofs.Run.Primitives

/-!
# Rounds instead of calls

A function that ends by calling itself is made a loop: each tail call becomes one more round of the
body in the same activation. A round finds the parameters as the call would have passed them
(`jump_passes`), but its other variables as the round before has left them. If the body settles, it
cannot tell the difference, and the loop gives back what the calls after each other do
(`loop_gives_back`).
-/

namespace EsOptimizer

/-! ## Expressions stay -/

/-- A change that leaves expressions as they are. -/
structure Transform.LeavesExprs (t : Transform) : Prop where
  functions : t.enterFunctions = false
  expr : ∀ role e, t.expr role e = pure e

namespace Transform.LeavesExprs

variable {t : Transform}

theorem replaced (h : t.LeavesExprs) (role : Role) (e : Expr) :
    t.replaced role e (pure e) = pure e := by
  unfold Transform.replaced
  split
  · exact (pure_bind e _).trans (h.expr role e)
  · rfl

theorem onFunc (h : t.LeavesExprs) (f : Func) : t.onFunc f = pure f := by
  obtain ⟨id, params, ⟨bodyId, ss⟩⟩ := f
  rw [Transform.onFunc, h.functions]
  rfl

mutual

theorem onExpr (h : t.LeavesExprs) (e : Expr) (role : Role) : t.onExpr e role = pure e := by
  cases e with
  | array id es => simp only [Transform.onExpr, h.onElems es, pure_bind, h.replaced]
  | object id ps => simp only [Transform.onExpr, h.onProps ps, pure_bind, h.replaced]
  | function id name f => simp only [Transform.onExpr, h.onFunc f, pure_bind, h.replaced]
  | unary id op arg => simp only [Transform.onExpr, h.onExpr arg, pure_bind, h.replaced]
  | update id op before arg => simp only [Transform.onExpr, h.onExpr arg, pure_bind, h.replaced]
  | binary id op left right =>
    simp only [Transform.onExpr, h.onExpr left, h.onExpr right, pure_bind, h.replaced]
  | assign id op left right =>
    simp only [Transform.onExpr, h.onExpr left, h.onExpr right, pure_bind, h.replaced]
  | member id obj name => simp only [Transform.onExpr, h.onExpr obj, pure_bind, h.replaced]
  | index id obj key =>
    simp only [Transform.onExpr, h.onExpr obj, h.onExpr key, pure_bind, h.replaced]
  | cond id test yes no =>
    simp only [Transform.onExpr, h.onExpr test, h.onExpr yes, h.onExpr no, pure_bind, h.replaced]
  | call id callee args =>
    simp only [Transform.onExpr, h.onExpr callee, h.onExprs args, pure_bind, h.replaced]
  | new id callee args =>
    simp only [Transform.onExpr, h.onExpr callee, h.onExprs args, pure_bind, h.replaced]
  | seq id es => simp only [Transform.onExpr, h.onExprs es, pure_bind, h.replaced]
  | _ => exact h.replaced role _
termination_by structural e

theorem onElems (h : t.LeavesExprs) (es : List (Option Expr)) : t.onElems es = pure es := by
  match es with
  | [] => rfl
  | none :: rest => simp only [Transform.onElems, h.onElems rest, pure_bind]
  | some e :: rest => simp only [Transform.onElems, h.onExpr e, h.onElems rest, pure_bind]
termination_by structural es

theorem onExprs (h : t.LeavesExprs) (es : List Expr) : t.onExprs es = pure es := by
  match es with
  | [] => rfl
  | e :: rest => simp only [Transform.onExprs, h.onExpr e, h.onExprs rest, pure_bind]
termination_by structural es

theorem onKey (h : t.LeavesExprs) (key : PropertyKey) : t.onKey key = pure key := by
  cases key with
  | computed e => simp only [Transform.onKey, h.onExpr e, pure_bind]
  | _ => rfl
termination_by structural key

theorem onProperty (h : t.LeavesExprs) (p : Property) : t.onProperty p = pure p := by
  cases p with
  | value id key e => simp only [Transform.onProperty, h.onKey key, h.onExpr e, pure_bind]
  | getter id key f => simp only [Transform.onProperty, h.onKey key, h.onFunc f, pure_bind]
  | setter id key f => simp only [Transform.onProperty, h.onKey key, h.onFunc f, pure_bind]
termination_by structural p

theorem onProps (h : t.LeavesExprs) (ps : List Property) : t.onProps ps = pure ps := by
  match ps with
  | [] => rfl
  | p :: rest => simp only [Transform.onProps, h.onProperty p, h.onProps rest, pure_bind]
termination_by structural ps

end

theorem onExpr? (h : t.LeavesExprs) (e : Option Expr) : t.onExpr? e = pure e := by
  cases e with
  | none => rfl
  | some e => simp only [Transform.onExpr?, h.onExpr e, pure_bind]

theorem onDeclarators (h : t.LeavesExprs) (ds : List Declarator) : t.onDeclarators ds = pure ds := by
  induction ds with
  | nil => rfl
  | cons d rest ih =>
    obtain ⟨id, name, init⟩ := d
    simp only [Transform.onDeclarators, h.onExpr? init, ih, pure_bind]

theorem onDecl (h : t.LeavesExprs) (d : VarDecl) : t.onDecl d = pure d := by
  obtain ⟨id, kind, ds⟩ := d
  simp only [Transform.onDecl, h.onDeclarators ds, pure_bind]

theorem onHead (h : t.LeavesExprs) (x : ForHead) (role : Role) : t.onHead x role = pure x := by
  cases x with
  | decl d => simp only [Transform.onHead, h.onDecl d, pure_bind]
  | expr e => simp only [Transform.onHead, h.onExpr e, pure_bind]

theorem onHead? (h : t.LeavesExprs) (x : Option ForHead) : t.onHead? x = pure x := by
  cases x with
  | none => rfl
  | some x => simp only [Transform.onHead?, h.onHead x, pure_bind]

end Transform.LeavesExprs

namespace TailCalls

variable {World Value Fault α : Type}

section

variable {M : Semantics World Value Fault} {scopes : ScopeTree} {t : Target} {label : String}
variable {taken : List String} {vars : List VarId} {c d : Config World Value}

/-! ## What takes the place of parts -/

namespace Semantics.Repeats

theorem normal (c : Config World Value) : M.Repeats vars label (.done, c) (.done, c) := rfl

theorem stuck (c : Config World Value) : M.Repeats vars label (.stuck, c) (.stuck, c) := rfl

theorem andThen {x y : Exit Value Fault × Config World Value}
    {f g : Config World Value → Exit Value Fault × Config World Value} (h : M.Repeats vars label x y)
    (hfg : ∀ c, M.Repeats vars label (f c) (g c)) :
    M.Repeats vars label (andThen x f) (TailCalls.andThen y g) := by
  obtain ⟨exit, c⟩ := x
  cases exit with
  | done =>
    obtain rfl : y = _ := h
    exact hfg c
  | fails fault =>
    obtain ⟨c', rfl, hagree⟩ := h
    exact ⟨c', rfl, hagree⟩
  | calls values =>
    obtain ⟨c', rfl, hagree⟩ := h
    exact ⟨c', rfl, hagree⟩
  | _ =>
    obtain rfl : y = _ := h
    rfl

theorem withValue {x : Except Fault α × Config World Value}
    {f g : α → Config World Value → Exit Value Fault × Config World Value}
    (hfg : ∀ a c, M.Repeats vars label (f a c) (g a c)) :
    M.Repeats vars label (withValue x f) (TailCalls.withValue x g) := by
  obtain ⟨result, c⟩ := x
  cases result with
  | ok a => exact hfg a c
  | error fault => exact ⟨c, rfl, .refl _ _⟩

theorem store (name : Ident) (e : Expr) (c : Config World Value) :
    M.Repeats vars label (M.store scopes name e c) (M.store scopes name e c) :=
  .withValue fun _ _ => .normal _

theorem storeAll (ds : List Declarator) (c : Config World Value) :
    M.Repeats vars label (M.storeAll scopes ds c) (M.storeAll scopes ds c) := by
  induction ds generalizing c with
  | nil => exact .normal c
  | cons x rest ih =>
    obtain ⟨id, name, init⟩ := x
    cases init with
    | none => exact ih c
    | some e => exact (store name e c).andThen ih

theorem perform (e : Expr) (c : Config World Value) :
    M.Repeats vars label (M.perform scopes e c) (M.perform scopes e c) := by
  unfold Semantics.perform
  split
  · exact store _ _ c
  · exact .withValue fun _ c => .normal c

theorem giveBack (arg : Option Expr) (c : Config World Value) :
    M.Repeats vars label (M.giveBack arg c) (M.giveBack arg c) := by
  cases arg with
  | none => exact rfl
  | some e => exact .withValue fun _ _ => rfl

end Semantics.Repeats

/-- In place of a statement there is what repeats it. -/
def Semantics.Replaces (M : Semantics World Value Fault) (scopes : ScopeTree) (t : Target)
    (label : String) (s s' : Stmt) : Prop :=
  ∀ c, M.Repeats (t.params.map Prod.snd) label (M.exec scopes t s c) (M.exec scopes t s' c)

/-- In place of statements there are others that repeat them. -/
def Semantics.AllReplace (M : Semantics World Value Fault) (scopes : ScopeTree) (t : Target)
    (label : String) (ss ss' : List Stmt) : Prop :=
  ∀ c, M.Repeats (t.params.map Prod.snd) label (M.execAll scopes t ss c) (M.execAll scopes t ss' c)

/-! ## New ids and names -/

theorem Yields.newId {P : α → Prop} {f : NodeId → Edit α}
    (h : ∀ id, Yields (Reserves scopes taken) (f id) P) :
    Yields (Reserves scopes taken) (Edit.newId >>= f) P :=
  fun s hs => h s.nextId _ (hs.advance (Nat.le_succ _) (List.Subset.refl _))

theorem yields_newBlock (ss : List Stmt) :
    Yields (Reserves scopes taken) (Make.block ss) fun b => ∃ id, b = .block ⟨id, ss⟩ :=
  Yields.newId fun id => .pure ⟨id, rfl⟩

theorem yields_newIdent (name : String) :
    Yields (Reserves scopes taken) (Make.ident name) fun i => i.name = name :=
  Yields.newId fun _ => .pure rfl

/-! ## The traversal -/

theorem Target.leaves_jumps (t : Target) (scopes : ScopeTree) (label : String) :
    (t.jumps scopes label).LeavesExprs :=
  ⟨rfl, fun _ _ => rfl⟩

/-- A statement whose parts are done: a tail call has its arguments still, and anything else is
repeated. -/
structure Semantics.PartsDone (M : Semantics World Value Fault) (scopes : ScopeTree) (t : Target)
    (label : String) (s s' : Stmt) : Prop where
  args : t.args? scopes s' = t.args? scopes s
  replaces : t.args? scopes s = none → M.Replaces scopes t label s s'

/-- What takes the place of a tail call. -/
theorem yields_jump {args : List Expr} (hfits : M.Fits scopes t.params taken)
    (hconfined : ∀ e ∈ args, M.Confined scopes e) (hlength : args.length ≤ t.params.length) :
    Yields (Reserves scopes taken) (t.jump scopes label args) fun ss => ∀ c,
      M.Repeats (t.params.map Prod.snd) label
        (withValue (M.evalAll args c) fun values c => (.calls values, c)) (M.execAll scopes t ss c) :=
  fun _ hs => ⟨(reserves_passArgs hs).advance (Nat.le_add_right _ 2) (List.Subset.refl _),
    fun c => jump_passes hfits hconfined hlength hs label c⟩

/-- What takes the place of a statement whose parts are done. -/
theorem yields_stmt (hfits : M.Fits scopes t.params taken) {s s' : Stmt}
    (hconfined : M.AllConfined scopes (s.nodes false))
    (h : M.PartsDone scopes t label s s') (place : Place) :
    Yields (Reserves scopes taken) ((t.jumps scopes label).stmt place s s') fun ss =>
      (place = .alone → ∃ s'', ss = [s'']) ∧
        ∀ c, M.Repeats (t.params.map Prod.snd) label (M.exec scopes t s c) (M.execAll scopes t ss c) := by
  unfold Target.jumps
  dsimp only
  rw [h.args]
  match hargs : t.args? scopes s with
  | none =>
    refine .pure ⟨fun _ => ⟨s', rfl⟩, fun c => ?_⟩
    rw [Semantics.execAll_singleton]
    exact h.replaces hargs c
  | some args =>
    obtain ⟨_, _, _, -, hlength⟩ := Target.args?_eq_some hargs
    have hargs' := Target.confined_of_args? hargs hconfined
    refine (yields_jump hfits hargs' hlength).bind fun ss hss => ?_
    cases place with
    | listed =>
      refine .pure ⟨nofun, fun c => ?_⟩
      rw [Target.exec_of_args? hargs]
      exact hss c
    | alone =>
      refine (yields_newBlock ss).bind fun b hb => .pure ⟨fun _ => ⟨b, rfl⟩, fun c => ?_⟩
      obtain ⟨id, rfl⟩ := hb
      rw [Semantics.execAll_singleton, Target.exec_of_args? hargs]
      exact hss c

theorem yields_alone (hfits : M.Fits scopes t.params taken) {s s' : Stmt}
    (hconfined : M.AllConfined scopes (s.nodes false)) (h : M.PartsDone scopes t label s s') :
    Yields (Reserves scopes taken) ((t.jumps scopes label).alone s s')
      (M.Replaces scopes t label s) := by
  refine (yields_stmt hfits hconfined h .alone).bind fun ss hss => ?_
  obtain ⟨s'', rfl⟩ := hss.1 rfl
  refine .pure fun c => ?_
  have hsingle := hss.2 c
  rwa [Semantics.execAll_singleton] at hsingle

/-- A statement that is not for bodies in a loop. -/
def Semantics.Alien (M : Semantics World Value Fault) (scopes : ScopeTree) (t : Target) (s : Stmt) :
    Prop :=
  t.args? scopes s = none ∧ ∀ c, M.exec scopes t s c = (.stuck, c)

theorem Semantics.PartsDone.stuck {s s' : Stmt} (h : M.Alien scopes t s) (h' : M.Alien scopes t s') :
    M.PartsDone scopes t label s s' where
  args := h'.1.trans h.1.symm
  replaces _ c := by
    rw [h.2, h'.2]
    exact .stuck c

theorem yields_around (hfits : M.Fits scopes t.params taken) {s body : Stmt} {f : Stmt → Stmt}
    (hs : M.Alien scopes t s) (hf : ∀ b, M.Alien scopes t (f b))
    (hconfined : M.AllConfined scopes (body.nodes false))
    (h : Yields (Reserves scopes taken) ((t.jumps scopes label).onParts body)
      (M.PartsDone scopes t label body)) :
    Yields (Reserves scopes taken)
      ((t.jumps scopes label).onParts body >>= fun parts =>
        (t.jumps scopes label).alone body parts >>= fun b => pure (f b))
      (M.PartsDone scopes t label s) :=
  h.bind fun _ hparts => (yields_alone hfits hconfined hparts).bind fun _ _ => .pure (.stuck hs (hf _))

mutual

theorem yields_onParts (hfits : M.Fits scopes t.params taken) (s : Stmt)
    (hconfined : M.AllConfined scopes (s.nodes false)) :
    Yields (Reserves scopes taken) ((t.jumps scopes label).onParts s)
      (M.PartsDone scopes t label s) := by
  have hleaves := t.leaves_jumps scopes label
  cases s with
  | block b =>
    have hb : M.AllConfined scopes (b.nodes false) := hconfined.mono (List.subset_cons_self _ _)
    exact (yields_onBlock hfits b hb).bind fun b' hb' => .pure ⟨rfl, fun _ => hb'⟩
  | expr id e =>
    simp only [Transform.onParts, hleaves.onExpr, pure_bind]
    exact .pure ⟨rfl, fun _ => .perform e⟩
  | var x =>
    simp only [Transform.onParts, hleaves.onDecl, pure_bind]
    refine .pure ⟨rfl, fun _ => ?_⟩
    obtain ⟨id, kind, ds⟩ := x
    cases kind with
    | var => exact .storeAll ds
    | _ => exact .stuck
  | function id name f =>
    simp only [Transform.onParts, hleaves.onFunc, pure_bind]
    exact .pure (.stuck ⟨rfl, fun _ => rfl⟩ ⟨rfl, fun _ => rfl⟩)
  | «if» id test yes no =>
    have hyes : M.AllConfined scopes (yes.nodes false) :=
      hconfined.mono fun n hn => by simp [Stmt.nodes, hn]
    have hno : M.AllConfined scopes (stmtNodes? false no) :=
      hconfined.mono fun n hn => by simp [Stmt.nodes, hn]
    simp only [Transform.onParts, hleaves.onExpr, pure_bind]
    refine (yields_onParts hfits yes hyes).bind fun yes' h =>
      (yields_alone hfits hyes h).bind fun yes'' hyes' =>
        (yields_onAlone? hfits no hno).bind fun no' hno' => .pure ⟨rfl, fun _ c => ?_⟩
    refine .withValue fun value c => ?_
    split
    · exact hyes' c
    · exact hno' c
  | «for» id init test update body =>
    have hbody : M.AllConfined scopes (body.nodes false) :=
      hconfined.mono fun n hn => by simp [Stmt.nodes, hn]
    simp only [Transform.onParts, hleaves.onHead?, hleaves.onExpr?, pure_bind]
    exact yields_around hfits ⟨rfl, fun _ => rfl⟩ (fun _ => ⟨rfl, fun _ => rfl⟩) hbody
      (yields_onParts hfits body hbody)
  | forIn id head obj body =>
    have hbody : M.AllConfined scopes (body.nodes false) :=
      hconfined.mono fun n hn => by simp [Stmt.nodes, hn]
    simp only [Transform.onParts, hleaves.onHead, hleaves.onExpr, pure_bind]
    exact yields_around hfits ⟨rfl, fun _ => rfl⟩ (fun _ => ⟨rfl, fun _ => rfl⟩) hbody
      (yields_onParts hfits body hbody)
  | «while» id test body =>
    have hbody : M.AllConfined scopes (body.nodes false) :=
      hconfined.mono fun n hn => by simp [Stmt.nodes, hn]
    simp only [Transform.onParts, hleaves.onExpr, pure_bind]
    exact yields_around hfits ⟨rfl, fun _ => rfl⟩ (fun _ => ⟨rfl, fun _ => rfl⟩) hbody
      (yields_onParts hfits body hbody)
  | doWhile id body test =>
    have hbody : M.AllConfined scopes (body.nodes false) :=
      hconfined.mono fun n hn => by simp [Stmt.nodes, hn]
    simp only [Transform.onParts, hleaves.onExpr, pure_bind]
    exact yields_around hfits ⟨rfl, fun _ => rfl⟩ (fun _ => ⟨rfl, fun _ => rfl⟩) hbody
      (yields_onParts hfits body hbody)
  | «return» id arg =>
    simp only [Transform.onParts, hleaves.onExpr?, pure_bind]
    refine .pure ⟨rfl, fun hargs c => ?_⟩
    rw [Target.exec_return hargs]
    exact .giveBack arg c
  | labeled id name body =>
    have hbody : M.AllConfined scopes (body.nodes false) :=
      hconfined.mono fun n hn => by simp [Stmt.nodes, hn]
    exact yields_around hfits ⟨rfl, fun _ => rfl⟩ (fun _ => ⟨rfl, fun _ => rfl⟩) hbody
      (yields_onParts hfits body hbody)
  | throw id arg =>
    simp only [Transform.onParts, hleaves.onExpr, pure_bind]
    exact .pure (.stuck ⟨rfl, fun _ => rfl⟩ ⟨rfl, fun _ => rfl⟩)
  | «with» id obj body =>
    have hbody : M.AllConfined scopes (body.nodes false) :=
      hconfined.mono fun n hn => by simp [Stmt.nodes, hn]
    simp only [Transform.onParts, hleaves.onExpr, pure_bind]
    exact yields_around hfits ⟨rfl, fun _ => rfl⟩ (fun _ => ⟨rfl, fun _ => rfl⟩) hbody
      (yields_onParts hfits body hbody)
  | «try» id block handler finalizer =>
    have hblock : M.AllConfined scopes (block.nodes false) :=
      hconfined.mono fun n hn => by simp [Stmt.nodes, hn]
    have hhandler : M.AllConfined scopes (handlerNodes? false handler) :=
      hconfined.mono fun n hn => by simp [Stmt.nodes, hn]
    have hfinalizer : M.AllConfined scopes (blockNodes? false finalizer) :=
      hconfined.mono fun n hn => by simp [Stmt.nodes, hn]
    refine (yields_onBlock hfits block hblock).bind fun _ _ =>
      (yields_onHandler? hfits handler hhandler).bind fun _ _ =>
        (yields_onBlock? hfits finalizer hfinalizer).bind fun _ _ => .pure ?_
    exact .stuck ⟨rfl, fun _ => rfl⟩ ⟨rfl, fun _ => rfl⟩
  | empty id => exact .pure (.stuck ⟨rfl, fun _ => rfl⟩ ⟨rfl, fun _ => rfl⟩)
  | «break» id name => exact .pure (.stuck ⟨rfl, fun _ => rfl⟩ ⟨rfl, fun _ => rfl⟩)
  | «continue» id name =>
    refine .pure ⟨rfl, fun _ c => ?_⟩
    cases name with
    | none => exact .stuck c
    | some name => exact rfl
termination_by structural s

theorem yields_onAlone? (hfits : M.Fits scopes t.params taken) (s : Option Stmt)
    (hconfined : M.AllConfined scopes (stmtNodes? false s)) :
    Yields (Reserves scopes taken) ((t.jumps scopes label).onAlone? s) fun s' =>
      ∀ c, M.Repeats (t.params.map Prod.snd) label (M.exec? scopes t s c) (M.exec? scopes t s' c) := by
  cases s with
  | none => exact .pure .normal
  | some s =>
    exact (yields_onParts hfits s hconfined).bind fun _ h =>
      (yields_alone hfits hconfined h).bind fun _ hs => .pure hs
termination_by structural s

theorem yields_onBlock (hfits : M.Fits scopes t.params taken) (b : Block)
    (hconfined : M.AllConfined scopes (b.nodes false)) :
    Yields (Reserves scopes taken) ((t.jumps scopes label).onBlock b)
      fun b' => M.Replaces scopes t label (.block b) (.block b') := by
  obtain ⟨id, ss⟩ := b
  exact (yields_onStmts hfits ss hconfined).bind fun ss' h => .pure h
termination_by structural b

theorem yields_onBlock? (hfits : M.Fits scopes t.params taken) (b : Option Block)
    (hconfined : M.AllConfined scopes (blockNodes? false b)) :
    Yields (Reserves scopes taken) ((t.jumps scopes label).onBlock? b) fun _ => True := by
  cases b with
  | none => exact .pure trivial
  | some b => exact (yields_onBlock hfits b hconfined).bind fun _ _ => .pure trivial
termination_by structural b

theorem yields_onHandler? (hfits : M.Fits scopes t.params taken) (x : Option CatchClause)
    (hconfined : M.AllConfined scopes (handlerNodes? false x)) :
    Yields (Reserves scopes taken) ((t.jumps scopes label).onHandler? x) fun _ => True := by
  cases x with
  | none => exact .pure trivial
  | some x =>
    obtain ⟨id, param, body⟩ := x
    have hbody : M.AllConfined scopes (body.nodes false) :=
      hconfined.mono fun n hn => List.mem_append_right _ hn
    exact (yields_onBlock hfits body hbody).bind fun _ _ => .pure trivial
termination_by structural x

/-- What takes the place of the tail calls of a body. -/
theorem yields_onStmts (hfits : M.Fits scopes t.params taken) (ss : List Stmt)
    (hconfined : M.AllConfined scopes (stmtNodes false ss)) :
    Yields (Reserves scopes taken) ((t.jumps scopes label).onStmts ss)
      (M.AllReplace scopes t label ss) := by
  cases ss with
  | nil => exact .pure .normal
  | cons s rest =>
    have hs : M.AllConfined scopes (s.nodes false) :=
      hconfined.mono fun n hn => List.mem_append_left _ hn
    have hrest : M.AllConfined scopes (stmtNodes false rest) :=
      hconfined.mono fun n hn => List.mem_append_right _ hn
    refine (yields_onParts hfits s hs).bind fun s' h => (yields_stmt hfits hs h .listed).bind
      fun first hfirst => (yields_onStmts hfits rest hrest).bind fun others hothers => .pure fun c => ?_
    rw [Semantics.execAll_append]
    exact (hfirst.2 c).andThen hothers
termination_by structural ss

end

/-! ## The end of the body -/

theorem andThen_ne_done {x : Exit Value Fault × Config World Value}
    {f : Config World Value → Exit Value Fault × Config World Value}
    (h : x.1 ≠ .done ∨ ∀ c, (f c).1 ≠ .done) : (andThen x f).1 ≠ .done := by
  obtain ⟨exit, c⟩ := x
  cases exit with
  | done => exact (h.resolve_left fun hne => hne rfl) c
  | _ => nofun

theorem withValue_ne_done {x : Except Fault α × Config World Value}
    {f : α → Config World Value → Exit Value Fault × Config World Value}
    (h : ∀ a c, (f a c).1 ≠ .done) : (withValue x f).1 ≠ .done := by
  obtain ⟨result, c⟩ := x
  cases result with
  | ok a => exact h a c
  | error fault => nofun

mutual

/-- A statement that leaves its list on every path does not end normally. -/
theorem Semantics.exec_ne_done (s : Stmt) (h : s.isAbrupt = true) (c : Config World Value) :
    (M.exec scopes t s c).1 ≠ .done := by
  cases s with
  | «return» id arg =>
    rw [exec]
    split
    · exact withValue_ne_done nofun
    · cases arg with
      | none => nofun
      | some e => exact withValue_ne_done nofun
  | throw id arg => nofun
  | «break» id name => nofun
  | «continue» id name => cases name <;> nofun
  | block b =>
    obtain ⟨id, ss⟩ := b
    exact Semantics.execAll_ne_done ss h c
  | «if» id test yes no =>
    cases no with
    | none => cases h
    | some no =>
      rw [Stmt.isAbrupt, Bool.and_eq_true] at h
      refine withValue_ne_done fun value c => ?_
      split
      · exact Semantics.exec_ne_done yes h.1 c
      · exact Semantics.exec_ne_done no h.2 c
  | _ => cases h
termination_by structural s

theorem Semantics.execAll_ne_done (ss : List Stmt) (h : anyAbrupt ss = true) (c : Config World Value) :
    (M.execAll scopes t ss c).1 ≠ .done := by
  match ss with
  | [] => cases h
  | s :: rest =>
    rw [anyAbrupt, Bool.or_eq_true] at h
    exact andThen_ne_done (h.imp (fun hs => Semantics.exec_ne_done s hs c)
      fun hrest => Semantics.execAll_ne_done rest hrest)
termination_by structural ss

end

/-- Where a body comes to its end, the function gives back `undefined`. -/
def Semantics.closed (M : Semantics World Value Fault) (x : Exit Value Fault × Config World Value) :
    Exit Value Fault × Config World Value :=
  andThen x fun c => (.returns M.undefined, c)

/-- The loop is left where the body comes to its end. -/
theorem closes_endLoop {ss : List Stmt} :
    Yields (Reserves scopes taken) (endLoop ss) fun ss' =>
      ∀ c, M.execAll scopes t ss' c = M.closed (M.execAll scopes t ss c) := by
  unfold endLoop
  split
  · rename_i habrupt
    refine .pure fun c => ?_
    have hleft : (M.execAll scopes t ss c).1 ≠ .done := Semantics.execAll_ne_done ss habrupt c
    generalize M.execAll scopes t ss c = x at hleft
    obtain ⟨exit, c⟩ := x
    cases exit with
    | done => exact absurd rfl hleft
    | _ => rfl
  · refine Yields.newId fun id => .pure fun c => ?_
    rw [Semantics.execAll_append]
    rfl

/-! ## The loop -/

/-- Runs the rounds of an endless loop, at most `n`. -/
def Semantics.rounds (M : Semantics World Value Fault) (scopes : ScopeTree) (t : Target)
    (label : String) (body : List Stmt) :
    Nat → Config World Value → Option (Except Fault Value × Config World Value)
  | 0, _ => none
  | n + 1, c =>
    match M.execAll scopes t body c with
    | (.done, c) => rounds M scopes t label body n c
    | (.continues name, c) =>
      if name = label then rounds M scopes t label body n c else none
    | (exit, c) => (M.result? exit).map (·, c)

/-- Runs a body that is an endless loop with a label on it. -/
def Semantics.runLoop (M : Semantics World Value Fault) (scopes : ScopeTree) (t : Target) (n : Nat) :
    List Stmt → Config World Value → Option (Except Fault Value × Config World Value)
  | [.labeled _ label (.while _ (.bool _ true) (.block ⟨_, body⟩))], c =>
    M.rounds scopes t label.name body n c
  | _, _ => none

/-- The loop that a function is made. -/
theorem yields_loop (hfits : M.Fits scopes t.params taken) (fn : Func)
    (hconfined : M.AllConfined scopes (stmtNodes false fn.body.stmts)) :
    Yields (Reserves scopes taken) (t.loop scopes fn) fun fn' => ∃ label body,
      (∀ n c, M.runLoop scopes t n fn'.body.stmts c = M.rounds scopes t label body n c) ∧
        ∀ c, M.Repeats (t.params.map Prod.snd) label (M.closed (M.execAll scopes t fn.body.stmts c))
          (M.execAll scopes t body c) := by
  have hlabel : Yields (Reserves scopes taken) (Edit.uniqueName "tail") fun _ => True :=
    fun s hs => ⟨hs.advance (Nat.le_refl _) (List.subset_cons_self _ _), trivial⟩
  refine hlabel.bind fun label _ => (yields_onStmts hfits fn.body.stmts hconfined).bind fun ss hss =>
    (closes_endLoop (M := M) (t := t)).bind fun body hbody => ?_
  refine Yields.newId fun id => Yields.newId fun id' => (yields_newBlock body).bind fun b hb =>
    Yields.newId fun id'' => (yields_newIdent label).bind fun i hi => .pure ?_
  refine ⟨label, body, ?_, fun c => ?_⟩
  · obtain ⟨_, rfl⟩ := hb
    subst hi
    exact fun _ _ => rfl
  · rw [hbody]
    exact (hss c).andThen fun _ => rfl

section

variable {locals stale : List VarId} {body loop : List Stmt} {values : List Value}
variable {result : Except Fault Value}

theorem lookup_zip_of_forall₂ {f : VarId → Value} {vs : List VarId}
    (h : List.Forall₂ (fun v value => f v = value) vs values) (v : VarId) :
    (vs.zip values).lookup v = if v ∈ vs then some (f v) else none := by
  induction h with
  | nil => rfl
  | @cons w value vs values hvalue hrest ih =>
    rw [List.zip_cons_cons, List.lookup_cons]
    by_cases hv : v = w
    · subst hv
      simp [hvalue]
    · simp [hv, ih, beq_eq_false_iff_ne.mpr hv]

/-- The local variables that are no parameters. -/
def Target.others (t : Target) (locals : List VarId) : List VarId :=
  locals.filter fun v => v ∉ t.params.map Prod.snd

theorem Target.mem_others {v : VarId} :
    v ∈ t.others locals ↔ v ∈ locals ∧ v ∉ t.params.map Prod.snd := by
  simp [Target.others]

/-- A round starts as the activation for the call does, its other local variables apart. -/
theorem agree_enter {d₁ c₁ c₂ : Config World Value} (hbefore : c₁.Agree (t.others locals) d₁)
    (hjump : c₂.Agree (t.params.map Prod.snd) c₁)
    (hvalues : List.Forall₂ (fun v value => c₂.vars (.known v) = value) (t.params.map Prod.snd)
      (M.filled (t.params.map Prod.snd).length values)) :
    c₂.Agree (t.others locals) (M.enter t locals values d₁) := by
  refine ⟨hjump.world.trans hbefore.world, fun v hv => ?_⟩
  rw [List.length_map] at hvalues
  change _ = (((t.params.map Prod.snd).zip (M.filled t.params.length values)).lookup v).getD _
  rw [lookup_zip_of_forall₂ hvalues v]
  split
  · rfl
  · rename_i hparam
    have hlocal : v ∉ locals := fun hmem => hv (Target.mem_others.mpr ⟨hmem, hparam⟩)
    rw [Option.getD_none, if_neg hlocal, hjump.known v hparam, hbefore.known v hv]

/-- The rounds of the loop give back what the calls after each other do. -/
theorem rounds_of_call
    (hloop : ∀ c, M.Repeats (t.params.map Prod.snd) label
      (M.closed (M.execAll scopes t body c)) (M.execAll scopes t loop c))
    (hconfined : M.AllConfined scopes (stmtNodes false body))
    (hsettle : settleAll scopes body (t.others locals) = some stale) {n : Nat}
    (hcall : M.call scopes t locals body n values c = some (result, d)) {c' : Config World Value}
    (hagree : c'.Agree (t.others locals) (M.enter t locals values c)) :
    ∃ d', M.rounds scopes t label loop n c' = some (result, d') ∧
      d'.Agree (t.params.map Prod.snd ++ locals) d := by
  have hothers : t.others locals ⊆ t.params.map Prod.snd ++ locals :=
    fun v hv => List.mem_append_right _ (Target.mem_others.mp hv).1
  induction n generalizing values c c' with
  | zero => cases hcall
  | succ n ih =>
    have hround := hloop c'
    have hbody := execAll_alike (t := t) body hconfined hsettle (List.Subset.refl _) hagree
    rw [Semantics.call] at hcall
    rw [Semantics.rounds]
    generalize M.execAll scopes t body c' = x at hround hbody
    generalize M.execAll scopes t body (M.enter t locals values c) = y at hcall hbody
    obtain ⟨exit, c₁⟩ := x
    obtain ⟨exit', d₁⟩ := y
    obtain rfl : exit = exit' := hbody.exit
    have hafter : c₁.Agree (t.others locals) d₁ := hbody.agree
    cases exit with
    | calls next =>
      obtain ⟨c₂, hjumped, hjump, hvalues⟩ := hround
      rw [hjumped]
      dsimp only
      rw [if_pos rfl]
      exact ih hcall (agree_enter hafter hjump hvalues)
    | done =>
      cases hcall
      have hleft : M.execAll scopes t loop c' = (.returns M.undefined, c₁) := hround
      rw [hleft]
      exact ⟨c₁, rfl, hafter.mono hothers⟩
    | returns value =>
      cases hcall
      have hleft : M.execAll scopes t loop c' = (.returns value, c₁) := hround
      rw [hleft]
      exact ⟨c₁, rfl, hafter.mono hothers⟩
    | fails fault =>
      cases hcall
      obtain ⟨c₂, hfailed, hjump⟩ := hround
      rw [hfailed]
      exact ⟨c₂, rfl, (hjump.mono (List.subset_append_left _ _)).trans (hafter.mono hothers)⟩
    | _ => cases hcall

/-- A function whose body settles gives back as a loop what it gives back with its tail calls, and
leaves the same world and the same variables outside. -/
theorem loop_gives_back (hfits : M.Fits scopes t.params taken) {fn : Func}
    (hconfined : M.AllConfined scopes (stmtNodes false fn.body.stmts))
    (hsettle : settleAll scopes fn.body.stmts (t.others locals) = some stale) {s : EditState}
    (hs : Reserves scopes taken s) {n : Nat}
    (hcall : M.call scopes t locals fn.body.stmts n values c = some (result, d)) :
    ∃ d', M.runLoop scopes t n (t.loop scopes fn s).1.body.stmts (M.enter t locals values c) =
        some (result, d') ∧ d'.Agree (t.params.map Prod.snd ++ locals) d := by
  obtain ⟨label, loop, hrun, hloop⟩ := (yields_loop hfits fn hconfined s hs).2
  rw [hrun]
  exact rounds_of_call hloop hconfined hsettle hcall (.refl _ _)

end

end

/-! ## Primitive code -/

section

variable {scopes : ScopeTree} {t : Target} {taken : List String}

theorem lookup_of_mem {params : List (String × VarId)} (h : (params.map Prod.fst).Nodup)
    {p : String × VarId} (hp : p ∈ params) : params.lookup p.1 = some p.2 := by
  induction params with
  | nil => cases hp
  | cons q rest ih =>
    obtain ⟨hq, hrest⟩ := List.nodup_cons.mp h
    rw [List.lookup_cons]
    rcases List.mem_cons.mp hp with rfl | hmem
    · rw [beq_self_eq_true]
    · have hne : p.1 ≠ q.1 := fun heq => hq (heq ▸ List.mem_map_of_mem hmem)
      rw [beq_false_of_ne hne]
      exact ih hrest hmem

/-- Primitive values, where only the parameters are called by name. -/
def Target.primitives (t : Target) (scopes : ScopeTree) : Semantics Unit Primitive Empty :=
  .primitives scopes fun name => t.params.lookup name

theorem Target.fits_primitives (hnames : (t.params.map Prod.fst).Nodup)
    (hvars : (t.params.map Prod.snd).Nodup) (htaken : t.params.map Prod.fst ⊆ taken) :
    (t.primitives scopes).Fits scopes t.params taken where
  distinct := hvars
  byName _ hp := lookup_of_mem hnames hp
  unused name hname := by
    refine List.lookup_eq_none_iff.mpr fun p hp => bne_iff_ne.mpr fun heq => hname ?_
    rw [heq]
    exact htaken (List.mem_map_of_mem hp)
  reads _ _ _ := rfl
  void _ _ _ := rfl

/-- A function that computes with primitive values gives back the same as a loop. -/
theorem loop_computes {fn : Func} {locals stale : List VarId} (hnames : (t.params.map Prod.fst).Nodup)
    (hvars : (t.params.map Prod.snd).Nodup) (htaken : t.params.map Prod.fst ⊆ taken)
    (hscope : ∀ e, .expr e ∈ stmtNodes false fn.body.stmts → InScope scopes (e.nodes true))
    (hsettle : settleAll scopes fn.body.stmts (t.others locals) = some stale) {s : EditState}
    (hs : Reserves scopes taken s) {n : Nat} {values : List Primitive}
    {result : Except Empty Primitive} {c d : Config Unit Primitive}
    (hcall : (t.primitives scopes).call scopes t locals fn.body.stmts n values c = some (result, d)) :
    ∃ d', (t.primitives scopes).runLoop scopes t n (t.loop scopes fn s).1.body.stmts
          ((t.primitives scopes).enter t locals values c) = some (result, d') ∧
        d'.Agree (t.params.map Prod.snd ++ locals) d :=
  loop_gives_back (t.fits_primitives hnames hvars htaken)
    (fun e he => confined_primitives (hscope e he)) hsettle hs hcall

end

end TailCalls

end EsOptimizer
