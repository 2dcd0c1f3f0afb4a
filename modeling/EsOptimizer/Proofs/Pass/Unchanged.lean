import EsOptimizer.Optimize
import Mathlib.Data.List.TakeDrop

/-!
# Changes are noted

The optimizer stops when no pass notes a change, so a pass that changes anything has to say so
(`unchanged_through_passes`). That comes down to single steps: `Edit.Candid` says of a computation
that it notes a change unless its result is as it should be, and `Edit.Restores` that this result is
what it was given. A traversal whose hooks restore what they are given restores the whole tree, ids
included (`Transform.Candid`); new ids may be handed out on the way.

The traversals that put arguments and jumps in place run inside a change that has been noted already.
Of them, all that matters is that they do not take the note back, so the condition `exact` under
which a hook restores what it is given is a parameter.
-/

namespace EsOptimizer

namespace Edit

variable {α β γ δ ε : Type}

/-! ## Computations that note what they change -/

/-- A change is noted, unless the result satisfies `P`. What was noted stays noted, and ids are only
handed out. -/
def Candid (x : Edit α) (P : α → Prop) : Prop :=
  ∀ s, (x s).2.changed = false → s.changed = false ∧ s.nextId ≤ (x s).2.nextId ∧ P (x s).1

/-- A change that was noted stays noted. -/
def Steady (x : Edit α) : Prop := ∀ s, s.changed = true → (x s).2.changed = true

namespace Candid

variable {x : Edit α} {P Q : α → Prop}

theorem pure {a : α} (h : P a) : Candid (Pure.pure a) P := fun s hs => ⟨hs, Nat.le_refl s.nextId, h⟩

theorem bind {f : α → Edit β} {R : β → Prop} (hx : Candid x P)
    (hf : ∀ a, Candid (f a) fun b => P a → R b) : Candid (x >>= f) R := by
  intro s hs
  obtain ⟨hmid, hle, hresult⟩ := hf _ _ hs
  obtain ⟨hstart, hle', hP⟩ := hx s hmid
  exact ⟨hstart, Nat.le_trans hle' hle, hresult hP⟩

theorem imp (h : Candid x P) (hPQ : ∀ a, P a → Q a) : Candid x Q := fun s hs =>
  let ⟨hstart, hle, hP⟩ := h s hs
  ⟨hstart, hle, hPQ _ hP⟩

/-- A step whose result plays no role. -/
theorem andThen {f : α → Edit β} {R : β → Prop} (hx : Candid x P) (hf : ∀ a, Candid (f a) R) :
    Candid (x >>= f) R :=
  hx.bind fun a => (hf a).imp fun _ hR _ => hR

theorem steady (h : Candid x P) : Steady x := by
  intro s hs
  cases hend : (x s).2.changed with
  | true => rfl
  | false => exact (h s hend).1.symm.trans hs

/-- After a change is noted, nothing has to be as it was. -/
theorem changed {x : Edit α} (h : Steady x) (P : α → Prop) :
    Candid (markChanged >>= fun _ => x) P := by
  intro s hs
  have hnoted : (x { s with changed := true }).2.changed = true := h _ rfl
  exact absurd (hnoted.symm.trans hs) (by decide)

theorem mapM {f : β → Edit α} (h : ∀ b, Candid (f b) fun _ => True) (bs : List β) :
    Candid (bs.mapM f) fun _ => True := by
  induction bs with
  | nil => exact .pure trivial
  | cons b bs ih =>
    rw [List.mapM_cons]
    exact (h b).andThen fun a => ih.andThen fun as => .pure trivial

theorem newId : Candid newId fun _ => True := fun s hs => ⟨hs, Nat.le_succ s.nextId, trivial⟩

theorem uniqueName (base : String) : Candid (uniqueName base) fun _ => True :=
  fun s hs => ⟨hs, Nat.le_refl s.nextId, trivial⟩

end Candid

namespace Steady

theorem pure (a : α) : Steady (Pure.pure a) := fun _ hs => hs

theorem bind {x : Edit α} {f : α → Edit β} (hx : Steady x) (hf : ∀ a, Steady (f a)) :
    Steady (x >>= f) :=
  fun s hs => hf _ _ (hx s hs)

theorem mapM {f : β → Edit α} (h : ∀ b, Steady (f b)) (bs : List β) : Steady (bs.mapM f) := by
  induction bs with
  | nil => exact .pure []
  | cons b bs ih =>
    rw [List.mapM_cons]
    exact (h b).bind fun a => ih.bind fun as => .pure _

theorem ofFresh (x : Fresh α) : Steady (ofFresh x) := fun _ hs => hs

end Steady

/-- No change is noted, whatever the state before. -/
def Calm (x : Edit α) : Prop := ∀ s, s.changed = false → (x s).2.changed = false

/-- A change is noted, unless the result is `a` and from other states no change would be noted either.
That is only asked if `exact` holds. -/
def Restores (exact : Prop) (x : Edit α) (a : α) : Prop :=
  Candid x fun y => exact → y = a ∧ Calm x

namespace Restores

variable {exact : Prop} {x : Edit α} {y : Edit β} {z : Edit γ} {w : Edit δ}
variable {a : α} {b : β} {c : γ} {d : δ}

theorem pure (a : α) : Restores exact (Pure.pure a) a := Candid.pure fun _ => ⟨rfl, fun _ hs => hs⟩

theorem bind {f : α → Edit β} (hx : Restores exact x a) (hf : ∀ a', Candid (f a') fun b' =>
    exact → a' = a → b' = b ∧ Calm (f a')) : Restores exact (x >>= f) b := by
  intro s hs
  obtain ⟨hmid, hle, hresult⟩ := hf _ _ hs
  obtain ⟨hstart, hle', hfirst⟩ := hx s hmid
  refine ⟨hstart, Nat.le_trans hle' hle, fun he => ?_⟩
  obtain ⟨ha, hcalm⟩ := hfirst he
  obtain ⟨hb, hcalm'⟩ := hresult he ha
  refine ⟨hb, fun s' hs' => ?_⟩
  -- From the other state the first step has the same result, since it notes no change there.
  have hmid' := hcalm s' hs'
  have ha' := ((hx s' hmid').2.2 he).1.trans ha.symm
  change (f (x s').1 (x s').2).2.changed = false
  rw [ha']
  exact hcalm' _ hmid'

/-- A step that restores whatever it is given. -/
theorem andThen {f : α → Edit β} {g : α → β} (hx : Restores exact x a)
    (hf : ∀ a', Restores exact (f a') (g a')) : Restores exact (x >>= f) (g a) :=
  hx.bind fun a' => Candid.imp (hf a') fun _ h he ha => ha ▸ h he

theorem map₁ {f : α → β} (hx : Restores exact x a) :
    Restores exact (x >>= fun a => Pure.pure (f a)) (f a) :=
  hx.andThen fun a' => .pure (f a')

theorem map₂ {f : α → β → γ} (hx : Restores exact x a) (hy : Restores exact y b) :
    Restores exact (x >>= fun a => y >>= fun b => Pure.pure (f a b)) (f a b) :=
  hx.andThen (g := fun a => f a b) fun _ => hy.map₁

theorem map₃ {f : α → β → γ → δ} (hx : Restores exact x a) (hy : Restores exact y b)
    (hz : Restores exact z c) :
    Restores exact (x >>= fun a => y >>= fun b => z >>= fun c => Pure.pure (f a b c)) (f a b c) :=
  hx.andThen (g := fun a => f a b c) fun _ => hy.map₂ hz

theorem map₄ {f : α → β → γ → δ → ε} (hx : Restores exact x a) (hy : Restores exact y b)
    (hz : Restores exact z c) (hw : Restores exact w d) :
    Restores exact (x >>= fun a => y >>= fun b => z >>= fun c => w >>= fun d =>
      Pure.pure (f a b c d)) (f a b c d) :=
  hx.andThen (g := fun a => f a b c d) fun _ => hy.map₃ hz hw

end Restores

end Edit

open Edit

/-! ## New nodes -/

namespace Make

theorem candid_number (n : Number) : Candid (number n) fun _ => True :=
  Candid.newId.andThen fun _ => .pure trivial

theorem candid_unary (op : UnaryOp) (arg : Expr) : Candid (unary op arg) fun _ => True :=
  Candid.newId.andThen fun _ => .pure trivial

theorem candid_undefined : Candid undefined fun _ => True :=
  (candid_number .zero).andThen fun e => candid_unary .void e

theorem candid_ident (name : String) : Candid (ident name) fun _ => True :=
  Candid.newId.andThen fun _ => .pure trivial

theorem candid_assign (name : String) (value : Expr) : Candid (assign name value) fun _ => True :=
  (candid_ident name).andThen fun _ => Candid.newId.andThen fun _ => .pure trivial

theorem candid_seq (exprs : List Expr) : Candid (seq exprs) fun _ => True :=
  Candid.newId.andThen fun _ => .pure trivial

theorem candid_expr (e : Expr) : Candid (expr e) fun _ => True :=
  Candid.newId.andThen fun _ => .pure trivial

theorem candid_block (stmts : List Stmt) : Candid (block stmts) fun _ => True :=
  Candid.newId.andThen fun _ => .pure trivial

theorem candid_declarator (name : String) (init : Option Expr) :
    Candid (declarator name init) fun _ => True :=
  Candid.newId.andThen fun _ => (candid_ident name).andThen fun _ => .pure trivial

theorem candid_vars (names : List String) : Candid (vars names) fun _ => True :=
  Candid.newId.andThen fun _ =>
    (Candid.mapM (fun name => candid_declarator name none) names).andThen fun _ => .pure trivial

theorem candid_declare (name : String) (value : Expr) : Candid (declare name value) fun _ => True :=
  Candid.newId.andThen fun _ => (candid_declarator name (some value)).andThen fun _ => .pure trivial

theorem candid_magnitude (n : Number) : Candid (magnitude n) fun _ => True := by
  unfold magnitude
  split
  · exact (candid_ident _).andThen fun _ => .pure trivial
  · exact candid_number n

theorem candid_literal (p : Primitive) : Candid (literal p) fun _ => True := by
  cases p with
  | undefined => exact candid_undefined
  | number n =>
    rw [literal]
    split
    · exact (candid_ident _).andThen fun _ => .pure trivial
    · refine (candid_magnitude n.abs).andThen fun size => ?_
      split
      · exact candid_unary .minus size
      · exact .pure trivial
  | _ => exact Candid.newId.andThen fun _ => .pure trivial

/-- One statement stays what it is. -/
theorem restores_single {exact : Prop} {s : Stmt} {ss : List Stmt} (hss : exact → ss = [s]) :
    Restores exact (single ss) s := by
  match ss with
  | [] => exact Candid.newId.andThen fun _ => .pure fun he => nomatch hss he
  | [s'] => exact Candid.pure fun he => ⟨(List.cons.inj (hss he)).1, fun _ hs => hs⟩
  | s' :: s'' :: rest => exact Candid.newId.andThen fun _ => .pure fun he => nomatch hss he

theorem candid_single (ss : List Stmt) : Candid (single ss) fun _ => True := by
  match ss with
  | [] => exact Candid.newId.andThen fun _ => .pure trivial
  | [s] => exact .pure trivial
  | s :: s' :: rest => exact candid_block _

end Make

/-! ## The traversal -/

namespace Transform

/-- The hooks note a change unless they leave what they are given as it is. -/
structure Candid (t : Transform) (exact : Prop) : Prop where
  expr : ∀ role e, Restores exact (t.expr role e) e
  stmt : ∀ place before after, Restores exact (t.stmt place before after) [after]
  list : ∀ isBody ss, Restores exact (t.list isBody ss) ss
  func : ∀ f, Restores exact (t.func f) f

namespace Candid

variable {t : Transform} {exact : Prop}

theorem replaced (h : t.Candid exact) (role : Role) {e : Expr} {parts : Edit Expr}
    (hparts : Restores exact parts e) : Restores exact (t.replaced role e parts) e := by
  unfold Transform.replaced
  split
  · exact hparts.andThen fun e' => h.expr role e'
  · exact .pure e

/-- A statement that stands alone. -/
theorem alone (h : t.Candid exact) {s : Stmt} (hs : Restores exact (t.onParts s) s) :
    Restores exact (t.onParts s >>= t.alone s) s :=
  hs.andThen fun after => (h.stmt .alone s after).bind fun ss =>
    Edit.Candid.imp (Make.restores_single fun hss : exact ∧ ss = [after] => hss.2)
      fun _ hsingle he hss => hsingle ⟨he, hss⟩

mutual

theorem onExpr (h : t.Candid exact) (e : Expr) (role : Role) :
    Restores exact (t.onExpr e role) e := by
  unfold Transform.onExpr
  refine h.replaced role ?_
  cases e with
  | array id elems => exact (h.onElems elems).map₁
  | object id props => exact (h.onProps props).map₁
  | function id name fn => exact (h.onFunc fn).map₁
  | unary id op arg => exact (h.onExpr arg _).map₁
  | update id op before arg => exact (h.onExpr arg _).map₁
  | binary id op left right => exact (h.onExpr left _).map₂ (h.onExpr right _)
  | assign id op left right => exact (h.onExpr left _).map₂ (h.onExpr right _)
  | member id obj name => exact (h.onExpr obj _).map₁ (f := (Expr.member id · name))
  | index id obj key => exact (h.onExpr obj _).map₂ (h.onExpr key _)
  | cond id test yes no => exact (h.onExpr test _).map₃ (h.onExpr yes _) (h.onExpr no _)
  | call id callee args => exact (h.onExpr callee _).map₂ (h.onExprs args)
  | new id callee args => exact (h.onExpr callee _).map₂ (h.onExprs args)
  | seq id exprs => exact (h.onExprs exprs).map₁
  | _ => exact .pure _
termination_by structural e

theorem onElems (h : t.Candid exact) (es : List (Option Expr)) :
    Restores exact (t.onElems es) es := by
  match es with
  | [] => exact .pure []
  | none :: rest => exact (h.onElems rest).map₁
  | some e :: rest => exact (h.onExpr e _).map₂ (f := fun e es => some e :: es) (h.onElems rest)
termination_by structural es

theorem onExprs (h : t.Candid exact) (es : List Expr) : Restores exact (t.onExprs es) es := by
  match es with
  | [] => exact .pure []
  | e :: rest => exact (h.onExpr e _).map₂ (h.onExprs rest)
termination_by structural es

theorem onExpr? (h : t.Candid exact) (e : Option Expr) : Restores exact (t.onExpr? e) e := by
  match e with
  | none => exact .pure none
  | some e => exact (h.onExpr e _).map₁
termination_by structural e

theorem onKey (h : t.Candid exact) (key : PropertyKey) : Restores exact (t.onKey key) key := by
  match key with
  | .computed e => exact (h.onExpr e _).map₁
  | .ident _ | .string _ _ | .number _ _ => exact .pure _
termination_by structural key

theorem onProperty (h : t.Candid exact) (p : Property) : Restores exact (t.onProperty p) p := by
  match p with
  | .value id key value => exact (h.onKey key).map₂ (h.onExpr value _)
  | .getter id key fn => exact (h.onKey key).map₂ (h.onFunc fn)
  | .setter id key fn => exact (h.onKey key).map₂ (h.onFunc fn)
termination_by structural p

theorem onProps (h : t.Candid exact) (ps : List Property) : Restores exact (t.onProps ps) ps := by
  match ps with
  | [] => exact .pure []
  | p :: rest => exact (h.onProperty p).map₂ (h.onProps rest)
termination_by structural ps

theorem onFunc (h : t.Candid exact) (f : Func) : Restores exact (t.onFunc f) f := by
  match f with
  | ⟨id, params, ⟨bodyId, stmts⟩⟩ =>
    unfold Transform.onFunc
    split
    · exact .pure _
    · exact ((h.onStmts stmts).andThen (h.list true)).andThen
        (g := fun ss => ⟨id, params, ⟨bodyId, ss⟩⟩) fun ss => h.func _
termination_by structural f

theorem onBlock (h : t.Candid exact) (b : Block) : Restores exact (t.onBlock b) b := by
  match b with
  | ⟨id, stmts⟩ => exact ((h.onStmts stmts).andThen (h.list false)).map₁
termination_by structural b

theorem onBlock? (h : t.Candid exact) (b : Option Block) : Restores exact (t.onBlock? b) b := by
  match b with
  | none => exact .pure none
  | some b => exact (h.onBlock b).map₁
termination_by structural b

theorem onDeclarators (h : t.Candid exact) (ds : List Declarator) :
    Restores exact (t.onDeclarators ds) ds := by
  match ds with
  | [] => exact .pure []
  | ⟨id, name, init⟩ :: rest =>
    exact (h.onExpr? init).map₂ (f := fun e ds => ⟨id, name, e⟩ :: ds) (h.onDeclarators rest)
termination_by structural ds

theorem onDecl (h : t.Candid exact) (d : VarDecl) : Restores exact (t.onDecl d) d := by
  match d with
  | ⟨id, kind, decls⟩ => exact (h.onDeclarators decls).map₁
termination_by structural d

theorem onHead (h : t.Candid exact) (x : ForHead) (role : Role) :
    Restores exact (t.onHead x role) x := by
  match x with
  | .decl d => exact (h.onDecl d).map₁
  | .expr e => exact (h.onExpr e _).map₁
termination_by structural x

theorem onHead? (h : t.Candid exact) (x : Option ForHead) : Restores exact (t.onHead? x) x := by
  match x with
  | none => exact .pure none
  | some x => exact (h.onHead x _).map₁
termination_by structural x

theorem onHandler? (h : t.Candid exact) (c : Option CatchClause) :
    Restores exact (t.onHandler? c) c := by
  match c with
  | none => exact .pure none
  | some ⟨id, param, body⟩ =>
    exact (h.onBlock body).map₁ (f := fun b => some (CatchClause.mk id param b))
termination_by structural c

theorem onParts (h : t.Candid exact) (s : Stmt) : Restores exact (t.onParts s) s := by
  cases s with
  | block b => exact (h.onBlock b).map₁
  | expr id e => exact (h.onExpr e _).map₁
  | var d => exact (h.onDecl d).map₁
  | function id name fn => exact (h.onFunc fn).map₁
  | «if» id test yes no =>
    exact (h.onExpr test _).map₃ (f := Stmt.if id) (h.alone (h.onParts yes)) (h.onAlone? no)
  | «for» id init test update body =>
    exact (h.onHead? init).map₄ (f := Stmt.for id) (h.onExpr? test) (h.onExpr? update)
      (h.alone (h.onParts body))
  | forIn id head obj body =>
    exact (h.onHead head _).map₃ (f := Stmt.forIn id) (h.onExpr obj _) (h.alone (h.onParts body))
  | «while» id test body =>
    exact (h.onExpr test _).map₂ (f := Stmt.while id) (h.alone (h.onParts body))
  | doWhile id body test =>
    exact (h.alone (h.onParts body)).map₂ (f := Stmt.doWhile id) (h.onExpr test _)
  | «return» id arg => exact (h.onExpr? arg).map₁
  | labeled id label body => exact (h.alone (h.onParts body)).map₁ (f := Stmt.labeled id label)
  | throw id arg => exact (h.onExpr arg _).map₁
  | «with» id obj body =>
    exact (h.onExpr obj _).map₂ (f := Stmt.with id) (h.alone (h.onParts body))
  | «try» id block handler finalizer =>
    exact (h.onBlock block).map₃ (h.onHandler? handler) (h.onBlock? finalizer)
  | _ => exact .pure _
termination_by structural s

theorem onAlone? (h : t.Candid exact) (s : Option Stmt) : Restores exact (t.onAlone? s) s := by
  match s with
  | none => exact .pure none
  | some s => exact (h.alone (h.onParts s)).map₁ (f := some)
termination_by structural s

theorem onStmts (h : t.Candid exact) (ss : List Stmt) : Restores exact (t.onStmts ss) ss := by
  match ss with
  | [] => exact .pure []
  | s :: rest =>
    exact ((h.onParts s).andThen fun after => h.stmt .listed s after).map₂ (f := (· ++ ·))
      (h.onStmts rest)
termination_by structural ss

end

end Candid

end Transform

/-! ## The hooks of the passes -/

namespace DeadBranches

theorem candid_headStmt (h : ForHead) : Candid (headStmt h) fun _ => True := by
  cases h with
  | decl d => exact .pure trivial
  | expr e => exact Make.candid_expr e

namespace Decision

theorem candid_initStmts (d : Decision) : Candid d.initStmts fun _ => True := by
  unfold initStmts
  split
  · exact .pure trivial
  · exact (candid_headStmt _).andThen fun _ => .pure trivial

theorem candid_testStmts (d : Decision) : Candid d.testStmts fun _ => True := by
  unfold testStmts
  split
  · exact .pure trivial
  · exact (Make.candid_expr d.test).andThen fun _ => .pure trivial

theorem candid_hoistedStmts (d : Decision) : Candid d.hoistedStmts fun _ => True := by
  unfold hoistedStmts
  split
  · exact .pure trivial
  · exact (Make.candid_vars _).andThen fun _ => .pure trivial

theorem candid_outcome (d : Decision) : Candid d.outcome fun _ => True :=
  d.candid_initStmts.andThen fun _ => d.candid_testStmts.andThen fun _ =>
    d.candid_hoistedStmts.andThen fun _ => Make.candid_single _

end Decision

theorem candid_transform (a : Analysis) : (transform a).Candid True where
  expr role e := by
    unfold transform
    dsimp only
    split
    · exact .pure e
    · exact .changed (.pure _) _
    · exact .changed (Make.candid_seq _).steady _
  stmt place before after := by
    unfold transform
    dsimp only
    split
    · exact .pure [after]
    · rename_i d hd
      exact .changed (d.candid_outcome.steady.bind fun _ => .pure _) _
  list isBody ss := .pure ss
  func f := .pure f

end DeadBranches

theorem FoldConstants.candid_transform (a : Analysis) : (transform a).Candid True where
  expr role e := by
    unfold transform
    dsimp only
    split
    · exact .pure e
    · exact .changed (Make.candid_literal _).steady _
  stmt place before after := .pure [after]
  list isBody ss := .pure ss
  func f := .pure f

namespace InlineFunctions

theorem candid_substitution (params : List String) (args : List Expr) :
    (substitution params args).Candid False where
  expr role e := by
    unfold substitution
    dsimp only
    split
    · split
      · split
        · exact Candid.pure False.elim
        · exact Make.candid_undefined.imp fun _ _ => False.elim
      · exact Candid.pure False.elim
    · exact Candid.pure False.elim
  stmt place before after := .pure [after]
  list isBody ss := .pure ss
  func f := .pure f

theorem Template.steady_instantiate (t : Template) (args : List Expr) :
    Steady (t.instantiate args) :=
  (Steady.ofFresh _).bind fun body => ((candid_substitution t.params args).onExpr body _).steady

theorem steady_of_outcome? {a : Analysis} {templates : Std.TreeMap NodeId Template} {e : Expr}
    {build : Edit Expr} (h : outcome? a templates e = some build) : Steady build := by
  unfold outcome? at h
  split at h
  · obtain ⟨function, -, hinlined⟩ := Option.bind_eq_some_iff.mp h
    unfold inlined? at hinlined
    split at hinlined
    · cases hinlined
      exact (Make.candid_literal _).steady
    · split at hinlined
      · split at hinlined
        · cases hinlined
          exact Template.steady_instantiate _ _
        · cases hinlined
      · cases hinlined
  · cases h

theorem candid_transform (a : Analysis) (templates : Std.TreeMap NodeId Template) :
    (transform a templates).Candid True where
  expr role e := by
    unfold transform
    dsimp only
    split
    · exact .pure e
    · rename_i build hbuild
      exact .changed (steady_of_outcome? hbuild) _
  stmt place before after := .pure [after]
  list isBody ss := .pure ss
  func f := .pure f

end InlineFunctions

namespace TailCalls

theorem candid_assignStmt (name : String) (value : Expr) :
    Candid (assignStmt name value) fun _ => True :=
  (Make.candid_assign name value).andThen Make.candid_expr

theorem candid_passArgs (scopes : ScopeTree) (params : List (String × VarId)) (args : List Expr) :
    Candid (passArgs scopes params args) fun _ => True := by
  induction args generalizing params with
  | nil =>
    rw [passArgs]
    refine (Candid.mapM (fun param => ?_) params).andThen fun _ => .pure trivial
    exact Make.candid_undefined.andThen (candid_assignStmt param.1)
  | cons arg args ih =>
    match params with
    | [] => exact .pure trivial
    | (name, v) :: params =>
      rw [passArgs]
      split
      · exact (Candid.uniqueName _).andThen fun temp => (Make.candid_declare temp arg).andThen
          fun _ => (ih params).andThen fun _ => (Make.candid_ident temp).andThen
            fun _ => (candid_assignStmt name _).andThen fun _ => .pure trivial
      · split
        · exact ih params
        · exact (candid_assignStmt name arg).andThen fun _ => (ih params).andThen
            fun _ => .pure trivial

namespace Target

theorem candid_jump (t : Target) (scopes : ScopeTree) (label : String) (args : List Expr) :
    Candid (t.jump scopes label args) fun _ => True :=
  (candid_passArgs scopes t.params args).andThen fun _ => Candid.newId.andThen fun _ =>
    (Make.candid_ident label).andThen fun _ => .pure trivial

theorem candid_jumps (t : Target) (scopes : ScopeTree) (label : String) :
    (t.jumps scopes label).Candid False where
  expr role e := .pure e
  stmt place before after := by
    unfold jumps
    dsimp only
    split
    · exact .pure [after]
    · refine (t.candid_jump scopes label _).andThen fun stmts => ?_
      split
      · exact .pure nofun
      · exact (Make.candid_block stmts).andThen fun _ => .pure nofun
  list isBody ss := .pure ss
  func f := .pure f

theorem steady_loop (t : Target) (scopes : ScopeTree) (fn : Func) : Steady (t.loop scopes fn) := by
  refine (Candid.uniqueName _).steady.bind fun label =>
    ((t.candid_jumps scopes label).onStmts fn.body.stmts).steady.bind fun stmts => ?_
  have hend : Steady (endLoop stmts) := by
    unfold endLoop
    split
    · exact .pure _
    · exact Candid.newId.steady.bind fun _ => .pure _
  exact hend.bind fun stmts => Candid.newId.steady.bind fun _ => Candid.newId.steady.bind fun _ =>
    (Make.candid_block stmts).steady.bind fun _ => Candid.newId.steady.bind fun _ =>
      (Make.candid_ident label).steady.bind fun _ => .pure _

end Target

theorem candid_transform (scopes : ScopeTree) : (transform scopes).Candid True where
  expr role e := .pure e
  stmt place before after := .pure [after]
  list isBody ss := .pure ss
  func f := by
    unfold transform
    dsimp only
    split
    · exact .pure f
    · rename_i t ht
      exact .changed (t.steady_loop scopes f) _

end TailCalls

namespace UnrollLoops

namespace Unrollable

theorem steady_iteration (u : Unrollable) (key : String) : Steady (u.iteration key) :=
  Candid.newId.steady.bind fun _ => (Make.candid_assign u.name _).steady.bind fun e =>
    (Make.candid_expr e).steady.bind fun _ => (Steady.ofFresh _).bind fun _ =>
      (Make.candid_block _).steady

theorem steady_outcome (u : Unrollable) : Steady u.outcome := by
  have hdeclaration : Steady u.declaration := by
    unfold declaration
    split
    · exact (Make.candid_vars _).steady.bind fun _ => .pure _
    · exact .pure _
  exact hdeclaration.bind fun _ => (Steady.mapM u.steady_iteration u.keys).bind fun _ =>
    (Make.candid_block _).steady

end Unrollable

theorem candid_transform (a : Analysis) : (transform a).Candid True where
  expr role e := .pure e
  stmt place before after := by
    unfold transform
    dsimp only
    split
    · exact .pure [after]
    · rename_i u hu
      exact .changed (u.steady_outcome.bind fun _ => .pure _) _
  list isBody ss := .pure ss
  func f := .pure f

end UnrollLoops

namespace RemoveUnused

theorem candid_stmt (kind : DeclKind) (r : Remnant) : Candid (r.stmt kind) fun _ => True := by
  cases r with
  | decls kept => exact Candid.newId.andThen fun _ => .pure trivial
  | effect before after => exact Make.candid_expr after

theorem candid_remnantStmts (u : Unused) (place : Place) (kind : DeclKind) (parts : List Remnant) :
    Candid (remnantStmts u place kind parts) fun _ => True := by
  unfold remnantStmts
  split
  · exact (Candid.mapM (candid_stmt kind) _).andThen fun ss =>
      (Make.candid_block ss).andThen fun _ => .pure trivial
  · exact Candid.mapM (candid_stmt kind) parts

theorem restores_onStmt (u : Unused) (place : Place) (before after : Stmt) :
    Restores True (onStmt u place before after) [after] := by
  unfold onStmt
  split
  · split
    · exact .changed (.pure _) _
    · exact .pure _
  · split
    · exact .changed (candid_remnantStmts u place _ _).steady _
    · exact .pure _
  · split
    · exact .changed (.pure _) _
    · exact .pure _
  · exact .pure _

theorem restores_onExpr (u : Unused) (e : Expr) : Restores True (onExpr u e) e := by
  unfold onExpr
  split
  · split
    · exact .changed (.pure _) _
    · exact .pure _
  · split
    · exact .pure _
    · exact .changed (.pure _) _
    · exact .changed (Make.candid_seq _).steady _
  · exact .pure _

theorem candid_transform (u : Unused) : (transform u).Candid True where
  expr _ := restores_onExpr u
  stmt := restores_onStmt u
  list _ ss := .pure ss
  func f := .pure f

end RemoveUnused

namespace SimplifyBlocks

theorem steady_hoisted (ss : List Stmt) : Steady (hoisted ss) := by
  unfold hoisted
  simp only
  split
  · exact .pure _
  · exact (Make.candid_vars _).steady.bind fun _ => .pure _

theorem restores_dropUnreached (ss : List Stmt) : Restores True (dropUnreached ss) ss := by
  unfold dropUnreached
  simp only
  split
  · exact .pure ss
  · exact .changed ((steady_hoisted _).bind fun _ => .pure _) _

theorem restores_simplifyMembers (a : Analysis) (ss : List Stmt) :
    Restores True (simplifyMembers a ss) ss := by
  induction ss with
  | nil => exact .pure []
  | cons s rest ih =>
    rw [simplifyMembers]
    split
    · exact ih.map₁
    · exact .changed (ih.steady.bind fun _ => .pure _) _

theorem candid_transform (a : Analysis) : (transform a).Candid True where
  expr role e := .pure e
  stmt place before after := .pure [after]
  list isBody ss := by
    refine (restores_dropUnreached ss).andThen (g := fun ss => ss) fun ss => ?_
    split
    · rw [List.span_eq_takeWhile_dropWhile]
      have hrest := (restores_simplifyMembers a (ss.dropWhile Stmt.isDirective)).map₁
        (f := (ss.takeWhile Stmt.isDirective ++ ·))
      rwa [List.takeWhile_append_dropWhile] at hrest
    · exact restores_simplifyMembers a ss
  func f := .pure f

end SimplifyBlocks

/-! ## Whole programs -/

/-- The program is the same one; ids may have been handed out since. -/
structure Source.Unchanged (src next : Source) : Prop where
  program : next.program = src.program
  nextId : src.nextId ≤ next.nextId

namespace Source.Unchanged

variable {src mid next : Source}

theorem refl (src : Source) : src.Unchanged src := ⟨rfl, Nat.le_refl _⟩

theorem trans (h : src.Unchanged mid) (h' : mid.Unchanged next) : src.Unchanged next :=
  ⟨h'.program.trans h.program, Nat.le_trans h.nextId h'.nextId⟩

end Source.Unchanged

namespace Transform.Candid

variable {t : Transform} {src : Source} {taken : List String}

theorem onProgram {exact : Prop} (h : t.Candid exact) (p : Program) :
    Restores exact (t.onProgram p) p := by
  obtain ⟨id, body⟩ := p
  exact ((h.onStmts body).andThen (h.list true)).map₁ (f := Program.mk id)

theorem run (h : t.Candid True) (hrun : (t.run src taken).2 = false) :
    src.Unchanged (t.run src taken).1 := by
  obtain ⟨-, hle, hsame⟩ := h.onProgram src.program ⟨src.nextId, false, taken⟩ hrun
  exact ⟨(hsame trivial).1, hle⟩

/-- Which ids are new plays no role. -/
theorem run_again (h : t.Candid True) (hrun : (t.run src taken).2 = false) (nextId : NodeId) :
    (t.run { src with nextId } taken).2 = false := by
  obtain ⟨-, -, hsame⟩ := h.onProgram src.program ⟨src.nextId, false, taken⟩ hrun
  exact (hsame trivial).2 ⟨nextId, false, taken⟩ rfl

end Transform.Candid

/-- The passes. -/
def Options.passList (o : Options) : List (Analysis → Source → Source × Bool) :=
  [removeDeadBranches, foldConstants, inlineFunctions, loopTailCalls, unrollLoops, removeUnused o,
    simplifyBlocks]

theorem Options.enabledPasses_subset (o : Options) : o.enabledPasses ⊆ o.passList := by
  intro pass hpass
  obtain ⟨x, hx, rfl⟩ := List.mem_map.mp hpass
  have hmem := (List.mem_filter.mp hx).1
  simp only [List.mem_cons, List.not_mem_nil, or_false] at hmem
  rcases hmem with rfl | rfl | rfl | rfl | rfl | rfl | rfl <;> simp [passList]

section

variable {o : Options} {pass : Analysis → Source → Source × Bool}
variable {passes : List (Analysis → Source → Source × Bool)} {a : Analysis} {src : Source}

/-- Each pass is one traversal of the program. -/
theorem candid_of_pass (hpass : pass ∈ o.passList) (a : Analysis) (p : Program) :
    ∃ (t : Transform) (taken : List String), t.Candid True ∧
      ∀ nextId, pass a ⟨p, nextId⟩ = t.run ⟨p, nextId⟩ taken := by
  simp only [Options.passList, List.mem_cons, List.not_mem_nil, or_false] at hpass
  rcases hpass with rfl | rfl | rfl | rfl | rfl | rfl | rfl
  · exact ⟨_, [], DeadBranches.candid_transform a, fun _ => rfl⟩
  · exact ⟨_, [], FoldConstants.candid_transform a, fun _ => rfl⟩
  · exact ⟨_, [], InlineFunctions.candid_transform a (InlineFunctions.templates a.scopes p), fun _ => rfl⟩
  · exact ⟨_, p.usedNames, TailCalls.candid_transform a.scopes, fun _ => rfl⟩
  · exact ⟨_, [], UnrollLoops.candid_transform a, fun _ => rfl⟩
  · exact ⟨_, [], RemoveUnused.candid_transform (.ofProgram o a p), fun _ => rfl⟩
  · exact ⟨_, [], SimplifyBlocks.candid_transform a, fun _ => rfl⟩

theorem unchanged_of_pass (hpass : pass ∈ o.passList) (h : (pass a src).2 = false) :
    src.Unchanged (pass a src).1 := by
  obtain ⟨p, nextId⟩ := src
  obtain ⟨t, taken, ht, heq⟩ := candid_of_pass hpass a p
  rw [heq nextId] at h ⊢
  exact ht.run h

theorem unchanged_of_firstChange (hpasses : passes ⊆ o.passList)
    (h : (firstChange a passes src).2 = false) : src.Unchanged (firstChange a passes src).1 := by
  induction passes generalizing src with
  | nil => exact .refl src
  | cons pass rest ih =>
    obtain ⟨hpass, hrest⟩ := List.cons_subset.mp hpasses
    rw [firstChange] at h ⊢
    split at h
    · cases h
    · rename_i next hnext
      have hsame := unchanged_of_pass hpass (congrArg Prod.snd hnext)
      rw [hnext] at hsame
      exact hsame.trans (ih hrest h)

theorem unchanged_of_optimizeFrom {rounds : Nat} {facts : Facts}
    (h : (src.optimizeFrom o rounds facts).2 = false) :
    src.Unchanged (src.optimizeFrom o rounds facts).1 := by
  induction rounds generalizing facts with
  | zero => exact .refl src
  | succ n ih =>
    rw [Source.optimizeFrom] at h ⊢
    split at h
    · rename_i hstable
      rw [if_pos hstable]
      split at h
      · cases h
      · rename_i next hnext
        have hsame := unchanged_of_firstChange o.enabledPasses_subset (congrArg Prod.snd hnext)
        rwa [hnext] at hsame
    · rename_i hstable
      rw [if_neg hstable]
      exact ih h

theorem unchanged_of_optimize (h : (src.optimize o).2 = false) :
    src.Unchanged (src.optimize o).1 := by
  unfold Source.optimize at h ⊢
  split at h
  · rename_i hdynamic
    rw [if_pos hdynamic]
    exact .refl src
  · rename_i hdynamic
    rw [if_neg hdynamic]
    exact unchanged_of_optimizeFrom h

/-- What every pass preserves is preserved by trying passes in turn, since a pass that changes nothing
leaves the program that was analyzed to the next. -/
theorem preserved_by_firstChange {P : Source → Prop} {p : Program}
    (hpass : ∀ src : Source, src.program = p → P src → ∀ pass ∈ o.passList, P (pass a src).1)
    (hpasses : passes ⊆ o.passList) (hprogram : src.program = p) (h : P src) :
    P (firstChange a passes src).1 := by
  induction passes generalizing src with
  | nil => exact h
  | cons pass rest ih =>
    obtain ⟨hmem, hrest⟩ := List.cons_subset.mp hpasses
    have hnext := hpass src hprogram h pass hmem
    rw [firstChange]
    split
    · rename_i next heq
      rwa [heq] at hnext
    · rename_i next heq
      have hsame := unchanged_of_pass hmem (congrArg Prod.snd heq)
      rw [heq] at hnext hsame
      exact ih hrest (hsame.program.trans hprogram) hnext

/-- What every pass preserves, given an analysis of the program, is preserved by the optimizer. -/
theorem preserved_by_optimizeFrom {P : Source → Prop}
    (hpass : ∀ (src : Source) (facts : Facts), P src → ∀ pass ∈ o.passList,
      P (pass (analyze src.program o facts false) src).1)
    (rounds : Nat) (facts : Facts) (h : P src) : P (src.optimizeFrom o rounds facts).1 := by
  induction rounds generalizing src facts with
  | zero => exact h
  | succ n ih =>
    have hfirst : P (firstChange (analyze src.program o facts false) o.enabledPasses src).1 :=
      preserved_by_firstChange (fun cur hcur hP => hcur ▸ hpass cur facts hP)
        o.enabledPasses_subset rfl h
    rw [Source.optimizeFrom]
    split
    · split
      · rename_i next heq
        rw [heq] at hfirst
        exact ih {} hfirst
      · rename_i next heq
        rwa [heq] at hfirst
    · exact ih _ h

end

/-- A pass that reports no change leaves the program as it was, ids included; at most ids were handed
out. So the program is as it was whenever the optimizer reports no change, be it that names may mean
something else at run time, that there was nothing to do or that the rounds ran out before. -/
theorem unchanged_through_passes (src : Source) (options : Options) :
    (∀ a : Analysis, ∀ pass ∈ options.passList, (pass a src).2 = false →
      src.Unchanged (pass a src).1) ∧
    ((src.optimize options).2 = false → src.Unchanged (src.optimize options).1) :=
  ⟨fun _ _ hpass h => unchanged_of_pass hpass h, unchanged_of_optimize⟩

/-- `while (f(x)) { }`, of which nothing is known. -/
def emptyLoop : Source where
  program := ⟨0, [.while 6 (.call 3 (.ident ⟨1, "f"⟩) [.ident ⟨2, "x"⟩]) (.block ⟨5, []⟩)]⟩
  nextId := 7

theorem emptyLoop_unchanged :
    emptyLoop.Unchanged (removeDeadBranches (analyze emptyLoop.program {} {} false) emptyLoop).1 ∧
    emptyLoop.Unchanged (emptyLoop.optimize {}).1 :=
  ⟨(unchanged_through_passes emptyLoop {}).1 _ _ (by simp [Options.passList]) (by decide +kernel),
    (unchanged_through_passes emptyLoop {}).2 (by decide +kernel)⟩

end EsOptimizer
