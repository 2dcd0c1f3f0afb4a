import EsOptimizer.Proofs.Syntax.Legal
import EsOptimizer.Proofs.Syntax.Parts

/-!
# What changes yield

`Yields` says of a computation what its result is like, whatever ids it hands out. `Demands` are what
is asked of a tree beyond the grammar, so that a change of it is legal again: some conditions on what
is assigned to, and on where the bodies of functions may stand. A copy meets the demands that its
model meets, and may stand wherever that may.
-/

namespace EsOptimizer

/-! ## Results -/

/-- From a state that satisfies `I`, a computation comes to such a state, with a result that
satisfies `P`. -/
def Yields {σ α : Type} (I : σ → Prop) (x : StateM σ α) (P : α → Prop) : Prop :=
  ∀ s, I s → I (x s).2 ∧ P (x s).1

namespace Yields

variable {σ α β : Type} {I : σ → Prop} {x : StateM σ α} {P Q : α → Prop}

theorem pure {a : α} (h : P a) : Yields I (Pure.pure a) P := fun _ hs => ⟨hs, h⟩

theorem bind {f : α → StateM σ β} {R : β → Prop} (hx : Yields I x P)
    (hf : ∀ a, P a → Yields I (f a) R) : Yields I (x >>= f) R := by
  intro s hs
  obtain ⟨hs', ha⟩ := hx s hs
  exact hf _ ha _ hs'

theorem imp (hx : Yields I x P) (h : ∀ a, P a → Q a) : Yields I x Q :=
  fun s hs => ⟨(hx s hs).1, h _ (hx s hs).2⟩

theorem and (hx : Yields I x P) (hx' : Yields I x Q) : Yields I x fun a => P a ∧ Q a :=
  fun s hs => ⟨(hx s hs).1, (hx s hs).2, (hx' s hs).2⟩

theorem mapM {f : β → StateM σ α} {bs : List β} (h : ∀ b ∈ bs, Yields I (f b) P) :
    Yields I (bs.mapM f) fun as => as.length = bs.length ∧ ∀ a ∈ as, P a := by
  induction bs with
  | nil => exact .pure ⟨rfl, nofun⟩
  | cons b bs ih =>
    rw [List.mapM_cons]
    obtain ⟨hb, hbs⟩ := List.forall_mem_cons.mp h
    refine hb.bind fun a ha => (ih hbs).bind fun as has => .pure ⟨?_, ?_⟩
    · rw [List.length_cons, List.length_cons, has.1]
    · exact List.forall_mem_cons.mpr ⟨ha, has.2⟩

end Yields

/-! ## Demands -/

/-- What is asked of a tree beyond the grammar, and what is known of its surroundings. -/
structure Demands where
  /-- Of what is assigned to. -/
  target : Expr → Prop := fun _ => True
  /-- Where the bodies of functions may stand. -/
  body : Surroundings → Prop := fun cx => cx = .function
  /-- Labels of loops around. -/
  loops : List String := []
  /-- Names that are in use. -/
  taken : List String := []

/-- The names in use are not handed out any more. -/
def Demands.Kept (d : Demands) (s : EditState) : Prop := d.taken ⊆ s.taken

/-- A node by itself meets demands. -/
structure Node.Meets (d : Demands) (n : Node) : Prop where
  legal : n.isLegal = true
  target : ∀ e, n.assigned? = some e → d.target e
  body : ∀ f, n = .func f → ∀ cx, d.body cx → f.body.isPlaced cx = true

/-- Every node of a list meets demands. -/
def AllMeet (d : Demands) (ns : List Node) : Prop := ∀ n ∈ ns, n.Meets d

section

variable {d : Demands} {n : Node} {ns ms : List Node}

/-- A node that neither assigns nor is a function. -/
theorem Node.meets_of_legal (h : n.isLegal = true) (hassigned : n.assigned? = none)
    (hfunc : n.func? = none) : n.Meets d where
  legal := h
  target e he := by
    rw [hassigned] at he
    cases he
  body f hf := by
    rw [hf] at hfunc
    cases hfunc

@[simp] theorem Node.meets_name (i : Ident) : (Node.name i).Meets d := meets_of_legal rfl rfl rfl

@[simp] theorem allMeet_nil : AllMeet d [] := nofun

@[simp] theorem allMeet_cons : AllMeet d (n :: ns) ↔ n.Meets d ∧ AllMeet d ns :=
  List.forall_mem_cons

@[simp] theorem allMeet_append : AllMeet d (ns ++ ms) ↔ AllMeet d ns ∧ AllMeet d ms :=
  List.forall_mem_append

@[simp] theorem allMeet_names (is : List Ident) : AllMeet d (is.map .name) := by
  intro n hn
  obtain ⟨i, -, rfl⟩ := List.mem_map.mp hn
  exact Node.meets_name i

@[simp] theorem allMeet_name? (name : Option Ident) : AllMeet d (Node.name? name) := by
  cases name <;> simp [Node.name?]

theorem AllMeet.legal (h : AllMeet d ns) : AllLegal ns := fun n hn => (h n hn).legal

theorem AllMeet.mono (h : AllMeet d ns) (hsub : ms ⊆ ns) : AllMeet d ms := fun n hn => h n (hsub hn)

end

/-! ## Copies -/

/-- An expression is a target, or a certain name, if another is. -/
structure Expr.Like (e x : Expr) : Prop where
  target : x.isTarget = e.isTarget
  name : ∀ i, x = .ident i → ∃ j, e = .ident j ∧ j.name = i.name

/-- Demands that do not depend on ids. -/
def Demands.Nominal (d : Demands) : Prop := ∀ e x : Expr, e.Like x → d.target e → d.target x

theorem Expr.Like.of_eq {e x : Expr} (h : x.isTarget = e.isTarget) (hx : ∀ i, x ≠ .ident i) :
    e.Like x :=
  ⟨h, fun i hi => absurd hi (hx i)⟩

/-- What is like something that may be assigned to may be assigned to. -/
theorem Demands.Nominal.assigned {d : Demands} (hd : d.Nominal) {e x : Expr} (h : e.Like x)
    (he : ∀ y, (if e.isTarget then some e else none) = some y → d.target y) :
    ∀ y, (if x.isTarget then some x else none) = some y → d.target y := by
  intro y hy
  rw [h.target] at hy
  split at hy
  · cases hy
    rename_i htarget
    exact hd e x h (he e (if_pos htarget))
  · cases hy

/-- What a computation gives that only hands out ids. -/
abbrev Copies {α : Type} (x : Fresh α) (P : α → Prop) : Prop := Yields (fun _ => True) x P

section

variable {α : Type} {P : α → Prop}

theorem Yields.fresh {f : NodeId → Fresh α} (h : ∀ id, Copies (f id) P) :
    Copies (EsOptimizer.fresh >>= f) P :=
  fun n hn => h n (n + 1) hn

theorem Yields.renamed {i : Ident} {f : Ident → Fresh α} (h : ∀ id, Copies (f ⟨id, i.name⟩) P) :
    Copies (i.renumber >>= f) P :=
  .fresh h

theorem Ident.copies_renumber? (name : Option Ident) :
    Copies (Ident.renumber? name) fun x => x.map (·.name) = name.map (·.name) := by
  cases name with
  | none => exact .pure rfl
  | some i => exact .renamed fun id => .pure rfl

end

/-- A copy of an expression is like it. -/
structure ExprCopy (d : Demands) (e x : Expr) : Prop where
  meets : AllMeet d (x.nodes true)
  like : e.Like x

/-- A copy of a statement may stand where it may. -/
structure StmtCopy (d : Demands) (s x : Stmt) : Prop where
  meets : AllMeet d (x.nodes true)
  placed : ∀ cx, s.isPlaced cx = true → x.isPlaced cx = true

section

variable {d : Demands}

mutual

theorem Expr.copies_renumber (hd : d.Nominal) (e : Expr) (he : AllMeet d (e.nodes true)) :
    Copies e.renumber (ExprCopy d e) := by
  cases e with
  | array _ elems =>
    exact .fresh fun id => (copies_renumberElems hd elems (allMeet_cons.mp he).2).bind fun a ha =>
      .pure ⟨allMeet_cons.mpr ⟨Node.meets_of_legal rfl rfl rfl, ha⟩, .of_eq rfl nofun⟩
  | object _ props =>
    obtain ⟨hhead, hprops⟩ := allMeet_cons.mp he
    exact .fresh fun id => (copies_renumberProps hd props hprops).bind fun a ha =>
      .pure ⟨allMeet_cons.mpr ⟨Node.meets_of_legal (ha.2.trans hhead.legal) rfl rfl, ha.1⟩,
        .of_eq rfl nofun⟩
  | function _ name fn =>
    obtain ⟨-, hfn⟩ := allMeet_append.mp (allMeet_cons.mp he).2
    exact .fresh fun id => (Ident.copies_renumber? name).bind fun a _ =>
      (Func.copies_renumber hd fn hfn).bind fun b hb => .pure ⟨allMeet_cons.mpr
        ⟨Node.meets_of_legal rfl rfl rfl, allMeet_append.mpr ⟨allMeet_name? a, hb.1⟩⟩, .of_eq rfl nofun⟩
  | unary _ op arg =>
    exact .fresh fun id => (Expr.copies_renumber hd arg (allMeet_cons.mp he).2).bind fun a ha =>
      .pure ⟨allMeet_cons.mpr ⟨Node.meets_of_legal rfl rfl rfl, ha.meets⟩, .of_eq rfl nofun⟩
  | update _ op before arg =>
    obtain ⟨hhead, harg⟩ := allMeet_cons.mp he
    exact .fresh fun id => (Expr.copies_renumber hd arg harg).bind fun a ha =>
      .pure ⟨allMeet_cons.mpr ⟨⟨ha.like.target.trans hhead.legal, hd.assigned ha.like hhead.target, nofun⟩,
        ha.meets⟩, .of_eq rfl nofun⟩
  | binary _ op left right =>
    obtain ⟨hleft, hright⟩ := allMeet_append.mp (allMeet_cons.mp he).2
    exact .fresh fun id => (Expr.copies_renumber hd left hleft).bind fun a ha =>
      (Expr.copies_renumber hd right hright).bind fun b hb => .pure ⟨allMeet_cons.mpr
        ⟨Node.meets_of_legal rfl rfl rfl, allMeet_append.mpr ⟨ha.meets, hb.meets⟩⟩, .of_eq rfl nofun⟩
  | assign _ op left right =>
    obtain ⟨hhead, hparts⟩ := allMeet_cons.mp he
    obtain ⟨hleft, hright⟩ := allMeet_append.mp hparts
    exact .fresh fun id => (Expr.copies_renumber hd left hleft).bind fun a ha =>
      (Expr.copies_renumber hd right hright).bind fun b hb => .pure ⟨allMeet_cons.mpr
        ⟨⟨ha.like.target.trans hhead.legal, hd.assigned ha.like hhead.target, nofun⟩,
          allMeet_append.mpr ⟨ha.meets, hb.meets⟩⟩, .of_eq rfl nofun⟩
  | member _ obj name =>
    exact .fresh fun id => (Expr.copies_renumber hd obj (allMeet_cons.mp he).2).bind fun a ha =>
      .renamed fun id' =>
        .pure ⟨allMeet_cons.mpr ⟨Node.meets_of_legal rfl rfl rfl, ha.meets⟩, .of_eq rfl nofun⟩
  | index _ obj key =>
    obtain ⟨hobj, hkey⟩ := allMeet_append.mp (allMeet_cons.mp he).2
    exact .fresh fun id => (Expr.copies_renumber hd obj hobj).bind fun a ha =>
      (Expr.copies_renumber hd key hkey).bind fun b hb => .pure ⟨allMeet_cons.mpr
        ⟨Node.meets_of_legal rfl rfl rfl, allMeet_append.mpr ⟨ha.meets, hb.meets⟩⟩, .of_eq rfl nofun⟩
  | cond _ test yes no =>
    obtain ⟨hfirst, hno⟩ := allMeet_append.mp (allMeet_cons.mp he).2
    obtain ⟨htest, hyes⟩ := allMeet_append.mp hfirst
    exact .fresh fun id => (Expr.copies_renumber hd test htest).bind fun a ha =>
      (Expr.copies_renumber hd yes hyes).bind fun b hb =>
        (Expr.copies_renumber hd no hno).bind fun c hc => .pure ⟨allMeet_cons.mpr
          ⟨Node.meets_of_legal rfl rfl rfl,
            allMeet_append.mpr ⟨allMeet_append.mpr ⟨ha.meets, hb.meets⟩, hc.meets⟩⟩, .of_eq rfl nofun⟩
  | call _ callee args =>
    obtain ⟨hcallee, hargs⟩ := allMeet_append.mp (allMeet_cons.mp he).2
    exact .fresh fun id => (Expr.copies_renumber hd callee hcallee).bind fun a ha =>
      (copies_renumberExprs hd args hargs).bind fun b hb => .pure ⟨allMeet_cons.mpr
        ⟨Node.meets_of_legal rfl rfl rfl, allMeet_append.mpr ⟨ha.meets, hb.1⟩⟩, .of_eq rfl nofun⟩
  | new _ callee args =>
    obtain ⟨hcallee, hargs⟩ := allMeet_append.mp (allMeet_cons.mp he).2
    exact .fresh fun id => (Expr.copies_renumber hd callee hcallee).bind fun a ha =>
      (copies_renumberExprs hd args hargs).bind fun b hb => .pure ⟨allMeet_cons.mpr
        ⟨Node.meets_of_legal rfl rfl rfl, allMeet_append.mpr ⟨ha.meets, hb.1⟩⟩, .of_eq rfl nofun⟩
  | seq _ exprs =>
    obtain ⟨hhead, hexprs⟩ := allMeet_cons.mp he
    refine .fresh fun id => (copies_renumberExprs hd exprs hexprs).bind fun a ha =>
      .pure ⟨allMeet_cons.mpr ⟨Node.meets_of_legal ?_ rfl rfl, ha.1⟩, .of_eq rfl nofun⟩
    rw [Node.isLegal, ha.2]
    exact hhead.legal
  | ident i =>
    refine .renamed fun id => .pure ⟨?_, rfl, ?_⟩
    · exact allMeet_cons.mpr ⟨Node.meets_of_legal rfl rfl rfl, allMeet_cons.mpr ⟨Node.meets_name _, allMeet_nil⟩⟩
    · rintro j ⟨⟩
      exact ⟨i, rfl, rfl⟩
  | _ =>
    exact .fresh fun id => .pure
      ⟨allMeet_cons.mpr ⟨Node.meets_of_legal rfl rfl rfl, allMeet_nil⟩, .of_eq rfl nofun⟩
termination_by structural e

theorem copies_renumberElems (hd : d.Nominal) (es : List (Option Expr))
    (hes : AllMeet d (elemNodes true es)) :
    Copies (renumberElems es) fun xs => AllMeet d (elemNodes true xs) := by
  match es with
  | [] => exact .pure allMeet_nil
  | none :: rest => exact (copies_renumberElems hd rest hes).bind fun a ha => .pure ha
  | some e :: rest =>
    obtain ⟨he, hrest⟩ := allMeet_append.mp hes
    exact (Expr.copies_renumber hd e he).bind fun a ha =>
      (copies_renumberElems hd rest hrest).bind fun b hb => .pure (allMeet_append.mpr ⟨ha.meets, hb⟩)
termination_by structural es

theorem copies_renumberExprs (hd : d.Nominal) (es : List Expr) (hes : AllMeet d (exprNodes true es)) :
    Copies (renumberExprs es) fun xs => AllMeet d (exprNodes true xs) ∧ xs.length = es.length := by
  match es with
  | [] => exact .pure ⟨allMeet_nil, rfl⟩
  | e :: rest =>
    obtain ⟨he, hrest⟩ := allMeet_append.mp hes
    exact (Expr.copies_renumber hd e he).bind fun a ha =>
      (copies_renumberExprs hd rest hrest).bind fun b hb =>
        .pure ⟨allMeet_append.mpr ⟨ha.meets, hb.1⟩, congrArg (· + 1) hb.2⟩
termination_by structural es

theorem copies_renumberExpr? (hd : d.Nominal) (e : Option Expr) (he : AllMeet d (exprNodes? true e)) :
    Copies (renumberExpr? e) fun x => AllMeet d (exprNodes? true x) ∧ x.isNone = e.isNone := by
  match e with
  | none => exact .pure ⟨allMeet_nil, rfl⟩
  | some e => exact (Expr.copies_renumber hd e he).bind fun a ha => .pure ⟨ha.meets, rfl⟩
termination_by structural e

theorem PropertyKey.copies_renumber (hd : d.Nominal) (key : PropertyKey)
    (hkey : AllMeet d (key.nodes true)) :
    Copies key.renumber fun x => AllMeet d (x.nodes true) := by
  match key with
  | .computed e => exact (Expr.copies_renumber hd e hkey).bind fun a ha => .pure ha.meets
  | .ident _ => exact .renamed fun id => .pure allMeet_nil
  | .string _ _ => exact .fresh fun id => .pure allMeet_nil
  | .number _ _ => exact .fresh fun id => .pure allMeet_nil
termination_by structural key

theorem Property.copies_renumber (hd : d.Nominal) (p : Property) (hp : AllMeet d (p.nodes true)) :
    Copies p.renumber fun x => AllMeet d (x.nodes true) ∧ x.isLegal = p.isLegal := by
  match p with
  | .value _ key e =>
    obtain ⟨hkey, he⟩ := allMeet_append.mp hp
    exact .fresh fun id => (PropertyKey.copies_renumber hd key hkey).bind fun a ha =>
      (Expr.copies_renumber hd e he).bind fun b hb =>
        .pure ⟨allMeet_append.mpr ⟨ha, hb.meets⟩, rfl⟩
  | .getter _ key fn =>
    obtain ⟨hkey, hfn⟩ := allMeet_append.mp hp
    exact .fresh fun id => (PropertyKey.copies_renumber hd key hkey).bind fun a ha =>
      (Func.copies_renumber hd fn hfn).bind fun b hb =>
        .pure ⟨allMeet_append.mpr ⟨ha, hb.1⟩, congrArg (· == 0) hb.2⟩
  | .setter _ key fn =>
    obtain ⟨hkey, hfn⟩ := allMeet_append.mp hp
    exact .fresh fun id => (PropertyKey.copies_renumber hd key hkey).bind fun a ha =>
      (Func.copies_renumber hd fn hfn).bind fun b hb =>
        .pure ⟨allMeet_append.mpr ⟨ha, hb.1⟩, congrArg (· == 1) hb.2⟩
termination_by structural p

theorem copies_renumberProps (hd : d.Nominal) (ps : List Property)
    (hps : AllMeet d (propNodes true ps)) :
    Copies (renumberProps ps) fun xs =>
      AllMeet d (propNodes true xs) ∧ xs.all Property.isLegal = ps.all Property.isLegal := by
  match ps with
  | [] => exact .pure ⟨allMeet_nil, rfl⟩
  | p :: rest =>
    obtain ⟨hp, hrest⟩ := allMeet_append.mp hps
    exact (Property.copies_renumber hd p hp).bind fun a ha =>
      (copies_renumberProps hd rest hrest).bind fun b hb =>
        .pure ⟨allMeet_append.mpr ⟨ha.1, hb.1⟩, congrArg₂ (· && ·) ha.2 hb.2⟩
termination_by structural ps

theorem Func.copies_renumber (hd : d.Nominal) (f : Func) (hf : AllMeet d (f.nodes true)) :
    Copies f.renumber fun x => AllMeet d (x.nodes true) ∧ x.params.length = f.params.length := by
  match f with
  | ⟨_, params, body⟩ =>
    obtain ⟨hhead, hparts⟩ := allMeet_cons.mp hf
    obtain ⟨-, hbody⟩ := allMeet_append.mp hparts
    have hparams : Copies (params.mapM Ident.renumber) _ :=
      .mapM (P := fun _ => True) fun i _ => .renamed fun id => .pure trivial
    refine .fresh fun id => hparams.bind fun a ha =>
      (Block.copies_renumber hd body hbody).bind fun b hb => .pure ⟨allMeet_cons.mpr ⟨?_, ?_⟩, ha.1⟩
    · refine ⟨hb.2 _ hhead.legal, nofun, ?_⟩
      rintro f ⟨⟩ cx hcx
      exact hb.2 cx (hhead.body _ rfl cx hcx)
    · exact allMeet_append.mpr ⟨allMeet_names a, hb.1⟩
termination_by structural f

theorem Block.copies_renumber (hd : d.Nominal) (b : Block) (hb : AllMeet d (b.nodes true)) :
    Copies b.renumber fun x =>
      AllMeet d (x.nodes true) ∧ ∀ cx, b.isPlaced cx = true → x.isPlaced cx = true := by
  match b with
  | ⟨_, stmts⟩ =>
    exact .fresh fun id => (copies_renumberStmts hd stmts hb).bind fun a ha => .pure ha
termination_by structural b

theorem copies_renumberBlock? (hd : d.Nominal) (b : Option Block)
    (hb : AllMeet d (blockNodes? true b)) :
    Copies (renumberBlock? b) fun x => AllMeet d (blockNodes? true x) ∧ x.isSome = b.isSome ∧
      ∀ cx, blockPlaced? cx b = true → blockPlaced? cx x = true := by
  match b with
  | none => exact .pure ⟨allMeet_nil, rfl, fun _ h => h⟩
  | some b => exact (Block.copies_renumber hd b hb).bind fun a ha => .pure ⟨ha.1, rfl, ha.2⟩
termination_by structural b

theorem copies_renumberDecls (hd : d.Nominal) (ds : List Declarator)
    (hds : AllMeet d (declNodes true ds)) :
    Copies (renumberDecls ds) fun xs => AllMeet d (declNodes true xs) ∧
      xs.map (·.init.isNone) = ds.map (·.init.isNone) := by
  match ds with
  | [] => exact .pure ⟨allMeet_nil, rfl⟩
  | ⟨id, name, init⟩ :: rest =>
    obtain ⟨hfirst, hrest⟩ := allMeet_append.mp hds
    have hdecl : Copies (Declarator.renumber ⟨id, name, init⟩) fun x =>
        AllMeet d (x.nodes true) ∧ x.init.isNone = init.isNone :=
      .fresh fun id => .renamed fun id' =>
        (copies_renumberExpr? hd init (allMeet_cons.mp hfirst).2).bind fun a ha =>
          .pure ⟨allMeet_cons.mpr ⟨Node.meets_name _, ha.1⟩, ha.2⟩
    exact hdecl.bind fun a ha => (copies_renumberDecls hd rest hrest).bind fun b hb =>
      .pure ⟨allMeet_append.mpr ⟨ha.1, hb.1⟩, congrArg₂ List.cons ha.2 hb.2⟩
termination_by structural ds

theorem VarDecl.copies_renumber (hd : d.Nominal) (x : VarDecl)
    (hx : AllMeet d (declNodes true x.decls)) :
    Copies x.renumber fun y => AllMeet d (declNodes true y.decls) ∧
      y.decls.map (·.init.isNone) = x.decls.map (·.init.isNone) := by
  match x with
  | ⟨_, kind, decls⟩ =>
    exact .fresh fun id => (copies_renumberDecls hd decls hx).bind fun a ha => .pure ha
termination_by structural x

theorem ForHead.copies_renumber (hd : d.Nominal) (head : ForHead)
    (hhead : AllMeet d (head.nodes true)) :
    Copies head.renumber fun x => AllMeet d (x.nodes true) := by
  match head with
  | .decl ⟨id, kind, decls⟩ =>
    obtain ⟨hdecl, hdecls⟩ := allMeet_cons.mp hhead
    refine (VarDecl.copies_renumber hd ⟨id, kind, decls⟩ hdecls).bind fun a ha => .pure ?_
    obtain ⟨id', kind', decls'⟩ := a
    exact allMeet_cons.mpr ⟨Node.meets_of_legal
      ((VarDecl.isLegal_congr ha.2).1.trans hdecl.legal) rfl rfl, ha.1⟩
  | .expr e => exact (Expr.copies_renumber hd e hhead).bind fun a ha => .pure ha.meets
termination_by structural head

theorem copies_renumberHead? (hd : d.Nominal) (head : Option ForHead)
    (hhead : AllMeet d (headNodes? true head)) :
    Copies (renumberHead? head) fun x => AllMeet d (headNodes? true x) := by
  match head with
  | none => exact .pure allMeet_nil
  | some head => exact (ForHead.copies_renumber hd head hhead).bind fun a ha => .pure ha
termination_by structural head

/-- What a `for-in` loop assigns to is like what its model assigns to. -/
theorem ForHead.copies_renumberLoop (hd : d.Nominal) (head : ForHead)
    (hhead : AllMeet d (head.loopNodes true)) :
    Copies head.renumber fun x => AllMeet d (x.loopNodes true) ∧ ∀ {id obj body id' obj' body'},
      (Node.stmt (.forIn id head obj body)).Meets d → (Node.stmt (.forIn id' x obj' body')).Meets d := by
  match head with
  | .decl ⟨id, kind, decls⟩ =>
    obtain ⟨hdecl, hdecls⟩ := allMeet_cons.mp hhead
    refine (VarDecl.copies_renumber hd ⟨id, kind, decls⟩ hdecls).bind fun a ha =>
      .pure ⟨?_, fun _ => Node.meets_of_legal rfl rfl rfl⟩
    obtain ⟨id', kind', decls'⟩ := a
    exact allMeet_cons.mpr ⟨Node.meets_of_legal
      ((VarDecl.isLegal_congr ha.2).2.trans hdecl.legal) rfl rfl, ha.1⟩
  | .expr e =>
    exact (Expr.copies_renumber hd e hhead).bind fun a ha => .pure ⟨ha.meets, fun h =>
      ⟨ha.like.target.trans h.legal, hd.assigned ha.like h.target, nofun⟩⟩
termination_by structural head

theorem copies_renumberHandler? (hd : d.Nominal) (c : Option CatchClause)
    (hc : AllMeet d (handlerNodes? true c)) :
    Copies (renumberHandler? c) fun x => AllMeet d (handlerNodes? true x) ∧ x.isSome = c.isSome ∧
      ∀ cx, handlerPlaced? cx c = true → handlerPlaced? cx x = true := by
  match c with
  | none => exact .pure ⟨allMeet_nil, rfl, fun _ h => h⟩
  | some ⟨id, param, body⟩ =>
    have hclause : Copies (CatchClause.renumber ⟨id, param, body⟩) fun x =>
        AllMeet d (x.nodes true) ∧ ∀ cx, body.isPlaced cx = true → x.body.isPlaced cx = true :=
      .fresh fun id => (Ident.copies_renumber? param).bind fun a _ =>
        (Block.copies_renumber hd body (allMeet_append.mp hc).2).bind fun b hb =>
          .pure ⟨allMeet_append.mpr ⟨allMeet_name? a, hb.1⟩, hb.2⟩
    refine hclause.bind fun a ha => .pure ⟨ha.1, rfl, ?_⟩
    obtain ⟨id', param', body'⟩ := a
    exact ha.2
termination_by structural c

theorem Stmt.copies_renumber (hd : d.Nominal) (s : Stmt) (hs : AllMeet d (s.nodes true)) :
    Copies s.renumber (StmtCopy d s) := by
  have hhead := hs _ (s.mem_nodes true)
  cases s with
  | block b =>
    exact (Block.copies_renumber hd b (allMeet_cons.mp hs).2).bind fun a ha =>
      .pure ⟨allMeet_cons.mpr ⟨Node.meets_of_legal rfl rfl rfl, ha.1⟩, fun cx => ha.2 cx.inside⟩
  | expr _ e =>
    exact .fresh fun id => (Expr.copies_renumber hd e (allMeet_cons.mp hs).2).bind fun a ha =>
      .pure ⟨allMeet_cons.mpr ⟨Node.meets_of_legal rfl rfl rfl, ha.meets⟩, fun _ _ => rfl⟩
  | var x =>
    obtain ⟨id, kind, decls⟩ := x
    obtain ⟨hdecl, hdecls⟩ := allMeet_cons.mp (allMeet_cons.mp hs).2
    refine (VarDecl.copies_renumber hd ⟨id, kind, decls⟩ hdecls).bind fun a ha =>
      .pure ⟨?_, fun _ _ => rfl⟩
    obtain ⟨id', kind', decls'⟩ := a
    exact allMeet_cons.mpr ⟨Node.meets_of_legal rfl rfl rfl, allMeet_cons.mpr
      ⟨Node.meets_of_legal ((VarDecl.isLegal_congr ha.2).1.trans hdecl.legal) rfl rfl, ha.1⟩⟩
  | function _ name fn =>
    obtain ⟨-, hfn⟩ := allMeet_cons.mp (allMeet_cons.mp hs).2
    exact .fresh fun id => .renamed fun id' => (Func.copies_renumber hd fn hfn).bind fun a ha =>
      .pure ⟨allMeet_cons.mpr ⟨Node.meets_of_legal rfl rfl rfl,
        allMeet_cons.mpr ⟨Node.meets_name _, ha.1⟩⟩, fun _ _ => rfl⟩
  | «if» _ test yes no =>
    obtain ⟨hfirst, hno⟩ := allMeet_append.mp (allMeet_cons.mp hs).2
    obtain ⟨htest, hyes⟩ := allMeet_append.mp hfirst
    refine .fresh fun id => (Expr.copies_renumber hd test htest).bind fun a ha =>
      (Stmt.copies_renumber hd yes hyes).bind fun b hb =>
        (copies_renumberStmt? hd no hno).bind fun c hc => .pure ⟨allMeet_cons.mpr
          ⟨Node.meets_of_legal rfl rfl rfl, allMeet_append.mpr
            ⟨allMeet_append.mpr ⟨ha.meets, hb.meets⟩, hc.1⟩⟩, fun cx h => ?_⟩
    rw [Stmt.isPlaced, Bool.and_eq_true] at h ⊢
    exact ⟨hb.placed _ h.1, hc.2 _ h.2⟩
  | «for» _ init test update body =>
    obtain ⟨hfirst, hbody⟩ := allMeet_append.mp (allMeet_cons.mp hs).2
    obtain ⟨hfirst, hupdate⟩ := allMeet_append.mp hfirst
    obtain ⟨hinit, htest⟩ := allMeet_append.mp hfirst
    exact .fresh fun id => (copies_renumberHead? hd init hinit).bind fun a ha =>
      (copies_renumberExpr? hd test htest).bind fun b hb =>
        (copies_renumberExpr? hd update hupdate).bind fun c hc =>
          (Stmt.copies_renumber hd body hbody).bind fun x hx => .pure ⟨allMeet_cons.mpr
            ⟨Node.meets_of_legal rfl rfl rfl, allMeet_append.mpr ⟨allMeet_append.mpr
              ⟨allMeet_append.mpr ⟨ha, hb.1⟩, hc.1⟩, hx.meets⟩⟩, fun cx => hx.placed cx.loop⟩
  | forIn _ head obj body =>
    obtain ⟨hfirst, hbody⟩ := allMeet_append.mp (allMeet_cons.mp hs).2
    obtain ⟨hloop, hobj⟩ := allMeet_append.mp hfirst
    exact .fresh fun id => (ForHead.copies_renumberLoop hd head hloop).bind fun a ha =>
      (Expr.copies_renumber hd obj hobj).bind fun b hb =>
        (Stmt.copies_renumber hd body hbody).bind fun x hx => .pure ⟨allMeet_cons.mpr
          ⟨ha.2 hhead, allMeet_append.mpr ⟨allMeet_append.mpr ⟨ha.1, hb.meets⟩, hx.meets⟩⟩,
          fun cx => hx.placed cx.loop⟩
  | «while» _ test body =>
    obtain ⟨htest, hbody⟩ := allMeet_append.mp (allMeet_cons.mp hs).2
    exact .fresh fun id => (Expr.copies_renumber hd test htest).bind fun a ha =>
      (Stmt.copies_renumber hd body hbody).bind fun x hx => .pure ⟨allMeet_cons.mpr
        ⟨Node.meets_of_legal rfl rfl rfl, allMeet_append.mpr ⟨ha.meets, hx.meets⟩⟩,
        fun cx => hx.placed cx.loop⟩
  | doWhile _ body test =>
    obtain ⟨hbody, htest⟩ := allMeet_append.mp (allMeet_cons.mp hs).2
    exact .fresh fun id => (Stmt.copies_renumber hd body hbody).bind fun x hx =>
      (Expr.copies_renumber hd test htest).bind fun a ha => .pure ⟨allMeet_cons.mpr
        ⟨Node.meets_of_legal rfl rfl rfl, allMeet_append.mpr ⟨hx.meets, ha.meets⟩⟩,
        fun cx => hx.placed cx.loop⟩
  | «return» _ arg =>
    exact .fresh fun id => (copies_renumberExpr? hd arg (allMeet_cons.mp hs).2).bind fun a ha =>
      .pure ⟨allMeet_cons.mpr ⟨Node.meets_of_legal rfl rfl rfl, ha.1⟩, fun _ h => h⟩
  | «break» _ label =>
    refine .fresh fun id => (Ident.copies_renumber? label).bind fun a ha =>
      .pure ⟨allMeet_cons.mpr ⟨Node.meets_of_legal rfl rfl rfl, allMeet_nil⟩, fun cx h => ?_⟩
    match label, a, ha with
    | none, none, _ => exact h
    | some _, some _, ha => exact (congrArg cx.labels.contains (Option.some.inj ha)).trans h
  | «continue» _ label =>
    refine .fresh fun id => (Ident.copies_renumber? label).bind fun a ha =>
      .pure ⟨allMeet_cons.mpr ⟨Node.meets_of_legal rfl rfl rfl, allMeet_nil⟩, fun cx h => ?_⟩
    match label, a, ha with
    | none, none, _ => exact h
    | some _, some _, ha => exact (congrArg cx.loops.contains (Option.some.inj ha)).trans h
  | labeled _ label body =>
    refine .fresh fun id => .renamed fun id' =>
      (Stmt.copies_renumber hd body (allMeet_cons.mp hs).2).bind fun x hx =>
        .pure ⟨allMeet_cons.mpr ⟨Node.meets_of_legal rfl rfl rfl, hx.meets⟩, fun cx h => ?_⟩
    rw [Stmt.isPlaced, Bool.and_eq_true] at h ⊢
    exact ⟨h.1, hx.placed _ h.2⟩
  | throw _ arg =>
    exact .fresh fun id => (Expr.copies_renumber hd arg (allMeet_cons.mp hs).2).bind fun a ha =>
      .pure ⟨allMeet_cons.mpr ⟨Node.meets_of_legal rfl rfl rfl, ha.meets⟩, fun _ _ => rfl⟩
  | «with» _ obj body =>
    obtain ⟨hobj, hbody⟩ := allMeet_append.mp (allMeet_cons.mp hs).2
    exact .fresh fun id => (Expr.copies_renumber hd obj hobj).bind fun a ha =>
      (Stmt.copies_renumber hd body hbody).bind fun x hx => .pure ⟨allMeet_cons.mpr
        ⟨Node.meets_of_legal rfl rfl rfl, allMeet_append.mpr ⟨ha.meets, hx.meets⟩⟩,
        fun cx => hx.placed cx.inside⟩
  | «try» _ block handler finalizer =>
    obtain ⟨hfirst, hfinalizer⟩ := allMeet_append.mp (allMeet_cons.mp hs).2
    obtain ⟨hblock, hhandler⟩ := allMeet_append.mp hfirst
    refine .fresh fun id => (Block.copies_renumber hd block hblock).bind fun a ha =>
      (copies_renumberHandler? hd handler hhandler).bind fun b hb =>
        (copies_renumberBlock? hd finalizer hfinalizer).bind fun c hc => .pure ⟨allMeet_cons.mpr
          ⟨Node.meets_of_legal ?_ rfl rfl, allMeet_append.mpr
            ⟨allMeet_append.mpr ⟨ha.1, hb.1⟩, hc.1⟩⟩, fun cx h => ?_⟩
    · rw [Node.isLegal, hb.2.1, hc.2.1]
      exact hhead.legal
    · simp only [Stmt.isPlaced, Bool.and_eq_true] at h ⊢
      exact ⟨⟨ha.2 _ h.1.1, hb.2.2 _ h.1.2⟩, hc.2.2 _ h.2⟩
  | empty _ =>
    exact .fresh fun id => .pure
      ⟨allMeet_cons.mpr ⟨Node.meets_of_legal rfl rfl rfl, allMeet_nil⟩, fun _ _ => rfl⟩
termination_by structural s

theorem copies_renumberStmt? (hd : d.Nominal) (s : Option Stmt)
    (hs : AllMeet d (stmtNodes? true s)) :
    Copies (renumberStmt? s) fun x => AllMeet d (stmtNodes? true x) ∧
      ∀ cx, isPlaced? cx s = true → isPlaced? cx x = true := by
  match s with
  | none => exact .pure ⟨allMeet_nil, fun _ h => h⟩
  | some s => exact (Stmt.copies_renumber hd s hs).bind fun a ha => .pure ⟨ha.meets, ha.placed⟩
termination_by structural s

theorem copies_renumberStmts (hd : d.Nominal) (ss : List Stmt)
    (hss : AllMeet d (stmtNodes true ss)) :
    Copies (renumberStmts ss) fun xs => AllMeet d (stmtNodes true xs) ∧
      ∀ cx, allPlaced cx ss = true → allPlaced cx xs = true := by
  match ss with
  | [] => exact .pure ⟨allMeet_nil, fun _ h => h⟩
  | s :: rest =>
    obtain ⟨hs, hrest⟩ := allMeet_append.mp hss
    refine (Stmt.copies_renumber hd s hs).bind fun a ha =>
      (copies_renumberStmts hd rest hrest).bind fun b hb =>
        .pure ⟨allMeet_append.mpr ⟨ha.meets, hb.1⟩, fun cx h => ?_⟩
    rw [allPlaced, Bool.and_eq_true] at h ⊢
    exact ⟨ha.placed cx h.1, hb.2 cx h.2⟩
termination_by structural ss

end

end

end EsOptimizer
