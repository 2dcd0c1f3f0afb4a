import EsOptimizer.Proofs.Scope.Walk

/-!
# What names mean

`Expr.uses` lists the names in an expression, and `Stmt.Resolved` goes through the scopes that a
statement opens. The walk leaves a tree in which every name means the variable that is found from
the scope it stands in, and in which a scope has no variables but those declared in it.

Code without functions (`Flat`) writes variables in the name of the function around it only.
-/

namespace EsOptimizer

/-! ## Names in expressions -/

mutual

/-- The names in an expression, functions aside, and what becomes of their variables. -/
def Expr.uses : Expr → List (Ident × SiteKind)
  | .array _ elems => elemUses elems
  | .object _ props => propUses props
  | .unary _ _ arg => arg.uses
  | .update _ _ _ (.ident i) => [(i, .compound)]
  | .update _ _ _ arg => arg.uses
  | .binary _ _ left right => left.uses ++ right.uses
  | .assign _ op (.ident i) right =>
    (i, if op = .assign then .assign else .compound) :: right.uses
  | .assign _ .assign (.member _ (.ident o) _) right => (o, .propertyWrite) :: right.uses
  | .assign _ .assign (.index _ (.ident o) key) right =>
    (o, .propertyWrite) :: key.uses ++ right.uses
  | .assign _ _ left right => left.uses ++ right.uses
  | .member _ obj _ => obj.uses
  | .index _ obj key => obj.uses ++ key.uses
  | .cond _ test yes no => test.uses ++ yes.uses ++ no.uses
  | .call _ (.ident i) args => (i, .callee) :: exprUses args
  | .call _ callee args => callee.uses ++ exprUses args
  | .new _ callee args => callee.uses ++ exprUses args
  | .seq _ exprs => exprUses exprs
  | .ident i => [(i, .read)]
  | .this _ | .function _ _ _ | .string _ _ | .bool _ _ | .null _ | .number _ _ | .regex _ _ _
  | .invalid _ => []

def elemUses : List (Option Expr) → List (Ident × SiteKind)
  | [] => []
  | none :: rest => elemUses rest
  | some e :: rest => e.uses ++ elemUses rest

def exprUses : List Expr → List (Ident × SiteKind)
  | [] => []
  | e :: rest => e.uses ++ exprUses rest

def PropertyKey.uses : PropertyKey → List (Ident × SiteKind)
  | .computed e => e.uses
  | _ => []

def Property.uses : Property → List (Ident × SiteKind)
  | .value _ key value => key.uses ++ value.uses
  | .getter _ key _ | .setter _ key _ => key.uses

def propUses : List Property → List (Ident × SiteKind)
  | [] => []
  | p :: rest => p.uses ++ propUses rest

end

def exprUses? : Option Expr → List (Ident × SiteKind)
  | none => []
  | some e => e.uses

/-- The names in declarations. One without a value is no use. -/
def declUses : List Declarator → List (Ident × SiteKind)
  | [] => []
  | ⟨_, name, some e⟩ :: rest => (name, .init) :: e.uses ++ declUses rest
  | ⟨_, _, none⟩ :: rest => declUses rest

def headUses? : Option ForHead → List (Ident × SiteKind)
  | none => []
  | some (.decl d) => declUses d.decls
  | some (.expr e) => e.uses

/-- What is assigned to uses names in ways of its own. -/
def Expr.targetUses (op : AssignOp) : Expr → List (Ident × SiteKind)
  | .ident i => [(i, if op = .assign then .assign else .compound)]
  | .member _ (.ident o) _ => [(o, if op = .assign then .propertyWrite else .read)]
  | .index _ (.ident o) key => (o, if op = .assign then .propertyWrite else .read) :: key.uses
  | target => target.uses

def Expr.calleeUses : Expr → List (Ident × SiteKind)
  | .ident i => [(i, .callee)]
  | callee => callee.uses

theorem Expr.uses_assign (id : NodeId) (op : AssignOp) (left right : Expr) :
    (Expr.assign id op left right).uses = left.targetUses op ++ right.uses := by
  rw [Expr.uses.eq_def (.assign id op left right)]
  cases left with
  | member _ obj _ => cases obj <;> cases op <;> rfl
  | index _ obj _ => cases obj <;> cases op <;> rfl
  | _ => rfl

theorem Expr.uses_call (id : NodeId) (callee : Expr) (args : List Expr) :
    (Expr.call id callee args).uses = callee.calleeUses ++ exprUses args := by
  cases callee <;> rfl

/-! ## Names in scopes -/

namespace ScopeTree

/-- A name in a scope means the variable that is found from there, and what it does to it is noted.
The own `arguments` of a function is no variable. -/
def Resolves (t : ScopeTree) (s : ScopeId) (x : Ident × SiteKind) : Prop :=
  (∃ v, t.lookup s x.1.name = some v ∧ t.varOf x.1.id = some v ∧ t.siteKind x.1.id = some x.2) ∨
    x.1.name = "arguments" ∧ ∀ v, t.lookup s x.1.name = some v → (t.var v).kind = .implicit

def ResolvesAll (us : List (Ident × SiteKind)) (t : ScopeTree) (s : ScopeId) : Prop :=
  ∀ x ∈ us, t.Resolves s x

/-- A node opens the scope `inner` in the scope `s`. -/
structure Opens (t : ScopeTree) (id : NodeId) (s inner : ScopeId) : Prop where
  scopeOf : t.scopeOf id = some inner
  inside : inner < t.scopes.size
  parent : (t.scope inner).parent = some s
  fnScope : (t.scope inner).fnScope = (t.scope s).fnScope

/-- Nothing is declared in a scope. -/
structure IsEmpty (t : ScopeTree) (s : ScopeId) : Prop where
  vars : (t.scope s).vars = []
  hoisted : (t.scope s).hoisted = []

/-- The parameter of a handler is the only variable of a scope. -/
structure HasCaught (t : ScopeTree) (s : ScopeId) (p : Ident) (v : VarId) : Prop where
  vars : (t.scope s).vars = [(p.name, v)]
  hoisted : (t.scope s).hoisted = []
  kind : (t.var v).kind = .catchParam
  initial : (t.var v).initial = none
  varOf : t.varOf p.id = some v
  siteKind : t.siteKind p.id = some .init

/-- What is declared in the scope of a handler. -/
def Catches (t : ScopeTree) (s : ScopeId) : Option Ident → Prop
  | none => t.IsEmpty s
  | some p => ∃ v, t.HasCaught s p v

end ScopeTree

/-- No names are declared for the block alone. -/
def Bare (stmts : List Stmt) : Prop := ∀ d, .var d ∈ stmts → d.kind = .var

/-- No names are declared for the loop alone. -/
def BareHead : Option ForHead → Prop
  | some (.decl d) => d.kind = .var
  | _ => True

mutual

/-- The names of a statement, functions inside it aside, mean what is found from a scope, and so on
in the scopes that it opens. Nothing is said of `for-in` and `with`. -/
def Stmt.Resolved (t : ScopeTree) : Stmt → (s : ScopeId) → Prop
  | .block b, s => b.Resolved t s
  | .expr _ e, s => t.ResolvesAll e.uses s
  | .var d, s => t.ResolvesAll (declUses d.decls) s
  | .if _ test yes no, s => t.ResolvesAll test.uses s ∧ yes.Resolved t s ∧ StmtResolved? t no s
  | .for id init test update body, s => BareHead init → t.scopeOf id = none ∧
    t.ResolvesAll (headUses? init) s ∧ t.ResolvesAll (exprUses? test) s ∧
    t.ResolvesAll (exprUses? update) s ∧ body.Resolved t s
  | .while _ test body, s => t.ResolvesAll test.uses s ∧ body.Resolved t s
  | .doWhile _ body test, s => body.Resolved t s ∧ t.ResolvesAll test.uses s
  | .return _ arg, s => t.ResolvesAll (exprUses? arg) s
  | .labeled _ _ body, s => body.Resolved t s
  | .throw _ arg, s => t.ResolvesAll arg.uses s
  | .try _ block handler finalizer, s =>
    block.Resolved t s ∧ HandlerResolved? t handler s ∧ BlockResolved? t finalizer s
  | .function _ name _, s => t.Resolves s (name, .init)
  | .empty _, _ | .break _ _, _ | .continue _ _, _ | .forIn _ _ _ _, _ | .with _ _ _, _ => True

def StmtResolved? (t : ScopeTree) : Option Stmt → (s : ScopeId) → Prop
  | none, _ => True
  | some st, s => st.Resolved t s

def Block.Resolved (t : ScopeTree) : Block → (s : ScopeId) → Prop
  | ⟨id, stmts⟩, s =>
    ∃ inner, t.Opens id s inner ∧ (Bare stmts → t.IsEmpty inner) ∧ StmtsResolved t stmts inner

def BlockResolved? (t : ScopeTree) : Option Block → (s : ScopeId) → Prop
  | none, _ => True
  | some b, s => b.Resolved t s

def HandlerResolved? (t : ScopeTree) : Option CatchClause → (s : ScopeId) → Prop
  | none, _ => True
  | some ⟨id, param, body⟩, s =>
    ∃ inner, t.Opens id s inner ∧ t.Catches inner param ∧ body.Resolved t inner

def StmtsResolved (t : ScopeTree) : List Stmt → (s : ScopeId) → Prop
  | [], _ => True
  | st :: rest, s => st.Resolved t s ∧ StmtsResolved t rest s

end

/-- Code without functions. -/
def Flat (ns : List Node) : Prop := ∀ f, .func f ∉ ns

theorem Flat.mono {ns ms : List Node} (h : Flat ms) (hsub : ns ⊆ ms) : Flat ns :=
  fun f hf => h f (hsub hf)

/-! ## Looking up at a later stage -/

namespace ScopeTree

variable {t t' : ScopeTree} {n : Nat} {J : NodeId → Prop} {S : ScopeId → Prop}

theorem lookup_congr (h : ∀ s, t'.scope s = t.scope s) (s : ScopeId) (name : String) :
    t'.lookup s name = t.lookup s name := by
  have hwithin (k : Nat) : ∀ s, t'.lookupWithin name k s = t.lookupWithin name k s := by
    induction k with
    | zero =>
      intro s
      rw [lookupWithin, lookupWithin, h]
    | succ k ih =>
      intro s
      rw [lookupWithin, lookupWithin, h, funext ih]
  exact hwithin s s

/-- A name found nowhere is found after it has become a variable of the outermost scope. -/
theorem lookup_addVar_root (hok : t.Ok) {x : Variable} (hok' : (t.addVar x).Ok)
    (hroot : x.scope = root) {s : Nat} (hs : s < t.scopes.size)
    (hnone : t.lookup s x.name = none) : (t.addVar x).lookup s x.name = some t.vars.size := by
  induction s using Nat.strong_induction_on with
  | _ s ih =>
    rw [lookup_eq hok] at hnone
    rw [lookup_eq hok', addVar_scope]
    cases hv : (t.scope s).vars.lookup x.name with
    | some v =>
      rw [hv] at hnone
      cases hnone
    | none =>
      rw [hv] at hnone
      by_cases hsr : s = root
      · rw [if_pos ⟨hroot.trans hsr.symm, hs⟩, List.lookup_append, hv]
        simp
      · rw [if_neg fun h => hsr (h.1.symm.trans hroot), hv]
        obtain ⟨q, hq⟩ := Option.isSome_iff_exists.mp (hok.rooted s hs hsr)
        rw [hq] at hnone ⊢
        have hlt := hok.parents s q hq
        exact ih q hlt (hlt.trans hs) hnone

theorem lt_of_lookup (hok : t.Ok) {s : ScopeId} {name : String} {v : VarId}
    (h : t.lookup s name = some v) : v < t.vars.size := by
  obtain ⟨a, -, hmem⟩ := exists_encloses_of_lookup hok h
  exact (hok.listed a _ hmem).1

theorem Resolves.grow {s : Nat} {x : Ident × SiteKind} (h : t.Resolves s x) (hok : t.Ok)
    (hok' : t'.Ok) (hgrows : t.Grows n J S t') (hs : s < n) (hs' : s < t.scopes.size)
    (hx : ¬J x.1.id) : t'.Resolves s x := by
  rcases h with ⟨v, hv, hvar, hkind⟩ | ⟨hname, himplicit⟩
  · exact Or.inl ⟨v, hgrows.lookup_some hok hok' hs hv, (hgrows.varOf _ hx).trans hvar,
      (hgrows.siteKind _ hx).trans hkind⟩
  · refine Or.inr ⟨hname, fun v hv => ?_⟩
    cases hold : t.lookup s x.1.name with
    | none => exact hgrows.lookup_none hok hok' hs hs' hold hv
    | some u =>
      have hu := hgrows.lookup_some hok hok' hs hold
      rw [hv] at hu
      cases hu
      exact (hgrows.extended v (lt_of_lookup hok hold)).kind.trans (himplicit v hold)

theorem Opens.ne_root {id : NodeId} {s inner : ScopeId} (h : t.Opens id s inner) (hok : t.Ok) :
    inner ≠ root := by
  rintro rfl
  have hparent := h.parent
  rw [show root = 0 from rfl, hok.rootParent] at hparent
  cases hparent

theorem Opens.grow {id : NodeId} {s inner : ScopeId} (h : t.Opens id s inner) (hok : t.Ok)
    (hgrows : t.Grows n J S t') (hn : t.scopes.size ≤ n) (hs : s < t.scopes.size) (hid : ¬J id) :
    t'.Opens id s inner := by
  have hsame := hgrows.finished inner (h.inside.trans_le hn) (h.ne_root hok)
  exact {
    scopeOf := (hgrows.scopeOf id hid).trans h.scopeOf
    inside := h.inside.trans_le hgrows.size
    parent := by rw [hsame, h.parent]
    fnScope := by rw [hsame, h.fnScope, hgrows.fnScope s hs] }

theorem IsEmpty.grow {s : Nat} (h : t.IsEmpty s) (hgrows : t.Grows n J S t') (hs : s < n)
    (hroot : s ≠ root) : t'.IsEmpty s := by
  have hsame := hgrows.finished s hs hroot
  exact ⟨hsame ▸ h.vars, hsame ▸ h.hoisted⟩

theorem Catches.grow {s : Nat} {param : Option Ident} (h : t.Catches s param) (hok : t.Ok)
    (hgrows : t.Grows n J S t') (hs : s < n) (hroot : s ≠ root)
    (hparam : ∀ id ∈ Ident.ids? param, ¬J id) : t'.Catches s param := by
  cases param with
  | none => exact IsEmpty.grow h hgrows hs hroot
  | some p =>
    obtain ⟨v, h⟩ := h
    have hsame := hgrows.finished s hs hroot
    have hext := hgrows.extended v (hok.listed s (p.name, v) (by simp [h.vars])).1
    have hp : ¬J p.id := hparam p.id List.mem_cons_self
    exact ⟨v, {
      vars := hsame ▸ h.vars
      hoisted := hsame ▸ h.hoisted
      kind := hext.kind.trans h.kind
      initial := hext.initial.trans h.initial
      varOf := (hgrows.varOf _ hp).trans h.varOf
      siteKind := (hgrows.siteKind _ hp).trans h.siteKind }⟩

end ScopeTree

namespace ScopeTree

/-- The variables of the scope `fs` and of later ones are written by the function of `fs` only. -/
def WrittenFrom (t : ScopeTree) (fs : ScopeId) : Prop :=
  ∀ v < t.vars.size, fs ≤ (t.var v).scope → ∀ site ∈ (t.var v).writes, site.fnScope = fs

variable {t : ScopeTree} {fs : ScopeId}

theorem WrittenFrom.addVar (h : t.WrittenFrom fs) {x : Variable} (hx : x.writes = []) :
    (t.addVar x).WrittenFrom fs := by
  intro v hv hscope site hsite
  rw [addVar_varsSize] at hv
  rw [addVar_var] at hscope hsite
  split at hsite
  · rw [hx] at hsite
    cases hsite
  · rename_i hne
    rw [if_neg hne] at hscope
    exact h v (by omega) hscope site hsite

theorem WrittenFrom.withUse (h : t.WrittenFrom fs) (v : VarId) {site : Site}
    (hsite : site.fnScope = fs) : (Resolve.withUse t v site).WrittenFrom fs := by
  intro u hu hscope x hx
  have hu : u < t.vars.size := by
    change u < (t.vars.modify v _).size at hu
    rwa [Array.size_modify] at hu
  have hvar : (Resolve.withUse t v site).var u =
      if v = u ∧ u < t.vars.size then Resolve.used site (t.var u) else t.var u :=
    useVar_var t v (Resolve.used site) u
  rw [hvar] at hscope hx
  have hext : fs ≤ (t.var u).scope := by
    split at hscope
    · rwa [(Resolve.used_extends site (t.var u)).scope] at hscope
    · exact hscope
  split at hx
  · rw [Resolve.used] at hx
    split at hx
    · rcases List.mem_append.mp hx with hx | hx
      · exact h u hu hext x hx
      · rw [List.mem_singleton.mp hx]
        exact hsite
    · exact h u hu hext x hx
  · exact h u hu hext x hx

end ScopeTree

/-! ## Parts of the walk -/

namespace Resolve

open Resolution

/-- The walk is in the function of the scope `fs`, the only one so far to write its variables. -/
structure Writes (fs : ScopeId) (r : Resolution) : Prop where
  fnScope : (r.tree.scope r.current).fnScope = fs
  written : r.tree.WrittenFrom fs

/-- A step in which no other function writes. -/
def Keeps {α : Type} (fs : ScopeId) (a : Resolve α) : Prop := ∀ r, Writes fs r → Writes fs (a r).2

namespace Keeps

variable {α β : Type} {fs : ScopeId}

theorem pure (x : α) : Keeps fs (Pure.pure x : Resolve α) := fun _ h => h

theorem bind {a : Resolve α} {f : α → Resolve β} (ha : Keeps fs a) (hf : ∀ x, Keeps fs (f x)) :
    Keeps fs (a >>= f) :=
  fun r h => hf _ _ (ha r h)

theorem get_bind {f : Resolution → Resolve β} (hf : ∀ r, Keeps fs (f r)) : Keeps fs (get >>= f) :=
  fun r h => hf r r h

theorem forIn {items : List α} {f : α → PUnit → Resolve (ForInStep PUnit)}
    (hf : ∀ x, Keeps fs (f x ⟨⟩)) : Keeps fs (ForIn.forIn items PUnit.unit f) := by
  induction items with
  | nil => exact .pure _
  | cons x rest ih =>
    rw [List.forIn_cons]
    refine (hf x).bind fun step => ?_
    cases step with
    | done _ => exact .pure _
    | yield _ => exact ih

end Keeps

section

variable {fs : ScopeId}

theorem keeps_bind (ident : Ident) (v : VarId) : Keeps fs (bind ident v) :=
  fun _ h => ⟨h.fnScope, h.written⟩

theorem keeps_newVar (scope : ScopeId) (name : String) (kind : VarKind) (decl : Option NodeId)
    (initial : Option Value) : Keeps fs (newVar scope name kind decl initial) := by
  intro r h
  rw [newVar_apply]
  refine ⟨?_, h.written.addVar rfl⟩
  change ((r.tree.addVar _).scope r.current).fnScope = fs
  rw [ScopeTree.addVar_scope]
  split <;> exact h.fnScope

theorem keeps_declareIn (scope : ScopeId) (ident : Ident) (kind : VarKind) :
    Keeps fs (declareIn scope ident kind) := by
  refine .get_bind fun r => ?_
  cases (r.tree.scope scope).vars.lookup ident.name with
  | some v => exact (keeps_bind ident v).bind fun _ => .pure _
  | none => exact (keeps_newVar _ _ _ _ _).bind fun v => (keeps_bind ident v).bind fun _ => .pure _

theorem keeps_modifyFunction (f : FunctionInfo → FunctionInfo) : Keeps fs (modifyFunction f) := by
  refine .get_bind fun r => ?_
  cases r.functions with
  | nil => exact .pure _
  | cons id rest => exact fun _ h => ⟨h.fnScope, h.written⟩

theorem keeps_resolve (ident : Ident) : Keeps fs (resolve ident) := by
  refine .get_bind fun r => ?_
  cases r.tree.lookup r.current ident.name with
  | some v => exact .pure _
  | none =>
    dsimp only
    split
    · exact (keeps_modifyFunction _).bind fun _ => .pure _
    · exact (keeps_newVar _ _ _ _ _).bind fun _ => .pure _

theorem keeps_addSite (ident : Ident) (kind : SiteKind) : Keeps fs (addSite ident kind) := by
  intro r h
  have hresolve := keeps_resolve ident r h
  rw [addSite_apply]
  generalize resolve ident r = x at hresolve
  obtain ⟨_ | v, r'⟩ := x
  · exact hresolve
  · exact ⟨hresolve.fnScope, hresolve.written.withUse v hresolve.fnScope⟩

theorem keeps_noteSite (ident : Ident) (kind : SiteKind) : Keeps fs (noteSite ident kind) :=
  (keeps_addSite ident kind).bind fun _ => .pure _

theorem keeps_noteDynamicScope : Keeps fs noteDynamicScope := fun _ h => ⟨h.fnScope, h.written⟩

theorem keeps_noteCallee (ident : Ident) : Keeps fs (noteCallee ident) := by
  refine (keeps_addSite ident .callee).bind fun v => ?_
  cases v with
  | none => exact .pure _
  | some v =>
    refine .get_bind fun r => ?_
    split
    · exact keeps_noteDynamicScope
    · exact .pure _

theorem keeps_bindKnown (ident : Ident) : Keeps fs (bindKnown ident) := by
  refine .get_bind fun r => ?_
  cases r.tree.lookup r.current ident.name with
  | some v => exact keeps_bind ident v
  | none => exact .pure _

theorem keeps_declareLexical (d : VarDecl) : Keeps fs (declareLexical d) := by
  rw [declareLexical]
  cases lexicalKind? d.kind with
  | none => exact .pure _
  | some kind =>
    refine .forIn fun x => .get_bind fun r => ?_
    exact (keeps_declareIn r.current x.name kind).bind fun _ => .pure _

theorem keeps_declareLexicals (stmts : List Stmt) : Keeps fs (declareLexicals stmts) := by
  refine .forIn fun s => ?_
  split
  · exact (keeps_declareLexical _).bind fun _ => .pure _
  · exact .pure _

theorem keeps_declareCaught (param : Option Ident) (scope : ScopeId) :
    Keeps fs (declareCaught param scope) := by
  cases param with
  | none => exact .pure _
  | some p => exact (keeps_declareIn scope p .catchParam).bind fun _ => keeps_noteSite p .init

theorem writes_openScope {r : Resolution} (h : Writes fs r) {kind : ScopeKind}
    (hkind : ∀ id, kind ≠ .function id) (node : NodeId) : Writes fs (openScope kind node r).2 := by
  rw [openScope_apply]
  refine ⟨?_, h.written⟩
  change ((withScope r kind node (fnScopeOf r kind)).scope r.tree.scopes.size).fnScope = fs
  rw [withScope_scope]
  cases kind with
  | function id => exact absurd rfl (hkind id)
  | _ => exact h.fnScope

end

/-! ## What the walk leaves behind -/

/-- A property of a tree and a scope that later stages keep if they look at other nodes. -/
def Stable (ids : List NodeId) (P : ScopeTree → ScopeId → Prop) : Prop :=
  ∀ ⦃t t' : ScopeTree⦄ ⦃n : Nat⦄ ⦃J : NodeId → Prop⦄ ⦃S : ScopeId → Prop⦄ ⦃s : Nat⦄, t.Ok → t'.Ok →
    t.Grows n J S t' → t.scopes.size ≤ n → s < t.scopes.size → (∀ id ∈ ids, ¬J id) → P t s → P t' s

/-- A part of the walk after which `P` holds of the tree in the scope that the walk is in. -/
structure Settles (ids : List NodeId) (ns : List Node) (P : ScopeTree → ScopeId → Prop)
    (a : Resolve Unit) : Prop where
  builds : ∀ {r : Resolution}, r.Ok → Builds r.tree.scopes.size (· ∈ ids) r (a r).2
  stable : Stable ids P
  holds : ∀ {r : Resolution}, r.Ok → r.tree.Unopened ids → P (a r).2.tree r.current
  keeps : Flat ns → ∀ {fs r}, r.Ok → Writes fs r → Writes fs (a r).2

/-- The same in a regular tree. -/
def Settled (ids : List NodeId) (ns : List Node) (P : ScopeTree → ScopeId → Prop)
    (a : Resolve Unit) : Prop :=
  Regular True ids ns → Settles ids ns P a

section

variable {ids ids' : List NodeId} {ns ms : List Node} {P Q : ScopeTree → ScopeId → Prop}
  {a b : Resolve Unit}

theorem Stable.and (hP : Stable ids P) (hQ : Stable ids Q) : Stable ids fun t s => P t s ∧ Q t s :=
  fun _ _ _ _ _ _ hok hok' hgrows hn hs hJ h =>
    ⟨hP hok hok' hgrows hn hs hJ h.1, hQ hok hok' hgrows hn hs hJ h.2⟩

theorem Stable.mono (hP : Stable ids P) (hids : ids ⊆ ids') : Stable ids' P :=
  fun _ _ _ _ _ _ hok hok' hgrows hn hs hJ h => hP hok hok' hgrows hn hs (fun id hid => hJ id (hids hid)) h

namespace Settles

theorem mono (ha : Settles ids ns P a) (hids : ids ⊆ ids') (hns : ns ⊆ ms) :
    Settles ids' ms P a where
  builds := fun hr => (ha.builds hr).mono hr (Nat.le_refl _) hids
  stable := ha.stable.mono hids
  holds := fun hr hunopened => ha.holds hr (hunopened.mono hids)
  keeps := fun hflat => ha.keeps (hflat.mono hns)

/-- A step of its own. -/
theorem step (hbuilds : ∀ {r : Resolution}, r.Ok →
      Builds r.tree.scopes.size (· ∈ ids) r (a r).2) (hkeeps : ∀ fs, Keeps fs a) :
    Settles ids ns (fun _ _ => True) a where
  builds := hbuilds
  stable := fun _ _ _ _ _ _ _ _ _ _ _ _ _ => trivial
  holds := fun _ _ => trivial
  keeps := fun _ {fs r} _ h => hkeeps fs r h

theorem skip : Settles ids ns (fun _ _ => True) (pure ()) :=
  .step (fun hr => Builds.refl hr) fun _ => .pure _

theorem seq (ha : Settles ids ns P a) (hb : Settles ids' ms Q b) (hdisj : List.Disjoint ids ids') :
    Settles (ids ++ ids') (ns ++ ms) (fun t s => P t s ∧ Q t s) (do a; b) where
  builds := fun {r} hr => by
    have h := ha.builds hr
    have hr' := h.ok' hr
    refine (h.mono hr (Nat.le_refl _) fun id hid => List.mem_append_left _ hid).trans hr ?_
    exact (hb.builds hr').mono hr' h.grows.size fun id hid => List.mem_append_right _ hid
  stable := (ha.stable.mono (List.subset_append_left _ _)).and
    (hb.stable.mono (List.subset_append_right _ _))
  holds := fun {r} hr hunopened => by
    have h := ha.builds hr
    have hr' := h.ok' hr
    have h' := hb.builds hr'
    have hinside : r.current < (a r).2.tree.scopes.size := hr.inside.trans_le h.grows.size
    refine ⟨?_, ?_⟩
    · have hfirst := ha.holds hr (hunopened.mono (List.subset_append_left _ _))
      exact ha.stable h.ok h'.ok h'.grows (Nat.le_refl _) hinside
        (fun id hid hid' => hdisj hid hid') hfirst
    · have hrest := (hunopened.mono (List.subset_append_right _ _)).grow h.grows
        fun id hid hid' => hdisj hid' hid
      have hsecond := hb.holds hr' hrest
      rwa [h.current] at hsecond
  keeps := fun hflat {_ r} hr h => by
    have hmid := ha.keeps (hflat.mono (List.subset_append_left _ _)) hr h
    exact hb.keeps (hflat.mono (List.subset_append_right _ _)) ((ha.builds hr).ok' hr) hmid

theorem congr (ha : Settles ids ns P a) (h : ∀ t s, P t s ↔ Q t s) : Settles ids ns Q a := by
  have hPQ : P = Q := by
    funext t s
    exact propext (h t s)
  exact hPQ ▸ ha

/-- A part of the walk after which it returns to where it was. -/
theorem stays (ha : Settles ids ns P a) : Settles ids ns P (inside a) where
  builds := fun {r} hr => by
    have h := ha.builds hr
    rw [inside_apply, ← h.current]
    exact h
  stable := ha.stable
  holds := ha.holds
  keeps := fun hflat {_ r} hr h => by
    have hend := ha.keeps hflat hr h
    rw [inside_apply, ← (ha.builds hr).current]
    exact hend

end Settles

namespace Settled

theorem seq (ha : Settled ids ns P a) (hb : Settled ids' ms Q b) :
    Settled (ids ++ ids') (ns ++ ms) (fun t s => P t s ∧ Q t s) (do a; b) :=
  fun h => (ha h.left).seq (hb h.right) h.disjoint

theorem node {x : Node} {id : NodeId} (ha : Settled ids ns P a) :
    Settled (ids ++ [id]) (x :: ns) P a :=
  fun h => (ha h.parts).mono (List.subset_append_left _ _) (List.subset_cons_self _ _)

theorem unlisted {id : NodeId} (ha : Settled ids ns P a) : Settled (ids ++ [id]) ns P a :=
  fun h => (ha h.unlisted).mono (List.subset_append_left _ _) (List.Subset.refl _)

theorem wrap {x : Node} (ha : Settled ids ns P a) : Settled ids (x :: ns) P a :=
  fun h => (ha h.tail).mono (List.Subset.refl _) (List.subset_cons_self _ _)

theorem congr (ha : Settled ids ns P a) (h : ∀ t s, P t s ↔ Q t s) : Settled ids ns Q a :=
  fun hregular => (ha hregular).congr h

/-- Names used one after another. -/
theorem uses {us vs : List (Ident × SiteKind)}
    (ha : Settled ids ns (fun t s => t.ResolvesAll us s) a)
    (hb : Settled ids' ms (fun t s => t.ResolvesAll vs s) b) :
    Settled (ids ++ ids') (ns ++ ms) (fun t s => t.ResolvesAll (us ++ vs) s) (do a; b) :=
  (ha.seq hb).congr fun _ _ => List.forall_mem_append.symm

end Settled

/-! ## Names -/

theorem resolve_lookup {r : Resolution} (hr : r.Ok) (ident : Ident) :
    (∃ v, (resolve ident r).1 = some v ∧
      (resolve ident r).2.tree.lookup r.current ident.name = some v) ∨
    (resolve ident r).1 = none ∧ ident.name = "arguments" ∧
      (resolve ident r).2.tree.lookup r.current ident.name = none := by
  have hspec := (resolve_spec (n := 0) (J := fun _ => True) hr ident).1
  rw [resolve_eq] at hspec ⊢
  cases hv : r.tree.lookup r.current ident.name with
  | some v => exact Or.inl ⟨v, rfl, hv⟩
  | none =>
    rw [hv] at hspec
    dsimp only at hspec ⊢
    split
    · rename_i hname
      refine Or.inr ⟨rfl, by simpa using (Bool.and_eq_true_iff.mp hname).1, ?_⟩
      have hscope (s : ScopeId) : (modifyFunction (fun f => { f with usesArguments := true })
          r).2.tree.scope s = r.tree.scope s := by
        rw [modifyFunction_eq]
        cases r.functions <;> rfl
      exact (ScopeTree.lookup_congr hscope _ _).trans hv
    · rename_i hname
      rw [if_neg hname] at hspec
      have hok : (r.tree.addVar (unusedVar r.tree ScopeTree.root ident.name .implicit none
          (Host.global? ident.name))).Ok := hspec.ok
      exact Or.inl ⟨_, rfl, ScopeTree.lookup_addVar_root hr.tree hok rfl hr.inside hv⟩

theorem resolves_addSite {r : Resolution} (hr : r.Ok) (ident : Ident) (kind : SiteKind) :
    (addSite ident kind r).2.tree.Resolves r.current (ident, kind) := by
  have hlookup := resolve_lookup hr ident
  rw [addSite_apply]
  generalize resolve ident r = x at hlookup
  obtain ⟨found, r'⟩ := x
  rcases hlookup with ⟨v, hv, hfound⟩ | ⟨hv, hname, hnone⟩
  · obtain rfl : found = some v := hv
    have hsame (site : Site) : (withUse r'.tree v site).lookup r.current ident.name =
        r'.tree.lookup r.current ident.name := by
      refine ScopeTree.lookup_congr (fun s => ?_) _ _
      rfl
    exact Or.inl ⟨v, (hsame _).trans hfound, Std.TreeMap.getElem?_insert_self,
      Std.TreeMap.getElem?_insert_self⟩
  · obtain rfl : found = none := hv
    refine Or.inr ⟨hname, fun u hu => ?_⟩
    rw [show r'.tree.lookup r.current ident.name = none from hnone] at hu
    cases hu

theorem stable_resolvesAll {us : List (Ident × SiteKind)} (h : ∀ x ∈ us, x.1.id ∈ ids) :
    Stable ids (fun t s => t.ResolvesAll us s) :=
  fun _ _ _ _ _ _ hok hok' hgrows hn hs hJ hall x hx =>
    (hall x hx).grow hok hok' hgrows (hs.trans_le hn) hs (hJ _ (h x hx))

/-- A name and what it does to its variable. -/
theorem settles_site {i : Ident} {kind : SiteKind} (hi : i.id ∈ ids)
    (hbuilds : ∀ {r : Resolution}, r.Ok → Builds r.tree.scopes.size (· ∈ ids) r (a r).2)
    (hkeeps : ∀ fs, Keeps fs a) (hvars : ∀ r : Resolution, r.Ok →
      (a r).2.tree.Resolves r.current (i, kind)) :
    Settles ids ns (fun t s => t.ResolvesAll [(i, kind)] s) a where
  builds := hbuilds
  stable := stable_resolvesAll fun x hx => by
    rw [List.mem_singleton.mp hx]
    exact hi
  holds := fun {r} hr _ x hx => by
    rw [List.mem_singleton.mp hx]
    exact hvars r hr
  keeps := fun _ {fs r} _ h => hkeeps fs r h

theorem settles_noteSite (i : Ident) (kind : SiteKind) (hi : i.id ∈ ids) :
    Settles ids ns (fun t s => t.ResolvesAll [(i, kind)] s) (noteSite i kind) :=
  settles_site hi (fun hr => builds_noteSite hr hi kind) (fun _ => keeps_noteSite i kind)
    fun _ hr => resolves_addSite hr i kind

theorem settled_name (i : Ident) (kind : SiteKind) :
    Settled [i.id] [.expr (.ident i), .name i] (fun t s => t.ResolvesAll [(i, kind)] s)
      (noteSite i kind) :=
  fun _ => settles_noteSite i kind List.mem_cons_self

theorem settles_noteCallee (i : Ident) (hi : i.id ∈ ids) :
    Settles ids ns (fun t s => t.ResolvesAll [(i, .callee)] s) (noteCallee i) := by
  refine settles_site hi (fun hr => builds_noteCallee hr hi) (fun _ => keeps_noteCallee i)
    fun r hr => ?_
  have hsite := resolves_addSite hr i .callee
  rcases noteCallee_cases i r with heq | heq <;> rw [heq]
  · exact hsite
  · have hsame : (noteDynamicScope (addSite i .callee r).2).2.tree.lookup r.current i.name =
        (addSite i .callee r).2.tree.lookup r.current i.name := by
      refine ScopeTree.lookup_congr (fun s => ?_) _ _
      rfl
    rcases hsite with ⟨u, hu, hrest⟩ | ⟨hname, himplicit⟩
    · exact Or.inl ⟨u, hsame.trans hu, hrest⟩
    · exact Or.inr ⟨hname, fun u hu => himplicit u (hsame.symm.trans hu)⟩

theorem settled_onTarget {target : Expr} (op : AssignOp)
    (h : Settled target.ids (target.nodes true) (fun t s => t.ResolvesAll target.uses s)
      (onExpr target))
    (hkey : ∀ id obj key, target = .index id obj key →
      Settled key.ids (key.nodes true) (fun t s => t.ResolvesAll key.uses s) (onExpr key)) :
    Settled target.ids (target.nodes true) (fun t s => t.ResolvesAll (target.targetUses op) s)
      (onTarget op target) := by
  cases target with
  | ident i => exact settled_name i _
  | member id obj name =>
    cases obj with
    | ident o =>
      rw [onTarget, Expr.targetUses]
      split
      · exact fun _ => settles_noteSite o _ (List.mem_append_left _ List.mem_cons_self)
      · exact h
    | _ => exact h
  | index id obj key =>
    cases obj with
    | ident o =>
      rw [onTarget, Expr.targetUses]
      split
      · exact ((settled_name o .propertyWrite).uses (hkey id (.ident o) key rfl)).node
      · exact h
    | _ => exact h
  | _ => exact h

theorem settled_onCallee {callee : Expr}
    (h : Settled callee.ids (callee.nodes true) (fun t s => t.ResolvesAll callee.uses s)
      (onExpr callee)) :
    Settled callee.ids (callee.nodes true) (fun t s => t.ResolvesAll callee.calleeUses s)
      (onCallee callee) := by
  cases callee with
  | ident i => exact fun _ => settles_noteCallee i List.mem_cons_self
  | _ => exact h

end

end Resolve

end EsOptimizer
