import EsOptimizer.Proofs.Scope.Resolved

/-!
# Names after the walk

The walk over a statement resolves its names (`settled_onStmt`). There is one rule for each way in
which the walk opens a scope, and the walk as a whole is put together from them.
-/

namespace EsOptimizer

namespace Resolve

open Resolution

variable {ids ids' : List NodeId} {ns ms : List Node} {P Q : ScopeTree → ScopeId → Prop}
  {a b : Resolve Unit}

/-! ## Scopes -/

theorem Settles.forget (ha : Settles ids ns P a) : Settles ids ns (fun _ _ => True) a :=
  { ha with
    stable := fun _ _ _ _ _ _ _ _ _ _ _ _ _ => trivial
    holds := fun _ _ => trivial }

/-- A part of the walk that meets no names. -/
theorem Settles.noNames (ha : Settles ids ns (fun _ _ => True) a) :
    Settles ids ns (fun t s => t.ResolvesAll [] s) a :=
  ha.congr fun _ _ => ⟨fun _ _ hx => absurd hx List.not_mem_nil, fun _ => trivial⟩

theorem Settled.forget (ha : Settled ids ns P a) : Settled ids ns (fun _ _ => True) a :=
  fun h => (ha h).forget

/-- How a scope for a node starts: `decl` declares names of the nodes `own`, so that `D` holds. -/
structure Nests (ids' own : List NodeId) (kind : ScopeKind) (D : ScopeTree → ScopeId → Prop)
    (decl : ScopeId → Resolve Unit) : Prop where
  notFunction : ∀ id, kind ≠ .function id
  builds : ∀ {r : Resolution}, r.Ok → Builds r.current (· ∈ ids') r (decl r.current r).2
  opensNothing : ∀ s, OpensNothing (decl s)
  keeps : ∀ fs s, Keeps fs (decl s)
  declares : ∀ {r : Resolution}, r.Ok → r.tree.IsEmpty r.current →
    D (decl r.current r).2.tree r.current
  stable : ∀ {t t' : ScopeTree} {n : Nat} {J : NodeId → Prop} {S : ScopeId → Prop} {s : Nat}, t.Ok →
    t.Grows n J S t' → s < n → s ≠ ScopeTree.root → (∀ id ∈ own, ¬J id) → D t s → D t' s

section

variable {own : List NodeId} {kind : ScopeKind} {node : NodeId} {D : ScopeTree → ScopeId → Prop}
  {decl : ScopeId → Resolve Unit}

theorem openScope_current (kind : ScopeKind) (node : NodeId) (r : Resolution) :
    (openScope kind node r).2.current = r.tree.scopes.size := by
  rw [openScope_apply]

theorem isEmpty_openScope (kind : ScopeKind) (node : NodeId) (r : Resolution) :
    (openScope kind node r).2.tree.IsEmpty r.tree.scopes.size := by
  rw [openScope_apply]
  exact ⟨congrArg Scope.vars (withScope_scope r kind node _),
    congrArg Scope.hoisted (withScope_scope r kind node _)⟩

theorem opens_openScope {r : Resolution} (hr : r.Ok) (hkind : ∀ id, kind ≠ .function id) :
    (openScope kind node r).2.tree.Opens node r.current r.tree.scopes.size := by
  have hgrows : r.tree.Grows 0 (· ∈ [node]) (fun _ => True)
      (withScope r kind node (fnScopeOf r kind)) :=
    grows_withScope kind List.mem_cons_self _ (Nat.zero_le _) trivial
  have hfn : fnScopeOf r kind = (r.tree.scope r.current).fnScope := by
    cases kind with
    | function id => exact absurd rfl (hkind id)
    | _ => rfl
  rw [openScope_apply]
  refine ⟨Std.TreeMap.getElem?_insert_self, ?_, congrArg Scope.parent (withScope_scope r kind node _), ?_⟩
  · change _ < (withScope r kind node _).scopes.size
    rw [withScope_size]
    exact Nat.lt_succ_self _
  · change ((withScope r kind node _).scope _).fnScope = _
    rw [withScope_scope]
    exact hfn.trans (hgrows.fnScope _ hr.inside).symm

theorem Opens.transfer {t t' : ScopeTree} {s inner : ScopeId} (h : t.Opens node s inner)
    (hnodes : t'.scopeOf node = t.scopeOf node) (hsize : t.scopes.size ≤ t'.scopes.size)
    (hparent : (t'.scope inner).parent = (t.scope inner).parent)
    (hfn : (t'.scope inner).fnScope = (t.scope inner).fnScope)
    (hfn' : (t'.scope s).fnScope = (t.scope s).fnScope) : t'.Opens node s inner where
  scopeOf := hnodes.trans h.scopeOf
  inside := h.inside.trans_le hsize
  parent := hparent.trans h.parent
  fnScope := hfn.trans (h.fnScope.trans hfn'.symm)

/-- Code in a scope of its own leaves behind what is declared there. -/
theorem Settles.nested (hnests : Nests ids' own kind D decl) (hids : ids ⊆ ids')
    (hown : own ⊆ ids') (hapart : List.Disjoint own ids) (hnode : node ∈ ids') (hnode' : node ∉ ids)
    (ha : Settles ids ns P a) :
    Settles ids' ns (fun t s => ∃ inner, t.Opens node s inner ∧ D t inner ∧ P t inner)
      (inside do decl (← openScope kind node); a) := by
  have hopened {r : Resolution} (hr : r.Ok) := ok_openScope hr kind node
  have hdecl {r : Resolution} (hr : r.Ok) : Builds r.tree.scopes.size (· ∈ ids')
      (openScope kind node r).2 (decl r.tree.scopes.size (openScope kind node r).2).2 := by
    have h := hnests.builds (hopened hr)
    rwa [openScope_current] at h
  have hok {r : Resolution} (hr : r.Ok) := (hdecl hr).ok' (hopened hr)
  have hinner {r : Resolution} (hr : r.Ok) :
      r.tree.scopes.size < (openScope kind node r).2.tree.scopes.size := by
    have h := (hopened hr).inside
    rwa [openScope_current] at h
  have hbuilds {r : Resolution} (hr : r.Ok) : Builds r.tree.scopes.size (· ∈ ids') r
      ((inside do decl (← openScope kind node); a) r).2 := by
    refine builds_inside hr (fun scope => do decl scope; a) hnode ?_
    refine (hdecl hr).trans (hopened hr) ((ha.builds (hok hr)).mono (hok hr) ?_ hids)
    exact (hinner hr).le.trans (hdecl hr).grows.size
  refine ⟨hbuilds, ?_, ?_, ?_⟩
  · rintro t t' n J S s hok hok' hgrows hn hs hJ ⟨inner, hopens, hD, hP⟩
    refine ⟨inner, hopens.grow hok hgrows hn hs (hJ _ hnode), ?_, ?_⟩
    · exact hnests.stable hok hgrows (hopens.inside.trans_le hn) (hopens.ne_root hok)
        (fun id hid => hJ id (hown hid)) hD
    · exact ha.stable hok hok' hgrows hn hopens.inside (fun id hid => hJ id (hids hid)) hP
  · intro r hr hunopened
    have hfirst : (openScope kind node r).1 = r.tree.scopes.size := by rw [openScope_apply]
    rw [inside_apply, bind_apply, hfirst]
    set r₁ := (openScope kind node r).2
    set r₂ := (decl r.tree.scopes.size r₁).2
    have hcurrent : r₂.current = r.tree.scopes.size :=
      (hdecl hr).current.trans (openScope_current kind node r)
    have hgrows := (ha.builds (hok hr)).grows
    have hinner' : r.tree.scopes.size < r₂.tree.scopes.size :=
      (hinner hr).trans_le (hdecl hr).grows.size
    have hopens : r₂.tree.Opens node r.current r.tree.scopes.size := by
      refine Opens.transfer (opens_openScope hr hnests.notFunction) ?_ (hdecl hr).grows.size
        ((hdecl hr).grows.parent _ (hinner hr)) ((hdecl hr).grows.fnScope _ (hinner hr))
        ((hdecl hr).grows.fnScope _ (hr.inside.trans (hinner hr)))
      exact congrArg (·[node]?) (hnests.opensNothing _ r₁)
    refine ⟨r.tree.scopes.size, ?_, ?_, ?_⟩
    · exact hopens.grow (hok hr).tree hgrows (Nat.le_refl _) (hr.inside.trans hinner') hnode'
    · have hD : D r₂.tree r.tree.scopes.size := by
        have h := hnests.declares (hopened hr)
        rw [openScope_current] at h
        exact h (isEmpty_openScope kind node r)
      exact hnests.stable (hok hr).tree hgrows hinner' (hopens.ne_root (hok hr).tree)
        (fun id hid hid' => hapart hid hid') hD
    · have hP := ha.holds (hok hr) fun id hid => ?_
      · rwa [hcurrent] at hP
      · have hgrows : r.tree.Grows 0 (· ∈ [node]) (fun _ => True) r₁.tree := by
          rw [show r₁ = _ from congrArg Prod.snd (openScope_apply kind node r)]
          exact grows_withScope kind List.mem_cons_self _ (Nat.zero_le _) trivial
        rw [ScopeTree.scopeOf, hnests.opensNothing _ r₁]
        refine (hgrows.scopeOf id fun h => ?_).trans (hunopened id (hids hid))
        exact hnode' (List.mem_singleton.mp h ▸ hid)
  · intro hflat fs r hr h
    have hfirst : (openScope kind node r).1 = r.tree.scopes.size := by rw [openScope_apply]
    have hopen := writes_openScope h hnests.notFunction node
    have hend := ha.keeps hflat (hok hr) (hnests.keeps fs r.tree.scopes.size _ hopen)
    refine ⟨?_, ?_⟩
    · rw [(hbuilds hr).current, (hbuilds hr).grows.fnScope _ hr.inside]
      exact h.fnScope
    · rw [inside_apply, bind_apply, hfirst]
      exact hend.written

end

/-! ## Blocks and handlers -/

theorem declareLexicals_cons (s : Stmt) (rest : List Stmt) (r : Resolution) :
    declareLexicals (s :: rest) r = declareLexicals rest ((match s with
      | .var d => declareLexical d
      | _ => pure () : Resolve Unit) r).2 := by
  rw [declareLexicals, List.forIn_cons]
  cases s <;> rfl

theorem declareLexicals_bare {stmts : List Stmt} (h : Bare stmts) (r : Resolution) :
    (declareLexicals stmts r).2 = r := by
  induction stmts with
  | nil => rfl
  | cons s rest ih =>
    have hrest := ih fun d hd => h d (List.mem_cons_of_mem _ hd)
    rw [declareLexicals_cons]
    cases s with
    | var d =>
      have hkind := h d List.mem_cons_self
      dsimp only
      rw [declareLexical, hkind]
      exact hrest
    | _ => exact hrest

theorem nests_block {stmts : List Stmt} (id : NodeId) (hids : stmtIds stmts ⊆ ids') :
    Nests ids' [] (.block id) (fun t s => Bare stmts → t.IsEmpty s)
      (fun _ => declareLexicals stmts) where
  notFunction := nofun
  builds := fun hr => builds_declareLexicals hr (Nat.le_refl _) fun d hd x hx =>
    hids (mem_ids_of_lexical hd hx)
  opensNothing := fun _ => opensNothing_declareLexicals stmts
  keeps := fun _ _ => keeps_declareLexicals stmts
  declares := fun {r} _ h hbare => by
    rw [declareLexicals_bare hbare]
    exact h
  stable := fun _ hgrows hs hroot _ h hbare => (h hbare).grow hgrows hs hroot

theorem settled_block {id : NodeId} {stmts : List Stmt}
    (h : Settled (stmtIds stmts) (stmtNodes true stmts) (StmtsResolved · stmts) (onStmts stmts)) :
    Settled (Block.ids ⟨id, stmts⟩) (Block.nodes true ⟨id, stmts⟩) (Block.Resolved · ⟨id, stmts⟩)
      (onBlock ⟨id, stmts⟩) := by
  intro hregular
  have hnests := nests_block id (List.subset_append_left (stmtIds stmts) [id])
  refine Settles.nested hnests (List.subset_append_left _ _) (List.nil_subset _)
    (List.disjoint_nil_left _) (List.mem_append_right _ List.mem_cons_self) (fun hid => ?_)
    (h hregular.unlisted)
  exact hregular.disjoint hid List.mem_cons_self

/-- The parameter of a handler is found in the scope that was opened for it. -/
theorem catches_declareCaught {r : Resolution} (hr : r.Ok) (hempty : r.tree.IsEmpty r.current)
    (param : Option Ident) : (declareCaught param r.current r).2.tree.Catches r.current param := by
  cases param with
  | none => exact hempty
  | some p =>
    set x := unusedVar r.tree r.current p.name .catchParam (some p.id) none
    set t := r.tree.addVar x with ht
    have hdeclare : declareIn r.current p .catchParam r = (r.tree.vars.size,
        { r with tree := { t with identVars := t.identVars.insert p.id r.tree.vars.size } }) := by
      rw [declareIn_eq, hempty.vars]
      rfl
    have hbuilds : Builds 0 (fun _ => True) r (declareIn r.current p .catchParam r).2 :=
      builds_declareIn hr nofun trivial hr.inside (Nat.zero_le _)
    have hok := hbuilds.ok
    have hscope : t.scope r.current =
        { r.tree.scope r.current with vars := [(p.name, r.tree.vars.size)] } := by
      rw [ht, ScopeTree.addVar_scope, if_pos ⟨rfl, hr.inside⟩, hempty.vars]
      rfl
    rw [hdeclare] at hok
    set t' : ScopeTree := { t with identVars := t.identVars.insert p.id r.tree.vars.size }
    have hresolve : resolve p { r with tree := t' } =
        (some r.tree.vars.size, { r with tree := t' }) := by
      have hlookup : t'.lookup r.current p.name = some r.tree.vars.size := by
        have hvars : (t'.scope r.current).vars = [(p.name, r.tree.vars.size)] :=
          congrArg Scope.vars hscope
        rw [ScopeTree.lookup_eq hok, hvars]
        simp
      exact resolve_found hlookup
    have hlast : (declareCaught (some p) r.current r).2 = { r with
        tree := withUse t' r.tree.vars.size ⟨p.id, (t'.scope r.current).fnScope, .init⟩ } := by
      change (addSite p .init (declareIn r.current p .catchParam r).2).2 = _
      rw [hdeclare, addSite_apply, hresolve]
    have hvar : t.var r.tree.vars.size = x := by
      rw [ht, ScopeTree.addVar_var, if_pos rfl]
    rw [hlast]
    have hext := (ScopeTree.useVar_extends t' r.tree.vars.size
      (used_extends ⟨p.id, (t'.scope r.current).fnScope, .init⟩) r.tree.vars.size)
    refine ⟨r.tree.vars.size, ?_, ?_, ?_, ?_, Std.TreeMap.getElem?_insert_self,
      Std.TreeMap.getElem?_insert_self⟩
    · exact congrArg Scope.vars hscope
    · exact (congrArg Scope.hoisted hscope).trans hempty.hoisted
    · exact hext.kind.trans (congrArg Variable.kind hvar)
    · exact hext.initial.trans (congrArg Variable.initial hvar)

theorem nests_handler (id : NodeId) {param : Option Ident} (hids : Ident.ids? param ⊆ ids') :
    Nests ids' (Ident.ids? param) (.catch id) (fun t s => t.Catches s param)
      (declareCaught param) where
  notFunction := nofun
  builds := fun {r} hr => by
    cases param with
    | none => exact Builds.refl hr
    | some p =>
      have hp : p.id ∈ ids' := hids List.mem_cons_self
      have hdeclare : Builds r.current (· ∈ ids') r (declareIn r.current p .catchParam r).2 :=
        builds_declareIn hr nofun hp hr.inside (Nat.le_refl _)
      exact hdeclare.trans hr (builds_noteSite (hdeclare.ok' hr) hp _)
  opensNothing := opensNothing_declareCaught param
  keeps := fun _ => keeps_declareCaught param
  declares := fun hr hempty => catches_declareCaught hr hempty param
  stable := fun hok hgrows hs hroot hJ h => h.grow hok hgrows hs hroot hJ

theorem settled_handler {id : NodeId} {param : Option Ident} {body : Block}
    (h : Settled body.ids (body.nodes true) (Block.Resolved · body) (onBlock body)) :
    Settled (Ident.ids? param ++ body.ids ++ [id]) (Node.name? param ++ body.nodes true)
      (HandlerResolved? · (some ⟨id, param, body⟩)) (onHandler? (some ⟨id, param, body⟩)) := by
  intro hregular
  have hnodup := List.nodup_append'.mp (List.nodup_append'.mp hregular.nodup).1
  have hbody := h ⟨hnodup.2.1, fun hs d hd => hregular.bare hs d (List.mem_append_right _ hd)⟩
  have hparam : Ident.ids? param ⊆ Ident.ids? param ++ body.ids ++ [id] :=
    fun i hi => List.mem_append_left _ (List.mem_append_left _ hi)
  rw [onHandler?_some]
  refine Settles.mono (Settles.nested (nests_handler id hparam)
    (fun i hi => List.mem_append_left _ (List.mem_append_right _ hi)) hparam hnodup.2.2
    (List.mem_append_right _ List.mem_cons_self) (fun hid => ?_) hbody)
    (List.Subset.refl _) (List.subset_append_right _ _)
  exact hregular.disjoint (List.mem_append_right _ hid) List.mem_cons_self

/-! ## Loops -/

/-- A loop whose head declares nothing for itself has no scope of its own. -/
theorem settled_loop (id : NodeId) {head : Option ForHead} (ha : Settled ids ns P a)
    (hhead : ∀ d, head = some (.decl d) → ∀ x ∈ d.decls, x.name.id ∈ ids) :
    Settled (ids ++ [id]) ns (fun t s => BareHead head → t.scopeOf id = none ∧ P t s)
      (inside do openLoop id head; a) := by
  intro hregular
  have hparts := ha hregular.unlisted
  have hid : id ∉ ids := fun hid => hregular.disjoint hid List.mem_cons_self
  have hbare (hopen : openLoop id head = pure ()) :
      Settles (ids ++ [id]) ns (fun t s => BareHead head → t.scopeOf id = none ∧ P t s)
        (inside do openLoop id head; a) := by
    rw [hopen]
    have hwhole := (hparts.mono (List.subset_append_left ids [id]) (List.Subset.refl ns)).stays
    refine { hwhole with stable := ?_, holds := ?_ }
    · intro t t' n J S s hok hok' hgrows hn hs hJ h hbare
      obtain ⟨hnone, hP⟩ := h hbare
      refine ⟨(hgrows.scopeOf id (hJ id ?_)).trans hnone, ?_⟩
      · exact List.mem_append_right _ List.mem_cons_self
      · exact hparts.stable hok hok' hgrows hn hs
          (fun i hi => hJ i (List.mem_append_left _ hi)) hP
    · intro r hr hunopened _
      refine ⟨?_, hwhole.holds hr hunopened⟩
      refine ((hparts.builds hr).grows.scopeOf id hid).trans (hunopened id ?_)
      exact List.mem_append_right _ List.mem_cons_self
  cases head with
  | none => exact hbare rfl
  | some head =>
    cases head with
    | expr e => exact hbare rfl
    | decl d =>
      by_cases hkind : d.kind = .var
      · exact hbare (by rw [openLoop, if_neg (not_not_intro hkind)])
      · have hopen : openLoop id (some (.decl d)) = (do
            discard (openScope (.block id) id)
            declareLexical d) := by
          rw [openLoop, if_pos hkind]
        have hnests : Nests (ids ++ [id]) [] (.block id) (fun _ _ => True)
            (fun _ => declareLexical d) :=
          { notFunction := by rintro _ ⟨⟩
            builds := fun hr => builds_declareLexical hr (Nat.le_refl _) fun x hx =>
              List.mem_append_left _ (hhead d rfl x hx)
            opensNothing := fun _ => opensNothing_declareLexical d
            keeps := fun _ _ => keeps_declareLexical d
            declares := fun _ _ => trivial
            stable := fun _ _ _ _ _ _ => trivial }
        have hwhole := (Settles.nested hnests (List.subset_append_left _ _) (List.nil_subset _)
          (List.disjoint_nil_left _) (List.mem_append_right _ List.mem_cons_self) hid hparts).forget
        rw [hopen]
        refine hwhole.congr fun t s => ⟨fun _ hbare => absurd hbare hkind, fun _ => trivial⟩

theorem settled_loopNames (ds : List Declarator) :
    Settled (declIds ds) (declNodes true ds) (fun _ _ => True)
      (ds.forM fun x => noteSite x.name .forIn) := by
  induction ds with
  | nil => exact fun _ => .skip
  | cons d rest ih =>
    obtain ⟨id, name, init⟩ := d
    have hname : Settled (Declarator.ids ⟨id, name, init⟩) (Declarator.nodes true ⟨id, name, init⟩)
        (fun t s => t.ResolvesAll [(name, .forIn)] s) (noteSite name .forIn) :=
      fun _ => settles_noteSite name .forIn List.mem_cons_self
    exact (hname.seq ih).forget

/-! ## The whole walk -/

/-- Functions are walked for themselves. -/
theorem settled_onFunc (f : Func) (name : FunctionName) :
    Settled (name.ids ++ f.ids) (f.nodes true) (fun _ _ => True) (onFunc f name) := by
  intro hregular
  refine ⟨(walked_onFunc f name hregular).builds, fun _ _ _ _ _ _ _ _ _ _ _ _ _ => trivial,
    fun _ _ => trivial, fun hflat => absurd ?_ (hflat f)⟩
  obtain ⟨id, params, body⟩ := f
  exact List.mem_cons_self

mutual

theorem settled_onExpr (e : Expr) :
    Settled e.ids (e.nodes true) (fun t s => t.ResolvesAll e.uses s) (onExpr e) := by
  cases e with
  | this id =>
    refine fun _ => (Settles.step (fun hr => ?_) fun _ => keeps_modifyFunction _).noNames
    exact builds_modifyFunction hr fun _ => ⟨rfl, rfl, rfl, rfl⟩
  | array id elems => exact (settled_onElems elems).node
  | object id props => exact (settled_onProps props).node
  | function id name fn =>
    have hfn := settled_onFunc fn (name.elim .none .own)
    cases name with
    | none => exact fun h => (hfn.node h).noNames
    | some i => exact fun h => ((hfn.wrap (x := .name i)).node h).noNames
  | unary id op arg => exact (settled_onExpr arg).node
  | update id op before arg =>
    have harg := settled_onExpr arg
    cases arg with
    | ident i => exact (settled_name i .compound).node
    | _ => exact harg.node
  | binary id op left right => exact ((settled_onExpr left).uses (settled_onExpr right)).node
  | assign id op left right =>
    have hright := settled_onExpr right
    have hkey : ∀ id obj key, left = .index id obj key →
        Settled key.ids (key.nodes true) (fun t s => t.ResolvesAll key.uses s) (onExpr key) := by
      cases left with
      | index _ _ key =>
        have hkey := settled_onExpr key
        rintro _ _ _ ⟨⟩
        exact hkey
      | _ => exact nofun
    have hleft := settled_onTarget op (settled_onExpr left) hkey
    rw [onExpr_assign, Expr.uses_assign]
    exact (hleft.uses hright).node
  | member id obj name =>
    intro h
    exact (settled_onExpr obj h.tail.unlisted).mono (List.subset_append_left _ _)
      (List.subset_cons_self _ _)
  | index id obj key => exact ((settled_onExpr obj).uses (settled_onExpr key)).node
  | cond id test yes no =>
    exact (((settled_onExpr test).uses (settled_onExpr yes)).uses (settled_onExpr no)).node
  | call id callee args =>
    rw [onExpr_call, Expr.uses_call]
    exact ((settled_onCallee (settled_onExpr callee)).uses (settled_onExprs args)).node
  | new id callee args => exact ((settled_onExpr callee).uses (settled_onExprs args)).node
  | seq id exprs => exact (settled_onExprs exprs).node
  | ident i => exact settled_name i .read
  | _ => exact fun _ => Settles.skip.noNames
termination_by structural e

theorem settled_onElems (es : List (Option Expr)) :
    Settled (elemIds es) (elemNodes true es) (fun t s => t.ResolvesAll (elemUses es) s)
      (onElems es) := by
  match es with
  | [] => exact fun _ => Settles.skip.noNames
  | none :: rest => exact settled_onElems rest
  | some e :: rest => exact (settled_onExpr e).uses (settled_onElems rest)
termination_by structural es

theorem settled_onExprs (es : List Expr) :
    Settled (exprIds es) (exprNodes true es) (fun t s => t.ResolvesAll (exprUses es) s)
      (onExprs es) := by
  match es with
  | [] => exact fun _ => Settles.skip.noNames
  | e :: rest => exact (settled_onExpr e).uses (settled_onExprs rest)
termination_by structural es

theorem settled_onKey (key : PropertyKey) :
    Settled key.ids (key.nodes true) (fun t s => t.ResolvesAll key.uses s) (onKey key) := by
  match key with
  | .ident _ | .string _ _ | .number _ _ => exact fun _ => Settles.skip.noNames
  | .computed e => exact settled_onExpr e
termination_by structural key

theorem settled_onProperty (p : Property) :
    Settled p.ids (p.nodes true) (fun t s => t.ResolvesAll p.uses s) (onProperty p) := by
  have haccessor (key : PropertyKey) (fn : Func)
      (hkey : Settled key.ids (key.nodes true) (fun t s => t.ResolvesAll key.uses s) (onKey key)) :
      Settled (key.ids ++ fn.ids) (key.nodes true ++ fn.nodes true)
        (fun t s => t.ResolvesAll key.uses s) (do onKey key; onFunc fn .none) :=
    (hkey.seq (settled_onFunc fn .none)).congr fun _ _ => and_iff_left trivial
  match p with
  | .value _ key value => exact ((settled_onKey key).uses (settled_onExpr value)).unlisted
  | .getter _ key fn => exact (haccessor key fn (settled_onKey key)).unlisted
  | .setter _ key fn => exact (haccessor key fn (settled_onKey key)).unlisted
termination_by structural p

theorem settled_onProps (ps : List Property) :
    Settled (propIds ps) (propNodes true ps) (fun t s => t.ResolvesAll (propUses ps) s)
      (onProps ps) := by
  match ps with
  | [] => exact fun _ => Settles.skip.noNames
  | p :: rest => exact (settled_onProperty p).uses (settled_onProps rest)
termination_by structural ps

end

theorem settled_onExpr? (e : Option Expr) :
    Settled (exprIds? e) (exprNodes? true e) (fun t s => t.ResolvesAll (exprUses? e) s)
      (onExpr? e) := by
  cases e with
  | none => exact fun _ => Settles.skip.noNames
  | some e => exact settled_onExpr e

theorem settled_onDeclarators (ds : List Declarator) :
    Settled (declIds ds) (declNodes true ds) (fun t s => t.ResolvesAll (declUses ds) s)
      (onDeclarators ds) := by
  induction ds with
  | nil => exact fun _ => Settles.skip.noNames
  | cons d rest ih =>
    obtain ⟨id, name, init⟩ := d
    cases init with
    | none =>
      have hname : Settled ([name.id] ++ [id]) [.name name] (fun _ _ => True) (bindKnown name) :=
        fun _ => .step (fun hr => builds_bindKnown hr List.mem_cons_self) fun _ => keeps_bindKnown name
      rw [onDeclarators_none]
      exact (hname.seq ih).congr fun _ _ => and_iff_right trivial
    | some e =>
      have hname : Settled [name.id] [.name name] (fun t s => t.ResolvesAll [(name, .init)] s)
          (noteSite name .init) :=
        fun _ => settles_noteSite name .init List.mem_cons_self
      have hfirst : Settled ([name.id] ++ e.ids ++ [id]) ([.name name] ++ e.nodes true)
          (fun t s => t.ResolvesAll ([(name, .init)] ++ e.uses) s)
          (do noteSite name .init; onExpr e) :=
        (hname.uses (settled_onExpr e)).unlisted
      exact hfirst.uses ih

theorem settled_onVarDecl (d : VarDecl) :
    Settled d.ids (d.nodes true) (fun t s => t.ResolvesAll (declUses d.decls) s)
      (onDeclarators d.decls) := by
  obtain ⟨id, kind, decls⟩ := d
  exact (settled_onDeclarators decls).node

theorem settled_onHead? (h : Option ForHead) :
    Settled (headIds? h) (headNodes? true h) (fun t s => t.ResolvesAll (headUses? h) s)
      (onHead? h) := by
  obtain - | d | e := h
  · exact fun _ => Settles.skip.noNames
  · have hd := settled_onVarDecl d
    obtain ⟨_, _, decls⟩ := d
    exact hd
  · exact settled_onExpr e

theorem settled_onLoopHead (h : ForHead) :
    Settled h.ids (h.loopNodes true) (fun _ _ => True) (onLoopHead h) := by
  cases h with
  | expr e =>
    have he := settled_onExpr e
    cases e with
    | ident i => exact (settled_name i .forIn).forget
    | _ => exact he.forget
  | decl d =>
    obtain ⟨_, _, decls⟩ := d
    exact (settled_loopNames decls).node

mutual

theorem settled_onStmt (s : Stmt) :
    Settled s.ids (s.nodes true) (Stmt.Resolved · s) (onStmt s) := by
  cases s with
  | block b => exact (settled_onBlock b).wrap
  | expr id e => exact (settled_onExpr e).node
  | var d =>
    have hd := settled_onVarDecl d
    obtain ⟨_, _, decls⟩ := d
    exact hd.wrap
  | function id name fn =>
    have hname : Settled [name.id] [.name name] (fun t s => t.ResolvesAll [(name, .init)] s)
        (noteSite name .init) :=
      fun _ => settles_noteSite name .init List.mem_cons_self
    refine (hname.seq (settled_onFunc fn (.declared name))).node.congr fun t s => ?_
    exact (and_iff_left trivial).trans List.forall_mem_singleton
  | «if» id test yes no =>
    refine (((settled_onExpr test).seq (settled_onStmt yes)).seq (settled_onStmt? no)).node.congr
      fun t s => ?_
    exact and_assoc
  | «for» id init test update body =>
    have hparts := (((settled_onHead? init).seq (settled_onExpr? test)).seq
      (settled_onExpr? update)).seq (settled_onStmt body)
    have hhead : ∀ d, init = some (.decl d) → ∀ x ∈ d.decls, x.name.id ∈
        headIds? init ++ exprIds? test ++ exprIds? update ++ body.ids := by
      rintro ⟨_, _, decls⟩ rfl x hx
      simp only [headIds?, ForHead.ids, VarDecl.ids, List.mem_append]
      exact Or.inl (Or.inl (Or.inl (Or.inl (mem_declIds hx))))
    refine (settled_loop id hparts hhead).wrap.congr fun t s => ?_
    rw [Stmt.Resolved]
    simp only [and_assoc]
  | forIn id head obj body =>
    have hparts := ((settled_onLoopHead head).seq (settled_onExpr obj)).seq (settled_onStmt body)
    have hhead : ∀ d, some head = some (.decl d) → ∀ x ∈ d.decls, x.name.id ∈
        head.ids ++ obj.ids ++ body.ids := by
      rintro ⟨_, _, decls⟩ ⟨⟩ x hx
      simp only [ForHead.ids, VarDecl.ids, List.mem_append]
      exact Or.inl (Or.inl (Or.inl (mem_declIds hx)))
    exact (settled_loop id hparts hhead).forget.wrap
  | «while» id test body => exact ((settled_onExpr test).seq (settled_onStmt body)).node
  | doWhile id body test => exact ((settled_onStmt body).seq (settled_onExpr test)).node
  | «return» id arg => exact (settled_onExpr? arg).node
  | labeled id label body =>
    have hlabel : Settled [label.id] [] (fun _ _ => True) (pure ()) := fun _ => .skip
    exact (hlabel.seq (settled_onStmt body)).node.congr fun _ _ => and_iff_right trivial
  | throw id arg => exact (settled_onExpr arg).node
  | «with» id obj body =>
    have hnote : Settled [] [] (fun _ _ => True) noteDynamicScope :=
      fun _ => .step builds_noteDynamicScope fun _ => keeps_noteDynamicScope
    exact ((hnote.seq (settled_onExpr obj)).seq (settled_onStmt body)).forget.node
  | «try» id block handler finalizer =>
    refine (((settled_onBlock block).seq (settled_onHandler? handler)).seq
      (settled_onBlock? finalizer)).node.congr fun t s => ?_
    exact and_assoc
  | _ => exact fun _ => .skip
termination_by structural s

theorem settled_onStmt? (s : Option Stmt) :
    Settled (stmtIds? s) (stmtNodes? true s) (StmtResolved? · s) (onStmt? s) := by
  match s with
  | none => exact fun _ => .skip
  | some s => exact settled_onStmt s
termination_by structural s

theorem settled_onBlock (b : Block) :
    Settled b.ids (b.nodes true) (Block.Resolved · b) (onBlock b) := by
  match b with
  | ⟨_, stmts⟩ => exact settled_block (settled_onStmts stmts)
termination_by structural b

theorem settled_onBlock? (b : Option Block) :
    Settled (blockIds? b) (blockNodes? true b) (BlockResolved? · b) (onBlock? b) := by
  match b with
  | none => exact fun _ => .skip
  | some b => exact settled_onBlock b
termination_by structural b

theorem settled_onHandler? (c : Option CatchClause) :
    Settled (handlerIds? c) (handlerNodes? true c) (HandlerResolved? · c) (onHandler? c) := by
  match c with
  | none => exact fun _ => .skip
  | some ⟨_, _, body⟩ => exact settled_handler (settled_onBlock body)
termination_by structural c

theorem settled_onStmts (ss : List Stmt) :
    Settled (stmtIds ss) (stmtNodes true ss) (StmtsResolved · ss) (onStmts ss) := by
  match ss with
  | [] => exact fun _ => .skip
  | s :: rest => exact (settled_onStmt s).seq (settled_onStmts rest)
termination_by structural ss

end

end Resolve

end EsOptimizer
