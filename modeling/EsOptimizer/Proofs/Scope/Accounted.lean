import EsOptimizer.Proofs.Scope.Noted
import EsOptimizer.Proofs.Scope.Settled

/-!
# The names of a program are noted

There is one rule for each way in which the walk opens a scope, and the walk as a whole accounts for
the occurrences in what it goes over (`accounted_onStmt`).
-/

namespace EsOptimizer

namespace Resolve

open Resolution
open ScopeTree (Records)

section

variable {ids ids' : List NodeId} {os us : NodeId → NodeId → List Occurrence} {a b : Resolve Unit}

/-! ## Scopes of blocks -/

/-- The walk in a new scope, once something is declared there. -/
theorem Ready.nested {r : Resolution} {s f node : NodeId} (h : Ready r ids' s f) {kind : ScopeKind}
    (hkind : ∀ id, kind ≠ .function id) {decl : ScopeId → Resolve Unit} {n : Nat}
    {J : NodeId → Prop} (hids : ids ⊆ ids') (hnode : node ∈ ids') (hnode' : node ∉ ids)
    (hdecl : Builds n J (openScope kind node r).2
      (decl r.tree.scopes.size (openScope kind node r).2).2)
    (hleaves : ∀ {β : Type} {part : ScopeTree → β}, Apart part → ∀ s, Leaves part (decl s))
    (hrecords : ∀ s, Recording (fun _ => False) (decl s)) :
    Ready (decl r.tree.scopes.size (openScope kind node r).2).2 ids node f := by
  have hopen := ok_openScope h.ok kind node
  have hopened : (openScope kind node r).2.tree.Opens node r.current r.tree.scopes.size :=
    opens_openScope h.ok hkind
  have hcurrent := openScope_current kind node r
  have hgrows : r.tree.Grows 0 (· ∈ [node]) (fun _ => True) (openScope kind node r).2.tree := by
    rw [openScope_apply]
    exact grows_withScope kind List.mem_cons_self _ (Nat.zero_le _) trivial
  have hstack : (openScope kind node r).2.functions = r.functions := by rw [openScope_apply]
  have hknown : (openScope kind node r).2.tree.functions = r.tree.functions := by
    rw [openScope_apply]
    rfl
  have hnotes : Records (fun _ => False) r.tree (openScope kind node r).2.tree :=
    recording_openScope kind node r
  set r₁ := (openScope kind node r).2
  have hscopeOf (id : NodeId) : (decl r.tree.scopes.size r₁).2.tree.scopeOf id =
      r₁.tree.scopeOf id := by
    rw [ScopeTree.scopeOf, hleaves apart_nodeScopes _ r₁]
    rfl
  have hfunctions := (hleaves apart_functions r.tree.scopes.size r₁).trans hknown
  have hinner : r.tree.scopes.size < r₁.tree.scopes.size := hopened.inside
  refine ⟨hdecl.ok' hopen, h.inFunction.congr (hdecl.functions.trans hstack) hfunctions,
    fun id hid => ?_, fun id hid => ?_, ?_, ?_, hnode', fun hf => h.function_notMem (hids hf)⟩
  · exact (h.blank id (hids hid)).keep (hnotes.trans (hrecords _ r₁)) fun hfalse => hfalse
  · rw [ScopeTree.function?, hfunctions]
    exact h.fresh id (hids hid)
  · rw [hscopeOf, hopened.scopeOf, hdecl.current, hcurrent]
  · have hf : f ∉ [node] := fun hf => h.function_notMem (List.mem_singleton.mp hf ▸ hnode)
    rw [hscopeOf, hgrows.scopeOf f hf, h.function, hdecl.current, hcurrent,
      hdecl.grows.fnScope _ hinner, hopened.fnScope, hgrows.fnScope _ h.ok.inside]

/-- Code in a scope of its own, in which something is declared first. -/
theorem Accounts.nested (ha : Accounts ids os a) (kind : ScopeKind)
    (hkind : ∀ id, kind ≠ .function id) {node : NodeId} (decl : ScopeId → Resolve Unit)
    (hids : ids ⊆ ids') (hnode : node ∈ ids') (hnode' : node ∉ ids)
    (hdecl : ∀ {r : Resolution}, r.Ok → Builds r.current (· ∈ ids') r (decl r.current r).2)
    (hleaves : ∀ {β : Type} {part : ScopeTree → β}, Apart part → ∀ s, Leaves part (decl s))
    (hrecords : ∀ s, Recording (fun _ => False) (decl s)) :
    Accounts ids' (fun _ f => os node f) (inside do decl (← openScope kind node); a) where
  builds :=
    have hwalks : Walks True ids [] a := .quiet ha.builds
    (hwalks.nested kind decl hids hnode hnode' hdecl (hleaves apart_nodeScopes)).builds
  records := Recording.inside <| (recording_openScope kind node).bind fun s =>
    ((hrecords s).mono fun _ => False.elim).bind fun _ => ha.records.mono hids
  within := fun s f o ho => (ha.within node f o ho).outer hids hnode
  explains := fun {r s f} h o ho => by
    have hfirst : (openScope kind node r).1 = r.tree.scopes.size := by rw [openScope_apply]
    have hbuilds := hdecl (ok_openScope h.ok kind node)
    rw [openScope_current] at hbuilds
    rw [inside_apply, bind_apply, hfirst]
    exact ha.explains (h.nested hkind hids hnode hnode' hbuilds hleaves hrecords) o ho
  recognizes := fun {r s f} h g => by
    have hfirst : (openScope kind node r).1 = r.tree.scopes.size := by rw [openScope_apply]
    have hbuilds := hdecl (ok_openScope h.ok kind node)
    rw [openScope_current] at hbuilds
    have hknown : (decl r.tree.scopes.size (openScope kind node r).2).2.tree.functions =
        r.tree.functions := by
      rw [hleaves apart_functions, openScope_apply]
      rfl
    have hcode := ha.recognizes (h.nested hkind hids hnode hnode' hbuilds hleaves hrecords) g
    rw [ScopeTree.usesArguments_congr hknown] at hcode
    rw [inside_apply, bind_apply, hfirst]
    exact hcode

/-- The same in code with distinct ids. -/
def Accounted (ids : List NodeId) (os : NodeId → NodeId → List Occurrence) (a : Resolve Unit) :
    Prop :=
  ids.Nodup → Accounts ids os a

namespace Accounted

theorem seq (ha : Accounted ids os a) (hb : Accounted ids' us b) :
    Accounted (ids ++ ids') (fun s f => os s f ++ us s f) (do a; b) := by
  intro h
  obtain ⟨hids, hids', hdisj⟩ := List.nodup_append'.mp h
  exact (ha hids).seq (hb hids') hdisj

/-- A node with an id of its own, which comes last. -/
theorem node {id : NodeId} (ha : Accounted ids os a) : Accounted (ids ++ [id]) os a :=
  fun h => (ha (List.nodup_append'.mp h).1).mono (List.subset_append_left _ _)

theorem name (i : Ident) (kind : SiteKind) :
    Accounted [i.id] (fun s f => [⟨i, .use kind, s, f⟩]) (noteSite i kind) :=
  fun _ => accounts_noteSite i kind

end Accounted

theorem accounted_block {id : NodeId} {stmts : List Stmt}
    (h : Accounted (stmtIds stmts) (stmtOccurrences stmts) (onStmts stmts)) :
    Accounted (Block.ids ⟨id, stmts⟩) (fun _ f => Block.occurrences ⟨id, stmts⟩ f)
      (onBlock ⟨id, stmts⟩) := by
  intro hnodup
  obtain ⟨hstmts, -, hdisj⟩ := List.nodup_append'.mp hnodup
  refine (h hstmts).nested (.block id) (by rintro _ ⟨⟩) (fun _ => declareLexicals stmts)
    (List.subset_append_left _ _) (List.mem_append_right _ List.mem_cons_self) ?_ (fun hr => ?_)
    (fun hpart _ => .declareLexicals hpart stmts) fun _ => recording_declareLexicals stmts
  · exact fun hid => hdisj hid List.mem_cons_self
  · exact builds_declareLexicals hr (Nat.le_refl _) fun d hd x hx =>
      List.mem_append_left _ (mem_ids_of_lexical hd hx)

/-- The parameter of a handler stands in the scope of the handler. -/
theorem accounted_handler {id : NodeId} {param : Option Ident} {body : Block}
    (h : Accounted body.ids (fun _ f => body.occurrences f) (onBlock body)) :
    Accounted (CatchClause.ids ⟨id, param, body⟩)
      (fun _ f => handlerOccurrences? (some ⟨id, param, body⟩) f)
      (onHandler? (some ⟨id, param, body⟩)) := by
  intro hnodup
  obtain ⟨hparts, -, hdisj⟩ := List.nodup_append'.mp hnodup
  have hid : id ∉ Ident.ids? param ++ body.ids := fun hid => hdisj hid List.mem_cons_self
  have hsub := List.subset_append_left (Ident.ids? param ++ body.ids) [id]
  have hmem : id ∈ Ident.ids? param ++ body.ids ++ [id] :=
    List.mem_append_right _ List.mem_cons_self
  cases param with
  | none =>
    exact (h hparts).nested (.catch id) (by rintro _ ⟨⟩) (fun _ => pure ()) hsub hmem hid
      (fun hr => Builds.refl hr) (fun _ _ => .pure _) fun _ => .pure _
  | some p =>
    have hbody : Accounts ([p.id] ++ body.ids)
        (fun s f => [⟨p, .use .init, s, f⟩] ++ body.occurrences f)
        (do noteSite p .init; onBlock body) :=
      (Accounted.name p .init).seq h hparts
    refine hbody.nested (.catch id) (by rintro _ ⟨⟩)
      (fun scope => discard (declareIn scope p .catchParam)) hsub hmem hid (fun hr => ?_)
      (fun hpart s => .declareIn hpart s p .catchParam)
      fun s => (recording_declareIn s p .catchParam).bind fun _ => .pure _
    refine builds_declareIn hr nofun ?_ hr.inside (Nat.le_refl _)
    exact List.mem_append_left _ (List.mem_append_left _ List.mem_cons_self)

theorem accounted_loop {id : NodeId} {head : Option ForHead} (ha : Accounted ids os a)
    (hhead : ∀ d, head = some (.decl d) → ∀ x ∈ d.decls, x.name.id ∈ ids) :
    Accounted (ids ++ [id]) (fun s f => os (ForHead.scope id s head) f)
      (inside do openLoop id head; a) := by
  intro hnodup
  obtain ⟨hids, -, hdisj⟩ := List.nodup_append'.mp hnodup
  have hparts := ha hids
  have hstays := (hparts.mono (List.subset_append_left ids [id])).stays
  cases head with
  | none => exact hstays
  | some head =>
    cases head with
    | expr e => exact hstays
    | decl d =>
      by_cases hkind : d.kind = .var
      · have hopen : openLoop id (some (.decl d)) = pure () := by
          rw [openLoop, if_neg (not_not_intro hkind)]
        simp only [ForHead.scope, if_pos hkind]
        rw [hopen]
        exact hstays
      · have hopen : openLoop id (some (.decl d)) = (do
            discard (openScope (.block id) id)
            declareLexical d) := by
          rw [openLoop, if_pos hkind]
        simp only [ForHead.scope, if_neg hkind]
        rw [hopen]
        refine hparts.nested (.block id) (by rintro _ ⟨⟩) (fun _ => declareLexical d)
          (List.subset_append_left _ _) (List.mem_append_right _ List.mem_cons_self) ?_
          (fun hr => ?_) (fun hpart _ => .declareLexical hpart d)
          fun _ => recording_declareLexical d
        · exact fun hid => hdisj hid List.mem_cons_self
        · exact builds_declareLexical hr (Nat.le_refl _) fun x hx =>
            List.mem_append_left _ (hhead d rfl x hx)

/-! ## Functions -/

/-- A name that is noted where it is declared in the scope of a function. -/
theorem notesOwn_noteSite {r : Resolution} (hr : r.Ok)
    (hfn : (r.tree.scope r.current).fnScope = r.current) {i : Ident}
    (hblank : r.tree.Unnoted i.id) {v : VarId}
    (hfound : (r.tree.scope r.current).vars.lookup i.name = some v) :
    (noteSite i .init r).2.tree.NotesOwn r.current i := by
  have hlookup : r.tree.lookup r.current i.name = some v := by
    rw [ScopeTree.lookup_eq hr.tree, hfound]
  change (addSite i .init r).2.tree.NotesOwn r.current i
  rw [addSite_apply, resolve_found hlookup]
  refine ⟨v, hfound, ?_⟩
  change (withUse r.tree v ⟨i.id, (r.tree.scope r.current).fnScope, .init⟩).Notes i.id .init
    r.current v
  have hnotes := notes_withUse (ScopeTree.lt_of_lookup hr.tree hlookup)
    ⟨i.id, (r.tree.scope r.current).fnScope, .init⟩ hblank.sitesAt
  rw [hfn] at hnotes ⊢
  exact hnotes

theorem notesOwn_declareParams {r : Resolution} (hr : r.Ok)
    (hfn : (r.tree.scope r.current).fnScope = r.current) {params : List Ident}
    (hblank : ∀ p ∈ params, r.tree.Unnoted p.id) (hnodup : (params.map (·.id)).Nodup) :
    ∀ p ∈ params, (declareParams r.current params r).2.tree.NotesOwn r.current p := by
  induction params generalizing r with
  | nil => exact nofun
  | cons p rest ih =>
    obtain ⟨hp, hrest⟩ := List.nodup_cons.mp hnodup
    have hdeclare : Builds 0 (· ∈ [p.id]) r (declareIn r.current p .param r).2 :=
      builds_declareIn hr nofun List.mem_cons_self hr.inside (Nat.zero_le _)
    have hnew : Records (fun _ => False) r.tree (declareIn r.current p .param r).2.tree :=
      recording_declareIn r.current p .param r
    have hfound := (declareIn_spec hr.inside p .param).found
    have hr₁ := hdeclare.ok' hr
    set r₁ := (declareIn r.current p .param r).2
    have hsite : Builds 0 (· ∈ [p.id]) r₁ (noteSite p .init r₁).2 :=
      builds_noteSite hr₁ List.mem_cons_self .init
    have hnoted : Records (· ∈ [p.id]) r₁.tree (noteSite p .init r₁).2.tree :=
      recording_noteSite List.mem_cons_self .init r₁
    have hr₂ := hsite.ok' hr₁
    have h₂ := hdeclare.trans hr hsite
    have hkept := (hnew.mono fun _ => False.elim).trans hnoted
    have hfn₁ : (r₁.tree.scope r₁.current).fnScope = r₁.current := by
      rw [hdeclare.current, hdeclare.grows.fnScope _ hr.inside, hfn]
    have hown : (noteSite p .init r₁).2.tree.NotesOwn r.current p := by
      have hfirst := notesOwn_noteSite hr₁ hfn₁
        ((hblank p List.mem_cons_self).keep hnew fun hfalse => hfalse) (hdeclare.current ▸ hfound)
      rwa [hdeclare.current] at hfirst
    have happly : (declareParams r.current (p :: rest) r).2 =
        (declareParams r.current rest (noteSite p .init r₁).2).2 := by
      rw [declareParams, List.mapM_cons]
      rfl
    rw [happly]
    set r₂ := (noteSite p .init r₁).2
    have hcurrent : r₂.current = r.current := h₂.current
    intro q hq
    rcases List.mem_cons.mp hq with rfl | hq
    · have hbuilds : Builds 0 (· ∈ rest.map (·.id)) r₂ (declareParams r.current rest r₂).2 :=
        builds_declareParams hr₂ (hr.inside.trans_le h₂.grows.size) (Nat.zero_le _)
          fun i hi => List.mem_map_of_mem hi
      exact hown.keep hbuilds.grows
        (recording_declareParams (fun i hi => List.mem_map_of_mem hi) r₂) hp
    · have hlater := ih hr₂ (by rw [hcurrent, h₂.grows.fnScope _ hr.inside, hfn])
        (fun x hx => (hblank x (List.mem_cons_of_mem _ hx)).keep hkept fun hx' => hp ?_) hrest q hq
      · rwa [hcurrent] at hlater
      · exact List.mem_map.mpr ⟨x, hx, List.mem_singleton.mp hx'⟩

/-- The own name of a function is noted if nothing in the scope hides it. -/
theorem notesOwn_nameVar {r : Resolution} (hr : r.Ok)
    (hfn : (r.tree.scope r.current).fnScope = r.current) {i : Ident}
    (hblank : r.tree.Unnoted i.id) :
    (nameVar r.current (.own i) r).2.tree.NotesOwn r.current i ∨
      (∃ v, ((nameVar r.current (.own i) r).2.tree.scope r.current).vars.lookup i.name = some v) ∧
        (nameVar r.current (.own i) r).2.tree.Unnoted i.id := by
  rw [nameVar_own]
  split
  · rename_i hhidden
    exact Or.inr ⟨Option.isSome_iff_exists.mp hhidden, hblank⟩
  · have hdeclare : Builds 0 (fun _ => True) r (declareIn r.current i .ownName r).2 :=
      builds_declareIn hr nofun trivial hr.inside (Nat.zero_le _)
    have hnew : Records (fun _ => False) r.tree (declareIn r.current i .ownName r).2.tree :=
      recording_declareIn r.current i .ownName r
    have hfound := (declareIn_spec hr.inside i .ownName).found
    have hr₁ := hdeclare.ok' hr
    set r₁ := (declareIn r.current i .ownName r).2
    have hfn₁ : (r₁.tree.scope r₁.current).fnScope = r₁.current := by
      rw [hdeclare.current, hdeclare.grows.fnScope _ hr.inside, hfn]
    have hown := notesOwn_noteSite hr₁ hfn₁ (hblank.keep hnew fun hfalse => hfalse)
      (hdeclare.current ▸ hfound)
    rw [hdeclare.current] at hown
    exact Or.inl hown

theorem modifyFunction_tree (f : FunctionInfo → FunctionInfo) (r : Resolution) :
    ∃ functions, (modifyFunction f r).2.tree = { r.tree with functions } := by
  rw [modifyFunction_eq]
  cases r.functions with
  | nil => exact ⟨r.tree.functions, rfl⟩
  | cons id rest => exact ⟨r.tree.functions.modify id f, rfl⟩

theorem notesOwn_declareRest {r : Resolution} (hr : r.Ok)
    (hfn : (r.tree.scope r.current).fnScope = r.current) (body : List Stmt) {i : Ident}
    (hblank : r.tree.Unnoted i.id) :
    (declareRest (.own i) body r.current r).2.tree.NotesOwn r.current i ∨
      (∃ v, ((declareRest (.own i) body r.current r).2.tree.scope r.current).vars.lookup i.name =
        some v) ∧ (declareRest (.own i) body r.current r).2.tree.Unnoted i.id := by
  have hhoist : Builds 0 (fun _ => True) r (hoist body r).2 :=
    builds_hoist hr hfn (Nat.zero_le _) (fun _ _ => trivial) fun _ _ => trivial
  have hhoisted : Records (fun _ => False) r.tree (hoist body r).2.tree := recording_hoist body r
  have hdeclareRest (f : FunctionInfo → FunctionInfo) := modifyFunction_tree f
    (nameVar r.current (.own i) (declareLexicals body (hoist body r).2).2).2
  obtain ⟨functions, hlast⟩ := hdeclareRest fun f =>
    { f with nameVar := _, isDecl := false }
  change (declareRest (.own i) body r.current r).2.tree = _ at hlast
  set r₁ := (hoist body r).2
  have hlexical : Builds 0 (fun _ => True) r₁ (declareLexicals body r₁).2 :=
    builds_declareLexicals (hhoist.ok' hr) (Nat.zero_le _) fun _ _ _ _ => trivial
  have hdeclared : Records (fun _ => False) r₁.tree (declareLexicals body r₁).2.tree :=
    recording_declareLexicals body r₁
  have h₂ := hhoist.trans hr hlexical
  set r₂ := (declareLexicals body r₁).2
  have hcurrent : r₂.current = r.current := h₂.current
  have hown := notesOwn_nameVar (h₂.ok' hr)
    (by rw [hcurrent, h₂.grows.fnScope _ hr.inside, hfn])
    (hblank.keep (hhoisted.trans hdeclared) fun hfalse => hfalse)
  rw [hcurrent] at hown
  rw [hlast]
  exact hown.imp (·.withFunctions functions) fun ⟨hhidden, hnone⟩ =>
    ⟨hhidden, hnone.siteKind, hnone.sitesAt⟩

section

variable {name : FunctionName} {id bodyId : NodeId} {params : List Ident} {body : List Stmt}

theorem scopeOf_atBody (r : Resolution) :
    (atBody name id params bodyId body r).tree.scopeOf id = some r.tree.scopes.size := by
  have hkept : (atBody name id params bodyId body r).tree.nodeScopes =
      (entered r id bodyId).tree.nodeScopes :=
    (opensNothing_declareRest name body _ _).trans (opensNothing_declareParams _ params _)
  rw [ScopeTree.scopeOf, hkept]
  change ((r.tree.nodeScopes.insert id r.tree.scopes.size).insert bodyId
    r.tree.scopes.size)[id]? = _
  rw [Std.TreeMap.getElem?_insert]
  split
  · rfl
  · exact Std.TreeMap.getElem?_insert_self

/-- What is noted until the body of a function starts. -/
theorem records_atBody (r : Resolution) : Records (· ∈ name.ids ++ params.map (·.id)) r.tree
    (atBody name id params bodyId body r).tree := by
  have hentered : Records (· ∈ name.ids ++ params.map (·.id)) r.tree (entered r id bodyId).tree :=
    records_entered r id bodyId
  refine hentered.trans ((records_afterParams _ id fun p hp => ?_).trans
    (recording_declareRest body _ (fun i hi => ?_) _))
  · exact List.mem_append_right _ (List.mem_map_of_mem hp)
  · rw [hi]
    exact List.mem_append_left _ List.mem_cons_self

/-- No id of a function is another one of it: neither of its own name, nor of a parameter, nor in its
body, nor that of the function. -/
structure ApartIds (own params body : List NodeId) (id : NodeId) : Prop where
  params_nodup : params.Nodup
  body_nodup : body.Nodup
  own_params : List.Disjoint own params
  own_body : List.Disjoint own body
  params_body : List.Disjoint params body
  own_notMem : id ∉ own
  params_notMem : id ∉ params
  body_notMem : id ∉ body

theorem apartIds_of_nodup (h : (name.ids ++ Func.ids ⟨id, params, ⟨bodyId, body⟩⟩).Nodup) :
    ApartIds name.ids (params.map (·.id)) (stmtIds body) id := by
  simp only [Func.ids, Block.ids, List.nodup_append', List.disjoint_append_right,
    List.disjoint_singleton, List.mem_append, not_or] at h
  obtain ⟨-, ⟨⟨hparams, ⟨hbody, -, -⟩, hparams', -⟩, -, hid⟩, ⟨hown, hown', -⟩, hid'⟩ := h
  exact ⟨hparams, hbody, hown, hown', hparams', hid', hid.1, hid.2.1⟩

/-- Parameters, and the own name of a function, are noted where the body starts. None of them is
taken for the `arguments` of the function. -/
theorem explains_atBody {r : Resolution} (hr : r.Ok)
    (hblank : ∀ i ∈ name.ids ++ params.map (·.id), r.tree.Unnoted i)
    (hids : ApartIds name.ids (params.map (·.id)) (stmtIds body) id) :
    ∀ o ∈ name.occurrences id ++ params.map (⟨·, .use .init, id, id⟩),
      (atBody name id params bodyId body r).tree.Explains o ∧
        ¬(atBody name id params bodyId body r).tree.IsOwnArguments o := by
  have hr₁ := ok_entered hr id bodyId
  have hfn : ((entered r id bodyId).tree.scope (entered r id bodyId).current).fnScope =
      (entered r id bodyId).current :=
    congrArg Scope.fnScope (entered_scope r id bodyId)
  have hentered : Records (fun _ => False) r.tree (entered r id bodyId).tree :=
    records_entered r id bodyId
  have hafter : Builds r.tree.scopes.size (fun _ => True) (entered r id bodyId)
      (afterParams id params (entered r id bodyId)) :=
    builds_afterParams hr₁ (Nat.le_refl _) (entered_scopeOf r id bodyId) trivial fun _ _ => trivial
  have hnoted : Records (· ∈ params.map (·.id)) (entered r id bodyId).tree
      (afterParams id params (entered r id bodyId)).tree :=
    records_afterParams _ id fun p hp => List.mem_map_of_mem hp
  have hparams : ∀ p ∈ params, (afterParams id params (entered r id bodyId)).tree.NotesOwn
      r.tree.scopes.size p := by
    intro p hp
    refine (notesOwn_declareParams hr₁ hfn (fun q hq => ?_) hids.params_nodup p hp).withFunctions _
    exact (hblank _ (List.mem_append_right _ (List.mem_map_of_mem hq))).keep hentered
      fun hfalse => hfalse
  have hrest : Builds r.tree.scopes.size (fun j => j = id ∨ j ∈ name.ids ∨ j ∈ stmtIds body)
      (afterParams id params (entered r id bodyId)) (atBody name id params bodyId body r) :=
    builds_restOfFunction hr (Or.inl rfl) (fun i hi => Or.inr (Or.inl hi))
      (fun i hi => Or.inr (Or.inr hi)) hafter
  have hrecords : Records (fun j => j = id ∨ j ∈ name.ids ∨ j ∈ stmtIds body)
      (afterParams id params (entered r id bodyId)).tree
      (atBody name id params bodyId body r).tree := by
    refine recording_declareRest body _ (fun i hi => Or.inr (Or.inl ?_)) _
    rw [hi]
    exact List.mem_cons_self
  have hscope : (atBody name id params bodyId body r).tree.scopeOf id = some r.tree.scopes.size :=
    scopeOf_atBody r
  intro o ho
  rcases List.mem_append.mp ho with ho | ho
  · cases name with
    | none => cases ho
    | declared i => cases ho
    | own i =>
      obtain rfl := List.mem_singleton.mp ho
      have hcurrent : (afterParams id params (entered r id bodyId)).current = r.tree.scopes.size :=
        hafter.current
      have hblank' : (afterParams id params (entered r id bodyId)).tree.Unnoted i.id := by
        refine ((hblank i.id ?_).keep hentered fun hfalse => hfalse).keep hnoted fun hi => ?_
        · exact List.mem_append_left _ List.mem_cons_self
        · exact hids.own_params List.mem_cons_self hi
      have hown := notesOwn_declareRest (hafter.ok' hr₁)
        (by rw [hafter.current, hafter.grows.fnScope _ hr₁.inside, hfn]) body hblank'
      rw [hcurrent] at hown
      refine ⟨?_, fun ⟨⟨k, hk⟩, _⟩ => nomatch hk⟩
      rcases hown with hown | ⟨⟨v, hv⟩, hnone⟩
      · exact Or.inl (hown.means hrest.ok hscope)
      · exact Or.inr ⟨⟨r.tree.scopes.size, v, hscope, hv⟩, hnone⟩
  · obtain ⟨p, hp, rfl⟩ := List.mem_map.mp ho
    have hmem : p.id ∈ params.map (·.id) := List.mem_map_of_mem hp
    have hlater : ¬(p.id = id ∨ p.id ∈ name.ids ∨ p.id ∈ stmtIds body) := by
      rintro (heq | hown | hbody)
      · exact hids.params_notMem (heq ▸ hmem)
      · exact hids.own_params hown hmem
      · exact hids.params_body hmem hbody
    have hmeans : (atBody name id params bodyId body r).tree.Means ⟨p, .use .init, id, id⟩ .init :=
      ((hparams p hp).keep hrest.grows hrecords hlater).means hrest.ok hscope
    exact ⟨Or.inl hmeans, fun hown => hmeans.not_unnoted hown.2⟩

/-- Nothing is noted yet of the body where it starts. -/
theorem ready_atBody {r : Resolution} (hr : r.Ok)
    (hblank : ∀ i ∈ stmtIds body, r.tree.Unnoted i)
    (hfresh : ∀ i ∈ stmtIds body, r.tree.function? i = none)
    (hids : ApartIds name.ids (params.map (·.id)) (stmtIds body) id) :
    Ready (atBody name id params bodyId body r) (stmtIds body) id id := by
  have hr₁ := ok_entered hr id bodyId
  have hbuilds : Builds r.tree.scopes.size (fun _ => True) (entered r id bodyId)
      (atBody name id params bodyId body r) :=
    builds_atBody hr trivial (fun _ _ => trivial) (fun _ _ => trivial) fun _ _ => trivial
  have hcurrent : (atBody name id params bodyId body r).current = r.tree.scopes.size :=
    hbuilds.current
  have hfn : ((atBody name id params bodyId body r).tree.scope r.tree.scopes.size).fnScope =
      r.tree.scopes.size :=
    (hbuilds.grows.fnScope _ hr₁.inside).trans (congrArg Scope.fnScope (entered_scope r id bodyId))
  obtain ⟨info, -, hfunction⟩ := function?_atBody hr name id bodyId params body
  refine ⟨hbuilds.ok' hr₁, fun g rest hstack => ?_, fun i hi => ?_, fun i hi => ?_, ?_, ?_,
    hids.body_notMem, hids.body_notMem⟩
  · obtain ⟨rfl, -⟩ := List.cons.inj (hbuilds.functions.symm.trans hstack)
    exact ⟨rfl, info, (hfunction id).trans (if_pos rfl)⟩
  · refine (hblank i hi).keep (records_atBody r) fun hi' => ?_
    rcases List.mem_append.mp hi' with hi' | hi'
    · exact hids.own_body hi' hi
    · exact hids.params_body hi' hi
  · rw [hfunction, if_neg fun heq : id = i => hids.body_notMem (heq ▸ hi)]
    exact hfresh i hi
  · rw [hcurrent]
    exact scopeOf_atBody r
  · rw [hcurrent, hfn]
    exact scopeOf_atBody r

/-- The names of a function are its own, its parameters, and those in its body. -/
theorem accounts_func (h : Accounted (stmtIds body) (stmtOccurrences body) (onStmts body))
    (hbuilds : ∀ {r : Resolution}, r.Ok → Builds r.tree.scopes.size
      (· ∈ name.ids ++ Func.ids ⟨id, params, ⟨bodyId, body⟩⟩) r
      (onFunc ⟨id, params, ⟨bodyId, body⟩⟩ name r).2)
    (hnodup : (name.ids ++ Func.ids ⟨id, params, ⟨bodyId, body⟩⟩).Nodup) :
    Accounts (name.ids ++ Func.ids ⟨id, params, ⟨bodyId, body⟩⟩)
      (fun _ _ => name.occurrences id ++ Func.occurrences ⟨id, params, ⟨bodyId, body⟩⟩)
      (onFunc ⟨id, params, ⟨bodyId, body⟩⟩ name) := by
  have hids := apartIds_of_nodup hnodup
  have hstmts := h hids.body_nodup
  have hown : name.ids ++ params.map (·.id) ⊆ name.ids ++ Func.ids ⟨id, params, ⟨bodyId, body⟩⟩ := by
    refine List.append_subset.mpr ⟨List.subset_append_left _ _, fun i hi => ?_⟩
    exact List.mem_append_right _ (List.mem_append_left _ (List.mem_append_left _ hi))
  have hbody : stmtIds body ⊆ name.ids ++ Func.ids ⟨id, params, ⟨bodyId, body⟩⟩ := by
    intro i hi
    simp [Func.ids, Block.ids, hi]
  have hid : id ∈ name.ids ++ Func.ids ⟨id, params, ⟨bodyId, body⟩⟩ := by simp [Func.ids]
  have hapart {i : NodeId} (hi : i ∈ stmtIds body) : i ∉ name.ids ++ params.map (·.id) := by
    rw [List.mem_append]
    rintro (hi' | hi')
    · exact hids.own_body hi' hi
    · exact hids.params_body hi' hi
  have hsplit : name.occurrences id ++ Func.occurrences ⟨id, params, ⟨bodyId, body⟩⟩ =
      (name.occurrences id ++ params.map (⟨·, .use .init, id, id⟩)) ++
        stmtOccurrences body id id :=
    (List.append_assoc _ _ _).symm
  -- What stands in the scope of the function, but not in its body.
  have hheads : ∀ o ∈ name.occurrences id ++ params.map (⟨·, .use .init, id, id⟩),
      o.ident.id ∈ name.ids ++ params.map (·.id) ∧ o.scope = id ∧ o.function = id := by
    intro o ho
    rcases List.mem_append.mp ho with ho | ho
    · cases name with
      | none => cases ho
      | declared i => cases ho
      | own i =>
        obtain rfl := List.mem_singleton.mp ho
        exact ⟨List.mem_append_left _ List.mem_cons_self, rfl, rfl⟩
    · obtain ⟨p, hp, rfl⟩ := List.mem_map.mp ho
      exact ⟨List.mem_append_right _ (List.mem_map_of_mem hp), rfl, rfl⟩
  have hatBody {r : Resolution} {s f : NodeId}
      (hready : Ready r (name.ids ++ Func.ids ⟨id, params, ⟨bodyId, body⟩⟩) s f) :
      Ready (atBody name id params bodyId body r) (stmtIds body) id id :=
    ready_atBody hready.ok (fun i hi => hready.blank i (hbody hi))
      (fun i hi => hready.fresh i (hbody hi)) hids
  refine ⟨hbuilds, fun r => ?_, fun s f o ho => ?_, fun {r s f} hready o ho => ?_,
    fun {r s f} hready g => ?_⟩
  · rw [onFunc_apply]
    exact ((records_atBody r).mono hown).trans ((hstmts.records _).mono hbody)
  · rw [hsplit] at ho
    rcases List.mem_append.mp ho with ho | ho
    · obtain ⟨hi, hs, hf⟩ := hheads o ho
      exact ⟨hown hi, Or.inr (hs ▸ hid), Or.inr (hf ▸ hid)⟩
    · exact (hstmts.within id id o ho).outside hbody hid
  · rw [hsplit] at ho
    rw [onFunc_apply]
    have hok := (hatBody hready).ok
    have hbuilds' := hstmts.builds hok
    rcases List.mem_append.mp ho with ho | ho
    · have hexplains : (atBody name id params bodyId body r).tree.Explains o :=
        (explains_atBody hready.ok (fun i hi => hready.blank i (hown hi)) hids o ho).1
      obtain ⟨hi, hs, hf⟩ := hheads o ho
      refine hexplains.keep hok.tree hbuilds'.ok hbuilds'.grows (hstmts.records _) (Nat.le_refl _)
        (fun hi' => hapart hi' hi) ?_ ?_
      · rw [hs]
        exact hids.body_notMem
      · rw [hf]
        exact hids.body_notMem
    · exact hstmts.explains (hatBody hready) o ho
  · have hcode := hstmts.recognizes (hatBody hready) g
    rw [usesArguments_atBody hready.ok (hready.fresh id hid)] at hcode
    -- Neither the own name nor a parameter is taken for `arguments`, so what is noted is in the body.
    have hhead : ∀ o ∈ name.occurrences id ++ params.map (⟨·, .use .init, id, id⟩),
        ¬(onStmts body (atBody name id params bodyId body r)).2.tree.IsOwnArguments o := by
      intro o ho
      rw [ScopeTree.isOwnArguments_iff (hstmts.records _) fun hi => hapart hi (hheads o ho).1]
      exact (explains_atBody hready.ok (fun i hi => hready.blank i (hown hi)) hids o ho).2
    rw [onFunc_apply, hsplit]
    refine hcode.trans (or_congr_right (exists_congr fun o => ?_))
    rw [List.mem_append, or_and_right, or_iff_right fun ⟨ho, hown'⟩ => hhead o ho hown'.2]

end

/-! ## Parts of expressions and statements -/

theorem accounted_onTarget {target : Expr} (op : AssignOp)
    (h : Accounted target.ids target.occurrences (onExpr target))
    (hkey : ∀ id obj key, target = .index id obj key →
      Accounted key.ids key.occurrences (onExpr key)) :
    Accounted target.ids (target.targetOccurrences op) (onTarget op target) := by
  cases target with
  | ident i => exact .name i _
  | member id obj name =>
    cases obj with
    | ident o =>
      by_cases hop : op = .assign
      · subst hop
        exact fun _ =>
          (accounts_noteSite o .propertyWrite).mono (List.subset_append_left _ [name.id, id])
      · simp only [onTarget, if_neg hop]
        have hos : (Expr.member id (.ident o) name).targetOccurrences op =
            (Expr.member id (.ident o) name).occurrences := by
          funext s f
          rw [Expr.targetOccurrences, if_neg hop]
          rfl
        rw [hos]
        exact h
    | _ => exact h
  | index id obj key =>
    cases obj with
    | ident o =>
      by_cases hop : op = .assign
      · subst hop
        exact ((Accounted.name o .propertyWrite).seq (hkey id (.ident o) key rfl)).node
      · simp only [onTarget, if_neg hop]
        have hos : (Expr.index id (.ident o) key).targetOccurrences op =
            (Expr.index id (.ident o) key).occurrences := by
          funext s f
          rw [Expr.targetOccurrences, if_neg hop]
          rfl
        rw [hos]
        exact h
    | _ => exact h
  | _ => exact h

theorem accounted_onCallee {callee : Expr}
    (h : Accounted callee.ids callee.occurrences (onExpr callee)) :
    Accounted callee.ids callee.calleeOccurrences (onCallee callee) := by
  cases callee with
  | ident i => exact fun _ => accounts_noteCallee i
  | _ => exact h

/-- A name in front of the `in` of a loop. The walk does not follow a value there. -/
theorem accounted_loopName (id : NodeId) (name : Ident) {init : Option Expr}
    (h : Accounted (exprIds? init) (exprOccurrences? init) (onExpr? init)) :
    Accounted (Declarator.ids ⟨id, name, init⟩)
      (fun s f => ⟨name, .use .forIn, s, f⟩ :: (exprOccurrences? init s f).map Occurrence.silenced)
      (noteSite name .forIn) := by
  intro hnodup
  have hsub : exprIds? init ⊆ Declarator.ids ⟨id, name, init⟩ :=
    fun i hi => List.mem_cons_of_mem _ (List.mem_append_left _ hi)
  have hname : name.id ∉ exprIds? init :=
    fun hi => (List.nodup_cons.mp hnodup).1 (List.mem_append_left _ hi)
  have hsite := (accounts_noteSite name .forIn).mono
    (show [name.id] ⊆ Declarator.ids ⟨id, name, init⟩ from
      List.cons_subset_cons _ (List.nil_subset _))
  have hvalue := h (List.nodup_append'.mp (List.nodup_cons.mp hnodup).2).1
  refine ⟨hsite.builds, hsite.records, fun s f o ho => ?_, fun {r s f} hready o ho => ?_,
    fun {r s f} hready g => ?_⟩
  · rcases List.mem_cons.mp ho with rfl | ho
    · exact hsite.within s f _ List.mem_cons_self
    · obtain ⟨o, hvalue', rfl⟩ := List.mem_map.mp ho
      have hw := (hvalue.within s f o hvalue').mono hsub
      exact ⟨hw.ident, hw.scope, hw.function⟩
  · rcases List.mem_cons.mp ho with rfl | ho
    · exact hsite.explains hready _ List.mem_cons_self
    · obtain ⟨o, hvalue', rfl⟩ := List.mem_map.mp ho
      have hident := (hvalue.within s f o hvalue').ident
      refine (hready.blank _ (hsub hident)).keep
        ((accounts_noteSite name .forIn).records r) fun hi => hname ?_
      exact List.mem_singleton.mp hi ▸ hident
  · refine (hsite.recognizes hready g).trans (or_congr_right (exists_congr fun o => ?_))
    rw [List.mem_singleton, List.mem_cons, or_and_right, iff_self_or]
    rintro ⟨ho, -, ⟨k, hk⟩, -⟩
    obtain ⟨o, -, rfl⟩ := List.mem_map.mp ho
    cases hk

/-! ## The whole walk -/

mutual

theorem accounted_onExpr (e : Expr) : Accounted e.ids e.occurrences (onExpr e) := by
  cases e with
  | this id =>
    refine fun _ => .quiet (fun hr => ?_) (recording_modifyFunction _) fun r g => ?_
    · exact builds_modifyFunction hr fun _ => ⟨rfl, rfl, rfl, rfl⟩
    · have hkeeps (x : FunctionInfo) : FunctionInfo.usesArguments { x with usesThis := true } =
          x.usesArguments := rfl
      exact usesArguments_modifyFunction hkeeps r g
  | array id elems => exact (accounted_onElems elems).node
  | object id props => exact (accounted_onProps props).node
  | function id name fn =>
    have hfn := accounted_onFunc fn (name.elim .none .own)
    cases name with
    | none => exact hfn.node
    | some i => exact hfn.node
  | unary id op arg => exact (accounted_onExpr arg).node
  | update id op before arg =>
    have harg := accounted_onExpr arg
    cases arg with
    | ident i => exact (Accounted.name i .compound).node
    | _ => exact harg.node
  | binary id op left right => exact ((accounted_onExpr left).seq (accounted_onExpr right)).node
  | assign id op left right =>
    have hright := accounted_onExpr right
    have hkey : ∀ id obj key, left = .index id obj key →
        Accounted key.ids key.occurrences (onExpr key) := by
      cases left with
      | index _ _ key =>
        have hkey := accounted_onExpr key
        rintro _ _ _ ⟨⟩
        exact hkey
      | _ => exact nofun
    have hleft := accounted_onTarget op (accounted_onExpr left) hkey
    have hos : (Expr.assign id op left right).occurrences =
        fun s f => left.targetOccurrences op s f ++ right.occurrences s f := by
      funext s f
      exact Expr.occurrences_assign id op left right s f
    rw [onExpr_assign, hos]
    exact (hleft.seq hright).node
  | member id obj name =>
    intro h
    have hobj := accounted_onExpr obj (List.nodup_append'.mp h).1
    exact hobj.mono (List.subset_append_left _ _)
  | index id obj key => exact ((accounted_onExpr obj).seq (accounted_onExpr key)).node
  | cond id test yes no =>
    exact (((accounted_onExpr test).seq (accounted_onExpr yes)).seq (accounted_onExpr no)).node
  | call id callee args =>
    have hos : (Expr.call id callee args).occurrences =
        fun s f => callee.calleeOccurrences s f ++ exprOccurrences args s f := by
      funext s f
      exact Expr.occurrences_call id callee args s f
    rw [onExpr_call, hos]
    exact ((accounted_onCallee (accounted_onExpr callee)).seq (accounted_onExprs args)).node
  | new id callee args => exact ((accounted_onExpr callee).seq (accounted_onExprs args)).node
  | seq id exprs => exact (accounted_onExprs exprs).node
  | ident i => exact .name i .read
  | _ => exact fun _ => Accounts.skip.mono (List.nil_subset _)
termination_by structural e

theorem accounted_onElems (es : List (Option Expr)) :
    Accounted (elemIds es) (elemOccurrences es) (onElems es) := by
  match es with
  | [] => exact fun _ => .skip
  | none :: rest => exact accounted_onElems rest
  | some e :: rest => exact (accounted_onExpr e).seq (accounted_onElems rest)
termination_by structural es

theorem accounted_onExprs (es : List Expr) :
    Accounted (exprIds es) (exprOccurrences es) (onExprs es) := by
  match es with
  | [] => exact fun _ => .skip
  | e :: rest => exact (accounted_onExpr e).seq (accounted_onExprs rest)
termination_by structural es

theorem accounted_onExpr? (e : Option Expr) :
    Accounted (exprIds? e) (exprOccurrences? e) (onExpr? e) := by
  match e with
  | none => exact fun _ => .skip
  | some e => exact accounted_onExpr e
termination_by structural e

theorem accounted_onKey (key : PropertyKey) : Accounted key.ids key.occurrences (onKey key) := by
  match key with
  | .ident _ | .string _ _ | .number _ _ => exact fun _ => Accounts.skip.mono (List.nil_subset _)
  | .computed e => exact accounted_onExpr e
termination_by structural key

theorem accounted_onProperty (p : Property) : Accounted p.ids p.occurrences (onProperty p) := by
  match p with
  | .value _ key value => exact ((accounted_onKey key).seq (accounted_onExpr value)).node
  | .getter _ key fn => exact ((accounted_onKey key).seq (accounted_onFunc fn .none)).node
  | .setter _ key fn => exact ((accounted_onKey key).seq (accounted_onFunc fn .none)).node
termination_by structural p

theorem accounted_onProps (ps : List Property) :
    Accounted (propIds ps) (propOccurrences ps) (onProps ps) := by
  match ps with
  | [] => exact fun _ => .skip
  | p :: rest => exact (accounted_onProperty p).seq (accounted_onProps rest)
termination_by structural ps

theorem accounted_onFunc (fn : Func) (name : FunctionName) :
    Accounted (name.ids ++ fn.ids) (fun _ _ => name.occurrences fn.id ++ fn.occurrences)
      (onFunc fn name) := by
  match fn with
  | ⟨id, params, ⟨bodyId, stmts⟩⟩ =>
    refine fun h => accounts_func (accounted_onStmts stmts) (fun hr => ?_) h
    have hwalks : Walks True _ _ _ := walked_onFunc ⟨id, params, ⟨bodyId, stmts⟩⟩ name (.ofNodup h)
    exact hwalks.builds hr
termination_by structural fn

theorem accounted_onBlock (b : Block) :
    Accounted b.ids (fun _ f => b.occurrences f) (onBlock b) := by
  match b with
  | ⟨_, stmts⟩ => exact accounted_block (accounted_onStmts stmts)
termination_by structural b

theorem accounted_onBlock? (b : Option Block) :
    Accounted (blockIds? b) (fun _ f => blockOccurrences? b f) (onBlock? b) := by
  match b with
  | none => exact fun _ => .skip
  | some b => exact accounted_onBlock b
termination_by structural b

theorem accounted_onDeclarators (ds : List Declarator) :
    Accounted (declIds ds) (declOccurrences ds) (onDeclarators ds) := by
  match ds with
  | [] => exact fun _ => .skip
  | ⟨id, name, none⟩ :: rest =>
    have hname : Accounted ([name.id] ++ [id]) (fun s f => [⟨name, .silent, s, f⟩])
        (bindKnown name) :=
      Accounted.node fun _ => accounts_bindKnown name
    rw [onDeclarators_none]
    exact hname.seq (accounted_onDeclarators rest)
  | ⟨id, name, some e⟩ :: rest =>
    have hfirst : Accounted ([name.id] ++ e.ids ++ [id])
        (fun s f => [⟨name, .use .init, s, f⟩] ++ e.occurrences s f)
        (do noteSite name .init; onExpr e) :=
      ((Accounted.name name .init).seq (accounted_onExpr e)).node
    exact hfirst.seq (accounted_onDeclarators rest)
termination_by structural ds

theorem accounted_onHead? (h : Option ForHead) :
    Accounted (headIds? h) (headOccurrences? h) (onHead? h) := by
  match h with
  | none => exact fun _ => .skip
  | some (.decl ⟨_, _, decls⟩) => exact (accounted_onDeclarators decls).node
  | some (.expr e) => exact accounted_onExpr e
termination_by structural h

theorem accounted_loopNames (ds : List Declarator) : Accounted (declIds ds) (loopNameOccurrences ds)
    (ds.forM fun x => noteSite x.name .forIn) := by
  match ds with
  | [] => exact fun _ => .skip
  | ⟨id, name, init⟩ :: rest =>
    have hfirst := accounted_loopName id name (accounted_onExpr? init)
    exact hfirst.seq (accounted_loopNames rest)
termination_by structural ds

theorem accounted_onLoopHead (h : ForHead) :
    Accounted h.ids (loopHeadOccurrences h) (onLoopHead h) := by
  match h with
  | .decl ⟨_, _, decls⟩ => exact (accounted_loopNames decls).node
  | .expr e =>
    have he := accounted_onExpr e
    cases e with
    | ident i => exact .name i .forIn
    | _ => exact he
termination_by structural h

theorem accounted_onHandler? (c : Option CatchClause) :
    Accounted (handlerIds? c) (fun _ f => handlerOccurrences? c f) (onHandler? c) := by
  match c with
  | none => exact fun _ => .skip
  | some ⟨id, param, body⟩ => exact accounted_handler (accounted_onBlock body)
termination_by structural c

theorem accounted_onStmt (st : Stmt) : Accounted st.ids st.occurrences (onStmt st) := by
  cases st with
  | block b => exact accounted_onBlock b
  | expr id e => exact (accounted_onExpr e).node
  | var d =>
    obtain ⟨_, _, decls⟩ := d
    exact (accounted_onDeclarators decls).node
  | function id name fn =>
    exact ((Accounted.name name .init).seq (accounted_onFunc fn (.declared name))).node
  | «if» id test yes no =>
    exact (((accounted_onExpr test).seq (accounted_onStmt yes)).seq (accounted_onStmt? no)).node
  | «for» id init test update body =>
    have hparts := (((accounted_onHead? init).seq (accounted_onExpr? test)).seq
      (accounted_onExpr? update)).seq (accounted_onStmt body)
    refine accounted_loop hparts ?_
    rintro ⟨_, _, decls⟩ rfl x hx
    simp only [headIds?, ForHead.ids, VarDecl.ids, List.mem_append]
    exact Or.inl (Or.inl (Or.inl (Or.inl (mem_declIds hx))))
  | forIn id head obj body =>
    have hparts := ((accounted_onLoopHead head).seq (accounted_onExpr obj)).seq
      (accounted_onStmt body)
    refine accounted_loop hparts ?_
    rintro ⟨_, _, decls⟩ ⟨⟩ x hx
    simp only [ForHead.ids, VarDecl.ids, List.mem_append]
    exact Or.inl (Or.inl (Or.inl (mem_declIds hx)))
  | «while» id test body => exact ((accounted_onExpr test).seq (accounted_onStmt body)).node
  | doWhile id body test => exact ((accounted_onStmt body).seq (accounted_onExpr test)).node
  | «return» id arg => exact (accounted_onExpr? arg).node
  | labeled id label body =>
    have hlabel : Accounted [label.id] (fun _ _ => []) (pure ()) :=
      fun _ => Accounts.skip.mono (List.nil_subset _)
    exact (hlabel.seq (accounted_onStmt body)).node
  | throw id arg => exact (accounted_onExpr arg).node
  | «with» id obj body =>
    have hnote : Accounted [] (fun _ _ => []) noteDynamicScope :=
      fun _ => .quiet builds_noteDynamicScope recording_noteDynamicScope fun _ _ => Iff.rfl
    exact ((hnote.seq (accounted_onExpr obj)).seq (accounted_onStmt body)).node
  | «try» id block handler finalizer =>
    exact (((accounted_onBlock block).seq (accounted_onHandler? handler)).seq
      (accounted_onBlock? finalizer)).node
  | _ => exact fun _ => Accounts.skip.mono (List.nil_subset _)
termination_by structural st

theorem accounted_onStmt? (st : Option Stmt) :
    Accounted (stmtIds? st) (stmtOccurrences? st) (onStmt? st) := by
  match st with
  | none => exact fun _ => .skip
  | some st => exact accounted_onStmt st
termination_by structural st

theorem accounted_onStmts (ss : List Stmt) :
    Accounted (stmtIds ss) (stmtOccurrences ss) (onStmts ss) := by
  match ss with
  | [] => exact fun _ => .skip
  | st :: rest => exact (accounted_onStmt st).seq (accounted_onStmts rest)
termination_by structural ss

end

end

/-- Where the body of a program starts, nothing is noted yet. -/
theorem ready_atProgramBody {p : Program} (h : p.ids.Nodup) :
    Ready (atProgramBody p) (stmtIds p.body) p.id p.id := by
  have hstart := ok_atProgram p
  have hbuilds := builds_atProgramBody p
  have hnotes : Records (fun _ => False) (atProgram p).tree (atProgramBody p).tree :=
    (recording_hoist p.body _).trans (recording_declareLexicals p.body _)
  have hscope : (atProgramBody p).tree.scopeOf p.id = some ScopeTree.root := by
    have hkept : (atProgramBody p).tree.nodeScopes = (atProgram p).tree.nodeScopes :=
      (opensNothing_declareLexicals p.body _).trans (opensNothing_hoist p.body _)
    rw [ScopeTree.scopeOf, hkept]
    exact Std.TreeMap.getElem?_insert_self
  have hid : p.id ∉ stmtIds p.body :=
    fun hid => (List.nodup_append'.mp h).2.2 hid List.mem_cons_self
  have hfn : ((atProgramBody p).tree.scope ScopeTree.root).fnScope = ScopeTree.root :=
    hbuilds.ok.rootScope
  have hfunctions : (atProgramBody p).tree.functions = (atProgram p).tree.functions :=
    (Leaves.declareLexicals apart_functions p.body _).trans (Leaves.hoist apart_functions p.body _)
  refine ⟨hbuilds.ok' hstart, fun g rest hstack => ?_, fun id _ => ?_, fun id _ => ?_, ?_, ?_, hid,
    hid⟩
  · cases hbuilds.functions.symm.trans hstack
  · have hnone : (atProgram p).tree.Unnoted id := ⟨rfl, rfl⟩
    exact hnone.keep hnotes fun hfalse => hfalse
  · rw [ScopeTree.function?, hfunctions]
    rfl
  · rw [hbuilds.current]
    exact hscope
  · rw [hbuilds.current]
    exact hscope.trans (congrArg some hfn.symm)

theorem tracks_atProgramBody (p : Program) : (atProgramBody p).tree.Tracks := by
  have hnotes : Records (fun _ => False) (atProgram p).tree (atProgramBody p).tree :=
    (recording_hoist p.body _).trans (recording_declareLexicals p.body _)
  have hunused (v : VarId) : ¬(atProgram p).tree.UsedElsewhere v :=
    ScopeTree.not_usedElsewhere rfl rfl
  have hempty (v : VarId) : v ∉ (∅ : VarSet) := Std.TreeSet.not_mem_emptyc
  refine hnotes.tracks ⟨fun s x hx => ?_, fun v => ?_, fun v => ?_⟩
  · cases s <;> cases hx
  · exact iff_of_false (hempty v) fun h => hunused v h.2
  · exact iff_of_false (hempty v) fun h => hunused v h.2

end Resolve

namespace ScopeTree

/-- The walk over a program notes of every occurrence what it does. -/
theorem explains_ofProgram {p : Program} (h : p.ids.Nodup) :
    (ofProgram p).Ok ∧ (ofProgram p).Tracks ∧ ∀ o ∈ p.occurrences, (ofProgram p).Explains o := by
  have hready := Resolve.ready_atProgramBody h
  have haccounts := Resolve.accounted_onStmts p.body (List.nodup_append'.mp h).1
  refine ⟨(haccounts.builds hready.ok).ok, ?_, haccounts.explains hready⟩
  exact (haccounts.records _).tracks (Resolve.tracks_atProgramBody p)

/-- The names of a program are resolved consistently. -/
structure Identifies (t : ScopeTree) (p : Program) : Prop where
  /-- Every name that stands for a variable is one of the occurrences. -/
  listed : ∀ i, .name i ∈ p.nodes → ∃ o ∈ p.occurrences, o.ident = i
  /-- A name with a noted use does what the program says, and no more than that. -/
  used : ∀ o ∈ p.occurrences, ∀ k, t.siteKind o.ident.id = some k →
    o.role.kind? = some k ∧ t.Means o k
  /-- Only names that do nothing, the `arguments` of a function and own names that are hidden have
  no use. -/
  unused : ∀ o ∈ p.occurrences, t.siteKind o.ident.id = none → t.sitesAt o.ident.id = [] ∧
    (o.role = .silent ∨ (∃ k, o.role = .use k) ∧ o.ident.name = "arguments" ∨
      o.role = .ownName ∧ t.Hides o)
  captured : ∀ v, v ∈ t.captured ↔ (t.var v).isGlobal = false ∧
    ∃ site ∈ (t.var v).reads ++ (t.var v).writes, site.fnScope ≠ (t.var v).fnScope
  shared : ∀ v, v ∈ t.sharedGlobals ↔ (t.var v).isGlobal = true ∧
    ∃ site ∈ (t.var v).reads ++ (t.var v).writes, site.fnScope ≠ root

/-- A global variable belongs to the program. -/
theorem Ok.fnScope_of_isGlobal {t : ScopeTree} (hok : t.Ok) {v : Nat} (hv : v < t.vars.size)
    (hglobal : (t.var v).isGlobal = true) : (t.var v).fnScope = root := by
  have hscope : (t.var v).scope = root := beq_iff_eq.mp hglobal
  rw [(hok.placed v hv).2, hscope, hok.rootScope]

theorem Explains.used {t : ScopeTree} {o : Occurrence} (h : t.Explains o) {k : SiteKind}
    (hk : t.siteKind o.ident.id = some k) : o.role.kind? = some k ∧ t.Means o k := by
  have hmeans {j : SiteKind} (hj : t.Means o j) : j = k := by
    obtain ⟨s, fs, v, -, -, -, hnotes⟩ := hj
    exact Option.some.inj (hnotes.siteKind.symm.trans hk)
  have hnoted : ¬t.Unnoted o.ident.id := fun hnone => by
    rw [hnone.siteKind] at hk
    cases hk
  unfold Explains at h
  split at h <;> rename_i hrole
  · exact absurd h hnoted
  · rcases h with hj | ⟨-, -, hnone⟩
    · obtain rfl := hmeans hj
      exact ⟨congrArg NameRole.kind? hrole, hj⟩
    · exact absurd hnone hnoted
  · rcases h with hj | ⟨-, hnone⟩
    · obtain rfl := hmeans hj
      exact ⟨congrArg NameRole.kind? hrole, hj⟩
    · exact absurd hnone hnoted

theorem Explains.unused {t : ScopeTree} {o : Occurrence} (h : t.Explains o)
    (hnone : t.siteKind o.ident.id = none) : t.sitesAt o.ident.id = [] ∧
      (o.role = .silent ∨ (∃ k, o.role = .use k) ∧ o.ident.name = "arguments" ∨
        o.role = .ownName ∧ t.Hides o) := by
  have hmeans {j : SiteKind} : ¬t.Means o j := fun ⟨s, fs, v, _, _, _, hnotes⟩ => by
    rw [hnotes.siteKind] at hnone
    cases hnone
  unfold Explains at h
  split at h <;> rename_i hrole
  · exact ⟨h.sitesAt, Or.inl hrole⟩
  · obtain ⟨hname, -, hunnoted⟩ := h.resolve_left hmeans
    exact ⟨hunnoted.sitesAt, Or.inr (Or.inl ⟨⟨_, hrole⟩, hname⟩)⟩
  · obtain ⟨hhidden, hunnoted⟩ := h.resolve_left hmeans
    exact ⟨hunnoted.sitesAt, Or.inr (Or.inr ⟨hrole, hhidden⟩)⟩

/-- The names of a program with distinct ids are resolved consistently: no declaration that comes
after a name in the program, or that the walk meets later, changes what the name means. -/
theorem identifies_ofProgram {p : Program} (h : p.ids.Nodup) : (ofProgram p).Identifies p := by
  obtain ⟨hok, htracks, hexplains⟩ := explains_ofProgram h
  refine ⟨fun i hi => ?_, fun o ho k hk => (hexplains o ho).used hk,
    fun o ho hnone => (hexplains o ho).unused hnone, htracks.captured, fun v => ?_⟩
  · have hshows : i ∈ p.nodes.filterMap Node.variable? := List.mem_filterMap.mpr ⟨_, hi, rfl⟩
    rw [← p.occurrences_show] at hshows
    exact List.mem_map.mp hshows
  · refine (htracks.shared v).trans (and_congr_right fun hglobal => exists_congr fun site => ?_)
    refine and_congr_right fun hsite => ?_
    rw [hok.fnScope_of_isGlobal (lt_of_site hsite) hglobal]

/-- `function keep(x) { return function self() { return x + total; }; }` -/
def keepProgram : Program := ⟨17, [.function 16 ⟨0, "keep"⟩ ⟨15, [⟨1, "x"⟩], ⟨14, [
  .return 13 (some (.function 12 (some ⟨2, "self"⟩) ⟨11, [], ⟨10, [
    .return 9 (some (.binary 8 .add (.ident ⟨3, "x"⟩) (.ident ⟨4, "total"⟩)))]⟩⟩))]⟩⟩]⟩

theorem identifies_keep : keepProgram.ids.Nodup ∧ (ofProgram keepProgram).Identifies keepProgram :=
  ⟨by decide, identifies_ofProgram (by decide)⟩

end ScopeTree

end EsOptimizer
