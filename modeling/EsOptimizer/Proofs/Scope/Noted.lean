import EsOptimizer.Proofs.Scope.Occurrences
import EsOptimizer.Proofs.Scope.Recognized
import EsOptimizer.Proofs.Scope.Sites

/-!
# Every name is noted where it stands

The walk notes of each occurrence of a name what the program says of it (`Explains`): which variable
it means, in which function it stands, and what it does. `Accounts ids os a` says so of a part `a` of
the walk. A name that is resolved in a scope is found there later on too, since scopes that the walk
leaves only change by undeclared names, and these join the outermost scope behind all others.

The one use of a name of which nothing is noted is the `arguments` of a function
(`IsOwnArguments`), and just these uses make the walk note that a function uses its `arguments`.

Parameters and the own name of a function are noted before its scope is finished. They are found in
this very scope (`NotesOwn`), and what is declared later comes behind them.
-/

namespace EsOptimizer

namespace ScopeTree

/-! ## What is noted of an occurrence -/

/-- Nothing is noted of a name. -/
structure Unnoted (t : ScopeTree) (id : NodeId) : Prop where
  siteKind : t.siteKind id = none
  sitesAt : t.sitesAt id = []

/-- A single use of a name is noted, with the variable `v`: it does `k` to it, in the function with
the scope `fs`. -/
structure Notes (t : ScopeTree) (id : NodeId) (k : SiteKind) (fs : ScopeId) (v : VarId) : Prop where
  varOf : t.varOf id = some v
  siteKind : t.siteKind id = some k
  sitesAt : t.sitesAt id = [⟨id, fs, k⟩]
  listed : ⟨id, fs, k⟩ ∈ if k.isWrite then (t.var v).writes else (t.var v).reads

/-- An occurrence is noted as `k` in the function around it, with the variable that its name means in
the scope around it. -/
def Means (t : ScopeTree) (o : Occurrence) (k : SiteKind) : Prop :=
  ∃ s fs v, t.scopeOf o.scope = some s ∧ t.scopeOf o.function = some fs ∧
    t.lookup s o.ident.name = some v ∧ t.Notes o.ident.id k fs v

/-- The scope of an occurrence has a variable of its name. -/
def Hides (t : ScopeTree) (o : Occurrence) : Prop :=
  ∃ s v, t.scopeOf o.scope = some s ∧ (t.scope s).vars.lookup o.ident.name = some v

/-- No variable that is declared in the program is what an occurrence means. -/
def Undeclared (t : ScopeTree) (o : Occurrence) : Prop :=
  ∃ s, t.scopeOf o.scope = some s ∧ s < t.scopes.size ∧
    ∀ v, t.lookup s o.ident.name = some v → (t.var v).kind = .implicit

/-- An occurrence is taken for the `arguments` of the function that it stands in: a use of a name of
which nothing is noted. -/
def IsOwnArguments (t : ScopeTree) (o : Occurrence) : Prop :=
  (∃ k, o.role = .use k) ∧ t.Unnoted o.ident.id

/-- What is noted of an occurrence is what it does. -/
def Explains (t : ScopeTree) (o : Occurrence) : Prop :=
  match o.role with
  | .silent => t.Unnoted o.ident.id
  | .use k => t.Means o k ∨ o.ident.name = "arguments" ∧ t.Undeclared o ∧ t.Unnoted o.ident.id
  | .ownName => t.Means o .init ∨ t.Hides o ∧ t.Unnoted o.ident.id

/-- A name that declares a variable of the scope `s` of a function. -/
def NotesOwn (t : ScopeTree) (s : ScopeId) (i : Ident) : Prop :=
  ∃ v, (t.scope s).vars.lookup i.name = some v ∧ t.Notes i.id .init s v

section

variable {n : Nat} {J : NodeId → Prop} {S : ScopeId → Prop} {t t' : ScopeTree}

theorem Unnoted.keep {id : NodeId} (h : t.Unnoted id) (hrecords : Records J t t') (hid : ¬J id) :
    t'.Unnoted id :=
  ⟨(hrecords.siteKind id hid).trans h.siteKind, (hrecords.sitesAt id hid).trans h.sitesAt⟩

theorem unnoted_iff {id : NodeId} (hrecords : Records J t t') (hid : ¬J id) :
    t'.Unnoted id ↔ t.Unnoted id :=
  ⟨fun h => ⟨(hrecords.siteKind id hid).symm.trans h.siteKind,
    (hrecords.sitesAt id hid).symm.trans h.sitesAt⟩, fun h => h.keep hrecords hid⟩

theorem isOwnArguments_iff {o : Occurrence} (hrecords : Records J t t') (hid : ¬J o.ident.id) :
    t'.IsOwnArguments o ↔ t.IsOwnArguments o :=
  and_congr_right fun _ => unnoted_iff hrecords hid

theorem Means.not_unnoted {o : Occurrence} {k : SiteKind} (h : t.Means o k) :
    ¬t.Unnoted o.ident.id := by
  obtain ⟨s, fs, v, -, -, -, hnotes⟩ := h
  intro hnone
  have hkind := hnotes.siteKind
  rw [hnone.siteKind] at hkind
  cases hkind

theorem Notes.keep {id : NodeId} {k : SiteKind} {fs : ScopeId} {v : VarId} (h : t.Notes id k fs v)
    (hgrows : t.Grows n J S t') (hrecords : Records J t t') (hid : ¬J id) : t'.Notes id k fs v := by
  have hlt : v < t.vars.size := by
    have hsite : ⟨id, fs, k⟩ ∈ (t.var v).sites := by
      have hlisted := h.listed
      split at hlisted
      · exact List.mem_append_right _ hlisted
      · exact List.mem_append_left _ hlisted
    exact lt_of_site hsite
  have hext := hgrows.extended v hlt
  refine ⟨(hgrows.varOf id hid).trans h.varOf, (hrecords.siteKind id hid).trans h.siteKind,
    (hrecords.sitesAt id hid).trans h.sitesAt, ?_⟩
  have hlisted := h.listed
  split at hlisted <;> rename_i hk
  · rw [if_pos hk]
    exact hext.writes.subset hlisted
  · rw [if_neg hk]
    exact hext.reads.subset hlisted

/-- Names have a meaning in the scopes of the tree only. -/
theorem lt_size_of_lookup (hok : t.Ok) {s : Nat} {name : String} {v : VarId}
    (h : t.lookup s name = some v) : s < t.scopes.size := by
  by_contra hle
  have hnone : t.scope s = default := by
    rw [scope, Array.getD_eq_getD_getElem?, Array.getElem?_eq_none (Nat.not_lt.mp hle)]
    rfl
  rw [lookup_eq hok, hnone] at h
  cases h

theorem Means.keep {o : Occurrence} {k : SiteKind} (h : t.Means o k) (hok : t.Ok) (hok' : t'.Ok)
    (hgrows : t.Grows n J S t') (hrecords : Records J t t') (hn : t.scopes.size ≤ n)
    (hident : ¬J o.ident.id) (hscope : ¬J o.scope) (hfunction : ¬J o.function) : t'.Means o k := by
  obtain ⟨s, fs, v, hs, hfs, hv, hnotes⟩ := h
  have hlt := (lt_size_of_lookup hok hv).trans_le hn
  exact ⟨s, fs, v, (hgrows.scopeOf _ hscope).trans hs, (hgrows.scopeOf _ hfunction).trans hfs,
    hgrows.lookup_some hok hok' hlt hv, hnotes.keep hgrows hrecords hident⟩

theorem Undeclared.keep {o : Occurrence} (h : t.Undeclared o) (hok : t.Ok) (hok' : t'.Ok)
    (hgrows : t.Grows n J S t') (hn : t.scopes.size ≤ n) (hscope : ¬J o.scope) :
    t'.Undeclared o := by
  obtain ⟨s, hs, hlt, hlookup⟩ := h
  refine ⟨s, (hgrows.scopeOf _ hscope).trans hs, hlt.trans_le hgrows.size, fun v hv => ?_⟩
  cases hold : t.lookup s o.ident.name with
  | none => exact hgrows.lookup_none hok hok' (hlt.trans_le hn) hlt hold hv
  | some u =>
    have hu := hgrows.lookup_some hok hok' (hlt.trans_le hn) hold
    rw [hv] at hu
    cases hu
    obtain ⟨a, -, hmem⟩ := exists_encloses_of_lookup hok hold
    rw [(hgrows.extended v (hok.listed a _ hmem).1).kind]
    exact hlookup v hold

theorem Explains.keep {o : Occurrence} (h : t.Explains o) (hok : t.Ok) (hok' : t'.Ok)
    (hgrows : t.Grows n J S t') (hrecords : Records J t t') (hn : t.scopes.size ≤ n)
    (hident : ¬J o.ident.id) (hscope : ¬J o.scope) (hfunction : ¬J o.function) : t'.Explains o := by
  have hmeans {k : SiteKind} (hk : t.Means o k) : t'.Means o k :=
    hk.keep hok hok' hgrows hrecords hn hident hscope hfunction
  unfold Explains at h ⊢
  split <;> rename_i hrole <;> rw [hrole] at h
  · exact h.keep hrecords hident
  · exact h.imp hmeans fun ⟨hname, hundeclared, hnone⟩ =>
      ⟨hname, hundeclared.keep hok hok' hgrows hn hscope, hnone.keep hrecords hident⟩
  · refine h.imp hmeans fun ⟨⟨s, v, hs, hv⟩, hnone⟩ => ⟨⟨s, v, ?_, ?_⟩, hnone.keep hrecords hident⟩
    · exact (hgrows.scopeOf _ hscope).trans hs
    · exact Resolve.lookup_kept (hrecords.vars s) hv

theorem NotesOwn.keep {s : ScopeId} {i : Ident} (h : t.NotesOwn s i) (hgrows : t.Grows n J S t')
    (hrecords : Records J t t') (hi : ¬J i.id) : t'.NotesOwn s i := by
  obtain ⟨v, hv, hnotes⟩ := h
  exact ⟨v, Resolve.lookup_kept (hrecords.vars s) hv, hnotes.keep hgrows hrecords hi⟩

/-- Infos of functions do not matter. -/
theorem NotesOwn.withFunctions {s : ScopeId} {i : Ident} (h : t.NotesOwn s i)
    (functions : Std.TreeMap NodeId FunctionInfo) : ScopeTree.NotesOwn { t with functions } s i := by
  obtain ⟨v, hv, hnotes⟩ := h
  exact ⟨v, hv, hnotes.varOf, hnotes.siteKind, hnotes.sitesAt, hnotes.listed⟩

/-- A variable of a function's own scope is what its name means there. -/
theorem NotesOwn.means {s : ScopeId} {i : Ident} (h : t.NotesOwn s i) (hok : t.Ok) {role : NameRole}
    {id : NodeId} (hid : t.scopeOf id = some s) : t.Means ⟨i, role, id, id⟩ .init := by
  obtain ⟨v, hv, hnotes⟩ := h
  refine ⟨s, s, v, hid, hid, ?_, hnotes⟩
  rw [lookup_eq hok, hv]

end

end ScopeTree

namespace Resolve

open Resolution
open ScopeTree (Records)

/-! ## Parts of the walk -/

/-- The walk is in the scope of the node `s` and in the function `f`, and nothing is noted yet of the
names and functions that come. -/
structure Ready (r : Resolution) (ids : List NodeId) (s f : NodeId) : Prop where
  ok : r.Ok
  inFunction : InFunction r f
  blank : ∀ id ∈ ids, r.tree.Unnoted id
  fresh : ∀ id ∈ ids, r.tree.function? id = none
  scope : r.tree.scopeOf s = some r.current
  function : r.tree.scopeOf f = some (r.tree.scope r.current).fnScope
  scope_notMem : s ∉ ids
  function_notMem : f ∉ ids

namespace Ready

variable {r r' : Resolution} {ids ids' : List NodeId} {s f : NodeId} {n : Nat} {J : NodeId → Prop}

theorem mono (h : Ready r ids' s f) (hids : ids ⊆ ids') : Ready r ids s f :=
  { h with
    blank := fun id hid => h.blank id (hids hid)
    fresh := fun id hid => h.fresh id (hids hid)
    scope_notMem := fun hs => h.scope_notMem (hids hs)
    function_notMem := fun hf => h.function_notMem (hids hf) }

/-- Another part of the walk comes first, which looks at other names. -/
theorem next (h : Ready r ids s f) (hbuilds : Builds n J r r') (hrecords : Records J r.tree r'.tree)
    (hids : ∀ id ∈ ids, ¬J id) (hs : ¬J s) (hf : ¬J f) : Ready r' ids s f where
  ok := hbuilds.ok' h.ok
  inFunction := h.inFunction.next hbuilds hf
  blank := fun id hid => (h.blank id hid).keep hrecords (hids id hid)
  fresh := fun id hid => hbuilds.grows.function_none (hids id hid) (h.fresh id hid)
  scope := by rw [hbuilds.grows.scopeOf s hs, hbuilds.current, h.scope]
  function := by
    rw [hbuilds.grows.scopeOf f hf, hbuilds.current, h.function,
      hbuilds.grows.fnScope _ h.ok.inside]
  scope_notMem := h.scope_notMem
  function_notMem := h.function_notMem

end Ready

/-- What a part of the walk does, which goes over code with the ids `ids`. The occurrences `os` in it
are listed by the scope and the function that it stands in. -/
structure Accounts (ids : List NodeId) (os : NodeId → NodeId → List Occurrence) (a : Resolve Unit) :
    Prop where
  builds : ∀ {r : Resolution}, r.Ok → Builds r.tree.scopes.size (· ∈ ids) r (a r).2
  records : Recording (· ∈ ids) a
  within : ∀ s f, ∀ o ∈ os s f, o.Within ids s f
  explains : ∀ {r : Resolution} {s f : NodeId}, Ready r ids s f →
    ∀ o ∈ os s f, (a r).2.tree.Explains o
  recognizes : ∀ {r : Resolution} {s f : NodeId}, Ready r ids s f → ∀ g,
    (a r).2.tree.UsesArguments g ↔
      r.tree.UsesArguments g ∨ ∃ o ∈ os s f, o.function = g ∧ (a r).2.tree.IsOwnArguments o

section

variable {ids ids' : List NodeId} {os us : NodeId → NodeId → List Occurrence} {a b : Resolve Unit}

namespace Accounts

/-- A step that meets no names. -/
theorem quiet (hbuilds : ∀ {r : Resolution}, r.Ok → Builds r.tree.scopes.size (· ∈ ids) r (a r).2)
    (hrecords : Recording (· ∈ ids) a)
    (hkeeps : ∀ r g, (a r).2.tree.UsesArguments g ↔ r.tree.UsesArguments g) :
    Accounts ids (fun _ _ => []) a where
  builds := hbuilds
  records := hrecords
  within := fun _ _ => nofun
  explains := fun _ => nofun
  recognizes := fun {r _ _} _ g => (hkeeps r g).trans (or_iff_left fun ⟨_, ho, _⟩ => nomatch ho).symm

theorem skip : Accounts ids (fun _ _ => []) (pure ()) :=
  .quiet (fun hr => Builds.refl hr) (.pure _) fun _ _ => Iff.rfl

theorem mono (ha : Accounts ids os a) (hids : ids ⊆ ids') : Accounts ids' os a where
  builds := fun hr => (ha.builds hr).mono hr (Nat.le_refl _) hids
  records := ha.records.mono hids
  within := fun s f o ho => (ha.within s f o ho).mono hids
  explains := fun h => ha.explains (h.mono hids)
  recognizes := fun h => ha.recognizes (h.mono hids)

/-- One part after another, with other ids. -/
theorem seq (ha : Accounts ids os a) (hb : Accounts ids' us b) (hdisj : List.Disjoint ids ids') :
    Accounts (ids ++ ids') (fun s f => os s f ++ us s f) (do a; b) where
  builds := fun {r} hr => by
    have h := ha.builds hr
    have hr' := h.ok' hr
    refine (h.mono hr (Nat.le_refl _) fun id hid => List.mem_append_left _ hid).trans hr ?_
    exact (hb.builds hr').mono hr' h.grows.size fun id hid => List.mem_append_right _ hid
  records := (ha.records.mono fun _ hid => List.mem_append_left _ hid).bind fun _ =>
    hb.records.mono fun _ hid => List.mem_append_right _ hid
  within := fun s f o ho => by
    rcases List.mem_append.mp ho with ho | ho
    · exact (ha.within s f o ho).mono (List.subset_append_left _ _)
    · exact (hb.within s f o ho).mono (List.subset_append_right _ _)
  explains := fun {r s f} hready o ho => by
    have hfirst := hready.mono (List.subset_append_left ids ids')
    have hrest := hready.mono (List.subset_append_right ids ids')
    have h := ha.builds hready.ok
    have hr' := h.ok' hready.ok
    have h' := hb.builds hr'
    rcases List.mem_append.mp ho with ho | ho
    · have hw := ha.within s f o ho
      refine (ha.explains hfirst o ho).keep h.ok h'.ok h'.grows (hb.records _) (Nat.le_refl _)
        (hdisj hw.ident) ?_ ?_
      · rcases hw.scope with hs | hs
        · exact hs ▸ hrest.scope_notMem
        · exact hdisj hs
      · rcases hw.function with hf | hf
        · exact hf ▸ hrest.function_notMem
        · exact hdisj hf
    · refine hb.explains (hrest.next h (ha.records r) (fun id hid hid' => hdisj hid' hid) ?_ ?_) o ho
      · exact hfirst.scope_notMem
      · exact hfirst.function_notMem
  recognizes := fun {r s f} hready g => by
    have hfirst := hready.mono (List.subset_append_left ids ids')
    have hrest := (hready.mono (List.subset_append_right ids ids')).next (ha.builds hready.ok)
      (ha.records r) (fun id hid hid' => hdisj hid' hid) hfirst.scope_notMem hfirst.function_notMem
    -- What the second part notes is nothing about the names in the first.
    have hsame (o : Occurrence) (ho : o ∈ os s f) :
        (b (a r).2).2.tree.IsOwnArguments o ↔ (a r).2.tree.IsOwnArguments o :=
      ScopeTree.isOwnArguments_iff (hb.records _) (hdisj (ha.within s f o ho).ident)
    have hos : (∃ o ∈ os s f, o.function = g ∧ (a r).2.tree.IsOwnArguments o) ↔
        ∃ o ∈ os s f, o.function = g ∧ (b (a r).2).2.tree.IsOwnArguments o :=
      exists_congr fun o => and_congr_right fun ho => and_congr_right fun _ => (hsame o ho).symm
    rw [bind_apply, hb.recognizes hrest g, ha.recognizes hfirst g, hos, or_assoc]
    simp only [List.mem_append, or_and_right, exists_or]

/-- A part of the walk after which it returns to where it was. -/
theorem stays (ha : Accounts ids os a) : Accounts ids os (inside a) where
  builds := fun {r} hr => by
    have h := ha.builds hr
    rw [inside_apply, ← h.current]
    exact h
  records := ha.records.inside
  within := ha.within
  explains := ha.explains
  recognizes := ha.recognizes

end Accounts

/-! ## Uses of names -/

/-- A use of a variable is noted. -/
theorem notes_withUse {t : ScopeTree} {v : Nat} (hv : v < t.vars.size) (site : Site)
    (hnone : t.sitesAt site.ident = []) :
    (withUse t v site).Notes site.ident site.kind site.fnScope v := by
  have hvar : (withUse t v site).var v = used site (t.var v) := by
    rw [ScopeTree.withUse_var, if_pos ⟨rfl, hv⟩]
  refine ⟨Std.TreeMap.getElem?_insert_self, Std.TreeMap.getElem?_insert_self,
    ScopeTree.sitesAt_withUse_self hv hnone, ?_⟩
  rw [hvar, used]
  split <;> exact List.mem_append_right _ List.mem_cons_self

theorem explains_addSite {r : Resolution} {i : Ident} {s f : NodeId} (h : Ready r [i.id] s f)
    (kind : SiteKind) : (addSite i kind r).2.tree.Explains ⟨i, .use kind, s, f⟩ := by
  have hspec := resolve_spec (n := 0) (J := fun _ => False) h.ok i
  have hlookup := resolve_lookup h.ok i
  have hrecords := recording_resolve (J := fun _ => False) i r
  rw [addSite_apply]
  generalize resolve i r = x at hspec hlookup hrecords
  obtain ⟨found, r'⟩ := x
  have hready : Ready r' [i.id] s f := h.next hspec.1 hrecords (fun _ _ => id) id id
  have hnone := hready.blank i.id List.mem_cons_self
  rcases hlookup with ⟨v, hv, hfound⟩ | ⟨hv, hname, hmissing⟩
  · obtain rfl : found = some v := hv
    have hsame (site : Site) : (withUse r'.tree v site).lookup r.current i.name =
        r'.tree.lookup r.current i.name := by
      refine ScopeTree.lookup_congr (fun s => ?_) _ _
      rfl
    have hcurrent : r'.current = r.current := hspec.1.current
    refine Or.inl ⟨r.current, _, v, ?_, hready.function, (hsame _).trans hfound, ?_⟩
    · exact hcurrent ▸ hready.scope
    · exact notes_withUse (hspec.2 v rfl).2 ⟨i.id, _, kind⟩ hnone.sitesAt
  · obtain rfl : found = none := hv
    refine Or.inr ⟨hname, ⟨r.current, ?_, ?_, fun v hv => ?_⟩, hnone⟩
    · exact hspec.1.current ▸ hready.scope
    · exact h.ok.inside.trans_le hspec.1.grows.size
    · rw [show r'.tree.lookup r.current i.name = none from hmissing] at hv
      cases hv

/-- Nothing is noted of a name without a variable. -/
theorem unnoted_addSite_iff {r : Resolution} {i : Ident} {s f : NodeId} (h : Ready r [i.id] s f)
    (kind : SiteKind) :
    (addSite i kind r).2.tree.Unnoted i.id ↔ (addSite i kind r).1 = none := by
  have hspec := (addSite_spec (n := 0) (J := (· = i.id)) h.ok (rfl : i.id = i.id) kind).2
  have hblank := h.blank i.id List.mem_cons_self
  have hrecords := recording_resolve (J := fun _ => False) i r
  rw [addSite_apply] at hspec ⊢
  generalize resolve i r = x at hspec hrecords
  obtain ⟨_ | v, r'⟩ := x
  · exact iff_of_true (hblank.keep hrecords id) rfl
  · refine iff_of_false (fun hnone => ?_) nofun
    have hkind := (hspec v rfl).2.2.1
    rw [hnone.siteKind] at hkind
    cases hkind

theorem recognizes_addSite {r : Resolution} {i : Ident} {s f : NodeId} (h : Ready r [i.id] s f)
    (kind : SiteKind) (g : NodeId) : (addSite i kind r).2.tree.UsesArguments g ↔
      r.tree.UsesArguments g ∨ ∃ o ∈ [Occurrence.mk i (.use kind) s f], o.function = g ∧
        (addSite i kind r).2.tree.IsOwnArguments o := by
  have hown : (addSite i kind r).2.tree.IsOwnArguments ⟨i, .use kind, s, f⟩ ↔
      (addSite i kind r).1 = none :=
    (and_iff_right ⟨kind, rfl⟩).trans (unnoted_addSite_iff h kind)
  simp only [List.mem_singleton, exists_eq_left, hown]
  exact usesArguments_addSite h.inFunction i kind g

theorem accounts_noteSite (i : Ident) (kind : SiteKind) :
    Accounts [i.id] (fun s f => [⟨i, .use kind, s, f⟩]) (noteSite i kind) where
  builds := fun hr => builds_noteSite hr List.mem_cons_self kind
  records := recording_noteSite List.mem_cons_self kind
  within := fun s f o ho => by
    rw [List.mem_singleton.mp ho]
    exact ⟨List.mem_cons_self, Or.inl rfl, Or.inl rfl⟩
  explains := fun h o ho => by
    rw [List.mem_singleton.mp ho]
    exact explains_addSite h kind
  recognizes := fun h g => recognizes_addSite h kind g

theorem accounts_noteCallee (i : Ident) :
    Accounts [i.id] (fun s f => [⟨i, .use .callee, s, f⟩]) (noteCallee i) where
  builds := fun hr => builds_noteCallee hr List.mem_cons_self
  records := recording_noteCallee List.mem_cons_self
  within := (accounts_noteSite i .callee).within
  explains := fun {r s f} h o ho => by
    obtain rfl := List.mem_singleton.mp ho
    have hsite := explains_addSite h .callee
    have hbuilds : Builds 0 (fun _ => True) r (addSite i .callee r).2 :=
      (addSite_spec h.ok trivial .callee).1
    have hok := hbuilds.ok' h.ok
    rcases noteCallee_cases i r with heq | heq <;> rw [heq]
    · exact hsite
    · have hnote : Builds (addSite i .callee r).2.tree.scopes.size (fun _ => False)
          (addSite i .callee r).2 (noteDynamicScope (addSite i .callee r).2).2 :=
        builds_noteDynamicScope hok
      exact hsite.keep hok.tree hnote.ok hnote.grows (recording_noteDynamicScope _)
        (Nat.le_refl _) id id id
  recognizes := fun {r s f} h g => by
    have hsite := recognizes_addSite h .callee g
    rcases noteCallee_cases i r with heq | heq <;> rw [heq]
    · exact hsite
    · have hsame (o : Occurrence) :
          (noteDynamicScope (addSite i .callee r).2).2.tree.IsOwnArguments o ↔
            (addSite i .callee r).2.tree.IsOwnArguments o :=
        ScopeTree.isOwnArguments_iff (recording_noteDynamicScope (J := fun _ => False) _) id
      simp only [hsame]
      exact hsite

/-- A name that is declared without a value. -/
theorem accounts_bindKnown (i : Ident) :
    Accounts [i.id] (fun s f => [⟨i, .silent, s, f⟩]) (bindKnown i) := by
  have hrecords (J : NodeId → Prop) : Recording J (bindKnown i) := by
    refine .get_bind fun r => ?_
    split
    · exact recording_bind i _
    · exact .pure _
  have hleaves : Leaves ScopeTree.functions (bindKnown i) := by
    refine .get_bind fun r => ?_
    split
    · exact fun _ => rfl
    · exact .pure _
  refine ⟨fun hr => builds_bindKnown hr List.mem_cons_self, hrecords _, fun s f o ho => ?_,
    fun {r s f} h o ho => ?_, fun {r s f} _ g => ?_⟩
  · rw [List.mem_singleton.mp ho]
    exact ⟨List.mem_cons_self, Or.inl rfl, Or.inl rfl⟩
  · rw [List.mem_singleton.mp ho]
    exact (h.blank i.id List.mem_cons_self).keep (hrecords (fun _ => False) r) id
  · rw [ScopeTree.usesArguments_congr (hleaves r), or_iff_left]
    rintro ⟨o, ho, -, ⟨k, hk⟩, -⟩
    rw [List.mem_singleton.mp ho] at hk
    cases hk

end

end Resolve

end EsOptimizer
