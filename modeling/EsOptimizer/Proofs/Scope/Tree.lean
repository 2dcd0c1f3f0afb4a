import EsOptimizer.Proofs.Syntax.Functions
import EsOptimizer.Scope.Build
import Mathlib.Data.List.Infix

/-!
# How a scope tree grows

Resolving names only ever adds to a scope tree. `Grows n J S t t'` says how much may differ between
two stages: the first `n` scopes are finished, but for variables that are used without a
declaration, which become members of the outermost scope; only the nodes `J` are looked at; and only
the variables of the scopes `S` are used. New scopes are opened in those, or in new ones. Scopes,
once opened, keep their place in the tree, and
variables keep all but the list of their uses.

`Encloses` is the order of scopes. A name in a scope means a variable of one that encloses it.
-/

namespace EsOptimizer

namespace ScopeTree

/-! ## Scopes around scopes -/

/-- The scope `a` is the scope `s` or one around it. -/
inductive Encloses (t : ScopeTree) (a : ScopeId) : ScopeId → Prop where
  | refl : Encloses t a a
  | outer {s q : ScopeId} : (t.scope s).parent = some q → Encloses t a q → Encloses t a s

/-- What holds of the scopes and variables at every stage. -/
structure Ok (t : ScopeTree) : Prop where
  nonempty : root < t.scopes.size
  rootScope : (t.scope root).fnScope = root
  parents : ∀ s q : Nat, (t.scope s).parent = some q → q < s
  rooted : ∀ s < t.scopes.size, s ≠ root → (t.scope s).parent.isSome = true
  listed : ∀ s, ∀ x ∈ (t.scope s).vars,
    x.2 < t.vars.size ∧ (t.var x.2).scope = s ∧ (t.var x.2).name = x.1
  distinct : ∀ s, ((t.scope s).vars.map (·.1)).Nodup
  placed : ∀ v, v < t.vars.size → (t.var v).scope < t.scopes.size ∧
    (t.var v).fnScope = (t.scope (t.var v).scope).fnScope
  implicit : ∀ v, v < t.vars.size → (t.var v).kind = .implicit → (t.var v).scope = root ∧
    (t.var v).decl = none ∧ (t.var v).initial = Host.global? (t.var v).name
  entered : ∀ id, t.scopeOf id = none → t.function? id = none

section

variable {t t' : ScopeTree} {a s : Nat}

theorem Encloses.le (h : t.Encloses a s) (hok : t.Ok) : a ≤ s := by
  induction h with
  | refl => exact Nat.le_refl _
  | outer hparent _ ih => exact ih.trans (hok.parents _ _ hparent).le

theorem Encloses.trans {b : ScopeId} (hab : t.Encloses a b) (hbs : t.Encloses b s) :
    t.Encloses a s := by
  induction hbs with
  | refl => exact hab
  | outer hparent _ ih => exact .outer hparent ih

theorem Ok.encloses_root (hok : t.Ok) (h : s < t.scopes.size) : t.Encloses root s := by
  induction s using Nat.strong_induction_on with
  | _ s ih =>
    by_cases hs : s = root
    · rw [hs]
      exact .refl
    · obtain ⟨q, hq⟩ := Option.isSome_iff_exists.mp (hok.rooted s h hs)
      have hlt := hok.parents s q hq
      exact .outer hq (ih q hlt (by omega))

/-- A place in the tree is known by the scopes around it. -/
theorem Encloses.congr (h : t.Encloses a s) (hok : t.Ok)
    (hparents : ∀ q ≤ s, (t'.scope q).parent = (t.scope q).parent) : t'.Encloses a s := by
  induction h with
  | refl => exact .refl
  | outer hparent _ ih =>
    have hlt := hok.parents _ _ hparent
    exact .outer ((hparents _ (Nat.le_refl _)).trans hparent) (ih fun q hq => hparents q (by omega))

/-! ## Looking names up -/

theorem Ok.rootParent (hok : t.Ok) : (t.scope 0).parent = none := by
  cases hq : (t.scope 0).parent with
  | none => rfl
  | some q => exact absurd (hok.parents 0 q hq) (Nat.not_lt_zero q)

theorem lookupWithin_eq (hok : t.Ok) (name : String) (n : Nat) (h : s ≤ n) :
    t.lookupWithin name n s = t.lookup s name := by
  rw [lookup]
  induction n using Nat.strong_induction_on generalizing s with
  | _ n ih =>
    rcases Nat.eq_or_lt_of_le h with rfl | hlt
    · rfl
    · have hn : ∃ m, n = m + 1 := Nat.exists_eq_succ_of_ne_zero (by omega)
      obtain ⟨m, rfl⟩ := hn
      cases s with
      | zero =>
        rw [lookupWithin, lookupWithin, hok.rootParent]
        cases (t.scope 0).vars.lookup name <;> rfl
      | succ s =>
        rw [lookupWithin, lookupWithin]
        cases (t.scope (s + 1)).vars.lookup name with
        | some v => rfl
        | none =>
          cases hq : (t.scope (s + 1)).parent with
          | none => rfl
          | some q =>
            have hlt := hok.parents _ _ hq
            change t.lookupWithin name m q = t.lookupWithin name s q
            rw [ih m (by omega) (by omega), ih s (by omega) (by omega)]

/-- A name is looked up in a scope first, and then around it. -/
theorem lookup_eq (hok : t.Ok) (s : ScopeId) (name : String) : t.lookup s name =
    match (t.scope s).vars.lookup name with
    | some v => some v
    | none => (t.scope s).parent.bind (t.lookup · name) := by
  cases s with
  | zero =>
    rw [lookup, lookupWithin, hok.rootParent]
    cases (t.scope 0).vars.lookup name <;> rfl
  | succ s =>
    rw [lookup, lookupWithin]
    cases (t.scope (s + 1)).vars.lookup name with
    | some v => rfl
    | none =>
      cases hq : (t.scope (s + 1)).parent with
      | none => rfl
      | some q =>
        have hlt := hok.parents _ _ hq
        exact lookupWithin_eq hok name s (by omega)

theorem mem_of_lookup {xs : List (String × VarId)} {name : String} {v : VarId}
    (h : xs.lookup name = some v) : (name, v) ∈ xs := by
  induction xs with
  | nil => cases h
  | cons e rest ih =>
    rw [List.lookup_cons] at h
    split at h
    · rename_i heq
      cases h
      rw [beq_iff_eq.mp heq]
      exact List.mem_cons_self
    · exact List.mem_cons_of_mem _ (ih h)

/-- The variable that a name means belongs to a scope around. -/
theorem exists_encloses_of_lookup (hok : t.Ok) {name : String} {v : VarId}
    (h : t.lookup s name = some v) : ∃ a, t.Encloses a s ∧ (name, v) ∈ (t.scope a).vars := by
  induction s using Nat.strong_induction_on with
  | _ s ih =>
    rw [lookup_eq hok] at h
    cases hv : (t.scope s).vars.lookup name with
    | some u =>
      rw [hv] at h
      cases h
      exact ⟨s, .refl, mem_of_lookup hv⟩
    | none =>
      rw [hv] at h
      cases hq : (t.scope s).parent with
      | none =>
        rw [hq] at h
        cases h
      | some q =>
        rw [hq] at h
        obtain ⟨a, ha, hmem⟩ := ih q (hok.parents s q hq) h
        exact ⟨a, .outer hq ha, hmem⟩

theorem lookup_none_of_encloses (hok : t.Ok) {name : String} (h : t.lookup s name = none)
    (ha : t.Encloses a s) : (t.scope a).vars.lookup name = none := by
  induction ha with
  | refl =>
    rw [lookup_eq hok] at h
    cases hv : (t.scope a).vars.lookup name with
    | none => rfl
    | some v =>
      rw [hv] at h
      cases h
  | @outer s q hq _ ih =>
    rw [lookup_eq hok, hq] at h
    cases hv : (t.scope s).vars.lookup name with
    | none =>
      rw [hv] at h
      exact ih h
    | some v =>
      rw [hv] at h
      cases h

theorem not_mem_of_lookup {xs : List (String × VarId)} {name : String}
    (h : xs.lookup name = none) : name ∉ xs.map (·.1) := by
  rw [List.lookup_eq_none_iff] at h
  intro hmem
  obtain ⟨e, he, rfl⟩ := List.mem_map.mp hmem
  simpa using h e he

end

end ScopeTree

/-! ## Growth -/

/-- A variable at a later stage: it may have been used in more places. -/
structure Variable.Extends (x y : Variable) : Prop where
  name : y.name = x.name
  kind : y.kind = x.kind
  scope : y.scope = x.scope
  fnScope : y.fnScope = x.fnScope
  decl : y.decl = x.decl
  initial : y.initial = x.initial
  reads : x.reads <+: y.reads
  writes : x.writes <+: y.writes

namespace Variable.Extends

theorem refl (x : Variable) : Extends x x :=
  ⟨rfl, rfl, rfl, rfl, rfl, rfl, List.prefix_rfl, List.prefix_rfl⟩

theorem trans {x y z : Variable} (hxy : Extends x y) (hyz : Extends y z) : Extends x z where
  name := hyz.name.trans hxy.name
  kind := hyz.kind.trans hxy.kind
  scope := hyz.scope.trans hxy.scope
  fnScope := hyz.fnScope.trans hxy.fnScope
  decl := hyz.decl.trans hxy.decl
  initial := hyz.initial.trans hxy.initial
  reads := hxy.reads.trans hyz.reads
  writes := hxy.writes.trans hyz.writes

end Variable.Extends

/-- What is settled of a function when it is entered. -/
structure FunctionInfo.Same (a b : FunctionInfo) : Prop where
  scope : b.scope = a.scope
  params : b.params = a.params
  nameVar : b.nameVar = a.nameVar
  isDecl : b.isDecl = a.isDecl

namespace FunctionInfo.Same

theorem refl? (a : Option FunctionInfo) : Option.Rel Same a a := by
  cases a with
  | none => exact .none
  | some f => exact .some ⟨rfl, rfl, rfl, rfl⟩

theorem trans? {a b c : Option FunctionInfo} (hab : Option.Rel Same a b)
    (hbc : Option.Rel Same b c) : Option.Rel Same a c := by
  cases hab with
  | none => exact hbc
  | some hab =>
    cases hbc with
    | some hbc =>
      exact .some ⟨hbc.scope.trans hab.scope, hbc.params.trans hab.params,
        hbc.nameVar.trans hab.nameVar, hbc.isDecl.trans hab.isDecl⟩

end FunctionInfo.Same

namespace ScopeTree

/-- How a tree may differ from an earlier stage of it. -/
structure Grows (n : Nat) (J : NodeId → Prop) (S : ScopeId → Prop) (t t' : ScopeTree) : Prop where
  size : t.scopes.size ≤ t'.scopes.size
  parent : ∀ s < t.scopes.size, (t'.scope s).parent = (t.scope s).parent
  fnScope : ∀ s < t.scopes.size, (t'.scope s).fnScope = (t.scope s).fnScope
  opened : ∀ s q : Nat, t.scopes.size ≤ s → s < t'.scopes.size → (t'.scope s).parent = some q →
    t.scopes.size ≤ q ∨ S q
  finished : ∀ s < n, s ≠ root → t'.scope s = t.scope s
  rootVars : root < n → (t.scope root).vars <+: (t'.scope root).vars
  rootNew : root < n → ∀ x ∈ (t'.scope root).vars, x ∈ (t.scope root).vars ∨
    x.2 < t'.vars.size ∧ (t'.var x.2).kind = .implicit
  rootHoisted : root < n → (t'.scope root).hoisted = (t.scope root).hoisted
  varsSize : t.vars.size ≤ t'.vars.size
  extended : ∀ v < t.vars.size, (t.var v).Extends (t'.var v)
  unused : ∀ v < t.vars.size, ¬S (t.var v).scope → t'.var v = t.var v
  varOf : ∀ id, ¬J id → t'.varOf id = t.varOf id
  siteKind : ∀ id, ¬J id → t'.siteKind id = t.siteKind id
  scopeOf : ∀ id, ¬J id → t'.scopeOf id = t.scopeOf id
  functions : ∀ id, ¬J id → Option.Rel FunctionInfo.Same (t.function? id) (t'.function? id)

namespace Grows

variable {n m : Nat} {J J' : NodeId → Prop} {S S' : ScopeId → Prop} {t t' t'' : ScopeTree}

theorem refl (t : ScopeTree) : Grows n J S t t where
  size := Nat.le_refl _
  parent := fun _ _ => rfl
  fnScope := fun _ _ => rfl
  opened := fun _ _ hs hs' => absurd hs' (Nat.not_lt.mpr hs)
  finished := fun _ _ _ => rfl
  rootVars := fun _ => List.prefix_rfl
  rootNew := fun _ _ hx => Or.inl hx
  rootHoisted := fun _ => rfl
  varsSize := Nat.le_refl _
  extended := fun _ _ => .refl _
  unused := fun _ _ _ => rfl
  varOf := fun _ _ => rfl
  siteKind := fun _ _ => rfl
  scopeOf := fun _ _ => rfl
  functions := fun id _ => FunctionInfo.Same.refl? (t.function? id)

/-- Scopes that are opened in between do not count for what is used. -/
theorem trans (h : Grows n J S t t') (hok : t.Ok) (h' : Grows n J S' t' t'')
    (hS : ∀ s < t.scopes.size, S' s → S s) : Grows n J S t t'' where
  size := h.size.trans h'.size
  parent := fun s hs => (h'.parent s (hs.trans_le h.size)).trans (h.parent s hs)
  fnScope := fun s hs => (h'.fnScope s (hs.trans_le h.size)).trans (h.fnScope s hs)
  opened := fun s q hs hs' hq => by
    by_cases hlt : s < t'.scopes.size
    · exact h.opened s q hs hlt ((h'.parent s hlt).symm.trans hq)
    · by_cases hold : q < t.scopes.size
      · refine Or.inr (hS q hold ((h'.opened s q (Nat.not_lt.mp hlt) hs' hq).resolve_left ?_))
        exact Nat.not_le.mpr (hold.trans_le h.size)
      · exact Or.inl (Nat.not_lt.mp hold)
  finished := fun s hs hroot => (h'.finished s hs hroot).trans (h.finished s hs hroot)
  rootVars := fun hn => (h.rootVars hn).trans (h'.rootVars hn)
  rootNew := fun hn x hx => by
    rcases h'.rootNew hn x hx with hx | hx
    · refine (h.rootNew hn x hx).imp_right fun ⟨hlt, hkind⟩ => ?_
      exact ⟨hlt.trans_le h'.varsSize, (h'.extended _ hlt).kind.trans hkind⟩
    · exact Or.inr hx
  rootHoisted := fun hn => (h'.rootHoisted hn).trans (h.rootHoisted hn)
  varsSize := h.varsSize.trans h'.varsSize
  extended := fun v hv => (h.extended v hv).trans (h'.extended v (hv.trans_le h.varsSize))
  unused := fun v hv hS' => by
    refine (h'.unused v (hv.trans_le h.varsSize) fun hs => hS' ?_).trans (h.unused v hv hS')
    rw [(h.extended v hv).scope] at hs
    exact hS _ (hok.placed v hv).1 hs
  varOf := fun id hid => (h'.varOf id hid).trans (h.varOf id hid)
  siteKind := fun id hid => (h'.siteKind id hid).trans (h.siteKind id hid)
  scopeOf := fun id hid => (h'.scopeOf id hid).trans (h.scopeOf id hid)
  functions := fun id hid => FunctionInfo.Same.trans? (h.functions id hid) (h'.functions id hid)

theorem mono (h : Grows n J S t t') (hn : m ≤ n) (hJ : ∀ id, J id → J' id)
    (hS : ∀ s < t.scopes.size, S s → S' s) (hok : t.Ok) : Grows m J' S' t t' :=
  { h with
    opened := fun s q hs hs' hq => by
      by_cases hold : q < t.scopes.size
      · exact (h.opened s q hs hs' hq).imp_right (hS q hold)
      · exact Or.inl (Nat.not_lt.mp hold)
    finished := fun s hs => h.finished s (hs.trans_le hn)
    rootVars := fun hm => h.rootVars (hm.trans_le hn)
    rootNew := fun hm => h.rootNew (hm.trans_le hn)
    rootHoisted := fun hm => h.rootHoisted (hm.trans_le hn)
    unused := fun v hv hs => h.unused v hv fun hs' => hs (hS _ (hok.placed v hv).1 hs')
    varOf := fun id hid => h.varOf id fun hid' => hid (hJ id hid')
    siteKind := fun id hid => h.siteKind id fun hid' => hid (hJ id hid')
    scopeOf := fun id hid => h.scopeOf id fun hid' => hid (hJ id hid')
    functions := fun id hid => h.functions id fun hid' => hid (hJ id hid') }

theorem encloses_iff (h : Grows n J S t t') (hok : t.Ok) (hok' : t'.Ok) {a s : Nat}
    (hs : s < t.scopes.size) : t'.Encloses a s ↔ t.Encloses a s := by
  constructor
  · intro ha
    exact ha.congr hok' fun q hq => (h.parent q (by omega)).symm
  · intro ha
    exact ha.congr hok fun q hq => h.parent q (by omega)

/-- What is settled of a function stays. -/
theorem function_same (h : Grows n J S t t') {id : NodeId} (hid : ¬J id) {info : FunctionInfo}
    (hinfo : t.function? id = some info) : ∃ info', t'.function? id = some info' ∧ info.Same info' := by
  have hrel := h.functions id hid
  rw [hinfo] at hrel
  cases hfn : t'.function? id with
  | none =>
    rw [hfn] at hrel
    cases hrel
  | some info' =>
    rw [hfn] at hrel
    cases hrel with
    | some hsame => exact ⟨info', rfl, hsame⟩

/-- A function that is not met stays unknown. -/
theorem function_none (h : Grows n J S t t') {id : NodeId} (hid : ¬J id)
    (hnone : t.function? id = none) : t'.function? id = none := by
  have hrel := h.functions id hid
  rw [hnone] at hrel
  cases hfn : t'.function? id with
  | none => rfl
  | some info =>
    rw [hfn] at hrel
    cases hrel

/-- The meaning of a name in a finished scope stays. -/
theorem lookup_some (h : Grows n J S t t') (hok : t.Ok) (hok' : t'.Ok) {s : Nat} (hs : s < n)
    {name : String} {v : VarId} (hv : t.lookup s name = some v) : t'.lookup s name = some v := by
  induction s using Nat.strong_induction_on with
  | _ s ih =>
    rw [lookup_eq hok] at hv
    rw [lookup_eq hok']
    by_cases hroot : s = root
    · obtain ⟨new, hnew⟩ := h.rootVars (hroot ▸ hs)
      have hparent : (t.scope s).parent = none := by
        rw [hroot]
        exact hok.rootParent
      cases hfound : (t.scope s).vars.lookup name with
      | none =>
        rw [hfound, hparent] at hv
        cases hv
      | some u =>
        rw [hfound] at hv
        cases hv
        rw [hroot] at hfound ⊢
        rw [← hnew, List.lookup_append, hfound]
        rfl
    · rw [h.finished s hs hroot]
      cases hfound : (t.scope s).vars.lookup name with
      | some u =>
        rw [hfound] at hv
        exact hv
      | none =>
        rw [hfound] at hv
        cases hq : (t.scope s).parent with
        | none =>
          rw [hq] at hv
          cases hv
        | some q =>
          rw [hq] at hv
          have hlt := hok.parents s q hq
          exact ih q hlt (hlt.trans hs) hv

/-- A name without a meaning in a finished scope can only become an undeclared variable. -/
theorem lookup_none (h : Grows n J S t t') (hok : t.Ok) (hok' : t'.Ok) {s : Nat} (hs : s < n)
    (hs' : s < t.scopes.size) {name : String} {v : VarId} (hnone : t.lookup s name = none)
    (hv : t'.lookup s name = some v) : (t'.var v).kind = .implicit := by
  obtain ⟨a, ha, hmem⟩ := exists_encloses_of_lookup hok' hv
  have hencl := (h.encloses_iff hok hok' hs').mp ha
  have hmissing := not_mem_of_lookup (lookup_none_of_encloses hok hnone hencl)
  have hlt : a < n := (ha.le hok').trans_lt hs
  by_cases hroot : a = root
  · rcases h.rootNew (hroot ▸ hlt) (name, v) (hroot ▸ hmem) with hold | hnew
    · exact absurd (List.mem_map_of_mem (hroot ▸ hold)) hmissing
    · exact hnew.2
  · rw [h.finished a hlt hroot] at hmem
    exact absurd (List.mem_map_of_mem hmem) hmissing

end Grows

/-! ## Steps of growth -/

theorem getD_push {α : Type} (xs : Array α) (x d : α) (i : Nat) :
    (xs.push x).getD i d = if i = xs.size then x else xs.getD i d := by
  rw [Array.getD_eq_getD_getElem?, Array.getD_eq_getD_getElem?, Array.getElem?_push]
  split <;> rfl

theorem getD_modify {α : Type} (xs : Array α) (f : α → α) (d : α) (i j : Nat) :
    (xs.modify i f).getD j d = if i = j ∧ j < xs.size then f (xs.getD j d) else xs.getD j d := by
  rw [Array.getD_eq_getD_getElem?, Array.getD_eq_getD_getElem?, Array.getElem?_modify]
  by_cases hij : i = j
  · subst hij
    rw [if_pos rfl]
    by_cases hlt : i < xs.size
    · rw [if_pos ⟨rfl, hlt⟩, Array.getElem?_eq_getElem hlt]
      rfl
    · rw [if_neg fun h => hlt h.2, Array.getElem?_eq_none (by omega)]
      rfl
  · rw [if_neg hij, if_neg fun h => hij h.1]

section

variable {t : ScopeTree} {n : Nat} {J : NodeId → Prop} {S : ScopeId → Prop}

/-- The tree with a new scope in it. -/
def addScope (t : ScopeTree) (x : Scope) : ScopeTree := { t with scopes := t.scopes.push x }

/-- The tree with a new variable in a scope. -/
def addVar (t : ScopeTree) (x : Variable) : ScopeTree :=
  { t with
    vars := t.vars.push x
    scopes := t.scopes.modify x.scope fun s => { s with vars := s.vars ++ [(x.name, t.vars.size)] } }

theorem addScope_scope (t : ScopeTree) (x : Scope) (s : Nat) :
    (t.addScope x).scope s = if s = t.scopes.size then x else t.scope s :=
  getD_push t.scopes x default s

theorem addVar_var (t : ScopeTree) (x : Variable) (v : Nat) :
    (t.addVar x).var v = if v = t.vars.size then x else t.var v :=
  getD_push t.vars x default v

theorem addVar_scope (t : ScopeTree) (x : Variable) (s : Nat) :
    (t.addVar x).scope s = if x.scope = s ∧ s < t.scopes.size then
      { t.scope s with vars := (t.scope s).vars ++ [(x.name, t.vars.size)] } else t.scope s :=
  getD_modify t.scopes _ default x.scope s

theorem addScope_size (t : ScopeTree) (x : Scope) :
    (t.addScope x).scopes.size = t.scopes.size + 1 :=
  Array.size_push x

theorem addVar_size (t : ScopeTree) (x : Variable) :
    (t.addVar x).scopes.size = t.scopes.size :=
  Array.size_modify

theorem addVar_varsSize (t : ScopeTree) (x : Variable) :
    (t.addVar x).vars.size = t.vars.size + 1 :=
  Array.size_push x

theorem Ok.addScope (hok : t.Ok) {x : Scope} {q : Nat} (hparent : x.parent = some q)
    (hq : q < t.scopes.size) (hvars : x.vars = []) : (t.addScope x).Ok where
  nonempty := by rw [addScope_size]; exact Nat.lt_succ_of_lt hok.nonempty
  rootScope := by
    rw [addScope_scope, if_neg (Nat.ne_of_lt hok.nonempty)]
    exact hok.rootScope
  parents := fun s p hp => by
    rw [addScope_scope] at hp
    split at hp
    · rename_i hs
      rw [hparent] at hp
      cases hp
      rw [hs]
      exact hq
    · exact hok.parents s p hp
  rooted := fun s hs hroot => by
    rw [addScope_scope]
    split
    · rw [hparent]
      rfl
    · rename_i hne
      rw [addScope_size] at hs
      exact hok.rooted s (by omega) hroot
  listed := fun s y hy => by
    rw [addScope_scope] at hy
    split at hy
    · rw [hvars] at hy
      cases hy
    · exact hok.listed s y hy
  distinct := fun s => by
    rw [addScope_scope]
    split
    · rw [hvars]
      exact List.nodup_nil
    · exact hok.distinct s
  placed := fun v hv => by
    obtain ⟨hlt, hfn⟩ := hok.placed v hv
    rw [addScope_size, addScope_scope]
    refine ⟨Nat.lt_succ_of_lt hlt, hfn.trans ?_⟩
    exact congrArg Scope.fnScope (if_neg (Nat.ne_of_lt hlt)).symm
  implicit := hok.implicit
  entered := hok.entered

theorem Grows.addScope {x : Scope} (hn : n ≤ t.scopes.size) (hx : ∀ q, x.parent = some q → S q) :
    Grows n J S t (t.addScope x) :=
  { refl (n := n) (J := J) (S := S) t with
    size := by rw [addScope_size]; omega
    opened := fun s q hs hs' hq => by
      rw [addScope_size] at hs'
      rw [addScope_scope, if_pos (by omega)] at hq
      exact Or.inr (hx q hq)
    parent := fun s hs => by rw [addScope_scope, if_neg (Nat.ne_of_lt hs)]
    fnScope := fun s hs => by rw [addScope_scope, if_neg (Nat.ne_of_lt hs)]
    finished := fun s hs _ => by rw [addScope_scope, if_neg (by omega)]
    rootVars := fun h0 => by
      rw [addScope_scope, if_neg (Nat.ne_of_lt (h0.trans_le hn))]
    rootNew := fun h0 x hx => by
      rw [addScope_scope, if_neg (Nat.ne_of_lt (h0.trans_le hn))] at hx
      exact Or.inl hx
    rootHoisted := fun h0 => by
      rw [addScope_scope, if_neg (Nat.ne_of_lt (h0.trans_le hn))] }

theorem Ok.addVar (hok : t.Ok) {x : Variable} (hscope : x.scope < t.scopes.size)
    (hfn : x.fnScope = (t.scope x.scope).fnScope)
    (hnew : x.name ∉ (t.scope x.scope).vars.map (·.1))
    (himplicit : x.kind = .implicit →
      x.scope = root ∧ x.decl = none ∧ x.initial = Host.global? x.name) : (t.addVar x).Ok where
  nonempty := by rw [addVar_size]; exact hok.nonempty
  rootScope := by
    rw [addVar_scope]
    split <;> exact hok.rootScope
  parents := fun s p hp => by
    rw [addVar_scope] at hp
    split at hp <;> exact hok.parents s p hp
  rooted := fun s hs hroot => by
    rw [addVar_size] at hs
    rw [addVar_scope]
    split <;> exact hok.rooted s hs hroot
  listed := fun s y hy => by
    have hold (hy : y ∈ (t.scope s).vars) : y.2 < (t.addVar x).vars.size ∧
        ((t.addVar x).var y.2).scope = s ∧ ((t.addVar x).var y.2).name = y.1 := by
      obtain ⟨hlt, hrest⟩ := hok.listed s y hy
      rw [addVar_varsSize, addVar_var, if_neg (Nat.ne_of_lt hlt)]
      exact ⟨Nat.lt_succ_of_lt hlt, hrest⟩
    rw [addVar_scope] at hy
    split at hy
    · rename_i hs
      rcases List.mem_append.mp hy with hy | hy
      · exact hold hy
      · rw [List.mem_singleton.mp hy, addVar_varsSize, addVar_var, if_pos rfl]
        exact ⟨Nat.lt_succ_self _, hs.1, rfl⟩
    · exact hold hy
  distinct := fun s => by
    rw [addVar_scope]
    split
    · rename_i hs
      rw [List.map_append, List.nodup_append]
      refine ⟨hok.distinct s, List.nodup_cons.mpr ⟨List.not_mem_nil, List.nodup_nil⟩, ?_⟩
      intro a ha b hb heq
      rw [List.mem_singleton.mp hb] at heq
      rw [heq, ← hs.1] at ha
      exact hnew ha
    · exact hok.distinct s
  placed := fun v hv => by
    have hfnScope (s : Nat) : ((t.addVar x).scope s).fnScope = (t.scope s).fnScope := by
      rw [addVar_scope]
      split <;> rfl
    rw [addVar_varsSize] at hv
    rw [addVar_size, hfnScope, addVar_var]
    split
    · exact ⟨hscope, hfn⟩
    · exact hok.placed v (by omega)
  implicit := fun v hv => by
    rw [addVar_varsSize] at hv
    rw [addVar_var]
    split
    · exact himplicit
    · exact hok.implicit v (by omega)
  entered := hok.entered

theorem Grows.addVar {x : Variable} (hx : n ≤ x.scope ∨ x.scope = root ∧ x.kind = .implicit) :
    Grows n J S t (t.addVar x) :=
  { refl (n := n) (J := J) (S := S) t with
    size := (addVar_size t x).ge
    opened := fun s _ hs hs' => absurd hs' (by rw [addVar_size]; omega)
    parent := fun s _ => by
      rw [addVar_scope]
      split <;> rfl
    fnScope := fun s _ => by
      rw [addVar_scope]
      split <;> rfl
    finished := fun s hs hroot => by
      rw [addVar_scope, if_neg]
      rintro ⟨heq, -⟩
      rcases hx with hx | hx
      · exact absurd hs (Nat.not_lt.mpr (heq ▸ hx))
      · exact hroot (heq.symm.trans hx.1)
    rootVars := fun _ => by
      rw [addVar_scope]
      split
      · exact List.prefix_append _ _
      · exact List.prefix_rfl
    rootNew := fun h0 y hy => by
      rw [addVar_scope] at hy
      split at hy
      · rename_i hroot
        rcases List.mem_append.mp hy with hy | hy
        · exact Or.inl hy
        · rw [List.mem_singleton.mp hy, addVar_varsSize, addVar_var, if_pos rfl]
          refine Or.inr ⟨Nat.lt_succ_self _, ?_⟩
          rcases hx with hx | hx
          · exact absurd h0 (Nat.not_lt.mpr (hroot.1 ▸ hx))
          · exact hx.2
      · exact Or.inl hy
    rootHoisted := fun _ => by
      rw [addVar_scope]
      split <;> rfl
    varsSize := by rw [addVar_varsSize]; omega
    extended := fun v hv => by
      rw [addVar_var, if_neg (Nat.ne_of_lt hv)]
      exact .refl _
    unused := fun v hv _ => by rw [addVar_var, if_neg (Nat.ne_of_lt hv)] }

/-- The tree with another use of a variable. -/
def useVar (t : ScopeTree) (v : VarId) (f : Variable → Variable) : ScopeTree :=
  { t with vars := t.vars.modify v f }

theorem useVar_var (t : ScopeTree) (v : VarId) (f : Variable → Variable) (u : Nat) :
    (t.useVar v f).var u = if v = u ∧ u < t.vars.size then f (t.var u) else t.var u :=
  getD_modify t.vars f default v u

theorem useVar_extends (t : ScopeTree) (v : VarId) {f : Variable → Variable}
    (hf : ∀ x : Variable, x.Extends (f x)) (u : Nat) : (t.var u).Extends ((t.useVar v f).var u) := by
  rw [useVar_var]
  split
  · exact hf _
  · exact .refl _

theorem Ok.useVar (hok : t.Ok) (v : VarId) {f : Variable → Variable}
    (hf : ∀ x : Variable, x.Extends (f x)) : (t.useVar v f).Ok :=
  { hok with
    listed := fun s y hy => by
      obtain ⟨hlt, hscope, hname⟩ := hok.listed s y hy
      have hext := t.useVar_extends v hf y.2
      refine ⟨?_, hext.scope.trans hscope, hext.name.trans hname⟩
      change y.2 < (t.vars.modify v f).size
      rwa [Array.size_modify]
    placed := fun u hu => by
      have hu : u < t.vars.size := by
        change u < (t.vars.modify v f).size at hu
        rwa [Array.size_modify] at hu
      obtain ⟨hlt, hfn⟩ := hok.placed u hu
      have hext := t.useVar_extends v hf u
      rw [hext.scope, hext.fnScope]
      exact ⟨hlt, hfn⟩
    implicit := fun u hu => by
      have hu : u < t.vars.size := by
        change u < (t.vars.modify v f).size at hu
        rwa [Array.size_modify] at hu
      have hext := t.useVar_extends v hf u
      rw [hext.kind, hext.scope, hext.decl, hext.initial, hext.name]
      exact hok.implicit u hu }

theorem Grows.useVar {v : VarId} {f : Variable → Variable} (hf : ∀ x : Variable, x.Extends (f x))
    (hv : S (t.var v).scope) : Grows n J S t (t.useVar v f) :=
  { refl (n := n) (J := J) (S := S) t with
    rootNew := fun _ _ hx => Or.inl hx
    varsSize := Nat.le_of_eq Array.size_modify.symm
    extended := fun u _ => t.useVar_extends v hf u
    unused := fun u _ hu => by
      rw [useVar_var, if_neg]
      rintro ⟨rfl, -⟩
      exact hu hv }

/-- The tree with another function declaration in force in a scope. -/
def addHoisted (t : ScopeTree) (scope : ScopeId) (x : VarId × NodeId) : ScopeTree :=
  { t with scopes := t.scopes.modify scope fun s => { s with hoisted := s.hoisted ++ [x] } }

theorem addHoisted_scope (t : ScopeTree) (scope : ScopeId) (x : VarId × NodeId) (s : Nat) :
    (t.addHoisted scope x).scope s = if scope = s ∧ s < t.scopes.size then
      { t.scope s with hoisted := (t.scope s).hoisted ++ [x] } else t.scope s :=
  getD_modify t.scopes _ default scope s

theorem addHoisted_size (t : ScopeTree) (scope : ScopeId) (x : VarId × NodeId) :
    (t.addHoisted scope x).scopes.size = t.scopes.size :=
  Array.size_modify

theorem Ok.addHoisted (hok : t.Ok) (scope : ScopeId) (x : VarId × NodeId) :
    (t.addHoisted scope x).Ok := by
  have hscope (s : Nat) : ((t.addHoisted scope x).scope s).vars = (t.scope s).vars ∧
      ((t.addHoisted scope x).scope s).parent = (t.scope s).parent ∧
      ((t.addHoisted scope x).scope s).fnScope = (t.scope s).fnScope := by
    rw [addHoisted_scope]
    split <;> exact ⟨rfl, rfl, rfl⟩
  have hsize := t.addHoisted_size scope x
  exact {
    nonempty := by rw [hsize]; exact hok.nonempty
    rootScope := (hscope _).2.2.trans hok.rootScope
    parents := fun s p hp => hok.parents s p ((hscope s).2.1.symm.trans hp)
    rooted := fun s hs hroot => by
      rw [(hscope s).2.1]
      exact hok.rooted s (by omega) hroot
    listed := fun s y hy => hok.listed s y (by rwa [← (hscope s).1])
    distinct := fun s => by
      rw [(hscope s).1]
      exact hok.distinct s
    placed := fun v hv => by
      obtain ⟨hlt, hfn⟩ := hok.placed v hv
      exact ⟨by rw [hsize]; exact hlt, hfn.trans (hscope _).2.2.symm⟩
    implicit := hok.implicit
    entered := hok.entered }

theorem Grows.addHoisted {scope : ScopeId} (x : VarId × NodeId) (hscope : n ≤ scope) :
    Grows n J S t (t.addHoisted scope x) :=
  { refl (n := n) (J := J) (S := S) t with
    size := (addHoisted_size t scope x).ge
    opened := fun s _ hs hs' => absurd hs' (by rw [addHoisted_size]; omega)
    parent := fun s _ => by
      rw [addHoisted_scope]
      split <;> rfl
    fnScope := fun s _ => by
      rw [addHoisted_scope]
      split <;> rfl
    finished := fun s hs _ => by
      rw [addHoisted_scope, if_neg]
      rintro ⟨rfl, -⟩
      exact absurd hs (Nat.not_lt.mpr hscope)
    rootVars := fun _ => by
      rw [addHoisted_scope]
      split <;> exact List.prefix_rfl
    rootNew := fun _ x hx => by
      rw [addHoisted_scope] at hx
      split at hx <;> exact Or.inl hx
    rootHoisted := fun h0 => by
      rw [addHoisted_scope, if_neg]
      rintro ⟨rfl, -⟩
      exact absurd h0 (Nat.not_lt.mpr hscope) }

end

end ScopeTree

end EsOptimizer
