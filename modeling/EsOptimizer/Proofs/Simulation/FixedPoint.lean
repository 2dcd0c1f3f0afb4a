import EsOptimizer.Proofs.Simulation.Program

/-!
# Facts that stay the same

A run of the analysis reads what other bodies store from the facts of the run before. When a run
finds the facts that it was given, whatever it stores was known to it from the start. In particular
it knows the values of the global constants.
-/

namespace EsOptimizer

/-! ## Facts that are equal -/

theorem forall₂_of_beq {α : Type} [BEq α] {xs ys : List α} (h : (xs == ys) = true) :
    List.Forall₂ (fun x y => (x == y) = true) xs ys := by
  induction xs generalizing ys with
  | nil =>
    cases ys with
    | nil => exact .nil
    | cons y ys => cases h
  | cons x rest ih =>
    cases ys with
    | nil => cases h
    | cons y ys =>
      rw [List.cons_beq_cons, Bool.and_eq_true] at h
      exact .cons h.1 (ih h.2)

theorem List.Forall₂.exists_right {α β : Type} {R : α → β → Prop} {as : List α} {bs : List β}
    (h : List.Forall₂ R as bs) {a : α} (ha : a ∈ as) : ∃ b ∈ bs, R a b := by
  induction h with
  | nil => cases ha
  | cons hab _ ih =>
    rcases List.mem_cons.mp ha with rfl | ha
    · exact ⟨_, List.mem_cons_self, hab⟩
    · obtain ⟨b, hb, hR⟩ := ih ha
      exact ⟨b, List.mem_cons_of_mem _ hb, hR⟩

theorem List.Forall₂.exists_left {α β : Type} {R : α → β → Prop} {as : List α} {bs : List β}
    (h : List.Forall₂ R as bs) {b : β} (hb : b ∈ bs) : ∃ a ∈ as, R a b :=
  List.Forall₂.exists_right h.flip hb

section

variable {κ α : Type} [Ord κ] [Std.TransOrd κ] [Std.LawfulEqOrd κ] [BEq κ] [LawfulBEq κ] [BEq α]
  {m m' : Std.TreeMap κ α} {key : κ}

/-- Maps with equal entries have equal values. -/
theorem getElem?_of_beq (h : (m.toList == m'.toList) = true) {x : α} (hx : m[key]? = some x) :
    ∃ y, m'[key]? = some y ∧ (x == y) = true := by
  obtain ⟨⟨key', y⟩, hy, heq⟩ := List.Forall₂.exists_right (forall₂_of_beq h)
    (Std.TreeMap.mem_toList_iff_getElem?_eq_some.mpr hx)
  obtain ⟨hkey, hxy⟩ := (Bool.and_eq_true _ _).mp heq
  cases eq_of_beq hkey
  exact ⟨y, Std.TreeMap.mem_toList_iff_getElem?_eq_some.mp hy, hxy⟩

theorem getElem?_of_beq_right (h : (m.toList == m'.toList) = true) {y : α}
    (hy : m'[key]? = some y) : ∃ x, m[key]? = some x ∧ (x == y) = true := by
  obtain ⟨⟨key', x⟩, hx, heq⟩ := List.Forall₂.exists_left (forall₂_of_beq h)
    (Std.TreeMap.mem_toList_iff_getElem?_eq_some.mpr hy)
  obtain ⟨hkey, hxy⟩ := (Bool.and_eq_true _ _).mp heq
  cases eq_of_beq hkey
  exact ⟨x, Std.TreeMap.mem_toList_iff_getElem?_eq_some.mp hx, hxy⟩

end

namespace Facts

/-- Facts are equal if their parts are. -/
theorem parts_of_beq {a b : Facts} (h : (a == b) = true) :
    (a.params.toList == b.params.toList) = true ∧
      (a.possible.toList == b.possible.toList) = true ∧
      (a.summaries.toList == b.summaries.toList) = true := by
  change (a.params.toList == b.params.toList && a.possible.toList == b.possible.toList &&
    a.summaries.toList == b.summaries.toList && a.escaped.same b.escaped) = true at h
  simp only [Bool.and_eq_true] at h
  exact ⟨h.1.1.1, h.1.1.2, h.1.2⟩

end Facts

/-- Facts that a run finds again have equal parts. -/
theorem Context.parts_of_fixed {cx : Context} {p : Program} {known : Facts}
    (h : ((cx.analysis p).facts == known) = true) :
    ((publishedParams cx.options cx.scopes (cx.result p).calls).toList == known.params.toList) = true ∧
      ((cx.result p).possible.toList == known.possible.toList) = true ∧
      ((cx.result p).summaries.toList == known.summaries.toList) = true := by
  have hparts := Facts.parts_of_beq h
  rw [analysis_facts] at hparts
  exact hparts

/-! ## Values from the start -/

/-- A value is among those stored under a key. -/
def Progress.Stores (p : Progress) (key : VarKey) (value : Value) : Prop :=
  ∃ x, p.possible[key]? = some x ∧ value.Below x

theorem Progress.Stores.grow {p q : Progress} {key : VarKey} {value : Value}
    (h : p.Stores key value) (hgrow : GrowsBy Value.Below p.possible q.possible) :
    q.Stores key value := by
  obtain ⟨x, hx, hbelow⟩ := h
  obtain ⟨y, hy, hxy⟩ := hgrow _ _ hx
  exact ⟨y, hy, hbelow.trans hxy⟩

section

variable {cx : Context}

/-- Writing a variable stores the value under its key. -/
theorem possible_writeVar (v : VarId) (value : Value) (p : Progress) :
    (Track.writeVar v value cx p).2.possible = p.possible.insert (cx.scopes.var v).key
      (match p.possible[(cx.scopes.var v).key]? with
        | none => value
        | some old => old.or value) := by
  set q := (Track.addPossible (cx.scopes.var v).key value cx p).2
  change ((if (Track.isForeign (cx.scopes.var v) cx q).1 then Track.noteEffect
    else Track.modifyState (·.setValue v value) : Track Unit) cx q).2.possible = _
  split <;> rfl

theorem stores_writeVar (v : VarId) (value : Value) (p : Progress) :
    (Track.writeVar v value cx p).2.Stores (cx.scopes.var v).key value := by
  rw [Progress.Stores, possible_writeVar]
  refine ⟨_, Std.TreeMap.getElem?_insert_self, ?_⟩
  cases p.possible[(cx.scopes.var v).key]? with
  | none => exact Value.Below.refl _
  | some old => exact Value.below_or_right _ _

/-- Steps for items of a list come to what one of them comes to, if the others keep it. -/
theorem Track.forIn_establishes {α : Type} {I : Progress → Prop} {items : List α}
    {f : α → PUnit → Track (ForInStep PUnit)} (hgoes : ∀ a p, (f a ⟨⟩ cx p).1 = .yield ⟨⟩)
    (hkeeps : ∀ a ∈ items, ∀ p, I p → I (f a ⟨⟩ cx p).2) {a : α} (ha : a ∈ items)
    (hdoes : ∀ p, I (f a ⟨⟩ cx p).2) (p : Progress) : I (ForIn.forIn items ⟨⟩ f cx p).2 := by
  induction items generalizing p with
  | nil => cases ha
  | cons b rest ih =>
    rw [List.forIn_cons, bind_apply, hgoes b p]
    rcases List.mem_cons.mp ha with rfl | ha
    · exact forIn_keeps (fun b hb _ p => hkeeps b (List.mem_cons_of_mem _ hb) p) _ (hdoes p)
    · exact ih (fun b hb => hkeeps b (List.mem_cons_of_mem _ hb)) ha _

/-- Entering a scope comes to what allocating one of its functions comes to, if the other functions
keep it. -/
theorem Track.enterScope_establishes {I : Progress → Prop} {s : ScopeId} {x : VarId × NodeId}
    (hkeeps : ∀ y ∈ (cx.scopes.scope s).hoisted, ∀ q, I q →
      I (writeVar y.1 (.ofReference (.function y.2)) cx (allocateFunction y.2 cx q).2).2)
    (hx : x ∈ (cx.scopes.scope s).hoisted)
    (hdoes : ∀ q, I (writeVar x.1 (.ofReference (.function x.2)) cx (allocateFunction x.2 cx q).2).2)
    (p : Progress) : I (enterScope s cx p).2 := by
  rw [enterScope_apply, bind_apply]
  refine forIn_establishes (fun _ _ => rfl) (fun y hy q hq => ?_) hx (fun q => ?_) _
  · obtain ⟨v, f⟩ := y
    dsimp only
    rw [bind_apply, bind_apply, allocateFunction_result]
    exact hkeeps _ hy q hq
  · obtain ⟨v, f⟩ := x
    dsimp only
    rw [bind_apply, bind_apply, allocateFunction_result]
    exact hdoes q

/-- A variable that has a value from the start has it when its scope is entered. -/
theorem stores_enterScope {s : ScopeId} {name : String} {v : VarId} {value : Value}
    (hv : (name, v) ∈ (cx.scopes.scope s).vars) (hvalue : cx.scopes.initialValue v = some value)
    (p : Progress) : (Track.enterScope s cx p).2.Stores (cx.scopes.var v).key value := by
  set I : Progress → Prop := (Progress.Stores · (cx.scopes.var v).key value)
  have hmoves {x : Track (ForInStep PUnit)} (h : Track.Moves cx .all x) (q : Progress) (hq : I q) :
      I (x cx q).2 := hq.grow (h q).possible
  rw [Track.enterScope_apply, Track.bind_apply]
  refine Track.forIn_keeps (I := I) (fun x _ _ => hmoves ?_) _
    (Track.forIn_establishes (fun x q => ?_) (fun x _ => hmoves ?_) hv (fun q => ?_) p)
  · exact (Track.moves_allocateFunction x.2).bind fun _ =>
      (Track.moves_writeVar (b := .all) trivial _).bind fun _ => .pure _
  · dsimp only
    cases cx.scopes.initialValue x.2 <;> rfl
  · dsimp only
    split
    · exact (Track.moves_writeVar trivial _).bind fun _ => .pure _
    · exact .pure _
  · dsimp only
    rw [hvalue]
    exact stores_writeVar v value q

/-- So has the variable of a function that is in force there. -/
theorem stores_hoisted {s : ScopeId} {x : VarId × NodeId} (hx : x ∈ (cx.scopes.scope s).hoisted)
    (p : Progress) : (Track.enterScope s cx p).2.Stores (cx.scopes.var x.1).key
      (.ofReference (.function x.2)) := by
  refine Track.enterScope_establishes
    (I := (Progress.Stores · (cx.scopes.var x.1).key (.ofReference (.function x.2))))
    (fun y _ q hq => hq.grow ?_) hx (fun q => stores_writeVar ..) p
  have hmoves : Advances cx.scopes .all q
      (Track.writeVar y.1 (.ofReference (.function y.2)) cx (Track.allocateFunction y.2 cx q).2).2 :=
    (Track.moves_allocateFunction y.2 q).trans (Track.moves_writeVar trivial _ _)
  exact hmoves.possible

/-- A run keeps what is stored on entry to the outermost scope. -/
theorem stores_onAll_of_enterScope (cx : Context) (program : Program) {key : VarKey} {value : Value}
    {p : Progress} (h : (Track.enterScope ScopeTree.root cx (p.atBody ScopeTree.root)).2.Stores
      key value) : (Track.onAll program cx p).2.Stores key value := by
  have hbody : (Track.onProgram program cx p).2.Stores key value := by
    rw [Track.onProgram_apply]
    exact h.grow (Track.moves_onStmts program.body (allAllowed_all cx.scopes _) _).possible
  rw [Track.onAll_apply]
  exact hbody.grow (gathers_functions program.functions _).possible

/-- A run stores what the global variables hold from the start. -/
theorem stores_onAll (cx : Context) (program : Program) {name : String} {v : VarId} {value : Value}
    (hv : (name, v) ∈ (cx.scopes.scope ScopeTree.root).vars)
    (hvalue : cx.scopes.initialValue v = some value) (p : Progress) :
    (Track.onAll program cx p).2.Stores (cx.scopes.var v).key value :=
  stores_onAll_of_enterScope cx program (stores_enterScope hv hvalue _)

/-- So it does with the functions that are declared outside of others. -/
theorem stores_onAll_hoisted (cx : Context) (program : Program) {x : VarId × NodeId}
    (hx : x ∈ (cx.scopes.scope ScopeTree.root).hoisted) (p : Progress) :
    (Track.onAll program cx p).2.Stores (cx.scopes.var x.1).key (.ofReference (.function x.2)) :=
  stores_onAll_of_enterScope cx program (stores_hoisted hx _)

/-- At a fixed point, the values of global constants are known. -/
theorem knows_of_fixed {p : Program} {options : Options} {prev : Facts} {watch : Bool}
    (hfixed : ((analyze p options prev watch).facts == prev) = true) {constants : List String}
    (hconstants : ∀ c ∈ constants, ∃ x, globalConstant? c = some x ∧
      Host.global? c = some (.ofPrimitive x)) :
    Context.Knows { options, scopes := ScopeTree.ofProgram p, prev, watch } constants := by
  intro i v hi hconstant
  obtain ⟨x, hx, hglobal⟩ := hconstants i.name hi
  refine ⟨x, hx, ?_⟩
  rw [analyze_eq] at hfixed
  set cx : Context := { options, scopes := ScopeTree.ofProgram p, prev, watch }
  obtain ⟨y, hy, hbelow⟩ : (cx.result p).Stores (cx.scopes.var v).key (.ofPrimitive x) :=
    stores_onAll cx p hconstant.listed (hconstant.initial.trans hglobal) _
  obtain ⟨z, hz, hsame⟩ := getElem?_of_beq (Context.parts_of_fixed hfixed).2.1 hy
  rw [hconstant.key] at hz
  rw [Std.TreeMap.getD_eq_getD_getElem?, hz]
  exact (Value.holds_iff_of_beq hsame _).mp (hbelow _ (Value.holds_ofPrimitive x))

end

end EsOptimizer
