import EsOptimizer.Proofs.Pass.Legal
import EsOptimizer.Proofs.Run.Activation

/-!
# Arguments are passed at once

A tail call gives all parameters their next values at once, and the statements that take its place
assign them one after the other. Still the parameters end with the values that the call would have
passed (`jump_passes`), whatever the arguments do to each other: one that is overwritten early is not
needed by any argument behind it, and one that is needed waits in a new variable of its own, different
from all others (`introduced_passArgs`).

That holds for any way to evaluate expressions in which an argument depends on nothing but the variables
that occur in it and the world around, changes nothing else, and may fail. What it takes is that each
parameter is still called by its name where the call stands (`Semantics.Fits`): the assignments go by
name, and a block around the call may declare a variable of the same name.
-/

namespace EsOptimizer

namespace TailCalls

variable {World Value Fault : Type}

/-- Where the call stands, the parameters are different variables and called by their names, and names
that are not taken mean nothing. To read a parameter or a new variable has no effect. -/
structure Semantics.Fits (M : Semantics World Value Fault) (scopes : ScopeTree)
    (params : List (String × VarId)) (taken : List String) : Prop where
  distinct : (params.map Prod.snd).Nodup
  byName : ∀ p ∈ params, M.named p.1 = some p.2
  unused : ∀ name, name ∉ taken → M.named name = none
  reads : ∀ i c, (∀ v, M.slot scopes i = .known v → v ∈ params.map Prod.snd) →
    M.eval (.ident i) c = (.ok (c.vars (M.slot scopes i)), c)
  void : ∀ id id' c, M.eval (.unary id .void (.number id' .zero)) c = (.ok M.undefined, c)

/-! ## The statements -/

/-- `name = value;`, with ids from `n` on. -/
def assignment (n : NodeId) (name : String) (value : Expr) : Stmt :=
  .expr (n + 2) (.assign (n + 1) .assign (.ident ⟨n, name⟩) value)

/-- `var name = value;`, with ids from `n` on. -/
def holding (n : NodeId) (name : String) (value : Expr) : Stmt :=
  .var ⟨n, .var, [⟨n + 1, ⟨n + 2, name⟩, some value⟩]⟩

/-- `void 0`, with ids from `n` on. -/
def voidZero (n : NodeId) : Expr := .unary (n + 1) .void (.number n .zero)

theorem passArgs_nil_cons {scopes : ScopeTree} {name : String} {v : VarId}
    {params : List (String × VarId)} (s : EditState) :
    passArgs scopes ((name, v) :: params) [] s =
      let r := passArgs scopes params [] { s with nextId := s.nextId + 5 }
      (([], assignment (s.nextId + 2) name (voidZero s.nextId) :: r.1.2), r.2) := by
  rw [passArgs, passArgs, List.mapM_cons]
  rfl

theorem passArgs_held {scopes : ScopeTree} {name : String} {v : VarId}
    {params : List (String × VarId)} {arg : Expr} {args : List Expr}
    (h : args.any (mentions scopes v) = true) (s : EditState) :
    passArgs scopes ((name, v) :: params) (arg :: args) s =
      let temp := Edit.freeName (name ++ "_") s.taken
      let r := passArgs scopes params args
        { s with nextId := s.nextId + 3, taken := temp :: s.taken }
      ((holding s.nextId temp arg :: r.1.1,
        assignment (r.2.nextId + 1) name (.ident ⟨r.2.nextId, temp⟩) :: r.1.2),
        { r.2 with nextId := r.2.nextId + 4 }) := by
  rw [passArgs, if_pos h]
  rfl

theorem passArgs_kept {scopes : ScopeTree} {name : String} {v : VarId}
    {params : List (String × VarId)} {arg : Expr} {args : List Expr}
    (h : ¬args.any (mentions scopes v) = true) (hread : isRead scopes v arg = true) (s : EditState) :
    passArgs scopes ((name, v) :: params) (arg :: args) s = passArgs scopes params args s := by
  rw [passArgs, if_neg h, if_pos hread]

theorem passArgs_stored {scopes : ScopeTree} {name : String} {v : VarId}
    {params : List (String × VarId)} {arg : Expr} {args : List Expr}
    (h : ¬args.any (mentions scopes v) = true) (hread : ¬isRead scopes v arg = true)
    (s : EditState) :
    passArgs scopes ((name, v) :: params) (arg :: args) s =
      let r := passArgs scopes params args { s with nextId := s.nextId + 3 }
      ((assignment s.nextId name arg :: r.1.1, r.1.2), r.2) := by
  rw [passArgs, if_neg h, if_neg hread]
  rfl

/-! ## Running them -/

section

variable {M : Semantics World Value Fault} {scopes : ScopeTree} {t : Target}
variable {c d : Config World Value} {e : Expr} {args : List Expr}

theorem Semantics.Confined.keeps_fresh (h : M.Confined scopes e) (c : Config World Value)
    (name : String) : (M.eval e c).2.vars (.fresh name) = c.vars (.fresh name) :=
  h.keeps c _ nofun

theorem Semantics.Confined.keeps_known (h : M.Confined scopes e) (c : Config World Value) {v : VarId}
    (hv : mentions scopes v e = false) : (M.eval e c).2.vars (.known v) = c.vars (.known v) :=
  h.keeps c _ fun _ hw => by
    cases hw
    exact hv

theorem Semantics.evalAll_keeps {v : VarId} (hconfined : ∀ e ∈ args, M.Confined scopes e)
    (hv : ∀ e ∈ args, mentions scopes v e = false) (c : Config World Value) :
    (M.evalAll args c).2.vars (.known v) = c.vars (.known v) := by
  induction args generalizing c with
  | nil => rfl
  | cons e rest ih =>
    obtain ⟨he, hrest⟩ := List.forall_mem_cons.mp hconfined
    obtain ⟨hve, hvrest⟩ := List.forall_mem_cons.mp hv
    have hfirst := he.keeps_known c hve
    rw [evalAll]
    split
    · rename_i hfail
      rwa [hfail] at hfirst
    · rename_i c' hvalue
      rw [hvalue] at hfirst
      exact (ih hrest hvrest c').trans hfirst

variable {params : List (String × VarId)} {taken : List String} {n : NodeId}
variable {name : String} {v : VarId}

/-- Nodes from `n` on are new to the scopes. -/
def AreNew (scopes : ScopeTree) (n : NodeId) : Prop := ∀ id, n ≤ id → scopes.varOf id = none

theorem AreNew.mono {m : NodeId} (h : AreNew scopes n) (hle : n ≤ m) : AreNew scopes m :=
  fun id hid => h id (Nat.le_trans hle hid)

/-- The names in use and the nodes of the scopes are not handed out any more. -/
structure Reserves (scopes : ScopeTree) (taken : List String) (s : EditState) : Prop where
  names : taken ⊆ s.taken
  ids : AreNew scopes s.nextId

theorem Reserves.advance {s s' : EditState} (h : Reserves scopes taken s)
    (hids : s.nextId ≤ s'.nextId) (hnames : s.taken ⊆ s'.taken) : Reserves scopes taken s' :=
  ⟨List.Subset.trans h.names hnames, h.ids.mono hids⟩

namespace Semantics.Fits

theorem slot_param (h : M.Fits scopes params taken) (hmem : (name, v) ∈ params)
    (hnew : scopes.varOf n = none) : M.slot scopes ⟨n, name⟩ = .known v := by
  simp only [slot, slotOf, hnew, h.byName _ hmem]

theorem slot_unused (h : M.Fits scopes params taken) (hname : name ∉ taken)
    (hnew : scopes.varOf n = none) : M.slot scopes ⟨n, name⟩ = .fresh name := by
  simp only [slot, slotOf, hnew, h.unused name hname]

theorem exec_assignment (h : M.Fits scopes params taken) (hmem : (name, v) ∈ params)
    (hnew : AreNew scopes n) (e : Expr) (rest : List Stmt) (c : Config World Value) :
    M.execAll scopes t (assignment n name e :: rest) c =
      withValue (M.eval e c) fun value c => M.execAll scopes t rest (c.set (.known v) value) := by
  change andThen (M.store scopes ⟨n, name⟩ e c) _ = _
  rw [store, h.slot_param hmem (hnew n (Nat.le_refl n)), andThen_withValue]
  rfl

theorem exec_holding (h : M.Fits scopes params taken) (hname : name ∉ taken)
    (hnew : AreNew scopes n) (e : Expr) (rest : List Stmt) (c : Config World Value) :
    M.execAll scopes t (holding n name e :: rest) c =
      withValue (M.eval e c) fun value c => M.execAll scopes t rest (c.set (.fresh name) value) := by
  change andThen (andThen (M.store scopes ⟨n + 2, name⟩ e c) _) _ = _
  rw [store, h.slot_unused hname (hnew (n + 2) (Nat.le_add_right n 2)), andThen_assoc,
    andThen_withValue]
  rfl

end Semantics.Fits

end

/-! ## Passing the arguments -/

section

variable {M : Semantics World Value Fault} {scopes : ScopeTree} {t : Target}
variable {c d : Config World Value}
variable {all params : List (String × VarId)} {taken : List String} {early : List VarId}
variable {args : List Expr}

/-- What is left to do behind the arguments gives all parameters their values, whatever was done to
other variables of the program meanwhile. -/
def Semantics.Finishes (M : Semantics World Value Fault) (scopes : ScopeTree) (t : Target)
    (last : List Stmt) (vars : List VarId) (values : List Value) (c : Config World Value) : Prop :=
  ∀ d : Config World Value, (∀ v ∈ vars, d.vars (.known v) = c.vars (.known v)) →
    (∀ name, d.vars (.fresh name) = c.vars (.fresh name)) →
    ∃ d', M.execAll scopes t last d = (.done, d') ∧ d'.Agree vars d ∧
      List.Forall₂ (fun v value => d'.vars (.known v) = value) vars values

/-- The statements pass the arguments of a call from a configuration on, if evaluating them gives
this result; variables in `early` have their values already. -/
def Semantics.Passes (M : Semantics World Value Fault) (scopes : ScopeTree) (t : Target)
    (early vars : List VarId) (taken : List String) (stmts : List Stmt × List Stmt)
    (c : Config World Value) :
    Except Fault (List Value) × Config World Value → Prop
  | (.error fault, d) =>
    ∃ c', M.execAll scopes t stmts.1 c = (.fails fault, c') ∧ c'.Agree (early ++ vars) d
  | (.ok values, d) =>
    ∃ c', M.execAll scopes t stmts.1 c = (.done, c') ∧ c'.Agree (early ++ vars) d ∧
      (∀ v ∈ early, c'.vars (.known v) = c.vars (.known v)) ∧
      (∀ name ∈ taken, c'.vars (.fresh name) = c.vars (.fresh name)) ∧
      M.Finishes scopes t stmts.2 vars (M.filled vars.length values) c'

namespace Semantics.Finishes

variable {last : List Stmt} {vars : List VarId} {values : List Value} {value : Value} {v : VarId}

/-- A parameter that has its value already. -/
theorem keep (h : M.Finishes scopes t last vars values c) (hv : v ∉ vars) :
    M.Finishes scopes t last (v :: vars) (c.vars (.known v) :: values) c := by
  intro d hvars hfresh
  obtain ⟨hd, hvars⟩ := List.forall_mem_cons.mp hvars
  obtain ⟨d', hrun, hagree, hvalues⟩ := h d hvars hfresh
  exact ⟨d', hrun, hagree.mono (List.subset_cons_self _ _),
    .cons ((hagree.known v hv).trans hd) hvalues⟩

/-- A parameter that is assigned what does not depend on variables of the program. -/
theorem assign {name : String} {n : NodeId} {e : Expr} (h : M.Finishes scopes t last vars values c)
    (hfits : M.Fits scopes all taken) (hmem : (name, v) ∈ all) (hnew : AreNew scopes n)
    (hv : v ∉ vars)
    (heval : ∀ d : Config World Value, (∀ name, d.vars (.fresh name) = c.vars (.fresh name)) →
      M.eval e d = (.ok value, d)) :
    M.Finishes scopes t (assignment n name e :: last) (v :: vars) (value :: values) c := by
  intro d hvars hfresh
  rw [hfits.exec_assignment hmem hnew, heval d hfresh, withValue_ok]
  have hother {w : VarId} (hw : w ≠ v) :
      (d.set (.known v) value).vars (.known w) = d.vars (.known w) := by
    rw [Config.set_vars, if_neg fun heq => hw (Slot.known.inj heq)]
  obtain ⟨d', hrun, hagree, hvalues⟩ := h (d.set (.known v) value)
    (fun w hw => (hother fun heq => hv (heq ▸ hw)).trans (hvars w (List.mem_cons_of_mem _ hw)))
    fun name => by rw [Config.set_vars, if_neg nofun, hfresh]
  refine ⟨d', hrun, ⟨hagree.world, fun w hw => ?_⟩, .cons ?_ hvalues⟩
  · have hrest := hagree.known w (List.not_mem_of_not_mem_cons hw)
    exact hrest.trans (hother (List.ne_of_not_mem_cons hw))
  · rw [hagree.known v hv, Config.set_vars, if_pos rfl]

end Semantics.Finishes

/-- Parameters without an argument become `undefined`. -/
theorem finishes_missing (hfits : M.Fits scopes all taken) (hparams : params ⊆ all)
    (hdistinct : (params.map Prod.snd).Nodup) (s : EditState) (hnew : AreNew scopes s.nextId)
    (c : Config World Value) :
    (passArgs scopes params [] s).1.1 = [] ∧
      M.Finishes scopes t (passArgs scopes params [] s).1.2 (params.map Prod.snd)
        (List.replicate params.length M.undefined) c := by
  induction params generalizing s with
  | nil => exact ⟨rfl, fun d _ _ => ⟨d, rfl, ⟨rfl, fun _ _ => rfl⟩, .nil⟩⟩
  | cons param params ih =>
    obtain ⟨name, v⟩ := param
    obtain ⟨hmem, hrest⟩ := List.cons_subset.mp hparams
    obtain ⟨hv, hdistinct⟩ := List.nodup_cons.mp hdistinct
    rw [passArgs_nil_cons]
    obtain ⟨-, hlater⟩ := ih hrest hdistinct { s with nextId := s.nextId + 5 }
      (hnew.mono (Nat.le_add_right _ 5))
    exact ⟨rfl, hlater.assign hfits hmem (hnew.mono (Nat.le_add_right _ 2)) hv
      fun d _ => hfits.void _ _ d⟩

theorem Semantics.filled_cons (count : Nat) (value : Value) (values : List Value) :
    M.filled (count + 1) (value :: values) = value :: M.filled count values := by
  rw [filled, filled, List.length_cons, Nat.add_sub_add_right]
  rfl

theorem reserves_passArgs {s : EditState} (h : Reserves scopes taken s) :
    Reserves scopes taken (passArgs scopes params args s).2 := by
  induction args generalizing params s with
  | nil =>
    induction params generalizing s with
    | nil => exact h
    | cons param params ih =>
      rw [passArgs_nil_cons]
      exact ih (h.advance (Nat.le_add_right _ 5) (List.Subset.refl _))
  | cons arg args ih =>
    match params with
    | [] => exact h
    | (name, v) :: params =>
      by_cases hheld : args.any (mentions scopes v) = true
      · rw [passArgs_held hheld]
        refine Reserves.advance (ih (h.advance ?_ ?_)) (Nat.le_add_right _ 4) (List.Subset.refl _)
        · exact Nat.le_add_right _ 3
        · exact List.subset_cons_self _ _
      · by_cases hread : isRead scopes v arg = true
        · rw [passArgs_kept hheld hread]
          exact ih h
        · rw [passArgs_stored hheld hread]
          exact ih (h.advance (Nat.le_add_right _ 3) (List.Subset.refl _))

/-- To read a parameter has no effect. -/
theorem Semantics.Fits.eval_isRead {name : String} {v : VarId} {e : Expr}
    (h : M.Fits scopes all taken) (hmem : (name, v) ∈ all) (hread : isRead scopes v e = true)
    (c : Config World Value) : M.eval e c = (.ok (c.vars (.known v)), c) := by
  cases e with
  | ident i =>
    have hvar : scopes.varOf i.id = some v := by simpa [isRead] using hread
    have hslot : M.slot scopes i = .known v := slotOf_of_varOf hvar
    rw [h.reads i c, hslot]
    intro w hw
    cases hslot.symm.trans hw
    exact List.mem_map_of_mem hmem
  | _ => cases hread

/-- One more argument, in front of those that are passed. -/
theorem Semantics.Passes.cons {early' vars : List VarId} {names names' : List String} {v : VarId}
    {value : Value} {first last first' last' : List Stmt}
    {result : Except Fault (List Value) × Config World Value}
    (h : M.Passes scopes t early' vars names' (first, last) d result)
    (hrun : M.execAll scopes t first' c = M.execAll scopes t first d)
    (hsub : early ⊆ early') (hsub' : early' ⊆ v :: early) (hnames : names ⊆ names')
    (hearly : ∀ w ∈ early, d.vars (.known w) = c.vars (.known w))
    (hfresh : ∀ name ∈ names, d.vars (.fresh name) = c.vars (.fresh name))
    (hlast : ∀ c' values, c'.Agree (early' ++ vars) result.2 →
      (∀ w ∈ early', c'.vars (.known w) = d.vars (.known w)) →
      (∀ name ∈ names', c'.vars (.fresh name) = d.vars (.fresh name)) →
      M.Finishes scopes t last vars values c' →
      M.Finishes scopes t last' (v :: vars) (value :: values) c') :
    M.Passes scopes t early (v :: vars) names (first', last') c
      (result.1.map (value :: ·), result.2) := by
  have hwider : early' ++ vars ⊆ early ++ v :: vars := by
    refine List.append_subset.mpr ⟨fun w hw => ?_, fun w hw => by simp [hw]⟩
    rcases List.mem_cons.mp (hsub' hw) with rfl | hw <;> simp [*]
  match result with
  | (.error fault, _) =>
    obtain ⟨c', hfails, hagree⟩ := h
    exact ⟨c', hrun.trans hfails, hagree.mono hwider⟩
  | (.ok values, _) =>
    obtain ⟨c', hdone, hagree, hkept, hsame, hfinishes⟩ := h
    refine ⟨c', hrun.trans hdone, hagree.mono hwider, fun w hw => ?_, fun name hname => ?_, ?_⟩
    · exact (hkept w (hsub hw)).trans (hearly w hw)
    · exact (hsame name (hnames hname)).trans (hfresh name hname)
    · rw [List.length_cons, Semantics.filled_cons]
      exact hlast c' _ hagree hkept hsame hfinishes

theorem Semantics.Passes.fails {arg : Expr} {vars : List VarId} {names : List String}
    {stmts : List Stmt × List Stmt} {fault : Fault} {c' d' : Config World Value}
    (heval : M.eval arg d = (.error fault, d'))
    (hrun : M.execAll scopes t stmts.1 c = (.fails fault, c')) (hagree : c'.Agree early d') :
    M.Passes scopes t early vars names stmts c (M.evalAll (arg :: args) d) := by
  rw [Semantics.evalAll, heval]
  exact ⟨c', hrun, hagree.mono (List.subset_append_left _ _)⟩

/-- The rest of the arguments is about to be passed to the rest of the parameters: those in `early`
have their values, and in nothing else is the state of the statements (`c`) not that of the call (`d`). -/
structure Semantics.Ready (M : Semantics World Value Fault) (scopes : ScopeTree)
    (all : List (String × VarId)) (taken : List String) (early : List VarId)
    (params : List (String × VarId)) (args : List Expr) (s : EditState)
    (c d : Config World Value) : Prop where
  fits : M.Fits scopes all taken
  among : params ⊆ all
  distinct : (params.map Prod.snd).Nodup
  apart : ∀ v ∈ params.map Prod.snd, v ∉ early
  confined : ∀ e ∈ args, M.Confined scopes e
  length : args.length ≤ params.length
  unread : ∀ e ∈ args, ∀ v ∈ early, mentions scopes v e = false
  reserves : Reserves scopes taken s
  agree : c.Agree early d

/-- From there on, the arguments are passed. -/
def Semantics.AllPass (M : Semantics World Value Fault) (scopes : ScopeTree) (t : Target)
    (all : List (String × VarId)) (taken : List String) (params : List (String × VarId))
    (args : List Expr) : Prop :=
  ∀ {early s c d}, M.Ready scopes all taken early params args s c d →
    M.Passes scopes t early (params.map Prod.snd) s.taken (passArgs scopes params args s).1 c
      (M.evalAll args d)

namespace Semantics.Ready

variable {name : String} {v : VarId} {arg : Expr} {s s' : EditState} {c' d' : Config World Value}

/-- The next parameter may get its value later. -/
theorem later (h : M.Ready scopes all taken early ((name, v) :: params) (arg :: args) s c d)
    (hreserves : Reserves scopes taken s') (hagree : c'.Agree early d') :
    M.Ready scopes all taken early params args s' c' d' where
  fits := h.fits
  among := (List.cons_subset.mp h.among).2
  distinct := (List.nodup_cons.mp h.distinct).2
  apart := (List.forall_mem_cons.mp h.apart).2
  confined := (List.forall_mem_cons.mp h.confined).2
  length := Nat.le_of_succ_le_succ h.length
  unread := (List.forall_mem_cons.mp h.unread).2
  reserves := hreserves
  agree := hagree

/-- The next parameter has its value if no argument behind it reads the parameter. -/
theorem stored (h : M.Ready scopes all taken early ((name, v) :: params) (arg :: args) s c d)
    (hfree : ∀ e ∈ args, mentions scopes v e = false) (hreserves : Reserves scopes taken s')
    (hagree : c'.Agree (v :: early) d') :
    M.Ready scopes all taken (v :: early) params args s' c' d' where
  fits := h.fits
  among := (List.cons_subset.mp h.among).2
  distinct := (List.nodup_cons.mp h.distinct).2
  apart w hw := by
    refine List.not_mem_cons_of_ne_of_not_mem (fun heq => ?_) ((List.forall_mem_cons.mp h.apart).2 w hw)
    rw [heq] at hw
    exact (List.nodup_cons.mp h.distinct).1 hw
  confined := (List.forall_mem_cons.mp h.confined).2
  length := Nat.le_of_succ_le_succ h.length
  unread e he := List.forall_mem_cons.mpr ⟨hfree e he, (List.forall_mem_cons.mp h.unread).2 e he⟩
  reserves := hreserves
  agree := hagree

theorem param_mem (h : M.Ready scopes all taken early ((name, v) :: params) (arg :: args) s c d) :
    (name, v) ∈ all :=
  (List.cons_subset.mp h.among).1

theorem not_mem_params
    (h : M.Ready scopes all taken early ((name, v) :: params) (arg :: args) s c d) :
    v ∉ params.map Prod.snd :=
  (List.nodup_cons.mp h.distinct).1

theorem not_mem_early
    (h : M.Ready scopes all taken early ((name, v) :: params) (arg :: args) s c d) : v ∉ early :=
  h.apart v List.mem_cons_self

/-- The next argument has the value that it has in the call. -/
theorem eval (h : M.Ready scopes all taken early params (arg :: args) s c d) :
    (M.eval arg c).1 = (M.eval arg d).1 ∧ (M.eval arg c).2.Agree early (M.eval arg d).2 :=
  (h.confined arg List.mem_cons_self).agree h.agree (h.unread arg List.mem_cons_self)

theorem eval_keeps (h : M.Ready scopes all taken early params (arg :: args) s c d) :
    (∀ w ∈ early, (M.eval arg c).2.vars (.known w) = c.vars (.known w)) ∧
      ∀ name, (M.eval arg c).2.vars (.fresh name) = c.vars (.fresh name) :=
  have harg := h.confined arg List.mem_cons_self
  ⟨fun w hw => harg.keeps_known c (h.unread arg List.mem_cons_self w hw), harg.keeps_fresh c⟩

/-- Parameters without an argument. -/
theorem passes_missing (h : M.Ready scopes all taken early params [] s c d) :
    M.Passes scopes t early (params.map Prod.snd) s.taken (passArgs scopes params [] s).1 c
      (M.evalAll [] d) := by
  obtain ⟨hfirst, hlast⟩ := finishes_missing h.fits h.among h.distinct s h.reserves.ids c
  refine ⟨c, ?_, h.agree.mono (List.subset_append_left _ _), fun _ _ => rfl, fun _ _ => rfl, ?_⟩
  · rw [hfirst, Semantics.execAll]
  · rwa [Semantics.filled, List.length_map]

/-- A parameter that a later argument reads waits in a new variable. -/
theorem passes_held (h : M.Ready scopes all taken early ((name, v) :: params) (arg :: args) s c d)
    (hrest : M.AllPass scopes t all taken params args)
    (hheld : args.any (mentions scopes v) = true) :
    M.Passes scopes t early (v :: params.map Prod.snd) s.taken
      (passArgs scopes ((name, v) :: params) (arg :: args) s).1 c (M.evalAll (arg :: args) d) := by
  rw [passArgs_held hheld]
  have htemp := Edit.freeName_not_mem (name ++ "_") s.taken
  generalize Edit.freeName (name ++ "_") s.taken = temp at htemp
  have hunused : temp ∉ taken := fun hmem => htemp (h.reserves.names hmem)
  obtain ⟨hresult, hagree⟩ := h.eval
  obtain ⟨hkept, hfresh⟩ := h.eval_keeps
  rcases hd : M.eval arg d with ⟨result, d₁⟩
  rcases hc : M.eval arg c with ⟨outcome, c₁⟩
  rw [hc, hd] at hresult hagree
  cases result with
  | error fault =>
    cases hresult
    exact .fails hd (by rw [h.fits.exec_holding hunused h.reserves.ids, hc, withValue_error]) hagree
  | ok value =>
    rw [hc] at hkept hfresh
    cases hresult
    have hready : M.Ready scopes all taken early params args
        { s with nextId := s.nextId + 3, taken := temp :: s.taken } (c₁.set (.fresh temp) value) d₁ := by
      refine h.later (h.reserves.advance (Nat.le_add_right _ 3) (List.subset_cons_self _ _)) ?_
      exact ⟨hagree.world, fun w hw => by rw [Config.set_vars, if_neg (by simp), hagree.known w hw]⟩
    rw [Semantics.evalAll, hd]
    refine (hrest hready).cons ?_ (fun _ hw => hw) (List.subset_cons_self _ _)
      (List.subset_cons_self _ _) (fun w hw => ?_) (fun other hother => ?_)
      fun c' values _ _ hsame hfinishes => ?_
    · rw [h.fits.exec_holding hunused h.reserves.ids, hc, withValue_ok]
    · rw [Config.set_vars, if_neg (by simp)]
      exact hkept w hw
    · rw [Config.set_vars, if_neg fun heq => htemp (by cases heq; exact hother)]
      exact hfresh other
    · have hwaits := hsame temp List.mem_cons_self
      rw [Config.set_vars, if_pos rfl] at hwaits
      have hlast : AreNew scopes (passArgs scopes params args _).2.nextId :=
        (reserves_passArgs hready.reserves).ids
      refine hfinishes.assign h.fits h.param_mem (hlast.mono (Nat.le_succ _)) h.not_mem_params ?_
      intro d' hd'
      have hslot := h.fits.slot_unused hunused (hlast _ (Nat.le_refl _))
      rw [h.fits.reads _ _ (by simp [hslot]), hslot, hd', hwaits]

/-- A parameter that keeps its value. -/
theorem passes_kept (h : M.Ready scopes all taken early ((name, v) :: params) (arg :: args) s c d)
    (hrest : M.AllPass scopes t all taken params args)
    (hfree : ¬args.any (mentions scopes v) = true) (hread : isRead scopes v arg = true) :
    M.Passes scopes t early (v :: params.map Prod.snd) s.taken
      (passArgs scopes ((name, v) :: params) (arg :: args) s).1 c (M.evalAll (arg :: args) d) := by
  rw [passArgs_kept hfree hread, Semantics.evalAll, h.fits.eval_isRead h.param_mem hread]
  refine (hrest (h.later h.reserves h.agree)).cons rfl (fun _ hw => hw)
    (List.subset_cons_self _ _) (fun _ hn => hn) (fun _ _ => rfl) (fun _ _ => rfl)
    fun c' values hagree _ _ hfinishes => ?_
  have hvalue := hagree.known v (by simp [h.not_mem_params, h.not_mem_early])
  rw [Semantics.evalAll_keeps (List.forall_mem_cons.mp h.confined).2 (by simpa using hfree) d] at hvalue
  exact hvalue ▸ hfinishes.keep h.not_mem_params

/-- A parameter that is assigned at once, because no later argument reads it. -/
theorem passes_stored (h : M.Ready scopes all taken early ((name, v) :: params) (arg :: args) s c d)
    (hrest : M.AllPass scopes t all taken params args)
    (hfree : ¬args.any (mentions scopes v) = true) (hread : ¬isRead scopes v arg = true) :
    M.Passes scopes t early (v :: params.map Prod.snd) s.taken
      (passArgs scopes ((name, v) :: params) (arg :: args) s).1 c (M.evalAll (arg :: args) d) := by
  rw [passArgs_stored hfree hread]
  obtain ⟨hresult, hagree⟩ := h.eval
  obtain ⟨hkept, hfresh⟩ := h.eval_keeps
  rcases hd : M.eval arg d with ⟨result, d₁⟩
  rcases hc : M.eval arg c with ⟨outcome, c₁⟩
  rw [hc, hd] at hresult hagree
  cases result with
  | error fault =>
    cases hresult
    exact .fails hd (by rw [h.fits.exec_assignment h.param_mem h.reserves.ids, hc, withValue_error]) hagree
  | ok value =>
    rw [hc] at hkept hfresh
    cases hresult
    have hother {w : VarId} (hw : w ≠ v) :
        (c₁.set (.known v) value).vars (.known w) = c₁.vars (.known w) := by
      rw [Config.set_vars, if_neg fun heq => hw (Slot.known.inj heq)]
    have hready : M.Ready scopes all taken (v :: early) params args
        { s with nextId := s.nextId + 3 } (c₁.set (.known v) value) d₁ := by
      refine h.stored (by simpa using hfree)
        (h.reserves.advance (Nat.le_add_right _ 3) (List.Subset.refl _)) ⟨hagree.world, ?_⟩
      intro w hw
      exact (hother (List.ne_of_not_mem_cons hw)).trans (hagree.known w (List.not_mem_of_not_mem_cons hw))
    rw [Semantics.evalAll, hd]
    refine (hrest hready).cons ?_ (List.subset_cons_self _ _) (fun _ hw => hw) (fun _ hn => hn)
      (fun w hw => ?_) (fun other _ => ?_) fun c' values _ hsame _ hfinishes => ?_
    · rw [h.fits.exec_assignment h.param_mem h.reserves.ids, hc, withValue_ok]
    · exact (hother fun heq => h.not_mem_early (by rwa [heq] at hw)).trans (hkept w hw)
    · rw [Config.set_vars, if_neg (by simp)]
      exact hfresh other
    · have hvalue := hsame v List.mem_cons_self
      rw [Config.set_vars, if_pos rfl] at hvalue
      exact hvalue ▸ hfinishes.keep h.not_mem_params

end Semantics.Ready

/-- The arguments of a call are passed: they are evaluated in their order, and if none fails, each
parameter ends with its value. -/
theorem passes_passArgs (args : List Expr) (params : List (String × VarId)) :
    M.AllPass scopes t all taken params args := by
  induction args generalizing params with
  | nil => exact Semantics.Ready.passes_missing
  | cons arg args ih =>
    intro early s c d h
    match params, h with
    | [], h => cases h.length
    | (name, v) :: params, h =>
      by_cases hheld : args.any (mentions scopes v) = true
      · exact h.passes_held (ih params) hheld
      · by_cases hread : isRead scopes v arg = true
        · exact h.passes_kept (ih params) hheld hread
        · exact h.passes_stored (ih params) hheld hread

/-- How what takes the place of statements ends, given how these end: a tail call goes on in the loop
with the next values of the parameters, and all else stays as it is, the parameters apart if something
fails. -/
def Semantics.Repeats (M : Semantics World Value Fault) (vars : List VarId) (label : String) :
    (before after : Exit Value Fault × Config World Value) → Prop
  | (.calls values, d), after =>
    ∃ c', after = (.continues label, c') ∧ c'.Agree vars d ∧
      List.Forall₂ (fun v value => c'.vars (.known v) = value) vars (M.filled vars.length values)
  | (.fails fault, d), after => ∃ c', after = (.fails fault, c') ∧ c'.Agree vars d
  | before, after => after = before

/-- What takes the place of a tail call evaluates the arguments in their order and goes on in the loop
with the parameters that the call would have passed. -/
theorem jump_passes (hfits : M.Fits scopes t.params taken)
    (hconfined : ∀ e ∈ args, M.Confined scopes e) (hlength : args.length ≤ t.params.length)
    {s : EditState} (hreserves : Reserves scopes taken s) (label : String) (c : Config World Value) :
    M.Repeats (t.params.map Prod.snd) label
      (withValue (M.evalAll args c) fun values c => (.calls values, c))
      (M.execAll scopes t (t.jump scopes label args s).1 c) := by
  have hready : M.Ready scopes t.params taken [] t.params args s c c := by
    refine ⟨hfits, fun _ h => h, hfits.distinct, fun _ _ => List.not_mem_nil, hconfined, hlength, ?_,
      hreserves, .refl _ _⟩
    exact fun _ _ _ h => absurd h List.not_mem_nil
  have hpasses := passes_passArgs (t := t) args t.params hready
  have hstmts : (t.jump scopes label args s).1 =
      (passArgs scopes t.params args s).1.1 ++ ((passArgs scopes t.params args s).1.2 ++
        [.continue (passArgs scopes t.params args s).2.nextId
          (some ⟨(passArgs scopes t.params args s).2.nextId + 1, label⟩)]) := by
    rw [← List.append_assoc]
    rfl
  rw [hstmts, Semantics.execAll_append]
  match M.evalAll args c, hpasses with
  | (.error fault, _), ⟨c', hfails, hagree⟩ =>
    rw [hfails]
    exact ⟨c', rfl, hagree⟩
  | (.ok values, _), ⟨c', hdone, hagree, _, _, hfinishes⟩ =>
    obtain ⟨c'', hlast, hagree', hvalues⟩ := hfinishes c' (fun _ _ => rfl) fun _ => rfl
    rw [hdone]
    refine ⟨c'', ?_, hagree'.trans hagree, hvalues⟩
    rw [andThen, Semantics.execAll_append, hlast]
    rfl

end

/-! ## The new variables -/

/-- The names that declarations introduce. -/
def introduced (stmts : List Stmt) : List String :=
  stmts.flatMap fun
    | .var d => d.decls.map (·.name.name)
    | _ => []

/-- The variables that hold values are new to the program, and each is new to the others. -/
theorem introduced_passArgs (scopes : ScopeTree) (params : List (String × VarId)) (args : List Expr)
    (s : EditState) :
    (introduced (passArgs scopes params args s).1.1).Nodup ∧
      ∀ name ∈ introduced (passArgs scopes params args s).1.1, name ∉ s.taken := by
  induction args generalizing params s with
  | nil =>
    rw [passArgs]
    exact ⟨List.nodup_nil, fun _ h => absurd h List.not_mem_nil⟩
  | cons arg args ih =>
    cases params with
    | nil => exact ⟨List.nodup_nil, fun _ h => absurd h List.not_mem_nil⟩
    | cons p params =>
      obtain ⟨name, v⟩ := p
      by_cases hheld : args.any (mentions scopes v) = true
      · rw [passArgs_held hheld]
        have htemp := Edit.freeName_not_mem (name ++ "_") s.taken
        generalize Edit.freeName (name ++ "_") s.taken = temp at htemp
        obtain ⟨hdistinct, hnew⟩ := ih params { s with nextId := s.nextId + 3, taken := temp :: s.taken }
        refine ⟨List.nodup_cons.mpr ⟨fun hmem => hnew temp hmem List.mem_cons_self, hdistinct⟩,
          List.forall_mem_cons.mpr ⟨htemp, fun other hmem hold => ?_⟩⟩
        exact hnew other hmem (List.mem_cons_of_mem _ hold)
      · by_cases hread : isRead scopes v arg = true
        · rw [passArgs_kept hheld hread]
          exact ih params s
        · rw [passArgs_stored hheld hread]
          exact ih params { s with nextId := s.nextId + 3 }

end TailCalls

end EsOptimizer
