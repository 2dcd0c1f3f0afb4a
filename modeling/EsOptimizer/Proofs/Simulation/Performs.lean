import EsOptimizer.Proofs.Simulation.Body
import EsOptimizer.Proofs.Simulation.Computes

/-!
# Statements of first-order code

`Performs` relates the analysis of a statement to running it. A value that is returned is one of
those that the analysis expects; if the machine goes on after the statement then the analysis does,
and their places go together again. There are no jumps but `return` in first-order code, so nothing
has to be known of places in the middle.
-/

namespace EsOptimizer

/-- Code of first-order statements: as its expressions, but control may end. -/
def Bounds.performing (Δ : Layout) : Bounds := ⟨fun _ => True, (· ∈ Δ.vars), True⟩

theorem Bounds.computing_within (Δ : Layout) : (Bounds.computing Δ).Within (.performing Δ) :=
  ⟨fun _ => id, fun _ => id, fun _ => trivial⟩

section

variable {α β γ : Type} {cx : Context} {F : Progress} {fns : List NodeId} {fs : ScopeId}
  {Δ : Layout} {link : String → Option Func} {call : Calling} {p q : Progress} {ρ : Valuation}
  {m : Machine}

/-- Following code `a` and running code `c` go together, where `c` tells what it returns. -/
structure Performs (cx : Context) (F : Progress) (fns : List NodeId) (fs : ScopeId) (Δ : Layout)
    (a : Track Unit) (c : Process (Option Primitive)) : Prop where
  moves : Track.Moves cx (.performing Δ) a
  runs : ∀ {p ρ m}, p.state.isDead = false → Accords cx fs Δ p ρ m → m.Sound cx F →
    Gathers fns (a cx p).2 F → (c m).2.Sound cx F ∧ ∀ o, (c m).1 = some o →
      Returns (a cx p).2 o ∧ (o = none → (a cx p).2.state.isDead = false ∧
        ∃ ρ', Accords cx fs Δ (a cx p).2 ρ' (c m).2)

variable {a d : Track Unit} {c e : Process (Option Primitive)}

/-! ## Sequences -/

namespace Performs

/-- Nothing is done. -/
theorem skip : Performs cx F fns fs Δ (pure ()) (pure none) where
  moves := Track.Moves.pure ()
  runs := by
    intro p ρ m halive hp hm _
    refine ⟨hm, ?_⟩
    rintro _ ⟨⟩
    exact ⟨Returns.none p, fun _ => ⟨halive, ρ, hp⟩⟩

/-- Steps that lead to the same places go together with the same code. -/
theorem congr {a' : Track Unit} (h : Performs cx F fns fs Δ a c)
    (ha : ∀ p, (a' cx p).2 = (a cx p).2) : Performs cx F fns fs Δ a' c where
  moves := fun p => by rw [ha]; exact h.moves p
  runs := fun {p _ _} halive hp hm hF => by
    rw [ha] at hF ⊢
    exact h.runs halive hp hm hF

/-- Code after code, if the machine gets past the first. -/
theorem andThen (ha : Performs cx F fns fs Δ a c) (hd : Performs cx F fns fs Δ d e) :
    Performs cx F fns fs Δ (do a; d) (do
      match ← c with
      | none => e
      | some value => return some value) where
  moves := ha.moves.bind fun _ => hd.moves
  runs := by
    intro p ρ m halive hp hm hF
    have hmoves := hd.moves (a cx p).2
    obtain ⟨hm', hgo⟩ := ha.runs halive hp hm (Gathers.before hF hmoves)
    rw [Process.bind_apply]
    cases ho : (c m).1 with
    | none => exact ⟨hm', nofun⟩
    | some o =>
      obtain ⟨hret, hnext⟩ := hgo o ho
      cases o with
      | none =>
        obtain ⟨halive', ρ', hq⟩ := hnext rfl
        exact hd.runs halive' hq hm' hF
      | some x =>
        refine ⟨hm', ?_⟩
        rintro _ ⟨⟩
        exact ⟨hret.grow hmoves.returns, nofun⟩

end Performs

/-- Code after an evaluation. -/
theorem Covers.andThen {R : α → γ → Prop} {P : α → Prop} {x : Track α} {r : Process γ}
    {f : α → Track Unit} {g : γ → Process (Option Primitive)} (hx : Covers cx F fns fs Δ x r R P)
    (hmoves : ∀ t, Track.Moves cx (.performing Δ) (f t))
    (hf : ∀ t y, R t y → Performs cx F fns fs Δ (f t) (g y)) :
    Performs cx F fns fs Δ (x >>= f) (r >>= g) where
  moves := Track.Moves.bind (fun p => (hx.moves p).mono (Bounds.computing_within Δ)) hmoves
  runs := by
    intro p ρ m halive hp hm hF
    obtain ⟨hm', hgo⟩ := hx.runs hp hm (Gathers.before hF (hmoves _ _))
    rw [Process.bind_apply]
    cases hy : (r m).1 with
    | none => exact ⟨hm', nofun⟩
    | some y =>
      obtain ⟨ρ', hq, hR, -⟩ := hgo y hy
      exact (hf _ _ hR).runs (hx.alive halive) hq hm' hF

/-- An evaluation by itself. -/
theorem Covers.performs {R : α → γ → Prop} {P : α → Prop} {x : Track α} {r : Process γ}
    (hx : Covers cx F fns fs Δ x r R P) :
    Performs cx F fns fs Δ (discard x) (do let _ ← r; return none) :=
  hx.andThen (fun _ => Track.Moves.pure ()) fun _ _ _ => Performs.skip

/-! ## Statements and scopes -/

theorem Performs.followed (h : Performs cx F fns fs Δ a c) (id : NodeId) :
    Performs cx F fns fs Δ (Track.followed id a) c where
  moves := Track.moves_followed id h.moves
  runs := by
    intro p ρ m halive hp hm hF
    have happly : Track.followed id a cx p = Track.notify .stmt id cx (a cx p).2 := by
      change (if (!p.state.isDead) = true then _ else _ : Track Unit) cx p = _
      rw [halive]
      rfl
    rw [happly] at hF ⊢
    have hnotify : Advances cx.scopes .none (a cx p).2 (Track.notify .stmt id cx (a cx p).2).2 :=
      Track.moves_notify .stmt id _
    obtain ⟨hm', hgo⟩ := h.runs halive hp hm (Gathers.before hF hnotify)
    refine ⟨hm', fun o ho => ?_⟩
    obtain ⟨hret, hnext⟩ := hgo o ho
    refine ⟨hret.grow hnotify.returns, fun hnone => ?_⟩
    obtain ⟨halive', ρ', hq⟩ := hnext hnone
    exact ⟨(hnotify.alive fun h => h).trans halive', ρ', hq.advance hnotify fun _ h => h⟩

theorem ScopeTree.OpensNone.sublayout {scopes : ScopeTree} {Δ Δ' : Layout} {id : NodeId}
    (h : scopes.OpensNone Δ id) (hsub : ∀ v ∈ Δ'.vars, v ∈ Δ.vars) : scopes.OpensNone Δ' id where
  hoisted := h.hoisted
  initial := h.initial
  apart := fun s hs v hv => h.apart s hs v (hsub v hv)

theorem ScopeTree.OpensNone.followed {scopes : ScopeTree} {Δ : Layout} {id : NodeId}
    (h : scopes.OpensNone Δ id) : scopes.OpensNone (Δ.followed scopes) id :=
  h.sublayout fun _ hv => (Layout.mem_followed.mp hv).1

/-- Code with a scope that does not matter to the variables in force runs as it would without. -/
theorem Performs.inScope {id : NodeId} (hs : Setting cx F link call fs Δ)
    (h : Performs cx F fns fs Δ a c) (hopens : cx.scopes.OpensNone Δ id) :
    Performs cx F fns fs Δ (Track.inScope id a) c where
  moves := Track.moves_inScope (hopens.enters _) h.moves
  runs := by
    intro p ρ m halive hp hm hF
    have hmoves : Advances cx.scopes (.performing Δ) p (Track.inScope id a cx p).2 :=
      Track.moves_inScope (hopens.enters _) h.moves p
    have hframe : (Track.inScope id a cx p).2.frame = (a cx p.child).2.frame := by
      rw [inScope_apply hopens]
      rfl
    have hF' : Gathers fns (a cx p.child).2 F := by
      rw [inScope_apply hopens] at hF
      exact ⟨hF.facts, hF.observed, hF.possible, hF.summaries⟩
    obtain ⟨hm', hgo⟩ := h.runs rfl hp.child hm hF'
    refine ⟨hm', fun o ho => ?_⟩
    obtain ⟨hret, hnext⟩ := hgo o ho
    refine ⟨hret.grow (by rw [hframe]; exact ReturnsBelow.refl _), fun hnone => ?_⟩
    obtain ⟨halive', ρ', hq⟩ := hnext hnone
    obtain ⟨hlives, hfollows⟩ := follows_inScope hopens.followed h.moves halive halive' hq.follows
    exact ⟨hlives, ρ', hp.step hmoves hs.apart hfollows hq.stored hq.env⟩

/-! ## Branches -/

namespace Performs

/-- The machine goes through code that the analysis took for code that may run. -/
theorem tried (hs : Setting cx F link call fs Δ) (h : Performs cx F fns fs Δ a c) :
    Performs cx F fns fs Δ (Track.tried a) c where
  moves := Track.moves_tried h.moves
  runs := by
    intro p ρ m halive hp hm hF
    obtain ⟨hm', hgo⟩ := h.runs rfl hp.child hm ⟨hF.facts, hF.observed, hF.possible, hF.summaries⟩
    refine ⟨hm', fun o ho => ?_⟩
    obtain ⟨hret, hnext⟩ := hgo o ho
    refine ⟨hret, fun hnone => ?_⟩
    obtain ⟨halive', ρ', hq⟩ := hnext hnone
    exact ⟨Track.dead_tried.trans halive, ρ', hp.step (Track.moves_tried h.moves p) hs.apart
      (Track.follows_tried h.moves hq.follows halive') hq.stored hq.env⟩

/-- The machine skips such code. -/
theorem skipped (hs : Setting cx F link call fs Δ) (h : Track.Moves cx (.performing Δ) a) :
    Performs cx F fns fs Δ (Track.tried a) (return none) where
  moves := Track.moves_tried h
  runs := by
    intro p ρ m halive hp hm _
    refine ⟨hm, ?_⟩
    rintro _ ⟨⟩
    exact ⟨Returns.none _, fun _ => ⟨Track.dead_tried.trans halive, ρ,
      hp.step (Track.moves_tried h p) hs.apart (Track.follows_tried_of_skip h hp.follows)
        hp.stored hp.env⟩⟩

/-- The machine goes through the first of two pieces. -/
theorem left (hs : Setting cx F link call fs Δ) (h : Performs cx F fns fs Δ a c)
    (hd : Track.Moves cx (.performing Δ) d) :
    Performs cx F fns fs Δ (discard (Track.either a d)) c where
  moves := (Track.moves_either h.moves hd).map
  runs := by
    intro p ρ m halive hp hm hF
    have hother : Gathers fns (d cx (Track.between cx a p).child).2 F :=
      ⟨hF.facts, hF.observed, hF.possible, hF.summaries⟩
    have hF' := hother.before (hd (Track.between cx a p).child)
    obtain ⟨hm', hgo⟩ := h.runs rfl hp.child hm ⟨hF'.facts, hF'.observed, hF'.possible, hF'.summaries⟩
    refine ⟨hm', fun o ho => ?_⟩
    obtain ⟨hret, hnext⟩ := hgo o ho
    refine ⟨hret.grow (hd (Track.between cx a p).child).returns, fun hnone => ?_⟩
    obtain ⟨halive', ρ', hq⟩ := hnext hnone
    refine ⟨Track.dead_either.trans ?_, ρ', hp.step (Track.moves_either h.moves hd p) hs.apart
      (Track.follows_either_left h.moves hd hq.follows halive') hq.stored hq.env⟩
    rw [halive, halive']
    rfl

/-- The machine goes through the second of two pieces. -/
theorem right (hs : Setting cx F link call fs Δ) (ha : Track.Moves cx (.performing Δ) a)
    (h : Performs cx F fns fs Δ d e) :
    Performs cx F fns fs Δ (discard (Track.either a d)) e where
  moves := (Track.moves_either ha h.moves).map
  runs := by
    intro p ρ m halive hp hm hF
    obtain ⟨hm', hgo⟩ := h.runs rfl (hp.between ha).child hm
      ⟨hF.facts, hF.observed, hF.possible, hF.summaries⟩
    refine ⟨hm', fun o ho => ?_⟩
    obtain ⟨hret, hnext⟩ := hgo o ho
    refine ⟨hret, fun hnone => ?_⟩
    obtain ⟨halive', ρ', hq⟩ := hnext hnone
    refine ⟨Track.dead_either.trans ?_, ρ', hp.step (Track.moves_either ha h.moves p) hs.apart
      (Track.follows_either_right ha h.moves hq.follows halive') hq.stored hq.env⟩
    rw [halive, halive', Bool.and_false]
    rfl

/-- A choice between a statement and nothing. -/
theorem branch_none {test : Track Tracked} {test' : Process Primitive}
    (hs : Setting cx F link call fs Δ) (ht : Computes cx F fns fs Δ test test')
    (hyes : Performs cx F fns fs Δ a c) :
    Performs cx F fns fs Δ (Track.branch test a none) (do
      if (← test').truthy then c else return none) := by
  refine ht.andThen (fun t => Track.moves_branch (Track.Moves.pure t) hyes.moves nofun)
    fun t x hx => ?_
  cases htruth : t.value.truthiness with
  | some truthy =>
    rw [show x.truthy = truthy from Value.truthy_of_truthiness hx htruth]
    cases truthy
    · exact skip
    · exact hyes
  | none =>
    refine congr (a := Track.tried a) ?_ fun _ => rfl
    cases x.truthy
    · exact skipped hs hyes.moves
    · exact tried hs hyes

/-- A choice between two statements. -/
theorem branch_some {test : Track Tracked} {test' : Process Primitive}
    (hs : Setting cx F link call fs Δ) (ht : Computes cx F fns fs Δ test test')
    (hyes : Performs cx F fns fs Δ a c) (hno : Performs cx F fns fs Δ d e) :
    Performs cx F fns fs Δ (Track.branch test a (some d)) (do
      if (← test').truthy then c else e) := by
  have hmoves (t : Tracked) :
      Track.Moves cx (.performing Δ) (Track.branch (pure t) a (some d)) := by
    refine Track.moves_branch (Track.Moves.pure t) hyes.moves ?_
    rintro x ⟨⟩
    exact hno.moves
  refine ht.andThen hmoves fun t x hx => ?_
  cases htruth : t.value.truthiness with
  | some truthy =>
    rw [show x.truthy = truthy from Value.truthy_of_truthiness hx htruth]
    cases truthy
    · exact hno
    · exact hyes
  | none =>
    refine congr (a := discard (Track.either a d)) ?_ fun _ => rfl
    cases x.truthy
    · exact right hs hyes.moves hno
    · exact left hs hyes hno.moves

end Performs

theorem performs_returnValue {value : Value} {x : Primitive} (h : value.Holds (.primitive x)) :
    Performs cx F fns fs Δ (Track.returnValue value) (return some x) where
  moves := Track.moves_returnValue trivial value
  runs := by
    intro p ρ m _ _ hm _
    refine ⟨hm, ?_⟩
    rintro _ ⟨⟩
    refine ⟨?_, nofun⟩
    rintro y ⟨⟩
    obtain ⟨r, hr, hbelow⟩ := returnValue_returns cx value p
    exact ⟨r, hr, hbelow _ h⟩

/-! ## The walk -/

theorem covers_onDeclarators (hs : Setting cx F link call fs Δ) : (ds : List Declarator) →
    DeclsLinked cx.scopes link Δ ds →
    Covers cx F fns fs Δ (Track.onDeclarators ds .var) (runDeclarators call ds) (fun _ _ => True)
      (fun _ => False)
  | [], _ => Covers.pure trivial
  | ⟨_, name, none⟩ :: rest, ⟨_, _, hrest⟩ => covers_onDeclarators hs rest hrest
  | ⟨_, name, some e⟩ :: rest, ⟨hassigns, he, hrest⟩ => by
    have ih := covers_onDeclarators hs rest hrest
    have hi := hassigns rfl
    have hmoves (t : Tracked) : Track.Moves cx (.computing Δ) (Track.initIdent name t.value) :=
      Track.moves_initIdent hi.written t.value
    rw [runDeclarators_some]
    change Covers cx F fns fs Δ
      (do
        let t ← Track.onExpr e
        Track.initIdent name t.value
        Track.onDeclarators rest .var) _ _ _
    refine (computes_onExpr hs e he).bind (fun t => (hmoves t).bind fun _ => ih.moves)
      (fun t x hx => ?_) fun _ _ h => False.elim h
    exact (covers_initIdent hs hi hx).bind (fun _ => ih.moves) (fun _ _ _ => ih) fun _ _ h => h

mutual

/-- Whatever a linked statement does, the analysis of it goes with. -/
theorem performs_onStmt (hs : Setting cx F link call fs Δ) (st : Stmt)
    (h : st.Linked cx.scopes link Δ) :
    Performs cx F fns fs Δ (Track.onStmt st) (st.run call) := by
  unfold Track.onStmt
  refine Performs.followed ?_ st.id
  cases st with
  | block b => exact performs_onBlock hs b h
  | empty id => exact Performs.skip
  | function id i f => exact Performs.skip
  | expr id e => exact (computes_onExpr hs e h).performs
  | var d =>
    obtain ⟨id, kind, decls⟩ := d
    obtain ⟨rfl, h⟩ := h
    exact (covers_onDeclarators hs decls h).performs.congr fun _ => rfl
  | «if» id test yes no =>
    rw [Stmt.Linked] at h
    obtain ⟨htest, hyes, hno⟩ := h
    have ht : Computes cx F fns fs Δ (Track.onExpr test) (test.run call) :=
      computes_onExpr hs test htest
    have hy := performs_onStmt hs yes hyes
    cases no with
    | none => exact Performs.branch_none hs ht hy
    | some no => exact Performs.branch_some hs ht hy (performs_onStmt hs no hno)
  | «return» id arg =>
    refine (covers_onExpr? hs arg h).andThen (fun _ => Track.moves_returnValue trivial _)
      fun t x hx => performs_returnValue ?_
    cases hx with
    | none => exact Value.holds_ofPrimitive _
    | some hx => exact hx
  | _ => exact h.elim
termination_by structural st

theorem performs_onBlock (hs : Setting cx F link call fs Δ) :
    (b : Block) → b.Linked cx.scopes link Δ →
    Performs cx F fns fs Δ (Track.onBlock b) (b.run call)
  | ⟨_, stmts⟩, h => (performs_onStmts hs stmts h.2).inScope hs h.1
termination_by structural b => b

theorem performs_onStmts (hs : Setting cx F link call fs Δ) :
    (ss : List Stmt) → StmtsLinked cx.scopes link Δ ss →
    Performs cx F fns fs Δ (Track.onStmts ss) (runStmts call ss)
  | [], _ => by
    rw [Track.onStmts, runStmts]
    exact Performs.skip
  | st :: rest, h => by
    rw [StmtsLinked] at h
    rw [Track.onStmts, runStmts]
    exact (performs_onStmt hs st h.1).andThen (performs_onStmts hs rest h.2)
termination_by structural ss => ss

end

/-- Linked statements write the variables of the layout alone. -/
theorem moves_onStmts_of_linked {ss : List Stmt} (hΔ : Δ.Local cx.scopes fs)
    (hfns : cx.scopes.HoistsFunctions) (h : StmtsLinked cx.scopes link Δ ss) :
    Track.Moves cx (.performing Δ) (Track.onStmts ss) := by
  -- What the code does to the places of the analysis does not depend on how machines call.
  have hs : Setting cx { frame := { scope := fs } } link (fun _ _ => failure) fs Δ :=
    ⟨hΔ, hfns, ⟨nofun, nofun⟩, fun _ _ _ _ _ _ hm => ⟨hm, nofun⟩⟩
  have hperforms : Performs cx { frame := { scope := fs } } [] fs Δ (Track.onStmts ss) _ :=
    performs_onStmts hs ss h
  exact hperforms.moves

end

end EsOptimizer
