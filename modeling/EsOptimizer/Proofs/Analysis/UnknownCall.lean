import EsOptimizer.Proofs.Analysis.Updates
import EsOptimizer.Proofs.Flow.Blocks
import EsOptimizer.Proofs.Flow.Reachable
import Mathlib.Data.List.ReduceOption

/-!
# Unknown code

Unknown code gets hold of what is passed to it, of what escaped before, and of what is in variables
that it shares with the program (`Exposed`), and from there of everything that can be reached
through objects. All that escapes, and nothing is known of it afterwards, except that the built-in
objects stay as they are if they are trusted (`Track.HandsOver`). The search takes place before
anything is given up, so that what was reached through an object is not lost with it.

`unknownCall_gives_up` says that this is all that happens: other objects, variables and what may be
reached from them, and whether control gets here, stay as they were.
-/

namespace EsOptimizer

namespace State

theorem deref_eq_of_lookupObject {s t : State} {r : Reference}
    (h : t.lookupObject r = s.lookupObject r) : t.deref r = s.deref r := by
  rw [deref, deref, object?, object?, h]

theorem deref_of_found {s : State} {r : Reference} {o : HeapObject}
    (h : s.lookupObject r = .found o) : s.deref r = o := by
  rw [deref, object?, h]
  rfl

theorem putObject_sameReach (s : State) (r : Reference) (o : HeapObject) :
    SameReach s (s.putObject r o) := ⟨rfl, rfl, rfl⟩

end State

namespace Track

/-! ## What unknown code gets hold of -/

/-- Code elsewhere may read a variable: an inner function uses it, or it is global. If nothing but
the program itself reads global variables, then those count that an inner function uses. -/
def Shared (cx : Context) (v : VarId) : Prop :=
  v ∈ cx.scopes.captured ∨
    if cx.options.noGlobalPropertyReads then v ∈ cx.scopes.sharedGlobals
    else v ∈ cx.scopes.globalVars

/-- Unknown code has a reference: it is passed, it escaped in this run or the one before, or a
shared variable leads to it. -/
inductive Exposed (roots : List Reference) (cx : Context) (p : Progress) (r : Reference) : Prop
  | passed : r ∈ roots → Exposed roots cx p r
  | escaped : r ∈ p.escaped → Exposed roots cx p r
  | escapedBefore : r ∈ cx.prev.escaped → Exposed roots cx p r
  | current {v : VarId} : Shared cx v → r ∈ (p.state.current cx.scopes v).references →
      Exposed roots cx p r
  | reach {v : VarId} : Shared cx v → r ∈ p.state.reachOf v → Exposed roots cx p r
  | possible {v : VarId} {x : Value} : Shared cx v →
      p.possible[(cx.scopes.var v).key]? = some x → r ∈ x.references → Exposed roots cx p r
  | possibleBefore {v : VarId} {x : Value} : Shared cx v →
      cx.prev.possible[(cx.scopes.var v).key]? = some x → r ∈ x.references → Exposed roots cx p r

/-- What unknown code can reach. -/
def ReachedBy (roots : List Reference) (cx : Context) (p : Progress) : Reference → Prop :=
  Reaches (fun r => (p.state.deref r).references) (Exposed roots cx p)

section

variable {cx : Context} {p : Progress}

theorem mem_sharedVars {v : VarId} : v ∈ (sharedVars cx p).1 ↔ Shared cx v := by
  have hinsert (globals : List VarId) : v ∈ (cx.scopes.captured.insertMany globals).toList ↔
      v ∈ cx.scopes.captured ∨ v ∈ globals := by
    rw [Std.TreeSet.mem_toList, Std.TreeSet.mem_insertMany_list, List.contains_iff_mem]
  refine (hinsert _).trans (or_congr_right ?_)
  split
  · exact Std.TreeSet.mem_toList
  · exact Iff.rfl

theorem mem_reduceOption_references {x y : Option Value} {r : Reference} :
    r ∈ [x, y].reduceOption.flatMap Value.references ↔
      (∃ v, x = some v ∧ r ∈ v.references) ∨ ∃ v, y = some v ∧ r ∈ v.references := by
  cases x <;> cases y <;> simp

theorem mem_variableRoots {v : VarId} {r : Reference} : r ∈ (variableRoots v cx p).1 ↔
    r ∈ (p.state.current cx.scopes v).references ∨ r ∈ p.state.reachOf v ∨
      (∃ x, p.possible[(cx.scopes.var v).key]? = some x ∧ r ∈ x.references) ∨
      ∃ x, cx.prev.possible[(cx.scopes.var v).key]? = some x ∧ r ∈ x.references := by
  change r ∈ _ ++ _ ++ _ ↔ _
  rw [List.mem_append, List.mem_append, Std.TreeSet.mem_toList, or_assoc,
    mem_reduceOption_references]

theorem mapM_variableRoots (ids : List VarId) :
    ids.mapM variableRoots cx p = (ids.map fun v => (variableRoots v cx p).1, p) := by
  induction ids with
  | nil => rfl
  | cons v rest ih =>
    rw [List.mapM_cons, bind_apply]
    change ((rest.mapM variableRoots >>= _) cx p) = _
    rw [bind_apply, ih]
    rfl

/-- The references that unknown code starts with. -/
def exposed (roots : List Reference) (cx : Context) (p : Progress) : List Reference :=
  roots ++ p.escaped.toList ++ cx.prev.escaped.toList ++
    ((sharedVars cx p).1.map fun v => (variableRoots v cx p).1).flatten

theorem mem_exposed {roots : List Reference} {r : Reference} :
    r ∈ exposed roots cx p ↔ Exposed roots cx p r := by
  have hmem : r ∈ exposed roots cx p ↔ ((r ∈ roots ∨ r ∈ p.escaped) ∨ r ∈ cx.prev.escaped) ∨
      ∃ v, Shared cx v ∧ r ∈ (variableRoots v cx p).1 := by
    simp only [exposed, List.mem_append, Std.TreeSet.mem_toList, List.mem_flatten, List.mem_map,
      exists_exists_and_eq_and, mem_sharedVars]
  rw [hmem]
  constructor
  · rintro (((hr | hr) | hr) | ⟨v, hv, hr⟩)
    · exact .passed hr
    · exact .escaped hr
    · exact .escapedBefore hr
    · rcases mem_variableRoots.mp hr with hr | hr | ⟨x, hx, hr⟩ | ⟨x, hx, hr⟩
      · exact .current hv hr
      · exact .reach hv hr
      · exact .possible hv hx hr
      · exact .possibleBefore hv hx hr
  · intro h
    have hshared {v : VarId} (hv : Shared cx v) (hr : r ∈ (variableRoots v cx p).1) :
        ((r ∈ roots ∨ r ∈ p.escaped) ∨ r ∈ cx.prev.escaped) ∨
          ∃ v, Shared cx v ∧ r ∈ (variableRoots v cx p).1 := Or.inr ⟨v, hv, hr⟩
    cases h with
    | passed hr => exact Or.inl (Or.inl (Or.inl hr))
    | escaped hr => exact Or.inl (Or.inl (Or.inr hr))
    | escapedBefore hr => exact Or.inl (Or.inr hr)
    | current hv hr => exact hshared hv (mem_variableRoots.mpr (Or.inl hr))
    | reach hv hr => exact hshared hv (mem_variableRoots.mpr (Or.inr (Or.inl hr)))
    | possible hv hx hr =>
      exact hshared hv (mem_variableRoots.mpr (Or.inr (Or.inr (Or.inl ⟨_, hx, hr⟩))))
    | possibleBefore hv hx hr =>
      exact hshared hv (mem_variableRoots.mpr (Or.inr (Or.inr (Or.inr ⟨_, hx, hr⟩))))

/-! ## Handing over -/

/-- Unknown code leaves a built-in object alone if those are trusted. -/
def spares (cx : Context) (r : Reference) : Bool := cx.options.noNativeOverwrites && r.isHost

/-- The progress after unknown code got hold of a reference. -/
def handOver (cx : Context) (p : Progress) (r : Reference) : Progress :=
  let p := (escape [r] cx p).2
  if spares cx r then p else (makeDirty r cx p).2

/-- Unknown code got hold of some references, and of nothing else. -/
structure HandsOver (cx : Context) (rs : List Reference) (p q : Progress) : Prop where
  object : ∀ x, q.state.lookupObject x =
    if x ∈ rs ∧ spares cx x = false ∧ (p.state.deref x).dirty = false then .found .unknown
    else p.state.lookupObject x
  vars : State.SameVars p.state q.state
  reach : State.SameReach p.state q.state
  escaped : ∀ x, x ∈ p.escaped ∨ x ∈ rs → x ∈ q.escaped
  of_escaped : ∀ x ∈ q.escaped, x ∈ p.escaped ∨ x ∈ rs ∨
    ∃ r ∈ rs, x ∈ (p.state.deref r).references

theorem escaped_noteChange (r : Reference) : (noteChange r cx p).2.escaped = p.escaped := by
  change ((if _ then noteEffect else Pure.pure () : Track Unit) cx p).2.escaped = p.escaped
  split <;> rfl

/-- With an object that is given up, what it held escapes. -/
theorem mem_escaped_makeDirty {r x : Reference} : x ∈ (makeDirty r cx p).2.escaped ↔
    x ∈ p.escaped ∨ (p.state.deref r).dirty = false ∧ x ∈ (p.state.deref r).references := by
  change x ∈ ((if !(p.state.deref r).dirty then _ else _ : Track Unit) cx p).2.escaped ↔ _
  cases (p.state.deref r).dirty with
  | true =>
    change x ∈ p.escaped ↔ _
    simp
  | false =>
    change x ∈ (noteChange r cx (escape _ cx p).2).2.escaped ↔ _
    rw [escaped_noteChange]
    change x ∈ p.escaped.extend _ ↔ _
    simp [RefSet.mem_extend]

/-- Giving up a reference hands over it alone. -/
theorem handOver_handsOver (r : Reference) : HandsOver cx [r] p (handOver cx p r) := by
  have hescape (x : Reference) : x ∈ (escape [r] cx p).2.escaped ↔ x ∈ p.escaped ∨ x ∈ [r] :=
    RefSet.mem_extend
  rw [handOver]
  split
  · rename_i hspares
    refine ⟨fun x => (if_neg ?_).symm, .refl _, .refl _, fun x => (hescape x).mpr,
      fun x hx => ?_⟩
    · rintro ⟨hx, hnot, -⟩
      rw [List.mem_singleton.mp hx, hspares] at hnot
      cases hnot
    · exact ((hescape x).mp hx).imp id Or.inl
  · rename_i hspares
    have hstate : (makeDirty r cx (escape [r] cx p).2).2.state =
        if (p.state.deref r).dirty then p.state else p.state.putObject r .unknown :=
      state_makeDirty r (escape [r] cx p).2
    have hmem (x : Reference) : x ∈ (makeDirty r cx (escape [r] cx p).2).2.escaped ↔
        (x ∈ p.escaped ∨ x ∈ [r]) ∨
          (p.state.deref r).dirty = false ∧ x ∈ (p.state.deref r).references :=
      mem_escaped_makeDirty.trans (or_congr_left (hescape x))
    have hescaped : ∀ x ∈ (makeDirty r cx (escape [r] cx p).2).2.escaped,
        x ∈ p.escaped ∨ x ∈ [r] ∨ ∃ q ∈ [r], x ∈ (p.state.deref q).references := by
      intro x hx
      rcases (hmem x).mp hx with (hx | hx) | ⟨-, hx⟩
      · exact Or.inl hx
      · exact Or.inr (Or.inl hx)
      · exact Or.inr (Or.inr ⟨r, List.mem_singleton_self r, hx⟩)
    cases hdirty : (p.state.deref r).dirty with
    | true =>
      rw [hdirty, if_pos rfl] at hstate
      refine ⟨fun x => ?_, ?_, ?_, fun x hx => (hmem x).mpr (Or.inl hx), hescaped⟩
      · rw [hstate, if_neg]
        rintro ⟨hx, -, hclean⟩
        rw [List.mem_singleton.mp hx, hdirty] at hclean
        cases hclean
      · rw [hstate]
        exact .refl _
      · rw [hstate]
        exact .refl _
    | false =>
      rw [hdirty, if_neg Bool.false_ne_true] at hstate
      refine ⟨fun x => ?_, ?_, ?_, fun x hx => (hmem x).mpr (Or.inl hx), hescaped⟩
      · rw [hstate]
        refine (State.putVersion_lookupObject p.state r x .unknown).trans ?_
        by_cases hx : r = x
        · subst hx
          rw [if_pos rfl, if_pos ⟨List.mem_singleton_self r, by simpa using hspares, hdirty⟩]
        · rw [if_neg hx, if_neg fun h => hx (List.mem_singleton.mp h.1).symm]
      · rw [hstate]
        exact State.putObject_sameVars _ _ _
      · rw [hstate]
        exact State.putObject_sameReach _ _ _

/-- What an object holds afterwards, it held before. -/
theorem HandsOver.references {rs : List Reference} {q : Progress} (h : HandsOver cx rs p q)
    {r x : Reference} (hx : x ∈ (q.state.deref r).references) :
    x ∈ (p.state.deref r).references := by
  have hobject := h.object r
  split at hobject
  · rw [State.deref_of_found hobject] at hx
    cases hx
  · rwa [State.deref_eq_of_lookupObject hobject] at hx

theorem HandsOver.append {rs rs' : List Reference} {q u : Progress} (h : HandsOver cx rs p q)
    (h' : HandsOver cx rs' q u) : HandsOver cx (rs ++ rs') p u where
  object x := by
    rw [h'.object]
    have hx := h.object x
    by_cases hrs : x ∈ rs ∧ spares cx x = false ∧ (p.state.deref x).dirty = false
    · rw [if_pos hrs] at hx
      rw [if_neg, hx, if_pos ⟨List.mem_append_left rs' hrs.1, hrs.2⟩]
      rintro ⟨-, -, hclean⟩
      rw [State.deref_of_found hx] at hclean
      cases hclean
    · rw [if_neg hrs] at hx
      rw [State.deref_eq_of_lookupObject hx, hx]
      refine if_congr ⟨fun hrs' => ⟨List.mem_append_right rs hrs'.1, hrs'.2⟩, ?_⟩ rfl rfl
      rintro ⟨hmem, hrest⟩
      rcases List.mem_append.mp hmem with hmem | hmem
      · exact absurd ⟨hmem, hrest⟩ hrs
      · exact ⟨hmem, hrest⟩
  vars := h.vars.trans h'.vars
  reach := h.reach.trans h'.reach
  escaped x hx := by
    rw [List.mem_append, ← or_assoc] at hx
    exact h'.escaped x (hx.imp (h.escaped x) id)
  of_escaped x hx := by
    rcases h'.of_escaped x hx with hx | hx | ⟨r, hr, hx⟩
    · rcases h.of_escaped x hx with hx | hx | ⟨r, hr, hx⟩
      · exact Or.inl hx
      · exact Or.inr (Or.inl (List.mem_append_left rs' hx))
      · exact Or.inr (Or.inr ⟨r, List.mem_append_left rs' hr, hx⟩)
    · exact Or.inr (Or.inl (List.mem_append_right rs hx))
    · exact Or.inr (Or.inr ⟨r, List.mem_append_right rs hr, h.references hx⟩)

theorem HandsOver.nil : HandsOver cx [] p p where
  object _ := (if_neg fun h => List.not_mem_nil h.1).symm
  vars := .refl _
  reach := .refl _
  escaped _ hx := hx.resolve_right List.not_mem_nil
  of_escaped _ hx := Or.inl hx

theorem handsOver_foldl (cx : Context) (rs : List Reference) (p : Progress) :
    HandsOver cx rs p (rs.foldl (handOver cx) p) := by
  induction rs generalizing p with
  | nil => exact .nil
  | cons r rest ih => exact (handOver_handsOver r).append (ih (handOver cx p r))

/-! ## The call -/

/-- A loop whose body always goes on is a fold over the progress. -/
theorem forIn_apply {α : Type} {f : α → PUnit → Track (ForInStep PUnit)}
    {g : Progress → α → Progress} (h : ∀ a y p, f a y cx p = (.yield ⟨⟩, g p a)) (items : List α)
    (p : Progress) : ForIn.forIn items PUnit.unit f cx p = (⟨⟩, items.foldl g p) := by
  induction items generalizing p with
  | nil => rfl
  | cons a rest ih =>
    rw [List.forIn_cons, bind_apply, h]
    exact ih (g p a)

/-- Unknown code gets hold of all that it can reach, in some order, and has an effect. -/
theorem unknownCall_apply (roots : List Reference) (cx : Context) (p : Progress) :
    (unknownCall roots cx p).2 = (noteEffect cx
      ((p.state.reachable (fun r => (p.state.deref r).references) (exposed roots cx p)).toList.foldl
        (handOver cx) p)).2 := by
  have hread : (read : Track Context) cx p = (cx, p) := rfl
  have hshared : sharedVars cx p = ((sharedVars cx p).1, p) := rfl
  have hstate : getState cx p = (p.state, p) := rfl
  have hget : (get : Track Progress) cx p = (p, p) := rfl
  unfold unknownCall
  rw [bind_apply, hread, bind_apply, hshared, bind_apply, mapM_variableRoots, bind_apply, hstate,
    bind_apply, hget]
  dsimp only
  rw [bind_apply, forIn_apply (g := handOver cx)]
  · rfl
  · intro r y p
    change (((if !spares cx r then _ else _) : Track (ForInStep PUnit)) cx (escape [r] cx p).2) = _
    rw [handOver]
    cases spares cx r with
    | true => rfl
    | false => rfl

end

/-- What unknown code got hold of is dirty afterwards, unless it is spared. -/
theorem HandsOver.dirty {rs : List Reference} {q : Progress} (h : HandsOver cx rs p q)
    {r : Reference} (hr : r ∈ rs) (hspares : spares cx r = false) :
    (q.state.deref r).dirty = true := by
  have hobject := h.object r
  by_cases hclean : (p.state.deref r).dirty = false
  · rw [if_pos ⟨hr, hspares, hclean⟩] at hobject
    rw [State.deref_of_found hobject]
    rfl
  · rw [if_neg fun h => hclean h.2.2] at hobject
    rw [State.deref_eq_of_lookupObject hobject]
    simpa using hclean

/-- Unknown code gets hold of what it can reach, and of nothing else. -/
theorem unknownCall_handsOver (roots : List Reference) (cx : Context) (p : Progress) :
    ∃ found, (∀ r, r ∈ found ↔ ReachedBy roots cx p r) ∧
      HandsOver cx found p (unknownCall roots cx p).2 := by
  have hlinks : ∀ q, ∀ r ∈ (p.state.deref q).references, r ∈ p.state.links :=
    fun q r hr => State.mem_links_of_deref hr
  have hroots : ∀ r, r ∈ exposed roots cx p ↔ Exposed roots cx p r := fun r => mem_exposed
  refine ⟨_, fun r => Std.TreeSet.mem_toList.trans (State.mem_reachable hroots hlinks r), ?_⟩
  rw [unknownCall_apply]
  -- noting the effect is the last step, and leaves the state and what escaped
  have hover := handsOver_foldl cx
    (p.state.reachable (fun r => (p.state.deref r).references) (exposed roots cx p)).toList p
  exact ⟨hover.object, hover.vars, hover.reach, hover.escaped, hover.of_escaped⟩

/-- Unknown code gives up exactly what it can reach. The search for that ends, also where objects
refer to each other; what it finds escapes, and is dirty afterwards unless it is a built-in object
and those are trusted; nothing else changes. -/
theorem unknownCall_gives_up (roots : List Reference) (cx : Context) (p : Progress) :
    let reached := ReachedBy roots cx p
    let after := (unknownCall roots cx p).2
    (∃ n, let search := Search.run (fun r => (p.state.deref r).references) (exposed roots cx p) n
        search.pending = [] ∧ ∀ r, r ∈ search.visited ↔ reached r) ∧
      (∀ r, reached r → if spares cx r then after.state.lookupObject r = p.state.lookupObject r
        else (after.state.deref r).dirty = true) ∧
      (∀ r, ¬reached r → after.state.lookupObject r = p.state.lookupObject r) ∧
      (∀ v, after.state.lookup v = p.state.lookup v ∧ after.state.reachOf v = p.state.reachOf v) ∧
      after.state.isDead = p.state.isDead ∧
      ∀ r, r ∈ after.escaped ↔ r ∈ p.escaped ∨ reached r := by
  intro reached after
  have hlinks : ∀ q, ∀ r ∈ (p.state.deref q).references, r ∈ p.state.links :=
    fun q r hr => State.mem_links_of_deref hr
  have hroots : ∀ r, r ∈ exposed roots cx p ↔ Exposed roots cx p r := fun r => mem_exposed
  obtain ⟨found, hfound, hover⟩ := unknownCall_handsOver roots cx p
  have hreached (r : Reference) : r ∈ found ↔ reached r := hfound r
  have hover : HandsOver cx found p after := hover
  refine ⟨State.exists_search hroots hlinks, fun r hr => ?_, fun r hr => ?_, fun v => ?_, ?_,
    fun r => ?_⟩
  · split
    · rename_i hspares
      rw [hover.object, if_neg fun h => ?_]
      rw [hspares] at h
      cases h.2.1
    · rename_i hspares
      exact hover.dirty ((hreached r).mpr hr) (by simpa using hspares)
  · rw [hover.object, if_neg fun h => hr ((hreached r).mp h.1)]
  · exact ⟨hover.vars.lookup v, hover.reach.reachOf v⟩
  · exact hover.vars.dead
  · rw [← hreached]
    constructor
    · intro hr
      rcases hover.of_escaped r hr with hr | hr | ⟨q, hq, hr⟩
      · exact Or.inl hr
      · exact Or.inr hr
      · exact Or.inr ((hreached r).mpr (.link ((hreached q).mp hq) hr))
    · exact hover.escaped r

end Track

end EsOptimizer
