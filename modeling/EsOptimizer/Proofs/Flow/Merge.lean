import EsOptimizer.Proofs.Flow.Variables

/-!
# Merging, variable by variable

What each of the four merges makes of a variable. A merge goes through the changes of a child one
variable after another, and no two changes are about the same variable (`foldl_toList_at`); so it is
enough to say what it makes of one.

- `mergeBack_lookup`: the child's value, if it has one and the variable is not discarded;
- `mergeLive_lookup`: the join of what both children have;
- `mergeMaybe_lookup`: the join of what was there and what the child has;
- `mergeUnsure_current`: a value above what was there and above all that was written.

What was written before, and what the children wrote, counts as written afterwards.
-/

namespace EsOptimizer

/-- A piece of code wrote nothing to a variable. -/
structure Layer.Lacks (l : Layer) (v : VarId) : Prop where
  vars : l.vars[v]? = none
  written : l.written.vars[v]? = none

/-! ## Steps that may let references escape -/

namespace Escaping

/-- The result of a step has a property, whatever has escaped before. -/
def Gives {α : Type} (x : Escaping α) (P : α → Prop) : Prop := ∀ esc, P (x esc).1

theorem Gives.pure {α : Type} {a : α} {P : α → Prop} (h : P a) : Gives (Pure.pure a) P :=
  fun _ => h

theorem Gives.any {α : Type} (x : Escaping α) : Gives x fun _ => True := fun _ => trivial

theorem Gives.bind {α β : Type} {x : Escaping α} {f : α → Escaping β} {P : α → Prop}
    {Q : β → Prop} (hx : Gives x P) (hf : ∀ a, P a → Gives (f a) Q) : Gives (x >>= f) Q :=
  fun esc => hf _ (hx esc) _

theorem Gives.map {α β : Type} {x : Escaping α} {f : α → β} {P : α → Prop} {Q : β → Prop}
    (hx : Gives x P) (hf : ∀ a, P a → Q (f a)) : Gives (f <$> x) Q :=
  fun esc => hf _ (hx esc)

theorem gives_join (a b : Value) : Gives (join a b) (· = a.or b) := by
  intro esc
  simp only [join]
  split <;> rfl

/-- A loop whose steps do not depend on what escaped is a fold. -/
theorem Gives.loop_eq {α β : Type} {f : α → β → Escaping (ForInStep β)} {g : β → α → β}
    (h : ∀ a b, Gives (f a b) (· = .yield (g b a))) (items : List α) (b : β) :
    Gives (forIn items b f) (· = items.foldl g b) := by
  induction items generalizing b with
  | nil => exact Gives.pure rfl
  | cons a rest ih =>
    rw [List.forIn_cons]
    refine (h a b).bind fun step hstep => ?_
    rw [hstep]
    exact ih (g b a)

/-- A loop whose steps are related to where they start is related to where it starts. -/
theorem Gives.loop {α β : Type} {f : α → β → Escaping (ForInStep β)} {R : β → β → Prop}
    (hrefl : ∀ b, R b b) (htrans : ∀ {b c d}, R b c → R c d → R b d)
    (h : ∀ a b, Gives (f a b) fun step => ∃ c, step = .yield c ∧ R b c) (items : List α) (b : β) :
    Gives (forIn items b f) (R b) := by
  induction items generalizing b with
  | nil => exact Gives.pure (hrefl b)
  | cons a rest ih =>
    rw [List.forIn_cons]
    refine (h a b).bind fun step hstep => ?_
    obtain ⟨c, rfl, hbc⟩ := hstep
    exact fun esc => htrans hbc (ih c esc)

end Escaping

namespace State

open Escaping

theorem foldl_sameRest {α : Type} {f : State → α → State} (h : ∀ s a, SameRest s (f s a))
    (items : List α) (s : State) : SameRest s (items.foldl f s) := by
  induction items generalizing s with
  | nil => exact SameRest.refl s
  | cons a rest ih => exact (h s a).trans (ih _)

theorem putValue_sameRest (s : State) (v : VarId) (x : Value) : SameRest s (s.putValue v x) :=
  ⟨rfl, rfl, rfl, rfl⟩

/-! ## Code that certainly ran -/

theorem mergeBack_lookup (s : State) (scopes : ScopeTree) (delta : Layer)
    (discard : Option ScopeId) (v : VarId) : (s.mergeBack scopes delta discard).lookup v =
      if discard = some (scopes.var v).scope then s.lookup v
      else delta.vars[v]?.or (s.lookup v) := by
  unfold mergeBack
  simp only
  rw [(foldl_putVersion_sameVars _ _).lookup, (foldl_putReach_sameVars _ _).lookup,
    foldl_filter_toList_at State.lookup delta.vars (fun v => discard != some (scopes.var v).scope)
      (F := fun _ x _ => some x) (fun s e w => putValue_lookup s e.1 w e.2)]
  simp only [bne_iff_ne, ne_eq, ite_not]
  refine if_congr Iff.rfl rfl ?_
  cases delta.vars[v]? <;> rfl

theorem mergeBack_rest (s : State) (scopes : ScopeTree) (delta : Layer)
    (discard : Option ScopeId) :
    (s.mergeBack scopes delta discard).below = s.below ∧
      (s.mergeBack scopes delta discard).top.boundary = s.top.boundary ∧
      (s.mergeBack scopes delta discard).top.dead = (s.top.dead || delta.dead) ∧
      (s.mergeBack scopes delta discard).top.written.vars =
        (s.top.written.absorb delta.written).1.vars := by
  unfold mergeBack
  simp only
  have hvars (items : List (VarId × Value)) := foldl_sameRest (fun s (e : VarId × Value) =>
    putValue_sameRest s e.1 e.2) items
  refine ⟨?_, ?_, ?_, ?_⟩
  · rw [(foldl_putVersion_sameVars _ _).below, (foldl_putReach_sameVars _ _).below,
      (hvars _ _).below]
    rfl
  · rw [(foldl_putVersion_sameVars _ _).boundary, (foldl_putReach_sameVars _ _).boundary,
      (hvars _ _).boundary]
    rfl
  · rw [(foldl_putVersion_sameVars _ _).dead, (foldl_putReach_sameVars _ _).dead,
      (hvars _ _).dead]
    rfl
  · rw [(foldl_putVersion_sameVars _ _).written, (foldl_putReach_sameVars _ _).written,
      (hvars _ _).written]
    rfl

/-! ## Exactly one of two -/

/-- The value that a variable has if nothing is known but what `lookup` gives. -/
def currentOf (scopes : ScopeTree) (v : VarId) (known : Option Value) : Value :=
  (known <|> scopes.initialValue v).getD .unknown

theorem current_eq (s : State) (scopes : ScopeTree) (v : VarId) :
    s.current scopes v = currentOf scopes v (s.lookup v) := rfl

/-- Joining versions of an object leaves variables alone. -/
theorem gives_putJoined (s : State) (r : Reference) (a b : Option HeapObject) :
    Gives (do
      match ← s.joinVersions r a b with
      | some o => pure (ForInStep.yield (s.putVersion r o))
      | none => pure (ForInStep.yield s)) fun step => ∃ t, step = .yield t ∧ SameVars s t := by
  refine (Gives.any _).bind fun version _ => ?_
  cases version with
  | none => exact Gives.pure ⟨s, rfl, SameVars.refl s⟩
  | some o => exact Gives.pure ⟨_, rfl, putVersion_sameVars s r o⟩

/-- Joins what two pieces of code made of a variable. -/
def putJoin (scopes : ScopeTree) (a b : Layer) (s : State) (v : VarId) : State :=
  s.putValue v ((a.vars.getD v (s.current scopes v)).or (b.vars.getD v (s.current scopes v)))

theorem gives_mergeLive (s : State) (scopes : ScopeTree) (a b : Layer) :
    Gives (s.mergeLive scopes a b) (SameVars ((eitherKey a.vars b.vars).foldl
      (putJoin scopes a b) ((s.absorb a.written).absorb b.written))) := by
  unfold mergeLive
  refine (Gives.loop_eq (g := putJoin scopes a b) (fun v s => ?_) _ _).bind fun t ht => ?_
  · exact (gives_join _ _).bind fun x hx => Gives.pure (by rw [hx]; rfl)
  · subst ht
    refine (Gives.loop SameVars.refl SameVars.trans
      (fun r s => gives_putJoined s r _ _) _ _).bind fun u htu => ?_
    refine (Gives.loop SameVars.refl SameVars.trans (fun v s => ?_) _ _).bind fun w huw => ?_
    · exact Gives.pure ⟨_, rfl, putReach_sameVars s v _⟩
    · exact Gives.pure (htu.trans huw)

/-- A variable that one of two pieces of code changed has the join of what it has at their ends. -/
theorem mergeLive_lookup (s : State) (scopes : ScopeTree) (a b : Layer) (v : VarId) :
    Gives (s.mergeLive scopes a b) fun t => t.lookup v =
      if a.vars[v]?.isSome ∨ b.vars[v]?.isSome then
        some ((a.vars.getD v (s.current scopes v)).or (b.vars.getD v (s.current scopes v)))
      else s.lookup v := by
  intro esc
  rw [(gives_mergeLive s scopes a b esc).lookup]
  rw [foldl_eitherKey_at State.lookup a.vars b.vars
    (F := fun v known => some ((a.vars.getD v (currentOf scopes v known)).or
      (b.vars.getD v (currentOf scopes v known))))
    (fun s v w => by
      rw [putJoin, putValue_lookup]
      split
      · subst w
        rfl
      · rfl)]
  rfl

/-- The places of a state that a merge keeps, and how what was written grows. -/
structure Merged (s t : State) (parts : List Written) : Prop where
  below : t.below = s.below
  boundary : t.top.boundary = s.top.boundary
  written : Values.Below s.top.written.vars t.top.written.vars
  parts : ∀ w ∈ parts, Values.Below w.vars t.top.written.vars

theorem Merged.sameRest {s t u : State} {parts : List Written} (h : Merged s t parts)
    (htu : SameRest t u) : Merged s u parts := by
  obtain ⟨hb, hbd, hw, hp⟩ := h
  exact ⟨htu.below.trans hb, htu.boundary.trans hbd, by rw [htu.written]; exact hw,
    fun w hmem => by rw [htu.written]; exact hp w hmem⟩

theorem merged_absorb (s : State) (w : Written) : Merged s (s.absorb w) [w] := by
  obtain ⟨hkeep, hnew⟩ := Written.absorb_vars s.top.written w
  exact ⟨rfl, rfl, hkeep, fun w' hw' => by rwa [List.mem_singleton.mp hw']⟩

theorem Merged.absorb {s t : State} {parts : List Written} (h : Merged s t parts) (w : Written) :
    Merged s (t.absorb w) (w :: parts) := by
  obtain ⟨hkeep, hnew⟩ := Written.absorb_vars t.top.written w
  refine ⟨h.below, h.boundary, h.written.trans hkeep, fun w' hw' => ?_⟩
  rcases List.mem_cons.mp hw' with rfl | hw'
  · exact hnew
  · exact (h.parts w' hw').trans hkeep

theorem mergeBack_merged (s : State) (scopes : ScopeTree) (delta : Layer)
    (discard : Option ScopeId) : Merged s (s.mergeBack scopes delta discard) [delta.written] := by
  obtain ⟨hb, hbd, -, hw⟩ := mergeBack_rest s scopes delta discard
  obtain ⟨hkeep, hnew⟩ := Written.absorb_vars s.top.written delta.written
  exact ⟨hb, hbd, by rwa [hw], fun w hmem => by rwa [List.mem_singleton.mp hmem, hw]⟩

theorem mergeLive_merged (s : State) (scopes : ScopeTree) (a b : Layer) :
    Gives (s.mergeLive scopes a b) fun t =>
      Merged s t [b.written, a.written] ∧ t.top.dead = s.top.dead := by
  intro esc
  have hfold := foldl_sameRest (f := putJoin scopes a b) (fun s v => putValue_sameRest s v _)
    (eitherKey a.vars b.vars) ((s.absorb a.written).absorb b.written)
  have hrest := hfold.trans (gives_mergeLive s scopes a b esc).toSameRest
  exact ⟨((merged_absorb s a.written).absorb b.written).sameRest hrest, hrest.dead⟩

theorem mergeOr_merged (s : State) (scopes : ScopeTree) (a b : Layer) :
    Gives (s.mergeOr scopes a b) fun t => Merged s t [b.written, a.written] ∧
      t.top.dead = (s.top.dead || a.dead && b.dead) := by
  unfold mergeOr
  have hback (c d : Layer) (hd : d.dead = false) :
      Merged s ((s.absorb c.written).mergeBack scopes d none) [d.written, c.written] ∧
        ((s.absorb c.written).mergeBack scopes d none).top.dead = s.top.dead := by
    obtain ⟨hb, hbd, hdead, hw⟩ := mergeBack_rest (s.absorb c.written) scopes d none
    have hm := (merged_absorb s c.written).absorb d.written
    refine ⟨⟨hb, hbd, ?_, fun w hmem => ?_⟩, ?_⟩
    · rw [hw]
      exact hm.written
    · rw [hw]
      exact hm.parts w hmem
    · rw [hdead, hd, Bool.or_false]
      rfl
  cases ha : a.dead <;> cases hb : b.dead
  · exact fun esc => by
      obtain ⟨hm, hdead⟩ := mergeLive_merged s scopes a b esc
      exact ⟨hm, by rw [hdead]; simp⟩
  · obtain ⟨hm, hdead⟩ := hback b a ha
    refine Gives.pure ⟨⟨hm.below, hm.boundary, hm.written, fun w hw => hm.parts w ?_⟩, ?_⟩
    · exact (List.Perm.swap _ _ []).mem_iff.mp hw
    · rw [hdead]
      simp
  · obtain ⟨hm, hdead⟩ := hback a b hb
    exact Gives.pure ⟨hm, by rw [hdead]; simp⟩
  · have hm := (merged_absorb s a.written).absorb b.written
    refine Gives.pure ⟨⟨hm.below, hm.boundary, hm.written, hm.parts⟩, ?_⟩
    simp [markDead, modifyTop]

/-! ## Code that may not have run -/

/-- Joins what there was of a variable and what code made of it. -/
def putMaybe (scopes : ScopeTree) (s : State) (e : VarId × Value) : State :=
  s.putValue e.1 ((s.current scopes e.1).or e.2)

theorem gives_mergeMaybe (s : State) (scopes : ScopeTree) (delta : Layer) :
    Gives (s.mergeMaybe scopes delta) (SameVars (
      if delta.dead then s.absorb delta.written
      else delta.vars.toList.foldl (putMaybe scopes) (s.absorb delta.written))) := by
  unfold mergeMaybe
  cases hd : delta.dead
  · simp only [Bool.false_eq_true, if_false]
    refine (Gives.loop_eq (g := putMaybe scopes) (fun e s => ?_) _ _).bind fun t ht => ?_
    · obtain ⟨v, x⟩ := e
      exact (gives_join _ _).bind fun y hy => Gives.pure (by rw [hy]; rfl)
    · subst ht
      refine (Gives.loop SameVars.refl SameVars.trans (fun e s => ?_) _ _).bind fun u htu => ?_
      · exact gives_putJoined s e.1 none (some e.2)
      · refine (Gives.loop SameVars.refl SameVars.trans (fun e s => ?_) _ _).bind fun w huw => ?_
        · exact Gives.pure ⟨_, rfl, putReach_sameVars s e.1 _⟩
        · exact Gives.pure (htu.trans huw)
  · exact Gives.pure (SameVars.refl _)

theorem mergeMaybe_lookup (s : State) (scopes : ScopeTree) (delta : Layer) (v : VarId) :
    Gives (s.mergeMaybe scopes delta) fun t => t.lookup v =
      if delta.dead then s.lookup v
      else (delta.vars[v]?.map (s.current scopes v).or).or (s.lookup v) := by
  intro esc
  rw [(gives_mergeMaybe s scopes delta esc).lookup]
  split
  · rfl
  · rw [foldl_toList_at State.lookup delta.vars (F := fun v x known => some ((currentOf scopes v known).or x))
      (fun s e w => by
        rw [putMaybe, putValue_lookup]
        split
        · subst w
          rfl
        · rfl)]
    cases delta.vars[v]? <;> rfl

theorem mergeMaybe_merged (s : State) (scopes : ScopeTree) (delta : Layer) :
    Gives (s.mergeMaybe scopes delta) fun t =>
      Merged s t [delta.written] ∧ t.top.dead = s.top.dead := by
  intro esc
  have h := (gives_mergeMaybe s scopes delta esc).toSameRest
  split at h
  · exact ⟨(merged_absorb s delta.written).sameRest h, h.dead⟩
  · have hfold := foldl_sameRest (f := putMaybe scopes) (fun s e => putValue_sameRest s e.1 _)
      delta.vars.toList (s.absorb delta.written)
    have hrest := hfold.trans h
    exact ⟨(merged_absorb s delta.written).sameRest hrest, hrest.dead⟩

/-! ## Code that may have stopped anywhere -/

/-- Joins what there was of a variable and all that code wrote to it, unless that changes nothing. -/
def putUnsure (scopes : ScopeTree) (s : State) (e : VarId × Value) : State :=
  if (s.current scopes e.1).or e.2 != s.current scopes e.1 || (s.lookup e.1).isNone then
    s.putValue e.1 ((s.current scopes e.1).or e.2)
  else s

theorem putUnsure_sameRest (scopes : ScopeTree) (s : State) (e : VarId × Value) :
    SameRest s (putUnsure scopes s e) := by
  unfold putUnsure
  split
  · exact putValue_sameRest s _ _
  · exact SameRest.refl s

theorem gives_mergeUnsure (s : State) (scopes : ScopeTree) (w : Written) :
    Gives (s.mergeUnsure scopes w) fun t =>
      ∃ u, SameVars (w.vars.toList.foldl (putUnsure scopes) s) u ∧ t = u.absorb w := by
  unfold mergeUnsure
  refine (Gives.loop_eq (g := putUnsure scopes) (fun e s => ?_) _ _).bind fun t ht => ?_
  · refine (gives_join _ _).bind fun x hx => ?_
    subst hx
    unfold putUnsure
    split
    · exact Gives.pure rfl
    · exact Gives.pure rfl
  · subst ht
    refine (Gives.loop SameVars.refl SameVars.trans (fun e s => ?_) _ _).bind fun u htu => ?_
    · refine (Gives.any _).bind fun version _ => ?_
      cases version with
      | none => exact Gives.pure ⟨s, rfl, SameVars.refl s⟩
      | some o =>
        simp only
        split
        · exact Gives.pure ⟨_, rfl, putVersion_sameVars s e.1 o⟩
        · exact Gives.pure ⟨s, rfl, SameVars.refl s⟩
    · refine (Gives.loop SameVars.refl SameVars.trans (fun e s => ?_) _ _).bind fun v huv => ?_
      · simp only
        split
        · exact Gives.pure ⟨_, rfl, putReach_sameVars s e.1 _⟩
        · exact Gives.pure ⟨s, rfl, SameVars.refl s⟩
      · exact Gives.pure ⟨v, htu.trans huv, rfl⟩

/-- A variable that was written has the join of what it had and of all that was written, unless that
changes nothing; others stay as they are. -/
theorem mergeUnsure_lookup (s : State) (scopes : ScopeTree) (w : Written) (v : VarId) :
    Gives (s.mergeUnsure scopes w) fun t => t.lookup v =
      match w.vars[v]? with
      | none => s.lookup v
      | some x =>
        if (s.current scopes v).or x != s.current scopes v || (s.lookup v).isNone then
          some ((s.current scopes v).or x)
        else s.lookup v := by
  intro esc
  obtain ⟨u, hu, ht⟩ := gives_mergeUnsure s scopes w esc
  rw [ht, absorb_lookup, hu.lookup]
  rw [foldl_toList_at State.lookup w.vars
    (F := fun v x known =>
      if (currentOf scopes v known).or x != currentOf scopes v known || known.isNone then
        some ((currentOf scopes v known).or x)
      else known)
    (fun s e w => by
      unfold putUnsure
      by_cases hew : e.1 = w
      · subst hew
        rw [if_pos rfl, ← current_eq]
        split
        · rw [putValue_lookup, if_pos rfl]
        · rfl
      · rw [if_neg hew]
        split
        · rw [putValue_lookup, if_neg hew]
        · rfl)]
  cases w.vars[v]? <;> rfl

/-- A variable that was written has a value above what it had and above what was written; others stay
as they are. -/
theorem mergeUnsure_current (s : State) (scopes : ScopeTree) (w : Written) (v : VarId) :
    Gives (s.mergeUnsure scopes w) fun t =>
      (s.current scopes v).Below (t.current scopes v) ∧
        (∀ x, w.vars[v]? = some x → x.Below (t.current scopes v)) ∧
        (w.vars[v]? = none → t.lookup v = s.lookup v) := by
  intro esc
  have hlookup := mergeUnsure_lookup s scopes w v esc
  set t := (s.mergeUnsure scopes w esc).1
  cases hx : w.vars[v]? with
  | none =>
    rw [hx] at hlookup
    rw [current_congr scopes hlookup]
    exact ⟨Value.Below.refl _, fun x hx => (by cases hx), fun _ => hlookup⟩
  | some x =>
    rw [hx] at hlookup
    simp only at hlookup
    split at hlookup
    · rw [current_of_lookup scopes hlookup]
      refine ⟨Value.below_or_left _ _, fun y hy => ?_, fun h => by cases h⟩
      cases hy
      exact Value.below_or_right _ _
    · rename_i hkeep
      have hbeq : ((s.current scopes v).or x == s.current scopes v) = true := by
        have hne := (Bool.or_eq_false_iff.mp (Bool.eq_false_iff.mpr hkeep)).1
        rw [bne, Bool.not_eq_false'] at hne
        exact hne
      rw [current_congr scopes hlookup]
      refine ⟨Value.Below.refl _, fun y hy => ?_, fun h => by cases h⟩
      cases hy
      exact fun q hq => (Value.holds_iff_of_beq hbeq q).mp hq.or_right

theorem mergeUnsure_merged (s : State) (scopes : ScopeTree) (w : Written) :
    Gives (s.mergeUnsure scopes w) fun t => Merged s t [w] ∧ t.top.dead = s.top.dead := by
  intro esc
  obtain ⟨u, hu, ht⟩ := gives_mergeUnsure s scopes w esc
  have hrest : SameRest s u :=
    (foldl_sameRest (putUnsure_sameRest scopes) w.vars.toList s).trans hu.toSameRest
  obtain ⟨hkeep, hnew⟩ := Written.absorb_vars u.top.written w
  rw [ht]
  refine ⟨⟨hrest.below, hrest.boundary, ?_, fun w' hw' => ?_⟩, hrest.dead⟩
  · rw [← hrest.written]
    exact hkeep
  · rw [List.mem_singleton.mp hw']
    exact hnew

/-! ## Values after a merge -/

theorem current_withLayer {s : State} {delta : Layer} (h : delta.boundary = none) (scopes : ScopeTree)
    (v : VarId) : (s.withLayer delta).current scopes v = delta.vars.getD v (s.current scopes v) := by
  rw [current_eq, lookup_withLayer h, Std.TreeMap.getD_eq_getD_getElem?]
  cases delta.vars[v]? <;> rfl

/-- Code that certainly ran: what is known of a variable that stays in scope is what the code knows
at its end. -/
theorem mergeBack_current (s : State) {scopes : ScopeTree} {delta : Layer}
    (hb : delta.boundary = none) {discard : Option ScopeId} {v : VarId}
    (h : discard ≠ some (scopes.var v).scope) :
    (s.mergeBack scopes delta discard).current scopes v = (s.withLayer delta).current scopes v := by
  rw [current_eq, mergeBack_lookup, if_neg h, current_eq, lookup_withLayer hb]

/-- Either of two pieces of code, if it comes to its end, knows no more than is known afterwards. -/
theorem mergeOr_current (s : State) (scopes : ScopeTree) {a b : Layer} (ha : a.boundary = none)
    (hb : b.boundary = none) (v : VarId) :
    Gives (s.mergeOr scopes a b) fun t =>
      (a.dead = false → ((s.withLayer a).current scopes v).Below (t.current scopes v)) ∧
        (b.dead = false → ((s.withLayer b).current scopes v).Below (t.current scopes v)) := by
  have hback (c d : Layer) (hd : d.boundary = none) :
      ((s.absorb c.written).mergeBack scopes d none).current scopes v =
        (s.withLayer d).current scopes v := by
    rw [mergeBack_current _ hd (by simp), current_withLayer hd, current_withLayer hd]
    rfl
  unfold mergeOr
  cases hda : a.dead <;> cases hdb : b.dead
  · intro esc
    have hlookup := mergeLive_lookup s scopes a b v esc
    set t := ((s.mergeLive scopes a b) esc).1
    have hcurrent : t.current scopes v =
        (if a.vars[v]?.isSome ∨ b.vars[v]?.isSome then
          ((s.withLayer a).current scopes v).or ((s.withLayer b).current scopes v)
        else s.current scopes v) := by
      rw [current_eq, hlookup, current_withLayer ha, current_withLayer hb]
      split <;> rfl
    rw [hcurrent]
    split
    · exact ⟨fun _ => Value.below_or_left _ _, fun _ => Value.below_or_right _ _⟩
    · rename_i hnone
      obtain ⟨hna, hnb⟩ := not_or.mp hnone
      rw [current_withLayer ha, current_withLayer hb, Std.TreeMap.getD_eq_getD_getElem?,
        Std.TreeMap.getD_eq_getD_getElem?, Option.not_isSome_iff_eq_none.mp hna,
        Option.not_isSome_iff_eq_none.mp hnb]
      exact ⟨fun _ => Value.Below.refl _, fun _ => Value.Below.refl _⟩
  · refine Gives.pure ⟨fun _ => ?_, fun h => by cases h⟩
    rw [hback b a ha]
    exact Value.Below.refl _
  · refine Gives.pure ⟨fun h => (by cases h), fun _ => ?_⟩
    rw [hback a b hb]
    exact Value.Below.refl _
  · exact Gives.pure ⟨fun h => (by cases h), fun h => by cases h⟩

/-- Code that may not have run, and the code before it, know no more than is known afterwards. -/
theorem mergeMaybe_current (s : State) (scopes : ScopeTree) {delta : Layer}
    (hb : delta.boundary = none) (v : VarId) :
    Gives (s.mergeMaybe scopes delta) fun t =>
      (s.current scopes v).Below (t.current scopes v) ∧
        (delta.dead = false → ((s.withLayer delta).current scopes v).Below (t.current scopes v)) := by
  intro esc
  have hlookup := mergeMaybe_lookup s scopes delta v esc
  set t := ((s.mergeMaybe scopes delta) esc).1
  rw [current_eq t, hlookup, current_withLayer hb, Std.TreeMap.getD_eq_getD_getElem?]
  cases hd : delta.dead with
  | true => exact ⟨Value.Below.refl _, fun h => by cases h⟩
  | false =>
    rw [if_neg Bool.false_ne_true]
    cases hx : delta.vars[v]? with
    | none => exact ⟨Value.Below.refl _, fun _ => Value.Below.refl _⟩
    | some x => exact ⟨Value.below_or_left _ _, fun _ => Value.below_or_right _ _⟩

/-! ## Variables that no code wrote -/

/-- What the top layer has of a variable is the same in both states. -/
structure Untouched (v : VarId) (s t : State) : Prop where
  vars : t.top.vars[v]? = s.top.vars[v]?
  written : t.top.written.vars[v]? = s.top.written.vars[v]?

namespace Untouched

theorem refl (v : VarId) (s : State) : Untouched v s s := ⟨rfl, rfl⟩

theorem trans {v : VarId} {s t u : State} (hst : Untouched v s t) (htu : Untouched v t u) :
    Untouched v s u :=
  ⟨htu.vars.trans hst.vars, htu.written.trans hst.written⟩

theorem foldl {α : Type} {v : VarId} {f : State → α → State} {items : List α}
    (h : ∀ a ∈ items, ∀ s, Untouched v s (f s a)) (s : State) :
    Untouched v s (items.foldl f s) := by
  induction items generalizing s with
  | nil => exact refl v s
  | cons a rest ih =>
    exact (h a List.mem_cons_self s).trans (ih (fun b hb => h b (List.mem_cons_of_mem _ hb)) _)

end Untouched

theorem SameVars.untouched {s t : State} (h : SameVars s t) (v : VarId) : Untouched v s t :=
  ⟨by rw [h.vars], by rw [h.written]⟩

theorem putValue_untouched (s : State) {u v : VarId} (x : Value) (h : u ≠ v) :
    Untouched v s (s.putValue u x) :=
  ⟨Values.getElem?_insert_nat.trans (if_neg h), rfl⟩

theorem setValue_untouched (s : State) {u v : VarId} (x : Value) (h : u ≠ v) :
    Untouched v s (s.setValue u x) :=
  ⟨Values.getElem?_insert_nat.trans (if_neg h), Written.addValue_of_ne _ x h⟩

theorem absorb_untouched (s : State) {v : VarId} {w : Written} (h : w.vars[v]? = none) :
    Untouched v s (s.absorb w) :=
  ⟨rfl, Written.absorb_of_none _ w h⟩

theorem ne_of_mem_toList {m : Values} {v : VarId} (h : m[v]? = none) {e : VarId × Value}
    (he : e ∈ m.toList) : e.1 ≠ v := by
  intro hev
  rw [← hev, Values.mem_toList.mp he] at h
  cases h

theorem mergeBack_untouched (s : State) (scopes : ScopeTree) {delta : Layer}
    (discard : Option ScopeId) {v : VarId} (h : delta.Lacks v) :
    Untouched v s (s.mergeBack scopes delta discard) := by
  unfold mergeBack
  simp only
  refine Untouched.trans ?_ ((foldl_putVersion_sameVars _ _).untouched v)
  refine Untouched.trans ?_ ((foldl_putReach_sameVars _ _).untouched v)
  have hdead : Untouched v (s.absorb delta.written)
      ((s.absorb delta.written).modifyTop fun l => { l with dead := l.dead || delta.dead }) :=
    ⟨rfl, rfl⟩
  refine (absorb_untouched s h.written).trans (hdead.trans ?_)
  refine Untouched.foldl (fun (e : VarId × Value) he s => ?_) _
  exact putValue_untouched s e.2 (ne_of_mem_toList h.vars (List.mem_filter.mp he).1)

theorem mergeLive_untouched (s : State) (scopes : ScopeTree) {a b : Layer} {v : VarId}
    (ha : a.Lacks v) (hb : b.Lacks v) : Gives (s.mergeLive scopes a b) (Untouched v s) := by
  intro esc
  refine Untouched.trans ?_ ((gives_mergeLive s scopes a b esc).untouched v)
  refine ((absorb_untouched s ha.written).trans (absorb_untouched _ hb.written)).trans ?_
  refine Untouched.foldl (fun u hu s => putValue_untouched s _ ?_) _
  rintro rfl
  rcases mem_eitherKey.mp hu with h | h
  · rw [ha.vars] at h
    cases h
  · rw [hb.vars] at h
    cases h

theorem mergeOr_untouched (s : State) (scopes : ScopeTree) {a b : Layer} {v : VarId}
    (ha : a.Lacks v) (hb : b.Lacks v) : Gives (s.mergeOr scopes a b) (Untouched v s) := by
  unfold mergeOr
  split
  · refine Gives.pure (Untouched.trans (t := (s.absorb a.written).absorb b.written) ?_ ⟨rfl, rfl⟩)
    exact (absorb_untouched s ha.written).trans (absorb_untouched _ hb.written)
  · exact Gives.pure ((absorb_untouched s ha.written).trans (mergeBack_untouched _ scopes none hb))
  · exact Gives.pure ((absorb_untouched s hb.written).trans (mergeBack_untouched _ scopes none ha))
  · exact mergeLive_untouched s scopes ha hb

theorem mergeMaybe_untouched (s : State) (scopes : ScopeTree) {delta : Layer} {v : VarId}
    (h : delta.Lacks v) : Gives (s.mergeMaybe scopes delta) (Untouched v s) := by
  intro esc
  refine Untouched.trans ?_ ((gives_mergeMaybe s scopes delta esc).untouched v)
  split
  · exact absorb_untouched s h.written
  · refine (absorb_untouched s h.written).trans (Untouched.foldl (fun e he s => ?_) _)
    exact putValue_untouched s _ (ne_of_mem_toList h.vars he)

theorem mergeUnsure_untouched (s : State) (scopes : ScopeTree) {w : Written} {v : VarId}
    (h : w.vars[v]? = none) : Gives (s.mergeUnsure scopes w) (Untouched v s) := by
  intro esc
  obtain ⟨u, hu, ht⟩ := gives_mergeUnsure s scopes w esc
  rw [ht]
  refine Untouched.trans ?_ (absorb_untouched u h)
  refine Untouched.trans ?_ (hu.untouched v)
  refine Untouched.foldl (fun e he s => ?_) _
  unfold putUnsure
  split
  · exact putValue_untouched s _ (ne_of_mem_toList h he)
  · exact Untouched.refl v s

end State

end EsOptimizer
