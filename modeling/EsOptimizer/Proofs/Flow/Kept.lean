import EsOptimizer.Proofs.Flow.Stores

/-!
# References that merges keep

Unknown code may change every object that it can get hold of, so the analysis must not forget who
holds a reference. A merge may: the join of two values may be `unknown`, and the join of two versions
gives up properties. `State.Keeps` says that nothing is forgotten all the same. What a variable or an
object refers to before, it refers to afterwards, or the reference has escaped.

- `mergeOr_keeps`: both pieces of code, if they come to their end;
- `mergeMaybe_keeps`: the code before, and the code that may have run, if it comes to its end;
- `mergeUnsure_keeps`: the code before, and the union of all that was written.

Code that may have stopped anywhere is merged through that union, in which values and versions are
joined while the code is followed, and then nothing escapes. So of what such code stored, a reference
is kept unless the union lost it (`Acts.unsure_keeps`, `Acts.loop_keeps`). From the variable that it
was stored in it may be reached in any case, and what may be reached from a variable stays so until
code sets the variable (`During.mem_reachOf`).
-/

namespace EsOptimizer

/-! ## References of joins -/

namespace Value

/-- The references of a value are those that it holds, unless it may be anything. -/
theorem mem_references_iff {v : Value} {r : Reference} :
    r ∈ v.references ↔ v ≠ unknown ∧ v.Holds (.reference r) := by
  have hmem : r ∈ v.references ↔ v.Has (.reference r) := by
    simp only [references, Has, members, Single.contains_iff, List.mem_filterMap]
    constructor
    · rintro ⟨s, hs, hr⟩
      cases s with
      | primitive p => cases hr
      | reference q =>
        cases hr
        exact ⟨_, hs, BEq.rfl⟩
    · rintro ⟨s, hs, hr⟩
      cases s with
      | primitive p => cases hr
      | reference q =>
        rw [Single.reference_beq, beq_iff_eq] at hr
        exact ⟨_, hs, congrArg some hr.symm⟩
  rw [hmem]
  by_cases hv : v = unknown
  · rw [hv]
    simp [Has, members, singles?]
  · simp [hv, holds_iff_has hv]

theorem mem_references_congr {v w : Value} (h : (v == w) = true) {r : Reference} :
    r ∈ v.references ↔ r ∈ w.references := by
  rw [mem_references_iff, mem_references_iff, ne_eq, ne_eq, eq_unknown_congr h, holds_iff_of_beq h]

/-- A greater value has all references of a smaller one, unless it may be anything. -/
theorem Below.mem_references {v w : Value} (h : v.Below w) (hw : w ≠ unknown) {r : Reference}
    (hr : r ∈ v.references) : r ∈ w.references :=
  mem_references_iff.mpr ⟨hw, h _ (mem_references_iff.mp hr).2⟩

/-- A reference that the join of two values no longer has. -/
def Lost (a b : Value) (r : Reference) : Prop :=
  (r ∈ a.references ∨ r ∈ b.references) ∧ r ∉ (a.or b).references

end Value

namespace Descriptor

theorem mem_references_of_beq {d e : Descriptor} (h : (d == e) = true) {r : Reference}
    (hr : r ∈ d.references) : r ∈ e.references := by
  obtain ⟨⟨-, hde⟩, ⟨-, hed⟩⟩ := beq_iff_below.mp h
  unfold references at hr ⊢
  cases hd : d.content with
  | data x =>
    cases he : e.content with
    | data y =>
      rw [hd, he] at hde hed
      rw [hd] at hr
      exact (Value.mem_references_congr (Value.beq_iff_below.mpr ⟨hde, hed⟩)).mp hr
    | accessor get set =>
      rw [hd, he] at hde
      exact hde.elim
  | accessor get set =>
    cases he : e.content with
    | data y =>
      rw [hd, he] at hde
      exact hde.elim
    | accessor get' set' =>
      rw [hd, he] at hde
      rw [hd, hde.1, hde.2] at hr
      exact hr

end Descriptor

namespace HeapObject

theorem mem_references_iff {o : HeapObject} {r : Reference} : r ∈ o.references ↔
    o.proto = some r ∨ ∃ name d, o.get? name = some d ∧ r ∈ d.references := by
  rw [references, List.mem_append, Option.mem_toList, List.mem_flatMap]
  refine or_congr Iff.rfl ⟨?_, ?_⟩
  · rintro ⟨p, hp, hr⟩
    exact ⟨p.1, p.2, (Properties.lookup_eq_some_iff o.distinct).mpr hp, hr⟩
  · rintro ⟨name, d, hd, hr⟩
    exact ⟨(name, d), (Properties.lookup_eq_some_iff o.distinct).mp hd, hr⟩

theorem mem_references_of_beq {a b : HeapObject} (h : (a == b) = true) {r : Reference}
    (hr : r ∈ a.references) : r ∈ b.references := by
  obtain ⟨hproto, hget, -⟩ := beq_iff.mp (PartialEquivBEq.symm h)
  rcases mem_references_iff.mp hr with hp | ⟨name, d, hd, hr⟩
  · exact mem_references_iff.mpr (Or.inl (hproto ▸ hp))
  · obtain ⟨e, he, hde⟩ := Written.some_of_beq (hget name) hd
    exact mem_references_iff.mpr (Or.inr ⟨name, e, he, Descriptor.mem_references_of_beq hde hr⟩)

/-- A reference that the join of two versions no longer has. -/
def Lost (a b : HeapObject) (r : Reference) : Prop :=
  (r ∈ a.references ∨ r ∈ b.references) ∧ r ∉ (a.or b).references

end HeapObject

/-! ## What escapes -/

namespace Escaping

/-- What has escaped before a step has escaped afterwards, and so have the references in `E`. -/
def Releases {α : Type} (x : Escaping α) (E : Reference → Prop) : Prop :=
  ∀ (esc : RefSet) (r : Reference), r ∈ esc ∨ E r → r ∈ (x esc).2

theorem Releases.pure {α : Type} (a : α) : Releases (Pure.pure a) fun _ => False :=
  fun _ _ hr => hr.elim id False.elim

theorem Releases.imp {α : Type} {x : Escaping α} {E F : Reference → Prop} (h : Releases x E)
    (hFE : ∀ r, F r → E r) : Releases x F :=
  fun esc r hr => h esc r (hr.imp id (hFE r))

theorem Releases.bind {α β : Type} {x : Escaping α} {f : α → Escaping β} {P : α → Prop}
    {E F : Reference → Prop} (hx : Releases x E) (hP : Gives x P)
    (hf : ∀ a, P a → Releases (f a) F) : Releases (x >>= f) fun r => E r ∨ F r := by
  rintro esc r (hr | hr | hr)
  · exact hf _ (hP esc) _ r (Or.inl (hx esc r (Or.inl hr)))
  · exact hf _ (hP esc) _ r (Or.inl (hx esc r (Or.inr hr)))
  · exact hf _ (hP esc) _ r (Or.inr hr)

/-- A step behind which nothing escapes. -/
theorem Releases.then_pure {α β : Type} {x : Escaping α} {f : α → Escaping β} {E : Reference → Prop}
    (hx : Releases x E) (hf : ∀ a, Releases (f a) fun _ => False) : Releases (x >>= f) E :=
  (hx.bind (Gives.any x) fun a _ => hf a).imp fun _ => Or.inl

theorem releases_escape (refs : List Reference) : Releases (escape refs) (· ∈ refs) :=
  fun _ _ hr => RefSet.mem_extend.mpr hr

theorem releases_join (a b : Value) : Releases (join a b) (Value.Lost a b) := by
  unfold join
  dsimp only
  split
  · refine ((releases_escape a.references).bind (Gives.any _) fun _ _ =>
      (releases_escape b.references).then_pure fun _ => Releases.pure _).imp fun r hr => hr.1
  · rename_i hknown
    refine (Releases.pure (a.or b)).imp fun r hr => hr.2 ?_
    have hne : a.or b ≠ .unknown := fun h => hknown (by rw [h]; rfl)
    exact hr.1.elim ((Value.below_or_left a b).mem_references hne)
      ((Value.below_or_right a b).mem_references hne)

theorem releases_joinObjects (a b : HeapObject) :
    Releases (joinObjects a b) (HeapObject.Lost a b) := by
  unfold joinObjects
  refine ((releases_escape _).then_pure fun _ => Releases.pure _).imp fun r hr => ?_
  rw [List.mem_filter, List.mem_append, Bool.not_eq_true', ← Bool.not_eq_true,
    Std.TreeSet.contains_iff_mem, RefSet.mem_ofList]
  exact hr

/-- A reference that is lost where two versions are joined. One that is missing takes nothing away. -/
def LostVersion (x y : Option HeapObject) (r : Reference) : Prop :=
  ∃ a b, x = some a ∧ y = some b ∧ HeapObject.Lost a b r

theorem releases_joinVersions (s : State) (q : Reference) (x y : Option HeapObject) :
    Releases (s.joinVersions q x y) (LostVersion (x <|> s.object? q) (y <|> s.object? q)) := by
  unfold State.joinVersions
  split
  · rename_i a b ha hb
    refine ((releases_joinObjects a b).then_pure fun _ => Releases.pure _).imp ?_
    rintro r ⟨a', b', ha', hb', hr⟩
    cases ha.symm.trans ha'
    cases hb.symm.trans hb'
    exact hr
  · rename_i hb
    refine (Releases.pure _).imp ?_
    rintro r ⟨a', b', -, hb', -⟩
    cases hb.symm.trans hb'
  · rename_i ha _
    refine (Releases.pure _).imp ?_
    rintro r ⟨a', b', ha', -, -⟩
    cases ha.symm.trans ha'
  · rename_i ha _
    refine (Releases.pure _).imp ?_
    rintro r ⟨a', b', ha', -, -⟩
    cases ha.symm.trans ha'

/-- A loop over distinct keys. Each step finds at its own key what was there before the loop, and what
it releases there has escaped at the end. -/
theorem Releases.loop {α σ κ β : Type} (seen : σ → κ → β) (key : α → κ)
    {f : α → σ → Escaping (ForInStep σ)} {E : α → β → Reference → Prop}
    (hE : ∀ a s, Releases (f a s) (E a (seen s (key a))))
    (hf : ∀ a s, Gives (f a s) fun step =>
      ∃ t, step = .yield t ∧ ∀ k, k ≠ key a → seen t k = seen s k)
    {items : List α} (hd : (items.map key).Nodup) (s : σ) :
    Releases (forIn items s f) fun r => ∃ a ∈ items, E a (seen s (key a)) r := by
  induction items generalizing s with
  | nil => exact (Releases.pure s).imp fun r ⟨a, ha, _⟩ => nomatch ha
  | cons a rest ih =>
    rw [List.map_cons, List.nodup_cons] at hd
    rw [List.forIn_cons]
    refine Releases.imp (E := fun r => E a (seen s (key a)) r ∨ ∃ b ∈ rest, E b (seen s (key b)) r)
      ((hE a s).bind (hf a s) ?_) ?_
    · rintro _ ⟨t, rfl, ht⟩
      refine (ih hd.2 t).imp ?_
      rintro r ⟨b, hb, hr⟩
      have hne : key b ≠ key a := fun heq => hd.1 (heq ▸ List.mem_map_of_mem hb)
      exact ⟨b, hb, by rwa [ht _ hne]⟩
    · rintro r ⟨b, hb, hr⟩
      rcases List.mem_cons.mp hb with rfl | hb
      · exact Or.inl hr
      · exact Or.inr ⟨b, hb, hr⟩

/-- A loop in whose steps nothing escapes. -/
theorem Releases.loop_pure {α σ : Type} {f : α → σ → Escaping (ForInStep σ)}
    (h : ∀ a s, ∃ t, f a s = Pure.pure (.yield t)) (items : List α) (s : σ) :
    Releases (forIn items s f) fun _ => False := by
  induction items generalizing s with
  | nil => exact Releases.pure s
  | cons a rest ih =>
    obtain ⟨t, ht⟩ := h a s
    rw [List.forIn_cons, ht, pure_bind]
    exact ih t

end Escaping

/-- All that was written, as if all of it were in force. -/
def Written.layer (w : Written) : Layer := { vars := w.vars, heap := w.heap }

namespace State

open Escaping

variable {scopes : ScopeTree} {s t : State}

/-- What a variable or an object refers to in `s`, it refers to in `t`, or the reference has escaped. -/
structure Keeps (scopes : ScopeTree) (s t : State) (esc : RefSet) : Prop where
  value : ∀ v, ∀ r ∈ (s.current scopes v).references, r ∈ (t.current scopes v).references ∨ r ∈ esc
  version : ∀ q, ∀ r ∈ (s.deref q).references, r ∈ (t.deref q).references ∨ r ∈ esc

/-- Joining versions of an object releases what is lost. -/
theorem releases_putJoined (s : State) (q : Reference) (x y : Option HeapObject) :
    Releases (do
      match ← s.joinVersions q x y with
      | some o => pure (ForInStep.yield (s.putVersion q o))
      | none => pure (ForInStep.yield s))
      (LostVersion (x <|> s.object? q) (y <|> s.object? q)) :=
  (releases_joinVersions s q x y).then_pure fun version => by
    cases version <;> exact Releases.pure _

/-- Joining versions of an object leaves other objects alone. -/
theorem gives_putJoined_object (s : State) (q : Reference) (x y : Option HeapObject) :
    Gives (do
      match ← s.joinVersions q x y with
      | some o => pure (ForInStep.yield (s.putVersion q o))
      | none => pure (ForInStep.yield s)) fun step =>
        ∃ t, step = .yield t ∧ ∀ k, k ≠ q → t.object? k = s.object? k := by
  refine (Gives.any _).bind fun version _ => ?_
  cases version with
  | none => exact Gives.pure ⟨s, rfl, fun _ _ => rfl⟩
  | some o =>
    exact Gives.pure ⟨_, rfl, fun k hk => (putVersion_object s q k o).trans (if_neg (Ne.symm hk))⟩

theorem putValue_current (s : State) (scopes : ScopeTree) {v w : VarId} (x : Value) (h : w ≠ v) :
    (s.putValue v x).current scopes w = s.current scopes w :=
  current_congr scopes ((putValue_lookup s v w x).trans (if_neg (Ne.symm h)))

/-! ## Exactly one of two -/

theorem releases_mergeLive (s : State) (scopes : ScopeTree) (a b : Layer) :
    Releases (s.mergeLive scopes a b) fun r =>
      (∃ v ∈ eitherKey a.vars b.vars, Value.Lost (a.vars.getD v (s.current scopes v))
        (b.vars.getD v (s.current scopes v)) r) ∨
      ∃ q ∈ eitherKey a.heap b.heap,
        LostVersion (a.heap[q]? <|> s.object? q) (b.heap[q]? <|> s.object? q) r := by
  unfold mergeLive
  refine Releases.bind (P := SameObjects ((s.absorb a.written).absorb b.written))
    (Releases.loop (E := fun v before => Value.Lost (a.vars.getD v before) (b.vars.getD v before))
      (fun s v => State.current s scopes v) id (fun v s => ?_) (fun v s => ?_) ?_ _)
    (Gives.loop SameObjects.refl SameObjects.trans (fun v s => ?_) _ _) fun u hu => ?_
  · exact (releases_join _ _).then_pure fun _ => Releases.pure _
  · exact (Gives.any _).bind fun x _ =>
      Gives.pure ⟨_, rfl, fun w hw => putValue_current s scopes x hw⟩
  · rw [List.map_id]
    exact nodup_eitherKey _ _
  · exact (Gives.any _).bind fun x _ => Gives.pure ⟨_, rfl, putValue_sameObjects s v x⟩
  · have hobject (q : Reference) : u.object? q = s.object? q := hu.object? q
    simp only [← hobject]
    refine (Releases.loop
      (E := fun q known => LostVersion (a.heap[q]? <|> known) (b.heap[q]? <|> known))
      State.object? id (fun q s => releases_putJoined s q _ _)
      (fun q s => gives_putJoined_object s q _ _) ?_ _).then_pure fun w => ?_
    · rw [List.map_id]
      exact nodup_eitherKey _ _
    · exact (Releases.loop_pure (fun _ _ => ⟨_, rfl⟩) _ _).then_pure fun _ => Releases.pure _

/-- A reference that the value of a variable has at the end of either piece of code. -/
theorem mergeLive_value (s : State) (scopes : ScopeTree) {a b : Layer} (ha : a.boundary = none)
    (hb : b.boundary = none) (esc : RefSet) {v : VarId} {r : Reference}
    (hr : r ∈ ((s.withLayer a).current scopes v).references ∨
      r ∈ ((s.withLayer b).current scopes v).references) :
    r ∈ ((s.mergeLive scopes a b esc).1.current scopes v).references ∨
      r ∈ (s.mergeLive scopes a b esc).2 := by
  have hlookup := mergeLive_lookup s scopes a b v esc
  rw [current_withLayer ha, current_withLayer hb] at hr
  by_cases hset : a.vars[v]?.isSome ∨ b.vars[v]?.isSome
  · rw [if_pos hset] at hlookup
    rw [current_of_lookup scopes hlookup]
    refine or_iff_not_imp_left.mpr fun hlost => ?_
    exact releases_mergeLive s scopes a b esc r
      (Or.inr (Or.inl ⟨v, mem_eitherKey.mpr hset, hr, hlost⟩))
  · rw [if_neg hset] at hlookup
    obtain ⟨hna, hnb⟩ := not_or.mp hset
    rw [Std.TreeMap.getD_eq_getD_getElem?, Std.TreeMap.getD_eq_getD_getElem?,
      Option.not_isSome_iff_eq_none.mp hna, Option.not_isSome_iff_eq_none.mp hnb] at hr
    rw [current_congr scopes hlookup]
    exact Or.inl (hr.elim id id)

theorem mem_references_deref {s : State} {q r : Reference} :
    r ∈ (s.deref q).references ↔ ∃ o, s.object? q = some o ∧ r ∈ o.references := by
  rw [deref]
  cases s.object? q with
  | none => simp [HeapObject.references, HeapObject.unknown]
  | some o => simp

/-- What either of two versions refers to, their join refers to unless it is lost. -/
theorem mem_references_joinVersion {x y : Option HeapObject} {r : Reference}
    (hr : (∃ o, x = some o ∧ r ∈ o.references) ∨ ∃ o, y = some o ∧ r ∈ o.references) :
    (∃ o, joinVersion x y = some o ∧ r ∈ o.references) ∨ LostVersion x y r := by
  cases x with
  | none =>
    rcases hr with ⟨o, ho, -⟩ | ⟨o, rfl, hr⟩
    · cases ho
    · exact Or.inl ⟨o, rfl, hr⟩
  | some a =>
    cases y with
    | none =>
      rcases hr with ⟨o, ho, hr⟩ | ⟨o, ho, -⟩
      · exact Or.inl ⟨o, ho, hr⟩
      · cases ho
    | some b =>
      have hparts : r ∈ a.references ∨ r ∈ b.references := by simpa using hr
      by_cases hkept : r ∈ (a.or b).references
      · exact Or.inl ⟨_, rfl, hkept⟩
      · exact Or.inr ⟨a, b, rfl, rfl, hparts, hkept⟩

/-- A reference that an object has at the end of either piece of code. -/
theorem mergeLive_version (s : State) (scopes : ScopeTree) {a b : Layer} (ha : a.boundary = none)
    (hb : b.boundary = none) (esc : RefSet) {q r : Reference}
    (hr : r ∈ ((s.withLayer a).deref q).references ∨ r ∈ ((s.withLayer b).deref q).references) :
    r ∈ ((s.mergeLive scopes a b esc).1.deref q).references ∨ r ∈ (s.mergeLive scopes a b esc).2 := by
  have hobject := mergeLive_object s scopes ha hb q esc
  simp only [mem_references_deref] at hr ⊢
  rw [hobject]
  refine (mem_references_joinVersion hr).imp id fun hlost => ?_
  rw [object?_withLayer ha, object?_withLayer hb] at hlost
  by_cases hput : a.heap[q]?.isSome ∨ b.heap[q]?.isSome
  · refine releases_mergeLive s scopes a b esc r (Or.inr (Or.inr ⟨q, mem_eitherKey.mpr hput, ?_⟩))
    simpa only [Option.orElse_eq_orElse, Option.orElse_eq_or] using hlost
  · obtain ⟨hna, hnb⟩ := not_or.mp hput
    rw [Option.not_isSome_iff_eq_none.mp hna, Option.not_isSome_iff_eq_none.mp hnb] at hlost
    obtain ⟨o, p, ho, hp, hparts, hlost⟩ := hlost
    cases ho.symm.trans hp
    rw [HeapObject.or_of_beq BEq.rfl] at hlost
    exact absurd (hparts.elim id id) hlost

theorem mergeLive_keeps (s : State) (scopes : ScopeTree) {a b : Layer} (ha : a.boundary = none)
    (hb : b.boundary = none) (esc : RefSet) :
    Keeps scopes (s.withLayer a) (s.mergeLive scopes a b esc).1 (s.mergeLive scopes a b esc).2 ∧
      Keeps scopes (s.withLayer b) (s.mergeLive scopes a b esc).1 (s.mergeLive scopes a b esc).2 :=
  ⟨⟨fun _ _ hr => mergeLive_value s scopes ha hb esc (Or.inl hr),
      fun _ _ hr => mergeLive_version s scopes ha hb esc (Or.inl hr)⟩,
    ⟨fun _ _ hr => mergeLive_value s scopes ha hb esc (Or.inr hr),
      fun _ _ hr => mergeLive_version s scopes ha hb esc (Or.inr hr)⟩⟩

/-- Code that certainly ran, and of which no variables go out of scope, forgets nothing. -/
theorem mergeBack_keeps (s : State) (scopes : ScopeTree) {delta : Layer}
    (hb : delta.boundary = none) (esc : RefSet) :
    Keeps scopes (s.withLayer delta) (s.mergeBack scopes delta none) esc where
  value v r hr := by
    rw [mergeBack_current s hb (by simp)]
    exact Or.inl hr
  version q r hr := by
    rw [deref, mergeBack_object s scopes hb none q]
    exact Or.inl hr

/-- Of two pieces of code of which one ran, what either refers to at its end is kept or escapes. -/
theorem mergeOr_keeps (s : State) (scopes : ScopeTree) {a b : Layer} (ha : a.boundary = none)
    (hb : b.boundary = none) (esc : RefSet) :
    (a.dead = false →
      Keeps scopes (s.withLayer a) (s.mergeOr scopes a b esc).1 (s.mergeOr scopes a b esc).2) ∧
    (b.dead = false →
      Keeps scopes (s.withLayer b) (s.mergeOr scopes a b esc).1 (s.mergeOr scopes a b esc).2) := by
  have hback (c d : Layer) (hd : d.boundary = none) :
      Keeps scopes (s.withLayer d) ((s.absorb c.written).mergeBack scopes d none) esc :=
    have hkeeps := mergeBack_keeps (s.absorb c.written) scopes hd esc
    ⟨hkeeps.value, hkeeps.version⟩
  unfold mergeOr
  cases hda : a.dead <;> cases hdb : b.dead
  · obtain ⟨hka, hkb⟩ := mergeLive_keeps s scopes ha hb esc
    exact ⟨fun _ => hka, fun _ => hkb⟩
  · exact ⟨fun _ => hback b a ha, fun h => nomatch h⟩
  · exact ⟨fun h => (nomatch h), fun _ => hback a b hb⟩
  · exact ⟨fun h => (nomatch h), fun h => nomatch h⟩

/-! ## Code that may not have run -/

/-- A reference that is lost where what a layer has is joined with what there was. -/
def LostBy (scopes : ScopeTree) (s : State) (l : Layer) (r : Reference) : Prop :=
  (∃ e ∈ l.vars.toList, Value.Lost (s.current scopes e.1) e.2 r) ∨
    ∃ e ∈ l.heap.toList, LostVersion (s.object? e.1) (some e.2) r

/-- In `t`, what the layer has is joined with what there was in `s`. -/
structure Joined (scopes : ScopeTree) (s : State) (l : Layer) (t : State) : Prop where
  value : ∀ v x, l.vars[v]? = some x → (t.current scopes v == (s.current scopes v).or x) = true
  same : ∀ v, l.vars[v]? = none → t.current scopes v = s.current scopes v
  version : ∀ q, (t.object? q == joinVersion (s.object? q) l.heap[q]?) = true

/-- A join forgets nothing if what it loses escapes. -/
theorem Joined.keeps {l : Layer} (h : Joined scopes s l t) (hb : l.boundary = none) {esc : RefSet}
    (hesc : ∀ r, LostBy scopes s l r → r ∈ esc) :
    Keeps scopes s t esc ∧ Keeps scopes (s.withLayer l) t esc := by
  have hvalue {v : VarId} {r : Reference} (hr : r ∈ (s.current scopes v).references ∨
      r ∈ ((s.withLayer l).current scopes v).references) :
      r ∈ (t.current scopes v).references ∨ r ∈ esc := by
    rw [current_withLayer hb, Std.TreeMap.getD_eq_getD_getElem?] at hr
    cases hx : l.vars[v]? with
    | none =>
      rw [hx] at hr
      rw [h.same v hx]
      exact Or.inl (hr.elim id id)
    | some x =>
      rw [hx] at hr
      rw [Value.mem_references_congr (h.value v x hx)]
      refine or_iff_not_imp_left.mpr fun hlost => hesc r (Or.inl ⟨(v, x), ?_, hr, hlost⟩)
      exact Values.mem_toList.mpr hx
  have hversion {q r : Reference} (hr : r ∈ (s.deref q).references ∨
      r ∈ ((s.withLayer l).deref q).references) : r ∈ (t.deref q).references ∨ r ∈ esc := by
    simp only [mem_references_deref, object?_withLayer hb] at hr ⊢
    have hjoined := entry_beq_symm (h.version q)
    cases hx : l.heap[q]? with
    | none =>
      rw [hx] at hr hjoined
      obtain ⟨o, ho, hr⟩ := hr.elim id id
      rw [ho] at hjoined
      obtain ⟨p, hp, hop⟩ := Written.some_of_beq hjoined rfl
      exact Or.inl ⟨p, hp, HeapObject.mem_references_of_beq hop hr⟩
    | some x =>
      rw [hx] at hr hjoined
      refine (mem_references_joinVersion hr).imp ?_ fun hlost => ?_
      · rintro ⟨o, ho, hr⟩
        obtain ⟨p, hp, hop⟩ := Written.some_of_beq hjoined ho
        exact ⟨p, hp, HeapObject.mem_references_of_beq hop hr⟩
      · exact hesc r (Or.inr ⟨(q, x), Objects.mem_toList.mpr hx, hlost⟩)
  exact ⟨⟨fun _ _ hr => hvalue (Or.inl hr), fun _ _ hr => hversion (Or.inl hr)⟩,
    ⟨fun _ _ hr => hvalue (Or.inr hr), fun _ _ hr => hversion (Or.inr hr)⟩⟩

theorem releases_mergeMaybe (s : State) (scopes : ScopeTree) {delta : Layer}
    (hlive : delta.dead = false) : Releases (s.mergeMaybe scopes delta) (LostBy scopes s delta) := by
  unfold mergeMaybe
  simp only [hlive, Bool.false_eq_true, if_false]
  refine Releases.bind (P := SameObjects (s.absorb delta.written))
    (Releases.loop (E := fun e before => Value.Lost before e.2)
      (fun s v => State.current s scopes v) Prod.fst (fun e s => ?_) (fun e s => ?_)
      (nodup_keys_toList _) _)
    (Gives.loop SameObjects.refl SameObjects.trans (fun e s => ?_) _ _) fun u hu => ?_
  · exact (releases_join _ _).then_pure fun _ => Releases.pure _
  · exact (Gives.any _).bind fun x _ =>
      Gives.pure ⟨_, rfl, fun w hw => putValue_current s scopes x hw⟩
  · exact (Gives.any _).bind fun x _ => Gives.pure ⟨_, rfl, putValue_sameObjects s e.1 x⟩
  · have hobject (q : Reference) : u.object? q = s.object? q := hu.object? q
    simp only [← hobject]
    refine (Releases.loop (E := fun e known => LostVersion known (some e.2)) State.object? Prod.fst
      (fun e s => releases_putJoined s e.1 none (some e.2))
      (fun e s => gives_putJoined_object s e.1 none (some e.2))
      (nodup_keys_toList _) _).then_pure fun w => ?_
    exact (Releases.loop_pure (fun _ _ => ⟨_, rfl⟩) _ _).then_pure fun _ => Releases.pure _

theorem mergeMaybe_joined (s : State) (scopes : ScopeTree) {delta : Layer}
    (hb : delta.boundary = none) (hlive : delta.dead = false) :
    Gives (s.mergeMaybe scopes delta) (Joined scopes s delta) := by
  intro esc
  refine ⟨fun v x hx => ?_, fun v hx => ?_, fun q => ?_⟩
  · have hlookup := mergeMaybe_lookup s scopes delta v esc
    rw [if_neg (by simp [hlive]), hx] at hlookup
    rw [current_of_lookup scopes hlookup]
    exact BEq.rfl
  · have hlookup := mergeMaybe_lookup s scopes delta v esc
    rw [if_neg (by simp [hlive]), hx] at hlookup
    exact current_congr scopes hlookup
  · rw [mergeMaybe_object s scopes hb q esc, if_neg (by simp [hlive]), object?_withLayer hb]
    cases delta.heap[q]? with
    | none =>
      rw [Option.none_or, joinVersion_self]
      cases s.object? q <;> simp [joinVersion]
    | some o => simp

/-- Of code that may have run, what was referred to before is kept or escapes, and so is what the
code refers to at its end. -/
theorem mergeMaybe_keeps (s : State) (scopes : ScopeTree) {delta : Layer}
    (hb : delta.boundary = none) (esc : RefSet) :
    Keeps scopes s (s.mergeMaybe scopes delta esc).1 (s.mergeMaybe scopes delta esc).2 ∧
      (delta.dead = false → Keeps scopes (s.withLayer delta) (s.mergeMaybe scopes delta esc).1
        (s.mergeMaybe scopes delta esc).2) := by
  cases hlive : delta.dead with
  | true =>
    unfold mergeMaybe
    simp only [hlive, if_true]
    exact ⟨⟨fun _ _ => Or.inl, fun _ _ => Or.inl⟩, fun h => nomatch h⟩
  | false =>
    have hkeeps := (mergeMaybe_joined s scopes hb hlive esc).keeps hb fun r hr =>
      releases_mergeMaybe s scopes hlive esc r (Or.inr hr)
    exact ⟨hkeeps.1, fun _ => hkeeps.2⟩

/-! ## Code that may have stopped anywhere -/

theorem releases_mergeUnsure (s : State) (scopes : ScopeTree) (w : Written) :
    Releases (s.mergeUnsure scopes w) (LostBy scopes s w.layer) := by
  unfold mergeUnsure
  refine Releases.bind (P := SameObjects s)
    (Releases.loop (E := fun e before => Value.Lost before e.2)
      (fun s v => State.current s scopes v) Prod.fst (fun e s => ?_) (fun e s => ?_)
      (nodup_keys_toList _) _)
    (Gives.loop SameObjects.refl SameObjects.trans (fun e s => ?_) _ _) fun u hu => ?_
  · refine (releases_join _ _).then_pure fun x => ?_
    dsimp only
    split <;> exact Releases.pure _
  · refine (Gives.any _).bind fun x _ => ?_
    dsimp only
    split
    · exact Gives.pure ⟨_, rfl, fun w hw => putValue_current s scopes x hw⟩
    · exact Gives.pure ⟨_, rfl, fun _ _ => rfl⟩
  · refine (Gives.any _).bind fun x _ => ?_
    dsimp only
    split
    · exact Gives.pure ⟨_, rfl, putValue_sameObjects s e.1 x⟩
    · exact Gives.pure ⟨_, rfl, SameObjects.refl s⟩
  · simp only [← hu.object?]
    refine (Releases.loop (E := fun e known => LostVersion known (some e.2)) State.object? Prod.fst
      (fun e s => ?_) (fun e s => ?_) (nodup_keys_toList _) _).then_pure fun w => ?_
    · refine (releases_joinVersions s e.1 none (some e.2)).then_pure fun version => ?_
      cases version with
      | none => exact Releases.pure _
      | some o =>
        dsimp only
        split <;> exact Releases.pure _
    · refine (Gives.any _).bind fun version _ => ?_
      cases version with
      | none => exact Gives.pure ⟨s, rfl, fun _ _ => rfl⟩
      | some o =>
        dsimp only
        split
        · exact Gives.pure
            ⟨_, rfl, fun k hk => (putVersion_object s e.1 k o).trans (if_neg (Ne.symm hk))⟩
        · exact Gives.pure ⟨s, rfl, fun _ _ => rfl⟩
    · refine (Releases.loop_pure (fun e s => ?_) _ _).then_pure fun _ => Releases.pure _
      split <;> exact ⟨_, rfl⟩

theorem mergeUnsure_joined (s : State) (scopes : ScopeTree) (w : Written) :
    Gives (s.mergeUnsure scopes w) (Joined scopes s w.layer) := by
  intro esc
  refine ⟨fun v x hx => ?_, fun v hx => ?_, fun q => mergeUnsure_object s scopes w q esc⟩
  · have hlookup := mergeUnsure_lookup s scopes w v esc
    have hx : w.vars[v]? = some x := hx
    rw [hx] at hlookup
    dsimp only at hlookup
    split at hlookup
    · rw [current_of_lookup scopes hlookup]
      exact BEq.rfl
    · rename_i hsame
      rw [current_congr scopes hlookup]
      rw [Bool.not_eq_true, Bool.or_eq_false_iff, bne, Bool.not_eq_false'] at hsame
      exact PartialEquivBEq.symm hsame.1
  · have hlookup := mergeUnsure_lookup s scopes w v esc
    have hx : w.vars[v]? = none := hx
    rw [hx] at hlookup
    exact current_congr scopes hlookup

/-- Of code that may have stopped anywhere, what was referred to before is kept or escapes, and so is
what the union of all that it wrote refers to. -/
theorem mergeUnsure_keeps (s : State) (scopes : ScopeTree) (w : Written) (esc : RefSet) :
    Keeps scopes s (s.mergeUnsure scopes w esc).1 (s.mergeUnsure scopes w esc).2 ∧
      Keeps scopes (s.withLayer w.layer) (s.mergeUnsure scopes w esc).1
        (s.mergeUnsure scopes w esc).2 :=
  (mergeUnsure_joined s scopes w esc).keeps rfl fun r hr =>
    releases_mergeUnsure s scopes w esc r (Or.inr hr)

end State

/-! ## What code stored -/

namespace Store

/-- The references in what is stored. -/
def references : Store → List Reference
  | value _ x _ => x.references
  | version _ o => o.references

/-- The references that a state knows of in the place where something is stored. -/
def found (scopes : ScopeTree) (s : State) : Store → List Reference
  | value v _ _ => (s.current scopes v).references
  | version q _ => (s.deref q).references

end Store

/-- A union has lost a reference: by what it says, the variable that it was stored in may have any
value, or the object that it was stored in no longer has it. -/
inductive Written.Loses (w : Written) (r : Reference) : Store → Prop
  | value {v : VarId} {x : Value} {refs : RefSet} :
    w.vars[v]? = some .unknown → Loses w r (.value v x refs)
  | version {q : Reference} {o p : HeapObject} :
    w.heap[q]? = some p → r ∉ p.references → Loses w r (.version q o)

variable {scopes : ScopeTree} {s t c : State} {log : List Store}

/-- What a value refers to may be reached from the variable that it is stored in. -/
theorem Acts.references_reached (h : Acts scopes s log t) {v : VarId} {x : Value} {refs : RefSet}
    (hx : .value v x refs ∈ log) : ∀ r ∈ x.references, r ∈ refs := by
  induction h with
  | done | stop => cases hx
  | put => cases List.mem_singleton.mp hx
  | set s =>
    cases List.mem_singleton.mp hx
    intro r hr
    rw [show (s.setValue v x).reachOf v = _ from State.putReach_reachOf s v v _, if_pos rfl]
    have hmem : r ∈ RefSet.ofList x.references := RefSet.mem_ofList.mpr hr
    split
    · exact RefSet.mem_union.mpr (Or.inl hmem)
    · exact hmem
  | seq _ _ ih ih' => exact (List.mem_append.mp hx).elim ih ih'
  | back _ _ ih | maybe _ _ ih | unsure _ _ ih => exact ih hx
  | either _ _ _ ih ih' => exact (List.mem_append.mp hx).elim ih ih'
  | loop _ _ _ ih =>
    obtain ⟨round, hround, hx⟩ := List.mem_flatMap.mp hx
    exact ih round hround hx

/-- What a union holds, code that may have stopped anywhere leaves in its place, or it escapes, unless
the union has lost it. -/
theorem State.mergeUnsure_found {w : Written} {x : Store} (hx : x.written.HeldBy w) (esc : RefSet) :
    ∀ r ∈ x.references, r ∈ x.found scopes (s.mergeUnsure scopes w esc).1 ∨
      r ∈ (s.mergeUnsure scopes w esc).2 ∨ w.Loses r x := by
  have hkeeps := (State.mergeUnsure_keeps s scopes w esc).2
  intro r hr
  cases x with
  | value v x refs =>
    obtain ⟨y, hy, hxy⟩ := hx.value v x (Values.getElem?_insert_nat.trans (if_pos rfl))
    by_cases hunknown : y = .unknown
    · exact Or.inr (Or.inr (.value (hunknown ▸ hy)))
    · have hmem := (Value.below_iff_or_beq.mpr hxy).mem_references hunknown hr
      refine (hkeeps.value v r ?_).imp id Or.inl
      rwa [State.current_withLayer rfl, Std.TreeMap.getD_eq_getD_getElem?,
        show w.layer.vars[v]? = some y from hy]
  | version q o =>
    obtain ⟨p, hp, -⟩ := hx.version q o (Objects.getElem?_insert_ref.trans (if_pos rfl))
    by_cases hmem : r ∈ p.references
    · refine (hkeeps.version q r ?_).imp id Or.inl
      rw [State.mem_references_deref, State.object?_withLayer rfl,
        show w.layer.heap[q]? = some p from hp]
      exact ⟨p, rfl, hmem⟩
    · exact Or.inr (Or.inr (.version hp hmem))

/-- A union that holds what was stored in a variable has what the variable reached then. -/
theorem Store.reach_of_heldBy {w : Written} {v : VarId} {x : Value} {refs : RefSet}
    (h : (value v x refs).written.HeldBy w) {r : Reference} (hr : r ∈ refs) :
    r ∈ w.reach.getD v {} := by
  refine h.reach v r ?_
  change r ∈ (({} : Reach).insert v refs).getD v {}
  rwa [Std.TreeMap.getD_insert_self]

/-- Code that may have stopped anywhere. A reference that it stored is afterwards where it was stored,
or it has escaped, unless the union of all that the code wrote has lost it. In any case it may be
reached from the variable that it was stored in. -/
theorem Acts.unsure_keeps (h : Acts scopes s.child log c) (esc : RefSet) :
    (∀ x ∈ log, ∀ r ∈ x.references,
      r ∈ x.found scopes (s.mergeUnsure scopes c.top.written esc).1 ∨
        r ∈ (s.mergeUnsure scopes c.top.written esc).2 ∨ c.top.written.Loses r x) ∧
    ∀ v x refs, .value v x refs ∈ log → ∀ r ∈ x.references,
      r ∈ (s.mergeUnsure scopes c.top.written esc).1.reachOf v :=
  ⟨fun x hx => State.mergeUnsure_found (h.accounts.held x hx) esc,
    fun v _ _ hx r hr => (State.mergeUnsure_reachOf s scopes _ v r esc).mpr
      (Or.inr (Store.reach_of_heldBy (h.accounts.held _ hx) (h.references_reached hx r hr)))⟩

/-- The same of the rounds of a loop, which are merged through a union of all that they wrote. -/
theorem Acts.loop_keeps {rounds : List Round} {union : Written}
    (h : ∀ x ∈ rounds, Acts scopes (s.round x.boundary) x.log x.stop)
    (hunion : union.Unites (rounds.map fun x => x.stop.top.written)) (esc : RefSet) :
    (∀ x ∈ rounds.flatMap (·.log), ∀ r ∈ x.references,
      r ∈ x.found scopes (s.mergeUnsure scopes union esc).1 ∨
        r ∈ (s.mergeUnsure scopes union esc).2 ∨ union.Loses r x) ∧
    ∀ v x refs, .value v x refs ∈ rounds.flatMap (·.log) → ∀ r ∈ x.references,
      r ∈ (s.mergeUnsure scopes union esc).1.reachOf v := by
  have hheld {x : Store} (hx : x ∈ rounds.flatMap (·.log)) : x.written.HeldBy union := by
    obtain ⟨round, hround, hx⟩ := List.mem_flatMap.mp hx
    exact ((h round hround).accounts.held x hx).trans
      (hunion.holds _ (List.mem_map_of_mem hround))
  refine ⟨fun x hx => State.mergeUnsure_found (hheld hx) esc, fun v x refs hx r hr => ?_⟩
  obtain ⟨round, hround, hmem⟩ := List.mem_flatMap.mp hx
  have hreached := (h round hround).references_reached hmem r hr
  exact (State.mergeUnsure_reachOf s scopes _ v r esc).mpr
    (Or.inr (Store.reach_of_heldBy (hheld hx) hreached))

/-! ## What may be reached -/

/-- What may be reached from a variable before two pieces of code, and at the ends of both, may be
reached from it after them. -/
theorem State.mergeOr_reaches (s : State) (scopes : ScopeTree) {a b : Layer} (ha : a.boundary = none)
    (hb : b.boundary = none) (esc : RefSet) {v : VarId} {r : Reference} (hr : r ∈ s.reachOf v)
    (hra : r ∈ (s.withLayer a).reachOf v) (hrb : r ∈ (s.withLayer b).reachOf v) :
    r ∈ (s.mergeOr scopes a b esc).1.reachOf v := by
  have hback (c d : Layer) (hd : d.boundary = none) :
      ((s.absorb c.written).mergeBack scopes d none).reachOf v = (s.withLayer d).reachOf v := by
    rw [State.mergeBack_reachOf, if_neg (by simp), (State.absorb_sameReach s c.written).reachOf,
      State.reachOf_withLayer hd]
  unfold mergeOr
  cases a.dead <;> cases b.dead
  · exact (State.mergeLive_reachOf s scopes ha hb v r esc).mpr (Or.inl hra)
  · exact (hback b a ha).symm ▸ hra
  · exact (hback a b hb).symm ▸ hrb
  · exact hr

/-- What may be reached from a variable may be reached from it until code sets it. -/
theorem Acts.mem_reachOf (h : Acts scopes s log t) {v : VarId} (hv : ¬Store.Sets log v)
    {r : Reference} (hr : r ∈ s.reachOf v) : r ∈ t.reachOf v := by
  have hlayer {s c : State} {log : List Store} (h : Acts scopes s.child log c)
      (hr : r ∈ c.reachOf v) : r ∈ (s.withLayer c.top).reachOf v := by
    obtain ⟨top, below⟩ := c
    rw [State.withLayer, ← show below = s.layers from h.accounts.below]
    exact hr
  induction h with
  | done | stop | put => exact hr
  | set s u x =>
    have hne : u ≠ v := by
      rintro rfl
      exact hv ⟨_, _, List.mem_singleton_self _⟩
    rwa [show (s.setValue u x).reachOf v = _ from State.putReach_reachOf s u v _, if_neg hne]
  | seq _ _ ih ih' =>
    obtain ⟨hlog, hlog'⟩ := not_or.mp (mt Store.sets_append.mpr hv)
    exact ih' hlog' (ih hlog hr)
  | @back s c log discard h ih =>
    have hend := hlayer h (ih hv (State.reachOf_child s v ▸ hr))
    rw [State.mergeBack_reachOf]
    split
    · exact hr
    · rwa [← State.reachOf_withLayer h.accounts.boundary]
  | @either s a b log log' esc h h' ih ih' =>
    obtain ⟨hlog, hlog'⟩ := not_or.mp (mt Store.sets_append.mpr hv)
    have hchild : r ∈ s.child.reachOf v := State.reachOf_child s v ▸ hr
    exact State.mergeOr_reaches s scopes h.accounts.boundary h'.accounts.boundary esc hr
      (hlayer h (ih hlog hchild)) (hlayer h' (ih' hlog' hchild))
  | maybe esc h => exact (State.mergeMaybe_reachOf _ scopes h.accounts.boundary v r esc).mpr (Or.inl hr)
  | unsure esc | loop esc => exact (State.mergeUnsure_reachOf _ scopes _ v r esc).mpr (Or.inl hr)

theorem State.mem_reachOf_round {b : Boundary} {v : VarId} {r : Reference} :
    r ∈ (s.round b).reachOf v ↔ r ∈ s.reachOf v ∨ r ∈ b.reach.getD v {} := by
  have htop : (s.round b).top.reach[v]? = none := Std.TreeMap.getElem?_emptyc
  have hround : (s.round b).top.boundary.bind (·.reach[v]?) = b.reach[v]? := rfl
  rw [State.reachOf_eq, htop, hround, Std.TreeMap.getD_eq_getD_getElem?]
  cases b.reach[v]? with
  | none => exact (or_iff_left Std.TreeSet.not_mem_emptyc).symm
  | some extra => exact RefSet.mem_union

theorem During.mem_reachOf {m : State} (h : During scopes s log m) {v : VarId}
    (hv : ¬Store.Sets log v) {r : Reference} (hr : r ∈ s.reachOf v) : r ∈ m.reachOf v := by
  induction h with
  | here h => exact h.mem_reachOf hv hr
  | @child s t m log log' h _ ih =>
    obtain ⟨hlog, hlog'⟩ := not_or.mp (mt Store.sets_append.mpr hv)
    exact ih hlog' (State.reachOf_child t v ▸ h.mem_reachOf hlog hr)
  | round b h _ ih =>
    obtain ⟨hlog, hlog'⟩ := not_or.mp (mt Store.sets_append.mpr hv)
    exact ih hlog' (State.mem_reachOf_round.mpr (Or.inl (h.mem_reachOf hlog hr)))

end EsOptimizer
