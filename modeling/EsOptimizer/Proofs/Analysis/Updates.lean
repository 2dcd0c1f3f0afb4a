import EsOptimizer.Proofs.Analysis.Moves
import EsOptimizer.Proofs.Flow.Versions
import EsOptimizer.Proofs.Heap.Answers

/-!
# Updates of objects that may be one of several

An update of `obj[key]` hits one of the objects that `obj` may be. Of each object, such a step leaves a
version that follows the one before in one way or another (`Track.Turns`). Two ways are of interest.

What is known of an object may become less (`HeapObject.Below`), but nothing new may be claimed,
except where `obj` is certainly that object:

- `writeProperty_raises`: an assignment claims nothing new of any object other than the only one
  that `obj` may be;
- `deref_deleteProperty`: the version of every object after `delete`;
- `deleteProperty_raises_iff`: `delete` claims something new of an object if and only if it drops a
  property that the object is known to have (`Loses`), however many objects `obj` may be.

And a built-in object that is not relied on, because its version stands for the real one
(`HeapObject.Withheld`), should stay so:

- `writeProperty_withheld`: after an assignment it is not relied on either;
- `deleteProperty_withheld_iff`: after `delete` it is, if that drops a property of it.
-/

namespace EsOptimizer

namespace State

theorem deref_putObject (s : State) (r q : Reference) (o : HeapObject) :
    (s.putObject r o).deref q = if r = q then o else s.deref q := by
  unfold deref
  rw [putObject_object]
  split <;> rfl

end State

namespace Properties

theorem lookup_erase (ps : Properties) (name other : String) :
    (Properties.erase ps name).lookup other = if other = name then none else ps.lookup other := by
  induction ps with
  | nil => exact (ite_self none).symm
  | cons p rest ih =>
    unfold erase at ih ⊢
    rw [List.filter_cons, List.lookup_cons]
    by_cases hp : p.1 = name
    · rw [if_neg (by simpa using hp), ih]
      split
      · rfl
      · rename_i hother
        rw [beq_eq_false_iff_ne.mpr fun h => hother (h.trans hp)]
    · rw [if_pos (by simpa using hp), List.lookup_cons, ih]
      by_cases hother : other = p.1
      · simp only [beq_iff_eq.mpr hother]
        rw [if_neg (hother ▸ hp)]
      · rw [beq_eq_false_iff_ne.mpr hother]

end Properties

namespace HeapObject

/-- A way in which versions of an object may follow one another: it may stay as it is, and it may be
given up at any time. -/
class Succession (R : HeapObject → HeapObject → Prop) : Prop where
  refl (o : HeapObject) : R o o
  trans {a b c : HeapObject} : R a b → R b c → R a c
  unknown (o : HeapObject) : R o .unknown

instance : Succession Below where
  refl := Below.refl
  trans := Below.trans
  unknown := below_unknown

/-- The second version is withheld if the first is. -/
def KeepsWithheld (host : Host) (a b : HeapObject) : Prop := a.Withheld host → b.Withheld host

instance (host : Host) : Succession (KeepsWithheld host) where
  refl _ := id
  trans hab hbc := hbc ∘ hab
  unknown _ := fun _ => withheld_unknown host

/-! ## Assigned properties -/

/-- The version of an object after an assignment to a property, which may have hit another object if
`weak`. -/
def afterWrite (o : HeapObject) (weak : Bool) (name : String) (value : Value) : HeapObject :=
  if weak then o.or (o.withProperty name value) else o.withProperty name value

/-- Before the program runs, every built-in object is the real one. -/
theorem withheld_object (host : Host) : host.object.Withheld host := Or.inr rfl

theorem Withheld.withProperty {o : HeapObject} {host : Host} (h : o.Withheld host) (name : String)
    (value : Value) : (o.withProperty name value).Withheld host := by
  unfold HeapObject.withProperty
  split
  · exact withheld_unknown host
  · rename_i hclean
    have hhost := h.resolve_left hclean
    -- a property of its own may be fixed or have a setter; a new one may be an element
    split
    · split
      · exact h
      · split
        · exact withheld_unknown host
        · split
          · exact h
          · exact Or.inr hhost
    · split
      · exact withheld_unknown host
      · exact Or.inr hhost

theorem Withheld.afterWrite {o : HeapObject} {host : Host} (h : o.Withheld host) (weak : Bool)
    (name : String) (value : Value) : (o.afterWrite weak name value).Withheld host := by
  unfold HeapObject.afterWrite
  split
  · exact h.or (h.withProperty name value)
  · exact h.withProperty name value

/-! ## Deleted properties -/

/-- The version of an object after `delete` of a property that may be one of its own. -/
def afterDelete (o : HeapObject) (name : String) : HeapObject :=
  if o.dirty then o
  else if !o.owns name && o.knowledge = .mayHaveNew then unknown
  else o.withoutProperty name

/-- A property is known that `delete` removes, and nothing but the known properties may have that
name. -/
structure Loses (o : HeapObject) (name : String) : Prop where
  clean : o.dirty = false
  knows : o.knowledge ≠ .mayHaveNew
  removes : ∃ d, o.get? name = some d ∧ d.configurable = true

theorem withoutProperty_eq {o : HeapObject} {name : String} (hclean : o.dirty = false)
    (h : ∀ d, o.get? name = some d → d.configurable = false) : o.withoutProperty name = o := by
  unfold withoutProperty
  rw [hclean, if_neg Bool.false_ne_true]
  split
  · rename_i d hd
    rw [h d hd, if_neg Bool.false_ne_true]
  · rfl

/-- Without a property that it has, an object is as before but for that property. -/
theorem withoutProperty_spec {o : HeapObject} {name : String} (hclean : o.dirty = false)
    {d : Descriptor} (hd : o.get? name = some d) (hconf : d.configurable = true) :
    (o.withoutProperty name).dirty = false ∧ (o.withoutProperty name).proto = o.proto ∧
      (o.withoutProperty name).knowledge = o.knowledge ∧ (o.withoutProperty name).host = none ∧
      ∀ other, (o.withoutProperty name).get? other =
        if other = name then none else o.get? other := by
  unfold withoutProperty
  rw [hclean, if_neg Bool.false_ne_true, hd]
  dsimp only
  rw [if_pos hconf]
  exact ⟨rfl, rfl, rfl, rfl, fun other => Properties.lookup_erase o.properties name other⟩

theorem afterDelete_of_dirty {o : HeapObject} (h : o.dirty = true) (name : String) :
    o.afterDelete name = o :=
  if_pos h

theorem afterDelete_of_get? {o : HeapObject} {name : String} (hclean : o.dirty = false)
    {d : Descriptor} (hd : o.get? name = some d) : o.afterDelete name = o.withoutProperty name := by
  rw [afterDelete, hclean, owns_iff.mpr ⟨d, hd⟩]
  rfl

theorem afterDelete_of_none {o : HeapObject} {name : String} (hclean : o.dirty = false)
    (hd : o.get? name = none) :
    o.afterDelete name = if o.knowledge = .mayHaveNew then unknown else o := by
  have hkeep : o.withoutProperty name = o := withoutProperty_eq hclean fun d hd' => by
    rw [hd] at hd'
    cases hd'
  rw [afterDelete, hclean, owns, hd, hkeep]
  simp

/-- An object may be as before after a `delete` that removes nothing known, and then only. -/
theorem below_afterDelete_iff {o : HeapObject} {name : String} :
    o.Below (o.afterDelete name) ↔ ¬o.Loses name := by
  cases hclean : o.dirty with
  | true =>
    rw [afterDelete_of_dirty hclean]
    exact iff_of_true (Below.refl o) fun h => by
      rw [h.clean] at hclean
      cases hclean
  | false =>
    cases hd : o.get? name with
    | none =>
      rw [afterDelete_of_none hclean hd]
      refine iff_of_true ?_ fun ⟨_, _, d, hd', _⟩ => by
        rw [hd] at hd'
        cases hd'
      split
      · exact below_unknown o
      · exact Below.refl o
    | some d =>
      rw [afterDelete_of_get? hclean hd]
      cases hconf : d.configurable with
      | false =>
        have hkeep : ∀ e, o.get? name = some e → e.configurable = false := fun e he => by
          cases hd.symm.trans he
          exact hconf
        rw [withoutProperty_eq hclean hkeep]
        refine iff_of_true (Below.refl o) fun ⟨_, _, e, he, hconf'⟩ => ?_
        rw [hkeep e he] at hconf'
        cases hconf'
      | true =>
        obtain ⟨hclean', hproto, hknow, hhost, hget⟩ := withoutProperty_spec hclean hd hconf
        constructor
        · intro hbelow hloses
          have howns := (within_of_below hbelow hclean').complete (hknow ▸ hloses.knows) name
            (owns_iff.mpr ⟨d, hd⟩)
          rw [owns, hget, if_pos rfl] at howns
          cases howns
        · intro hnot
          -- an object that may have any other property may have this one as well
          have hknows : o.knowledge = .mayHaveNew := by
            by_contra hne
            exact hnot ⟨hclean, hne, d, hd, hconf⟩
          refine Or.inr (Or.inr ⟨hclean, hclean', hproto.symm, Or.inl hhost, fun other e he => ?_,
            Nat.le_of_eq (congrArg Knowledge.rank hknow), fun hne => absurd (hknow.trans hknows) hne⟩)
          rw [hget] at he
          split at he
          · cases he
          · exact ⟨e, he, Descriptor.Below.refl e⟩

/-- A version that stands for a built-in object does so after `delete`, unless that removes a
property. -/
theorem withheld_afterDelete_iff {o : HeapObject} {host : Host} (h : o.Withheld host)
    {name : String} : (o.afterDelete name).Withheld host ↔
      ¬(o.dirty = false ∧ ∃ d, o.get? name = some d ∧ d.configurable = true) := by
  cases hclean : o.dirty with
  | true =>
    rw [afterDelete_of_dirty hclean]
    exact iff_of_true h fun hfalse => Bool.noConfusion hfalse.1
  | false =>
    cases hd : o.get? name with
    | none =>
      rw [afterDelete_of_none hclean hd]
      refine iff_of_true ?_ fun hfalse => ?_
      · split
        · exact withheld_unknown host
        · exact h
      · obtain ⟨-, d, hd', -⟩ := hfalse
        cases hd'
    | some d =>
      rw [afterDelete_of_get? hclean hd]
      cases hconf : d.configurable with
      | false =>
        have hkeep : ∀ e, o.get? name = some e → e.configurable = false := fun e he => by
          cases hd.symm.trans he
          exact hconf
        rw [withoutProperty_eq hclean hkeep]
        refine iff_of_true h fun hfalse => ?_
        obtain ⟨-, e, he, hconf'⟩ := hfalse
        cases he
        rw [hconf] at hconf'
        cases hconf'
      | true =>
        obtain ⟨hclean', -, -, hhost, -⟩ := withoutProperty_spec hclean hd hconf
        refine iff_of_false (fun hwithheld => ?_) (not_not_intro ⟨rfl, d, rfl, hconf⟩)
        rcases hwithheld with hdirty | hhost'
        · rw [hclean'] at hdirty
          cases hdirty
        · rw [hhost] at hhost'
          cases hhost'

end HeapObject

/-- No object stands in a value twice. -/
theorem Value.nodup_references (v : Value) : v.references.Nodup := by
  unfold references
  cases h : v.singles? with
  | none => exact List.nodup_nil
  | some ss =>
    refine List.Pairwise.filterMap _ (fun a b hab x hx y hy hxy => ?_) (distinct_of_singles h)
    cases a with
    | primitive k => cases hx
    | reference q =>
      cases b with
      | primitive k => cases hy
      | reference q' =>
        cases hx
        cases hy
        rw [hxy] at hab
        exact absurd (beq_self_eq_true y) (by rw [show (y == y) = false from hab]; decide)

namespace Track

section

variable {α β : Type} {cx : Context} {r : Reference}

/-! ## Steps that leave all objects alone -/

theorem deref_apply (q : Reference) (p : Progress) : deref q cx p = (p.state.deref q, p) := rfl

theorem heap_apply (p : Progress) :
    heap cx p = (⟨p.state.deref, cx.options.noNativeOverwrites⟩, p) := rfl

/-- A step after which the state is what it was before. -/
def Leaves (cx : Context) (x : Track α) : Prop := ∀ p, (x cx p).2.state = p.state

theorem Leaves.bind {x : Track α} {f : α → Track β} (hx : Leaves cx x)
    (hf : ∀ a, Leaves cx (f a)) : Leaves cx (x >>= f) :=
  fun p => (hf _ _).trans (hx p)

theorem Leaves.forIn {f : α → β → Track (ForInStep β)}
    (hf : ∀ a y, Leaves cx (f a y)) (items : List α) (y : β) :
    Leaves cx (ForIn.forIn items y f) := fun p =>
  forIn_keeps (I := fun q => q.state = p.state) (fun a _ y q hq => (hf a y q).trans hq) y rfl

theorem leaves_escape (refs : List Reference) : Leaves cx (escape refs) := fun _ => rfl

theorem leaves_noteEffect : Leaves cx noteEffect := fun _ => rfl

theorem leaves_noteChange (r : Reference) : Leaves cx (noteChange r) := by
  intro p
  change ((if _ then noteEffect else Pure.pure () : Track Unit) cx p).2.state = p.state
  split <;> rfl

theorem leaves_mapM_variableRoots (ids : List VarId) : Leaves cx (ids.mapM variableRoots) := by
  induction ids with
  | nil => exact fun _ => rfl
  | cons v rest ih =>
    intro p
    rw [List.mapM_cons]
    exact ih p

/-! ## Elementary steps -/

theorem state_updateObject (q : Reference) (o : HeapObject) (p : Progress) :
    (updateObject q o cx p).2.state = p.state.putObject q o := by
  have hput : ∀ p, ((do noteChange q; modifyState (·.putObject q o) : Track Unit) cx p).2.state =
      p.state.putObject q o := by
    intro p
    change ((noteChange q cx p).2.state).putObject q o = _
    rw [leaves_noteChange q p]
  change ((if _ then _ else _ : Track Unit) cx p).2.state = _
  split
  · rw [bind_apply, hput, leaves_escape _ p]
  · exact hput p

theorem state_makeDirty (q : Reference) (p : Progress) :
    (makeDirty q cx p).2.state =
      if (p.state.deref q).dirty then p.state else p.state.putObject q .unknown := by
  change ((if !(p.state.deref q).dirty then _ else _ : Track Unit) cx p).2.state = _
  cases (p.state.deref q).dirty with
  | true => rfl
  | false =>
    change ((noteChange q cx (escape _ cx p).2).2.state).putObject q .unknown = _
    rw [leaves_noteChange q, leaves_escape _ p]
    rfl

/-- The version that an assignment of a data property leaves. -/
theorem state_writeData (weak : Bool) (q : Reference) (o : HeapObject) (name : String)
    (value : Value) (p : Progress) :
    (writeData weak q o name value cx p).2.state =
      p.state.putObject q (o.afterWrite weak name value) := by
  have hrest (updated : HeapObject) (p : Progress) :
      ((do
        if updated.dirty then escape value.references
        updateObject q updated : Track Unit) cx p).2.state = p.state.putObject q updated := by
    change ((if _ then _ else _ : Track Unit) cx p).2.state = _
    split
    · rw [bind_apply, state_updateObject, leaves_escape _ p]
    · exact state_updateObject q updated p
  cases weak with
  | false => exact hrest _ p
  | true => exact hrest _ _

/-! ## Versions before and after a step -/

/-- Wherever it starts, the version of the object that a step leaves is in the relation to the one
before. -/
def Turns (R : HeapObject → HeapObject → Prop) (cx : Context) (r : Reference) (x : Track α) : Prop :=
  ∀ p : Progress, R (p.state.deref r) ((x cx p).2.state.deref r)

section

variable {R : HeapObject → HeapObject → Prop} [HeapObject.Succession R]

open HeapObject

theorem Leaves.turns {x : Track α} (h : Leaves cx x) : Turns R cx r x := by
  intro p
  rw [h p]
  exact Succession.refl _

theorem Turns.pure (a : α) : Turns R cx r (Pure.pure a : Track α) :=
  fun _ => Succession.refl _

theorem Turns.bind {x : Track α} {f : α → Track β} (hx : Turns R cx r x)
    (hf : ∀ a, Turns R cx r (f a)) : Turns R cx r (x >>= f) :=
  fun p => Succession.trans (hx p) (hf _ _)

theorem Turns.after {x : Track α} {f : α → Track β} (hx : Leaves cx x)
    (hf : ∀ a, Turns R cx r (f a)) : Turns R cx r (x >>= f) :=
  Turns.bind hx.turns hf

omit [Succession R] in
theorem Turns.ite {c : Prop} [Decidable c] {x y : Track α} (hx : c → Turns R cx r x)
    (hy : ¬c → Turns R cx r y) : Turns R cx r (if c then x else y) := by
  split
  · exact hx ‹_›
  · exact hy ‹_›

theorem Turns.forIn {f : α → β → Track (ForInStep β)} {items : List α}
    (hf : ∀ a ∈ items, ∀ y, Turns R cx r (f a y)) (y : β) :
    Turns R cx r (ForIn.forIn items y f) := fun p =>
  forIn_keeps (I := fun q => R (p.state.deref r) (q.state.deref r))
    (fun a ha y q hq => Succession.trans hq (hf a ha y q)) y (Succession.refl _)

theorem Turns.forM {f : α → Track PUnit} (hf : ∀ a, Turns R cx r (f a)) (items : List α) :
    Turns R cx r (items.forM f) := by
  induction items with
  | nil => exact Turns.pure _
  | cons a rest ih => exact (hf a).bind fun _ => ih

/-! ## Steps that give up objects -/

theorem turns_makeDirty (q : Reference) : Turns R cx r (makeDirty q) := by
  intro p
  rw [state_makeDirty]
  split
  · exact Succession.refl _
  · rw [State.deref_putObject]
    split
    · exact Succession.unknown _
    · exact Succession.refl _

/-- Unknown code may change what it reaches, and nothing is known of that afterwards. -/
theorem turns_unknownCall (roots : List Reference) : Turns R cx r (unknownCall roots) := by
  refine Turns.after (fun _ => rfl) fun _ => Turns.after (fun _ => rfl) fun _ => ?_
  refine Turns.after (leaves_mapM_variableRoots _) fun _ => Turns.after (fun _ => rfl) fun _ => ?_
  refine Turns.after (fun _ => rfl) fun _ => ?_
  refine Turns.bind (Turns.forIn (fun q _ _ => ?_) _) fun _ => leaves_noteEffect.turns
  refine Turns.after (leaves_escape _) fun _ => ?_
  exact Turns.ite (fun _ => (turns_makeDirty q).bind fun _ => Turns.pure _)
    fun _ => Turns.pure _

theorem turns_toPrimitive (values : List Value) : Turns R cx r (toPrimitive values) := by
  unfold toPrimitive
  exact Turns.ite (fun _ => Turns.pure _) fun _ =>
    (turns_unknownCall _).bind fun _ => Turns.pure _

theorem turns_propertyName (key : Value) : Turns R cx r (propertyName key) := by
  refine Turns.bind (Turns.bind (turns_toPrimitive [key]) fun _ =>
    Turns.ite (fun _ => Turns.pure _) fun _ => Turns.pure _) fun names => ?_
  split
  · exact Turns.pure _
  · exact Turns.pure _

/-! ## Assignments -/

theorem turns_callSetter (set this : Reference) (value : Value) :
    Turns R cx r (callSetter set this value) := by
  refine Turns.after (fun _ => rfl) fun summary => ?_
  split
  · exact Turns.ite (fun _ => turns_unknownCall _) fun _ => Turns.pure _
  · exact turns_unknownCall _

/-- An assignment to one of the objects that a value may be, if that follows what was before. -/
theorem turns_writeReference {weak : Bool} {q : Reference} {name : String} {value : Value}
    (h : q = r → ∀ o, R o (o.afterWrite weak name value)) :
    Turns R cx r (writeReference weak q name value) := by
  refine Turns.ite (fun _ => Turns.after (leaves_escape _) fun _ => turns_makeDirty q) fun _ => ?_
  intro p
  rw [bind_apply, deref_apply]
  dsimp only
  by_cases hdirty : (p.state.deref q).dirty = true
  · rw [if_pos hdirty]
    exact Turns.after (leaves_escape _) (fun _ => (leaves_noteChange q).turns) p
  · rw [if_neg hdirty, bind_apply, heap_apply]
    generalize writeTarget _ _ name = target
    cases target with
    | data =>
      change R (p.state.deref r)
        ((writeData weak q (p.state.deref q) name value cx p).2.state.deref r)
      rw [state_writeData, State.deref_putObject]
      split
      · rename_i hqr
        rw [← hqr]
        exact h hqr _
      · exact Succession.refl _
    | setter set => exact turns_callSetter set q value p
    | ignored => exact Succession.refl _
    | unknown =>
      dsimp only
      exact turns_unknownCall _ p

theorem turns_writeProperty {obj : Value} {value : Value}
    (h : ∀ ss, obj.singles? = some ss → .reference r ∈ ss → ∀ name o,
      R o (HeapObject.afterWrite o (decide (1 < ss.length)) name value)) (key : Value) :
    Turns R cx r (writeProperty obj key value) := by
  unfold writeProperty
  split
  · exact turns_unknownCall _
  · rename_i ss hss
    refine (turns_propertyName key).bind fun name => ?_
    split
    · exact Turns.after (leaves_escape _) fun _ => Turns.forM turns_makeDirty _
    · rename_i n
      refine Turns.bind (Turns.forIn (fun s hs _ => ?_) _) fun _ => Turns.pure _
      split
      · exact Turns.ite (fun _ => Turns.after leaves_noteEffect fun _ => Turns.pure _)
          fun _ => Turns.pure _
      · rename_i q
        have hwrite (hqr : q = r) : ∀ o, R o (HeapObject.afterWrite o _ n value) :=
          h ss hss (hqr ▸ hs) n
        exact (turns_writeReference hwrite).bind fun _ => Turns.pure _

end

/-- An assignment claims nothing new of an object, except where it certainly hits that object: of
several that a value may be, each may also stay as it is. -/
theorem writeProperty_raises (cx : Context) {obj : Value} {r : Reference}
    (h : obj.reference? ≠ some r) (key value : Value) (p : Progress) :
    (p.state.deref r).Below ((writeProperty obj key value cx p).2.state.deref r) := by
  refine turns_writeProperty (R := HeapObject.Below) (fun ss hss hr name o => ?_) key p
  have hseveral : 1 < ss.length := by
    rcases obj with s | members | _
    · cases hss
      rw [List.mem_singleton] at hr
      exact absurd (congrArg (Value.reference? ∘ .single) hr.symm) h
    · rename_i hset
      cases hss
      exact hset.several
    · cases hss
  rw [HeapObject.afterWrite, if_pos (decide_eq_true hseveral)]
  exact HeapObject.below_or_left _ _

/-- No assignment makes a built-in object be relied on. -/
theorem writeProperty_withheld (cx : Context) {host : Host} {p : Progress}
    (h : (p.state.deref (.host host)).Withheld host) (obj key value : Value) :
    ((writeProperty obj key value cx p).2.state.deref (.host host)).Withheld host :=
  turns_writeProperty (R := HeapObject.KeepsWithheld host)
    (fun _ _ _ name _ ho => ho.afterWrite _ name value) key p h

/-! ## Deletions -/

/-- Deleting leaves the state as it is only where the object stays as it is. -/
theorem state_deleteReference (q : Reference) (name : String) (p : Progress) :
    ((deleteReference q name cx p).2.state = p.state ∧
      (p.state.deref q).afterDelete name = p.state.deref q) ∨
    (deleteReference q name cx p).2.state =
      p.state.putObject q ((p.state.deref q).afterDelete name) := by
  have hdirty : (makeDirty q cx p).2.state = _ := state_makeDirty q p
  unfold deleteReference
  rw [bind_apply, deref_apply]
  dsimp only
  cases hclean : (p.state.deref q).dirty with
  | true =>
    rw [hclean, if_pos rfl] at hdirty
    exact Or.inl ⟨hdirty, HeapObject.afterDelete_of_dirty hclean name⟩
  | false =>
    rw [hclean, if_neg Bool.false_ne_true] at hdirty
    rw [if_neg Bool.false_ne_true]
    cases hd : (p.state.deref q).get? name with
    | some d =>
      rw [HeapObject.afterDelete_of_get? hclean hd]
      cases hconf : d.configurable with
      | true =>
        simp only [hconf, if_true]
        exact Or.inr (state_updateObject q _ p)
      | false =>
        refine Or.inl ⟨?_, HeapObject.withoutProperty_eq hclean fun e he => ?_⟩
        · simp only [hconf]
          rfl
        · cases hd.symm.trans he
          exact hconf
    | none =>
      rw [HeapObject.afterDelete_of_none hclean hd]
      by_cases hnew : (p.state.deref q).knowledge = .mayHaveNew
      · simp only [if_pos hnew]
        exact Or.inr hdirty
      · simp only [if_neg hnew]
        exact Or.inl ⟨rfl, trivial⟩

theorem deref_deleteReference (q : Reference) (name : String) (p : Progress) :
    (deleteReference q name cx p).2.state.deref r =
      if q = r then (p.state.deref r).afterDelete name else p.state.deref r := by
  rcases state_deleteReference q name p with ⟨hstate, hsame⟩ | hstate
  · rw [hstate]
    split
    · rename_i hqr
      rw [← hqr, hsame]
    · rfl
  · rw [hstate, State.deref_putObject]
    split
    · rename_i hqr
      rw [hqr]
    · rfl

theorem deref_mapM_deleteSingle {ss : List Single} (hss : (ss.filterMap Single.reference?).Nodup)
    (name : String) (p : Progress) :
    (ss.mapM (deleteSingle · name) cx p).2.state.deref r =
      if r ∈ ss.filterMap Single.reference? then (p.state.deref r).afterDelete name
      else p.state.deref r := by
  induction ss generalizing p with
  | nil => rfl
  | cons s rest ih =>
    rw [List.mapM_cons]
    change (rest.mapM (deleteSingle · name) cx (deleteSingle s name cx p).2).2.state.deref r = _
    cases s with
    | primitive k =>
      have hstate : (deleteSingle (.primitive k) name cx p).2.state = p.state := by
        change ((if _ then _ else _ : Track (List Bool)) cx p).2.state = _
        split <;> rfl
      rw [ih hss, hstate]
      rfl
    | reference q =>
      have hq : (Single.reference q :: rest).filterMap Single.reference? =
        q :: rest.filterMap Single.reference? := rfl
      rw [hq, List.nodup_cons] at hss
      rw [ih hss.2]
      simp only [hq, List.mem_cons]
      change (if _ then ((deleteReference q name cx p).2.state.deref r).afterDelete name
        else (deleteReference q name cx p).2.state.deref r) = _
      rw [deref_deleteReference]
      by_cases hqr : q = r
      · subst hqr
        rw [if_pos rfl, if_neg hss.1, if_pos (Or.inl rfl)]
      · rw [if_neg hqr]
        simp only [show r ≠ q from fun h => hqr h.symm, false_or]

theorem propertyName_of_primitive {key : Value} {k : Primitive} (h : key.primitive? = some k)
    (p : Progress) : propertyName key cx p = (some k.toText, p) := by
  rcases key with s | members | _
  · cases s with
    | primitive k' =>
      cases h
      rfl
    | reference q => cases h
  · cases h
  · cases h

theorem toPrimitive_fst (values : List Value) (p : Progress) :
    (toPrimitive values cx p).1 = values.all Value.isPrimitive := by
  unfold toPrimitive
  split
  · rename_i h
    exact h.symm
  · rename_i h
    rw [bind_apply, Bool.eq_false_iff.mpr h]
    rfl

theorem propertyNames_fst (key : Value) (p : Progress) : (propertyNames key cx p).1 =
    if key.isPrimitive then
      key.singles?.map fun ss => (ss.filterMap Single.primitive?).map Primitive.toText
    else none := by
  have hprim : (toPrimitive [key] cx p).1 = key.isPrimitive := by
    rw [toPrimitive_fst, List.all_cons, List.all_nil, Bool.and_true]
  unfold propertyNames
  rw [bind_apply, hprim]
  split <;> rfl

/-- A key that is not one primitive value gives no name. -/
theorem propertyName_none {key : Value} (h : key.primitive? = none) (p : Progress) :
    (propertyName key cx p).1 = none := by
  have hnames (name : String) : (propertyNames key cx p).1 ≠ some [name] := by
    rw [propertyNames_fst]
    split
    · rename_i hprim
      rcases key with s | members | _
      · cases s with
        | primitive k => cases h
        | reference q => cases hprim
      · rename_i hset
        intro hname
        have hlength := congrArg List.length (Option.some.inj hname)
        rw [List.length_map, List.length_filterMap_eq_countP,
          List.countP_eq_length.mpr (List.all_eq_true.mp hprim)] at hlength
        have hseveral := hset.several
        rw [hlength] at hseveral
        exact absurd hseveral (Nat.not_succ_le_self 1)
      · cases hprim
    · exact Option.some_ne_none _ ∘ Eq.symm
  unfold propertyName
  rw [bind_apply]
  generalize (propertyNames key cx p).1 = names at hnames ⊢
  rcases names with _ | _ | ⟨name, _ | ⟨other, rest⟩⟩
  · rfl
  · rfl
  · exact absurd rfl (hnames name)
  · rfl

/-- Every object that a value may be loses the property, where the key is one name. -/
theorem deref_deleteProperty (cx : Context) {obj key : Value} {k : Primitive}
    (hobj : obj.isUnknown = false) (hkey : key.primitive? = some k) (r : Reference) (p : Progress) :
    (deleteProperty obj key cx p).2.state.deref r =
      if r ∈ obj.references then (p.state.deref r).afterDelete k.toText else p.state.deref r := by
  cases hss : obj.singles? with
  | none =>
    rw [Value.eq_unknown_of_singles hss] at hobj
    cases hobj
  | some ss =>
    have hrefs : obj.references = ss.filterMap Single.reference? := by
      rw [Value.references, hss]
      rfl
    unfold deleteProperty
    rw [bind_apply, propertyName_of_primitive hkey]
    dsimp only
    rw [hss]
    change (ss.mapM (deleteSingle · k.toText) cx p).2.state.deref r = _
    rw [deref_mapM_deleteSingle (hrefs ▸ obj.nodup_references)]
    simp only [hrefs]

/-- What `delete` leaves follows what was before, but for objects that lose a property by it. -/
theorem deleteProperty_turns_iff {R : HeapObject → HeapObject → Prop} [HeapObject.Succession R]
    (cx : Context) (obj key : Value) (r : Reference) (p : Progress) :
    R (p.state.deref r) ((deleteProperty obj key cx p).2.state.deref r) ↔
      ¬(r ∈ obj.references ∧ ∃ k, key.primitive? = some k ∧
        ¬R (p.state.deref r) ((p.state.deref r).afterDelete k.toText)) := by
  cases hkey : key.primitive? with
  | none =>
    refine iff_of_true ?_ fun ⟨_, k, hk, _⟩ => by cases hk
    unfold deleteProperty
    rw [bind_apply, propertyName_none hkey]
    exact HeapObject.Succession.trans (turns_propertyName key p)
      ((Turns.forM turns_makeDirty _).bind (fun _ => Turns.pure _) _)
  | some k =>
    cases hobj : obj.singles? with
    | none =>
      have hrefs : r ∉ obj.references := by
        rw [Value.references, hobj]
        exact List.not_mem_nil
      refine iff_of_true ?_ fun h => hrefs h.1
      unfold deleteProperty
      rw [bind_apply, propertyName_of_primitive hkey, hobj]
      have hcall : Turns R cx r (do unknownCall []; return Value.eitherBool) :=
        (turns_unknownCall []).bind fun _ => Turns.pure _
      dsimp only
      exact hcall p
    | some ss =>
      have hknown : obj.isUnknown = false := by
        cases obj with
        | unknown => cases hobj
        | _ => rfl
      rw [deref_deleteProperty cx hknown hkey]
      split
      · rename_i hmem
        simp [hmem]
      · rename_i hmem
        exact iff_of_true (HeapObject.Succession.refl _) fun h => hmem h.1

/-- Something new is claimed of the objects that lose a property by it, and of no others. -/
theorem deleteProperty_raises_iff (cx : Context) (obj key : Value) (r : Reference) (p : Progress) :
    (p.state.deref r).Below ((deleteProperty obj key cx p).2.state.deref r) ↔
      ¬(r ∈ obj.references ∧
        ∃ k, key.primitive? = some k ∧ (p.state.deref r).Loses k.toText) := by
  simp only [deleteProperty_turns_iff (R := HeapObject.Below), HeapObject.below_afterDelete_iff,
    not_not]

/-- A built-in object that is not relied on is relied on after `delete` if that removes a property of
it, and only then. -/
theorem deleteProperty_withheld_iff (cx : Context) {host : Host} {p : Progress}
    (h : (p.state.deref (.host host)).Withheld host) (obj key : Value) :
    ((deleteProperty obj key cx p).2.state.deref (.host host)).Withheld host ↔
      ¬(.host host ∈ obj.references ∧ ∃ k, key.primitive? = some k ∧
        (p.state.deref (.host host)).dirty = false ∧
          ∃ d, (p.state.deref (.host host)).get? k.toText = some d ∧ d.configurable = true) := by
  have hturns := deleteProperty_turns_iff (R := HeapObject.KeepsWithheld host) cx obj key
    (.host host) p
  simp only [HeapObject.KeepsWithheld, h, true_imp_iff, HeapObject.withheld_afterDelete_iff h,
    not_not] at hturns
  exact hturns

end

end Track

end EsOptimizer
