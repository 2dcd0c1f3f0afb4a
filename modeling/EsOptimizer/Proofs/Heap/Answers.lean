import EsOptimizer.Heap.Query
import EsOptimizer.Proofs.Heap.Lattice

/-!
# What a joined object answers

A version of an object that allows more answers fewer questions, and never differently. Both versions
have the same prototype, so a question that the object itself leaves open is asked of the same chain:
only its first object has to be looked at, whatever the rest of the chain looks like, cycles
included (`Within.lookupWithin_below`, `Within.hasWithin_eq`, `Within.inheritsWithin_eq`).

What is known of a built-in object is relied on only if the real one is trusted, so versions are
compared that stand for the same built-in object, or for none.

A join lies above both its parts, and so it answers for both (`joined_answers`).

A built-in object that is not trusted answers nothing as long as its version stands for the real one
(`Withheld.unanswered`). Joins do not change that (`Withheld.or`), and neither do assignments and array
methods; to delete a property does.
-/

namespace EsOptimizer

namespace Lookup

/-- Where the second lookup has an answer, it is that of the first, or a greater value. -/
def Below : Lookup → Lookup → Prop
  | _, unknown => True
  | absent, absent => True
  | value x, value y => x.Below y
  | getter get, getter get' => get = get'
  | _, _ => False

theorem Below.refl (l : Lookup) : l.Below l := by
  cases l with
  | absent => trivial
  | value x => exact Value.Below.refl x
  | getter get => rfl
  | unknown => trivial

theorem below_unknown (l : Lookup) : l.Below unknown := by
  cases l <;> trivial

/-- The value that was found, if a getter returns what `run` says. -/
def found? (run : Reference → Value) : Lookup → Option Value
  | value v => some v
  | getter get => some (run get)
  | absent | unknown => none

theorem Below.found {l l' : Lookup} (h : l.Below l') {run : Reference → Value} {v : Value}
    (hv : l'.found? run = some v) : ∃ x, l.found? run = some x ∧ x.Below v := by
  cases l' with
  | absent => cases hv
  | unknown => cases hv
  | value y =>
    cases hv
    cases l with
    | value x => exact ⟨x, rfl, h⟩
    | _ => exact h.elim
  | getter get =>
    cases hv
    cases l with
    | getter get' =>
      cases h
      exact ⟨run get, rfl, Value.Below.refl _⟩
    | _ => exact h.elim

theorem Below.absent {l : Lookup} (h : l.Below absent) : l = absent := by
  cases l with
  | absent => rfl
  | _ => exact h.elim

end Lookup

theorem Descriptor.Below.lookup {d e : Descriptor} (h : d.Below e) :
    (Lookup.ofDescriptor d).Below (Lookup.ofDescriptor e) := by
  have hcontent := h.content
  unfold Lookup.ofDescriptor
  cases hd : d.content with
  | data x =>
    cases he : e.content with
    | data y => rwa [hd, he] at hcontent
    | accessor get set =>
      rw [hd, he] at hcontent
      exact hcontent.elim
  | accessor get set =>
    cases he : e.content with
    | data y =>
      rw [hd, he] at hcontent
      exact hcontent.elim
    | accessor get' set' =>
      rw [hd, he] at hcontent
      obtain rfl : get = get' := hcontent.1
      cases get with
      | none => exact Lookup.Below.refl _
      | some get => exact Lookup.Below.refl _

namespace HeapObject

section

variable {a b : HeapObject} {heap : Heap}

/-! ## Names and completeness -/

/-- A name that the greater version has, the lesser one has. -/
theorem Within.owns_of_owns (h : Within a b) {name : String} (hb : b.owns name = true) :
    a.owns name = true := by
  obtain ⟨d, hd⟩ := owns_iff.mp hb
  obtain ⟨c, hc, -⟩ := h.properties name d hd
  exact owns_iff.mpr ⟨c, hc⟩

/-- Unless it may have any property, the greater version has the same names. -/
theorem Within.owns_eq (h : Within a b) (hb : b.knowledge ≠ .mayHaveNew) (name : String) :
    a.owns name = b.owns name :=
  Bool.eq_iff_iff.mpr ⟨h.complete hb name, h.owns_of_owns⟩

theorem Within.get?_eq_none (h : Within a b) (hb : b.knowledge ≠ .mayHaveNew) {name : String}
    (hname : b.get? name = none) : a.get? name = none := by
  have howns := h.owns_eq hb name
  rw [owns, owns, hname, Option.isSome_none, Option.isSome_eq_false_iff] at howns
  exact Option.isNone_iff_eq_none.mp howns

theorem Within.mayHaveNew_of (h : Within a b) (ha : a.knowledge = .mayHaveNew) :
    b.knowledge = .mayHaveNew :=
  Knowledge.eq_mayHaveNew_of_rank_le (ha ▸ h.knowledge)

theorem Within.knowsAll_of (h : Within a b) (hb : b.knowledge = .knowsAll) :
    a.knowledge = .knowsAll := by
  have hrank := h.knowledge
  rw [hb] at hrank
  cases hk : a.knowledge <;> rw [hk] at hrank <;> first | rfl | exact absurd hrank (by decide)

/-- Versions that stand for the same built-in object are trusted alike. -/
theorem Within.isTrusted_eq (h : Within a b) (hhost : a.host = b.host) :
    a.isTrusted heap = b.isTrusted heap := by
  rw [isTrusted, isTrusted, h.clean, h.clean', hhost]

/-! ## Questions -/

theorem Within.lookupWithin_below (h : Within a b) (hhost : a.host = b.host) (heap : Heap)
    (name : String) (n : Nat) :
    (lookupWithin heap name n a).Below (lookupWithin heap name n b) := by
  cases n with
  | zero => exact Lookup.below_unknown _
  | succ n =>
    rw [lookupWithin, lookupWithin, h.isTrusted_eq hhost]
    by_cases htrust : b.isTrusted heap = true
    · simp only [htrust, Bool.not_true, Bool.false_eq_true, if_false]
      cases hb : b.get? name with
      | some d =>
        obtain ⟨c, hc, hcd⟩ := h.properties name d hb
        rw [hc]
        exact hcd.lookup
      | none =>
        by_cases hnew : b.knowledge = .mayHaveNew
        · rw [if_pos hnew]
          exact Lookup.below_unknown _
        · -- the answer comes from the prototype, which is the same for both
          simp only [h.get?_eq_none hnew hb, if_neg hnew,
            if_neg (fun ha => hnew (h.mayHaveNew_of ha)), h.proto]
          have habsent : (if a.knowledge = .knowsAll then Lookup.absent else .unknown).Below
              (if b.knowledge = .knowsAll then .absent else .unknown) := by
            by_cases hall : b.knowledge = .knowsAll
            · rw [if_pos hall, if_pos (h.knowsAll_of hall)]
              exact Lookup.Below.refl _
            · rw [if_neg hall]
              exact Lookup.below_unknown _
          cases b.proto with
          | none => exact habsent
          | some proto =>
            dsimp only
            cases lookupWithin heap name n (heap.deref proto) with
            | absent => exact habsent
            | _ => exact Lookup.Below.refl _
    · simp only [Bool.not_eq_true] at htrust
      simp only [htrust, Bool.not_false, if_true]
      exact Lookup.below_unknown _

theorem Within.hasWithin_eq (h : Within a b) (hhost : a.host = b.host) {name : String} {n : Nat}
    {answer : Bool} (hb : hasWithin heap name n b = some answer) :
    hasWithin heap name n a = some answer := by
  cases n with
  | zero => cases hb
  | succ n =>
    rw [hasWithin] at hb ⊢
    rw [h.isTrusted_eq hhost]
    split at hb
    · cases hb
    · rename_i htrust
      rw [if_neg htrust]
      split at hb
      · rename_i howns
        rw [if_pos (h.owns_of_owns howns)]
        exact hb
      · rename_i howns
        split at hb
        · cases hb
        · rename_i hall
          have hall := not_not.mp hall
          have hnew : b.knowledge ≠ .mayHaveNew := by simp [hall]
          rw [h.owns_eq hnew, if_neg howns, if_neg (not_not.mpr (h.knowsAll_of hall)), h.proto]
          exact hb

theorem Within.inheritsWithin_eq (h : Within a b) (proto : Reference) (n : Nat) :
    inheritsWithin heap proto n a = inheritsWithin heap proto n b := by
  cases n with
  | zero => rfl
  | succ n => rw [inheritsWithin, inheritsWithin, h.clean, h.clean', h.proto]

/-! ## Versions that allow more -/

theorem lookup_of_dirty (h : b.dirty = true) (name : String) : b.lookup heap name = .unknown := by
  rw [lookup, lookupWithin, isTrusted, h]
  rfl

theorem has_of_dirty (h : b.dirty = true) (name : String) : b.has heap name = none := by
  rw [has, maxLinks, hasWithin, isTrusted, h]
  rfl

theorem inheritsFrom_of_dirty (h : b.dirty = true) (proto : Reference) :
    b.inheritsFrom heap proto = none := by
  rw [inheritsFrom, maxLinks, inheritsWithin, h]
  rfl

theorem lookup_below (h : a.Below b) (hhost : b.dirty = false → a.host = b.host) (heap : Heap)
    (name : String) : (a.lookup heap name).Below (b.lookup heap name) := by
  cases hb : b.dirty with
  | true =>
    rw [lookup_of_dirty hb]
    exact Lookup.below_unknown _
  | false => exact (within_of_below h hb).lookupWithin_below (hhost hb) heap name _

theorem has_of_below (h : a.Below b) (hhost : b.dirty = false → a.host = b.host) {name : String}
    {answer : Bool} (hanswer : b.has heap name = some answer) : a.has heap name = some answer := by
  cases hb : b.dirty with
  | true =>
    rw [has_of_dirty hb] at hanswer
    cases hanswer
  | false => exact (within_of_below h hb).hasWithin_eq (hhost hb) hanswer

theorem inheritsFrom_of_below (h : a.Below b) {proto : Reference} {answer : Bool}
    (hanswer : b.inheritsFrom heap proto = some answer) :
    a.inheritsFrom heap proto = some answer := by
  cases hb : b.dirty with
  | true =>
    rw [inheritsFrom_of_dirty hb] at hanswer
    cases hanswer
  | false => exact ((within_of_below h hb).inheritsWithin_eq proto _).trans hanswer

end

/-! ## Joins -/

/-- Two versions of the same built-in object, or of none, have a join that stands for it too, unless
nothing is known of it. -/
theorem host_eq_or {a b : HeapObject} (hhost : a.host = b.host) (hclean : (a.or b).dirty = false) :
    a.host = (a.or b).host := by
  rcases or_cases a b with ⟨-, heq⟩ | hunknown | h
  · rw [heq]
  · rw [hunknown] at hclean
    cases hclean
  · rw [h.host_or, if_pos (beq_iff_eq.mpr hhost)]

/-- What a join answers, both its parts answer: a property that it certainly has, they certainly have,
with values that are joined in; one that it certainly lacks, they lack. A getter returns what `run`
says for it and for the object that it is called on. -/
theorem joined_answers (a b : HeapObject) (hhost : a.host = b.host) (heap : Heap)
    (run : Reference → Reference → Value) (this : Reference) (name : String) :
    (∀ v, ((a.or b).lookup heap name).found? (run · this) = some v →
      ∃ x y, (a.lookup heap name).found? (run · this) = some x ∧
        (b.lookup heap name).found? (run · this) = some y ∧
        (x.or v == v) = true ∧ (y.or v == v) = true) ∧
    ((a.or b).lookup heap name = .absent →
      a.lookup heap name = .absent ∧ b.lookup heap name = .absent) ∧
    (∀ answer, (a.or b).has heap name = some answer →
      a.has heap name = some answer ∧ b.has heap name = some answer) ∧
    (∀ proto answer, (a.or b).inheritsFrom heap proto = some answer →
      a.inheritsFrom heap proto = some answer ∧ b.inheritsFrom heap proto = some answer) := by
  have hleft := below_or_left a b
  have hright := below_or_right a b
  have hhosta := host_eq_or hhost
  have hhostb := fun hclean => hhost.symm.trans (hhosta hclean)
  have hlookupa := lookup_below hleft hhosta heap name
  have hlookupb := lookup_below hright hhostb heap name
  refine ⟨fun v hv => ?_, fun habsent => ?_, fun answer hanswer => ?_,
    fun proto answer hanswer => ?_⟩
  · obtain ⟨x, hx, hxv⟩ := hlookupa.found hv
    obtain ⟨y, hy, hyv⟩ := hlookupb.found hv
    exact ⟨x, y, hx, hy, Value.below_iff_or_beq.mp hxv, Value.below_iff_or_beq.mp hyv⟩
  · rw [habsent] at hlookupa hlookupb
    exact ⟨hlookupa.absent, hlookupb.absent⟩
  · exact ⟨has_of_below hleft hhosta hanswer, has_of_below hright hhostb hanswer⟩
  · exact ⟨inheritsFrom_of_below hleft hanswer, inheritsFrom_of_below hright hanswer⟩

/-- Two versions of an object with a prototype that has a getter. -/
theorem joined_answers_inherited :
    let base := (empty none .knowsAll).insert "size" (.accessor (some (.function 2)) none)
    let heap : Heap := ⟨fun r => if r = .object 1 then base else unknown, false⟩
    let version (v : Value) := (empty (some (.object 1)) .knowsAll).insert "p" (.data v)
    let joined := (version .null).or (version .undefined)
    let run (get this : Reference) : Value :=
      if get = .function 2 then .ofReference this else .undefined
    joined.lookup heap "p" = .value (Value.null.or .undefined) ∧
      (∃ x y, ((version .null).lookup heap "p").found? (run · (.object 7)) = some x ∧
        ((version .undefined).lookup heap "p").found? (run · (.object 7)) = some y ∧
        (x.or (Value.null.or .undefined) == Value.null.or .undefined) = true ∧
        (y.or (Value.null.or .undefined) == Value.null.or .undefined) = true) ∧
      (joined.lookup heap "size").found? (run · (.object 7)) = some (.ofReference (.object 7)) ∧
      joined.has heap "q" = some false ∧ (version .null).has heap "q" = some false := by
  intro base heap version joined run
  have hp : joined.lookup heap "p" = .value (Value.null.or .undefined) := rfl
  have hq : joined.has heap "q" = some false := by decide
  refine ⟨hp, ?_, by decide, hq, ?_⟩
  · exact (joined_answers (version .null) (version .undefined) rfl heap run (.object 7) "p").1 _
      (congrArg (Lookup.found? (run · (.object 7))) hp)
  · exact ((joined_answers (version .null) (version .undefined) rfl heap run (.object 7) "q").2.2.1
      false hq).1

/-! ## Built-in objects -/

/-- If anything is known of the object, then its version stands for the built-in object. -/
def Withheld (o : HeapObject) (host : Host) : Prop := o.dirty = true ∨ o.host = some host

theorem withheld_unknown (host : Host) : unknown.Withheld host := Or.inl rfl

theorem Withheld.or {a b : HeapObject} {host : Host} (ha : a.Withheld host) (hb : b.Withheld host) :
    (a.or b).Withheld host := by
  rcases or_cases a b with ⟨-, heq⟩ | hunknown | h
  · rw [heq]
    exact ha
  · rw [hunknown]
    exact withheld_unknown host
  · have hhosta := ha.resolve_left (ne_true_of_eq_false h.clean)
    have hhostb := hb.resolve_left (ne_true_of_eq_false h.clean')
    refine Or.inr ?_
    rw [h.host_or, hhosta, hhostb, if_pos BEq.rfl]

/-- Nothing that is asked of the object is answered, unless built-in objects are trusted. -/
theorem Withheld.unanswered {o : HeapObject} {host : Host} (h : o.Withheld host) {heap : Heap}
    (hheap : heap.trustsNatives = false) (name : String) :
    o.lookup heap name = .unknown ∧ o.has heap name = none ∧ o.keys? heap = none := by
  have huntrusted : o.isTrusted heap = false := by
    rcases h with hdirty | hhost
    · rw [isTrusted, hdirty]
      rfl
    · rw [isTrusted, hhost, hheap]
      exact Bool.and_false _
  refine ⟨?_, ?_, ?_⟩
  · rw [lookup, lookupWithin, huntrusted]
    rfl
  · rw [has, maxLinks, hasWithin, huntrusted]
    rfl
  · rw [keys?, keysWithin, huntrusted]
    rfl

end HeapObject

end EsOptimizer
