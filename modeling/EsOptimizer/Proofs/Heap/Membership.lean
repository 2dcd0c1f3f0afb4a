import EsOptimizer.Proofs.Heap.KeyOrder

/-!
# Whether an object has a property

Three questions tell something of whether an object has a property of some name: a lookup, the test
for it, and an enumeration. They follow the same chain of prototypes, but each asks something else
of the objects on it. The test gives up at an object that may have properties that are not listed,
where a lookup may still find an inherited one; a lookup follows one object more; and an enumeration
only wants to know of enumerable properties.

The test and a lookup deny a property for one and the same reason: all of the chain is known in
full, and nothing on it has the name (`hasWithin_eq_false_iff`, `lookupWithin_eq_absent_iff`). What
the test affirms lies behind objects that are known in full, and there a lookup finds it
(`lookupWithin_of_hasWithin`). A chain that comes back to itself has no end, so nothing is denied on
it.
-/

namespace EsOptimizer

namespace HeapObject

section

variable {heap : Heap} {o : HeapObject} {chain chain' : List HeapObject} {name : String} {n m : Nat}

/-- There is only one chain from an object on. -/
theorem Chain.unique (h : Chain heap o chain) (h' : Chain heap o chain') : chain = chain' := by
  induction h generalizing chain' with
  | last hproto =>
    cases h' with
    | last => rfl
    | link hproto' => cases hproto.symm.trans hproto'
  | link hproto hrest ih =>
    cases h' with
    | last hproto' => cases hproto.symm.trans hproto'
    | link hproto' hrest' =>
      cases hproto.symm.trans hproto'
      rw [ih hrest']

/-! ## Denied properties -/

/-- All properties of the object are known, and none has the name. -/
structure Lacks (heap : Heap) (name : String) (o : HeapObject) : Prop where
  trusted : o.isTrusted heap = true
  complete : o.knowledge = .knowsAll
  get? : o.get? name = none

theorem nearest?_eq_none (h : ∀ p ∈ chain, p.Lacks heap name) : nearest? chain name = none :=
  List.findSome?_eq_none_iff.mpr fun p hp => (h p hp).get?

theorem hasWithin_succ_eq_false_iff : hasWithin heap name (n + 1) o = some false ↔
    o.Lacks heap name ∧
      (o.proto = none ∨
        ∃ r, o.proto = some r ∧ hasWithin heap name n (heap.deref r) = some false) := by
  rw [hasWithin, owns]
  constructor
  · intro h
    split at h
    · cases h
    · split at h
      · cases h
      · split at h
        · cases h
        · rename_i htrust howns hall
          refine ⟨⟨by simpa using htrust, not_not.mp hall, by simpa using howns⟩, ?_⟩
          cases hproto : o.proto with
          | none => exact Or.inl rfl
          | some r =>
            rw [hproto] at h
            exact Or.inr ⟨r, rfl, h⟩
  · rintro ⟨⟨htrust, hall, hget⟩, hproto | ⟨r, hproto, hrest⟩⟩
    · simp [htrust, hall, hget, hproto]
    · simp [htrust, hall, hget, hproto, hrest]

theorem lookupWithin_succ_eq_absent_iff : lookupWithin heap name (n + 1) o = .absent ↔
    o.Lacks heap name ∧
      (o.proto = none ∨
        ∃ r, o.proto = some r ∧ lookupWithin heap name n (heap.deref r) = .absent) := by
  rw [lookupWithin]
  constructor
  · intro h
    split at h
    · cases h
    · rename_i htrust
      split at h
      · exact absurd h (ofDescriptor_ne_absent _)
      · rename_i hget
        -- An object that may have other properties turns `absent` into `unknown`.
        have hlacks (hall : o.knowledge = .knowsAll) : o.Lacks heap name :=
          ⟨by simpa using htrust, hall, hget⟩
        split at h
        · cases h
        · cases hproto : o.proto with
          | none =>
            simp only [hproto] at h
            split at h
            · exact ⟨hlacks ‹_›, Or.inl rfl⟩
            · cases h
          | some r =>
            simp only [hproto] at h
            split at h
            · rename_i hrest
              split at h
              · exact ⟨hlacks ‹_›, Or.inr ⟨r, rfl, hrest⟩⟩
              · cases h
            · rename_i hrest
              exact absurd h hrest
  · rintro ⟨⟨htrust, hall, hget⟩, hproto | ⟨r, hproto, hrest⟩⟩
    · simp [htrust, hall, hget, hproto]
    · simp [htrust, hall, hget, hproto, hrest]

theorem hasWithin_eq_false_iff : hasWithin heap name n o = some false ↔
    ∃ chain, Chain heap o chain ∧ chain.length ≤ n ∧ ∀ p ∈ chain, p.Lacks heap name :=
  exists_chain_iff (E := fun n o => hasWithin heap name n o = some false) (fun _ h => by cases h)
    fun _ _ => hasWithin_succ_eq_false_iff

theorem lookupWithin_eq_absent_iff : lookupWithin heap name n o = .absent ↔
    ∃ chain, Chain heap o chain ∧ chain.length ≤ n ∧ ∀ p ∈ chain, p.Lacks heap name :=
  exists_chain_iff (E := fun n o => lookupWithin heap name n o = .absent) (fun _ h => by cases h)
    fun _ _ => lookupWithin_succ_eq_absent_iff

/-- What the test denies, a lookup that follows as many objects does not find. -/
theorem lookupWithin_of_hasWithin_false (hle : n ≤ m) (h : hasWithin heap name n o = some false) :
    lookupWithin heap name m o = .absent := by
  obtain ⟨chain, hchain, hlength, hall⟩ := hasWithin_eq_false_iff.mp h
  exact lookupWithin_eq_absent_iff.mpr ⟨chain, hchain, hlength.trans hle, hall⟩

/-- What a lookup does not find, the test denies if it follows the chain to its end. -/
theorem hasWithin_of_lookupWithin_absent (hchain : Chain heap o chain) (hlength : chain.length ≤ n)
    (h : lookupWithin heap name m o = .absent) : hasWithin heap name n o = some false := by
  obtain ⟨chain', hchain', -, hall⟩ := lookupWithin_eq_absent_iff.mp h
  cases hchain.unique hchain'
  exact hasWithin_eq_false_iff.mpr ⟨chain, hchain, hlength, hall⟩

/-! ## Affirmed properties -/

/-- What the test affirms, a lookup that follows as many objects finds. -/
theorem lookupWithin_of_hasWithin (hle : n ≤ m) (h : hasWithin heap name n o = some true) :
    ∃ d, lookupWithin heap name m o = Lookup.ofDescriptor d := by
  induction n generalizing m o with
  | zero => cases h
  | succ n ih =>
    obtain ⟨m, rfl⟩ := Nat.exists_eq_add_of_le' (Nat.le_of_add_left_le hle)
    rw [hasWithin, owns] at h
    rw [lookupWithin]
    split at h
    · cases h
    · rename_i htrust
      rw [if_neg htrust]
      cases hget : o.get? name with
      | some d => exact ⟨d, rfl⟩
      | none =>
        rw [hget] at h
        simp only [Option.isSome_none, Bool.false_eq_true, if_false] at h
        split at h
        · cases h
        · rename_i hall
          rw [not_not] at hall
          simp only [hall, reduceCtorEq, if_false, if_true]
          cases hproto : o.proto with
          | none =>
            rw [hproto] at h
            cases h
          | some r =>
            simp only [hproto] at h
            obtain ⟨d, hd⟩ := ih (Nat.le_of_succ_le_succ hle) h
            refine ⟨d, ?_⟩
            simp only [hd]
            split
            · exact absurd ‹_› (ofDescriptor_ne_absent d)
            · rfl

end

/-! ## Agreement -/

/-- Whatever the objects and the heap look like, the questions do not contradict each other. A
property that the test affirms is found, whatever getters return; one that it denies is absent, and
is not enumerated; and one that is absent is denied if the chain of prototypes ends within the
thirty-two objects that the test follows. -/
theorem questions_agree (o : HeapObject) (heap : Heap) (name : String) :
    (o.has heap name = some true →
      ∀ run : Reference → Value, ((o.lookup heap name).found? run).isSome = true) ∧
    (o.has heap name = some false → o.lookup heap name = .absent) ∧
    (o.lookup heap name = .absent → o.has heap name ≠ some true ∧
      ((∃ chain, Chain heap o chain ∧ chain.length ≤ 32) → o.has heap name = some false)) ∧
    (∀ keys, o.keys? heap = some keys → o.has heap name = some false → name ∉ keys) := by
  have hfound (htrue : o.has heap name = some true) :
      ∃ d, o.lookup heap name = Lookup.ofDescriptor d :=
    lookupWithin_of_hasWithin (Nat.le_succ maxLinks) htrue
  refine ⟨fun htrue run => ?_, fun hfalse => ?_, fun habsent => ⟨fun htrue => ?_, ?_⟩, ?_⟩
  · obtain ⟨d, hd⟩ := hfound htrue
    rw [hd]
    exact found?_ofDescriptor run d
  · exact lookupWithin_of_hasWithin_false (Nat.le_succ maxLinks) hfalse
  · obtain ⟨d, hd⟩ := hfound htrue
    exact ofDescriptor_ne_absent d (hd.symm.trans habsent)
  · rintro ⟨chain, hchain, hlength⟩
    exact hasWithin_of_lookupWithin_absent hchain hlength habsent
  · intro keys hkeys hfalse hname
    obtain ⟨chain, hchain, -, hall⟩ := hasWithin_eq_false_iff.mp hfalse
    obtain ⟨d, hd, -⟩ := (mem_keysWithin_iff hkeys hchain).mp hname
    rw [nearest?_eq_none hall] at hd
    cases hd

/-- An object that inherits a getter. Of an object that is its own prototype nothing is denied. -/
theorem questions_agree_inherited :
    let base := (empty none .knowsAll).insert "size" (.accessor (some (.function 2)) none)
    let o := (empty (some (.object 1)) .knowsAll).insert "a" (.data .null)
    let loop := (empty (some (.object 2)) .knowsAll).insert "a" (.data .null)
    let heap : Heap := ⟨fun r => if r = .object 1 then base else loop, false⟩
    (o.has heap "size" = some true ∧ ((o.lookup heap "size").found? fun _ => .null).isSome = true) ∧
      (o.has heap "b" = some false ∧ o.lookup heap "b" = .absent) ∧
      (o.keys? heap = some ["a", "size"] ∧ "b" ∉ ["a", "size"]) ∧
      loop.has heap "b" = none ∧ loop.lookup heap "b" = .unknown := by
  intro base o loop heap
  have hsize : o.has heap "size" = some true := by decide
  have hb : o.has heap "b" = some false := by decide
  have hkeys : o.keys? heap = some ["a", "size"] := by decide +kernel
  have hloop (n : Nat) : lookupWithin heap "b" n loop = .unknown := by
    induction n with
    | zero => rfl
    | succ n ih =>
      have htrusted : loop.isTrusted heap = true := rfl
      have hget : loop.get? "b" = none := by decide
      have hproto : loop.proto = some (.object 2) := rfl
      have hderef : heap.deref (.object 2) = loop := rfl
      have hknows : loop.knowledge = .knowsAll := rfl
      simp [lookupWithin, htrusted, hget, hproto, hderef, hknows, ih]
  exact ⟨⟨hsize, (questions_agree o heap "size").1 hsize _⟩,
    ⟨hb, (questions_agree o heap "b").2.1 hb⟩,
    ⟨hkeys, (questions_agree o heap "b").2.2.2 _ hkeys hb⟩, by decide, hloop (maxLinks + 1)⟩

end HeapObject

end EsOptimizer
