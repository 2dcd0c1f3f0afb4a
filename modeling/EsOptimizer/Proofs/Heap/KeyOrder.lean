import EsOptimizer.Proofs.Heap.Enumeration

/-!
# The order of enumeration

A `for-in` loop visits the properties that a chain of prototypes lets through: of each name the
property that is nearest on the chain counts, and it is visited if it is enumerable. `Chain` is the
chain, told without a bound on its length, and `nearest?` the property that a name means on it.

An enumeration succeeds exactly on chains that end within the bound and of which every object is
known well enough (`keys?_isSome_iff`). Then it lists just the names whose nearest property is
enumerable (`mem_keysWithin_iff`), each once, and a lookup of such a name ends at that property
(`lookupWithin_of_nearest?`). `enumeration_order` puts this together with the order.
-/

namespace EsOptimizer

namespace HeapObject

section

variable {heap : Heap} {o : HeapObject} {chain : List HeapObject} {keys : List String} {n : Nat}

/-! ## Chains -/

/-- The objects from one on, prototype by prototype, if they come to an end. -/
inductive Chain (heap : Heap) : HeapObject → List HeapObject → Prop
  | last {o : HeapObject} (h : o.proto = none) : Chain heap o [o]
  | link {o : HeapObject} {r : Reference} {rest : List HeapObject} (h : o.proto = some r)
      (hrest : Chain heap (heap.deref r) rest) : Chain heap o (o :: rest)

/-- What has to be known of an object to tell all of its enumerable properties. -/
structure IsListed (heap : Heap) (o : HeapObject) : Prop where
  trusted : o.isTrusted heap = true
  known : Knowledge.noUnknownOverrideOrEnumerable.rank ≤ o.knowledge.rank

/-- The property that a name means on a chain: the first one of that name. -/
def nearest? (chain : List HeapObject) (name : String) : Option Descriptor :=
  chain.findSome? (·.get? name)

theorem nearest?_cons (o : HeapObject) (chain : List HeapObject) (name : String) :
    nearest? (o :: chain) name = (o.get? name).or (nearest? chain name) := by
  rw [nearest?, List.findSome?_cons]
  cases o.get? name with
  | none => rfl
  | some d => rfl

theorem IsListed.not_mayHaveNew (h : o.IsListed heap) : o.knowledge ≠ .mayHaveNew := by
  intro hnew
  have hknown := h.known
  rw [hnew] at hknown
  exact absurd hknown (by decide)

/-! ## One step along the chain -/

/-- An enumeration lists the object's own names and then, if there is a prototype, what the
enumeration of that one lists and the object does not hide. -/
theorem keysWithin_succ_iff : keysWithin heap (n + 1) o = some keys ↔
    o.IsListed heap ∧
      ((o.proto = none ∧ keys = o.ownKeys) ∨
        ∃ r inherited, o.proto = some r ∧ keysWithin heap n (heap.deref r) = some inherited ∧
          keys = o.ownKeys ++ inherited.filter fun k => !o.owns k) := by
  have hlisted : (!o.isTrusted heap ||
      decide (o.knowledge.rank < Knowledge.noUnknownOverrideOrEnumerable.rank)) = false ↔
      o.IsListed heap := by
    rw [Bool.or_eq_false_iff, Bool.not_eq_false', decide_eq_false_iff_not, Nat.not_lt]
    exact ⟨fun h => ⟨h.1, h.2⟩, fun h => ⟨h.trusted, h.known⟩⟩
  rw [keysWithin, ← hlisted]
  by_cases hopen : (!o.isTrusted heap ||
      decide (o.knowledge.rank < Knowledge.noUnknownOverrideOrEnumerable.rank)) = true
  · simp [hopen]
  · rw [if_neg hopen]
    cases o.proto with
    | none => simp [hopen, eq_comm]
    | some r => simp [hopen, eq_comm]

/-- More links to follow do not change what was listed. -/
theorem keysWithin_succ (h : keysWithin heap n o = some keys) :
    keysWithin heap (n + 1) o = some keys := by
  induction n generalizing o keys with
  | zero => cases h
  | succ n ih =>
    obtain ⟨hlisted, hlast | ⟨r, inherited, hproto, hinherited, hkeys⟩⟩ := keysWithin_succ_iff.mp h
    · exact keysWithin_succ_iff.mpr ⟨hlisted, Or.inl hlast⟩
    · exact keysWithin_succ_iff.mpr ⟨hlisted, Or.inr ⟨r, inherited, hproto, ih hinherited, hkeys⟩⟩

/-! ## When there is an answer -/

/-- A walk that wants the property `P` of each object, and then goes on to the prototype, comes to
an end within `n` objects exactly on chains of such objects that are no longer. -/
theorem exists_chain_iff {P : HeapObject → Prop} {E : Nat → HeapObject → Prop}
    (hzero : ∀ o, ¬E 0 o)
    (hsucc : ∀ n o, E (n + 1) o ↔
      P o ∧ (o.proto = none ∨ ∃ r, o.proto = some r ∧ E n (heap.deref r))) :
    E n o ↔ ∃ chain, Chain heap o chain ∧ chain.length ≤ n ∧ ∀ p ∈ chain, P p := by
  constructor
  · intro h
    induction n generalizing o with
    | zero => exact absurd h (hzero o)
    | succ n ih =>
      obtain ⟨ho, hproto | ⟨r, hproto, hrest⟩⟩ := (hsucc n o).mp h
      · exact ⟨[o], .last hproto, Nat.le_add_left 1 n, by simpa using ho⟩
      · obtain ⟨rest, hchain, hlength, hall⟩ := ih hrest
        exact ⟨o :: rest, .link hproto hchain, Nat.succ_le_succ hlength,
          List.forall_mem_cons.mpr ⟨ho, hall⟩⟩
  · rintro ⟨chain, hchain, hlength, hall⟩
    induction hchain generalizing n with
    | @last o hproto =>
      obtain ⟨n, rfl⟩ := Nat.exists_eq_add_of_le' hlength
      exact (hsucc n o).mpr ⟨hall o List.mem_cons_self, Or.inl hproto⟩
    | @link o r rest hproto hrest ih =>
      obtain ⟨ho, hall⟩ := List.forall_mem_cons.mp hall
      cases n with
      | zero => cases hlength
      | succ n =>
        exact (hsucc n o).mpr ⟨ho, Or.inr ⟨r, hproto, ih (Nat.le_of_succ_le_succ hlength) hall⟩⟩

theorem exists_keysWithin_iff : (∃ keys, keysWithin heap n o = some keys) ↔
    ∃ chain, Chain heap o chain ∧ chain.length ≤ n ∧ ∀ p ∈ chain, p.IsListed heap := by
  refine exists_chain_iff (E := fun n o => ∃ keys, keysWithin heap n o = some keys)
    (fun o ⟨keys, h⟩ => by cases h) fun n o => ?_
  constructor
  · rintro ⟨keys, hkeys⟩
    obtain ⟨hlisted, ⟨hproto, -⟩ | ⟨r, inherited, hproto, hinherited, -⟩⟩ :=
      keysWithin_succ_iff.mp hkeys
    · exact ⟨hlisted, Or.inl hproto⟩
    · exact ⟨hlisted, Or.inr ⟨r, hproto, inherited, hinherited⟩⟩
  · rintro ⟨hlisted, hproto | ⟨r, hproto, inherited, hinherited⟩⟩
    · exact ⟨_, keysWithin_succ_iff.mpr ⟨hlisted, Or.inl ⟨hproto, rfl⟩⟩⟩
    · exact ⟨_, keysWithin_succ_iff.mpr ⟨hlisted, Or.inr ⟨r, inherited, hproto, hinherited, rfl⟩⟩⟩

theorem exists_chain (h : keysWithin heap n o = some keys) :
    ∃ chain, Chain heap o chain ∧ chain.length ≤ n ∧ ∀ p ∈ chain, p.IsListed heap :=
  exists_keysWithin_iff.mp ⟨keys, h⟩

/-- An object can be enumerated if its chain ends within the bound, and all on it is listed. -/
theorem keys?_isSome_iff : (o.keys? heap).isSome = true ↔
    ∃ chain, Chain heap o chain ∧ chain.length ≤ maxLinks + 1 ∧ ∀ p ∈ chain, p.IsListed heap := by
  rw [Option.isSome_iff_exists]
  exact exists_keysWithin_iff

/-! ## Which names are listed -/

theorem mem_ownKeys {name : String} :
    name ∈ o.ownKeys ↔ ∃ d, o.get? name = some d ∧ d.enumerable = true := by
  rw [← mem_enumerated, ownKeys_eq, List.mem_append, namedKeys, List.mem_filter, List.mem_map]
  constructor
  · rintro (⟨e, he, rfl⟩ | ⟨hname, -⟩)
    · rw [sortedIndices, List.mem_mergeSort, List.mem_filterMap] at he
      obtain ⟨k, hk, hindex⟩ := he
      obtain ⟨i, -, rfl⟩ := Option.map_eq_some_iff.mp hindex
      exact hk
    · exact hname
  · intro hname
    cases hindex : arrayIndex? name with
    | none => exact Or.inr ⟨hname, rfl⟩
    | some i =>
      refine Or.inl ⟨(i, name), ?_, rfl⟩
      rw [sortedIndices, List.mem_mergeSort, List.mem_filterMap]
      exact ⟨name, hname, by rw [hindex]; rfl⟩

/-- A name is listed if the nearest property of that name is enumerable. -/
theorem mem_keysWithin_iff (hkeys : keysWithin heap n o = some keys) (hchain : Chain heap o chain)
    {name : String} :
    name ∈ keys ↔ ∃ d, nearest? chain name = some d ∧ d.enumerable = true := by
  induction hchain generalizing n keys with
  | @last o hproto =>
    cases n with
    | zero => cases hkeys
    | succ n =>
      obtain ⟨-, ⟨-, rfl⟩ | ⟨r, -, hproto', -⟩⟩ := keysWithin_succ_iff.mp hkeys
      · rw [mem_ownKeys, nearest?_cons, nearest?, List.findSome?_nil, Option.or_none]
      · cases hproto.symm.trans hproto'
  | @link o r rest hproto hrest ih =>
    cases n with
    | zero => cases hkeys
    | succ n =>
      obtain ⟨-, ⟨hproto', -⟩ | ⟨r', inherited, hproto', hinherited, rfl⟩⟩ :=
        keysWithin_succ_iff.mp hkeys
      · cases hproto.symm.trans hproto'
      · cases hproto.symm.trans hproto'
        rw [List.mem_append, List.mem_filter, mem_ownKeys, ih hinherited, nearest?_cons, owns]
        cases o.get? name with
        | none => simp
        | some d => simp

/-! ## The order of the names -/

theorem names_sortedIndices (keys : List String) :
    ((sortedIndices keys).map (·.2)).Perm (keys.filter fun k => (arrayIndex? k).isSome) := by
  have hnames (ks : List String) :
      (ks.filterMap fun k => (arrayIndex? k).map fun i => (i, k)).map (·.2) =
        ks.filter fun k => (arrayIndex? k).isSome := by
    induction ks with
    | nil => rfl
    | cons k ks ih =>
      cases hk : arrayIndex? k with
      | none => rw [List.filterMap_cons_none (by rw [hk]; rfl), List.filter_cons, hk]; exact ih
      | some i =>
        rw [List.filterMap_cons_some (by rw [hk]; rfl), List.filter_cons, hk]
        exact congrArg (k :: ·) ih
  rw [← hnames]
  exact (List.mergeSort_perm _ _).map _

/-- Different names stand for different indices, so these strictly ascend. -/
theorem sortedIndices_ascending {keys : List String} (h : keys.Nodup) :
    (sortedIndices keys).Pairwise fun a b => a.1 < b.1 := by
  have hnames : (sortedIndices keys).Pairwise fun a b => a.2 ≠ b.2 :=
    List.pairwise_map.mp ((names_sortedIndices keys).nodup_iff.mpr (h.filter _))
  refine ((sortedIndices_sorted keys).and hnames).imp_of_mem ?_
  rintro a b ha hb ⟨hle, hne⟩
  refine Nat.lt_of_le_of_ne hle fun heq => hne ?_
  have hb := arrayIndex?_of_mem_sortedIndices hb
  exact arrayIndex?_injective (arrayIndex?_of_mem_sortedIndices ha) (heq ▸ hb)

/-- A name is not among the indices and among the other names. -/
theorem ownKeys_nodup (o : HeapObject) : o.ownKeys.Nodup := by
  rw [ownKeys_eq, ((names_sortedIndices o.enumerated).append_right o.namedKeys).nodup_iff,
    List.nodup_append']
  refine ⟨o.enumerated_nodup.filter _, o.enumerated_nodup.filter _, fun name hindex hname => ?_⟩
  have hsome := (List.mem_filter.mp hindex).2
  have hnone := (List.mem_filter.mp hname).2
  rw [Option.isNone_iff_eq_none.mp hnone] at hsome
  cases hsome

theorem nodup_of_keysWithin (h : keysWithin heap n o = some keys) : keys.Nodup := by
  induction n generalizing o keys with
  | zero => cases h
  | succ n ih =>
    obtain ⟨-, ⟨-, rfl⟩ | ⟨r, inherited, -, hinherited, rfl⟩⟩ := keysWithin_succ_iff.mp h
    · exact o.ownKeys_nodup
    · rw [List.nodup_append']
      refine ⟨o.ownKeys_nodup, (ih hinherited).filter _, fun name hown hname => ?_⟩
      obtain ⟨d, hd, -⟩ := mem_ownKeys.mp hown
      have hhidden := (List.mem_filter.mp hname).2
      rw [owns, hd] at hhidden
      cases hhidden

/-- How the names that an enumeration of an object lists are ordered: its own indices, its other
own names, and what it inherits. -/
structure IsOrdered (heap : Heap) (o : HeapObject) (indices named inherited : List String) : Prop where
  ascending : indices.Pairwise fun a b =>
    ∃ i j, arrayIndex? a = some i ∧ arrayIndex? b = some j ∧ i < j
  mem_indices : ∀ name, name ∈ indices ↔
    (arrayIndex? name).isSome = true ∧ ∃ d, o.get? name = some d ∧ d.enumerable = true
  /-- Properties are kept in the order in which they were added. -/
  named : named =
    (o.properties.filter fun p => p.2.enumerable && (arrayIndex? p.1).isNone).map (·.1)
  last : o.proto = none → inherited = []
  /-- The prototype enumerates them in the same order. -/
  link : ∀ r, o.proto = some r →
    ∃ keys, (heap.deref r).keys? heap = some keys ∧ inherited = keys.filter fun k => !o.owns k

theorem exists_ordered (h : o.keys? heap = some keys) : ∃ indices named inherited,
    keys = indices ++ named ++ inherited ∧ IsOrdered heap o indices named inherited := by
  have hascending : ((sortedIndices o.enumerated).map (·.2)).Pairwise fun a b =>
      ∃ i j, arrayIndex? a = some i ∧ arrayIndex? b = some j ∧ i < j := by
    refine List.pairwise_map.mpr ((sortedIndices_ascending o.enumerated_nodup).imp_of_mem ?_)
    intro a b ha hb hlt
    exact ⟨a.1, b.1, arrayIndex?_of_mem_sortedIndices ha, arrayIndex?_of_mem_sortedIndices hb, hlt⟩
  have hmem (name : String) : name ∈ (sortedIndices o.enumerated).map (·.2) ↔
      (arrayIndex? name).isSome = true ∧ ∃ d, o.get? name = some d ∧ d.enumerable = true := by
    rw [(names_sortedIndices o.enumerated).mem_iff, List.mem_filter, mem_enumerated, and_comm]
  have hnamed : o.namedKeys =
      (o.properties.filter fun p => p.2.enumerable && (arrayIndex? p.1).isNone).map (·.1) := by
    rw [namedKeys, enumerated, List.filter_map, List.filter_filter]
    simp only [Bool.and_comm, Function.comp_def]
  obtain ⟨-, ⟨hproto, rfl⟩ | ⟨r, inherited, hproto, hinherited, rfl⟩⟩ := keysWithin_succ_iff.mp h
  · refine ⟨_, o.namedKeys, [], ?_, hascending, hmem, hnamed, fun _ => rfl, fun r hr => ?_⟩
    · rw [List.append_nil, ownKeys_eq]
    · cases hproto.symm.trans hr
  · refine ⟨_, o.namedKeys, _, rfl, hascending, hmem, hnamed, fun hnone => ?_, fun r' hr => ?_⟩
    · cases hproto.symm.trans hnone
    · cases hproto.symm.trans hr
      exact ⟨inherited, keysWithin_succ hinherited, rfl⟩

/-! ## Looking listed names up -/

theorem ofDescriptor_ne_absent (d : Descriptor) : Lookup.ofDescriptor d ≠ .absent := by
  unfold Lookup.ofDescriptor
  split <;> exact nofun

theorem found?_ofDescriptor (run : Reference → Value) (d : Descriptor) :
    ((Lookup.ofDescriptor d).found? run).isSome = true := by
  unfold Lookup.ofDescriptor
  split <;> rfl

/-- On a chain of which every object is listed, a lookup ends at the nearest property. -/
theorem lookupWithin_of_nearest? (hchain : Chain heap o chain) (hlength : chain.length ≤ n)
    (hall : ∀ p ∈ chain, p.IsListed heap) {name : String} {d : Descriptor}
    (hd : nearest? chain name = some d) :
    lookupWithin heap name n o = Lookup.ofDescriptor d := by
  induction hchain generalizing n with
  | @last o hproto =>
    cases n with
    | zero => cases hlength
    | succ n =>
      rw [nearest?_cons, nearest?, List.findSome?_nil, Option.or_none] at hd
      rw [lookupWithin, (hall o List.mem_cons_self).trusted, hd]
      rfl
  | @link o r rest hproto hrest ih =>
    obtain ⟨hlisted, hall⟩ := List.forall_mem_cons.mp hall
    cases n with
    | zero => cases hlength
    | succ n =>
      rw [nearest?_cons] at hd
      rw [lookupWithin, hlisted.trusted]
      cases hown : o.get? name with
      | some e =>
        rw [hown] at hd
        cases hd
        rfl
      | none =>
        rw [hown, Option.none_or] at hd
        simp only [Bool.not_true, Bool.false_eq_true, if_false, if_neg hlisted.not_mayHaveNew,
          hproto, ih (Nat.le_of_succ_le_succ hlength) hall hd]
        split
        · exact absurd ‹_› (ofDescriptor_ne_absent d)
        · rfl

/-! ## Enumeration -/

/-- An object can be enumerated exactly if its chain of prototypes has at most thirty-three objects
and all of them are trusted and have no unknown enumerable property. Then every name whose nearest
property is enumerable is listed, once: the object's own indices in ascending order, its other own
names in the order in which they were added, and what the prototype lists in its order; and every
listed name can be looked up. -/
theorem enumeration_order (o : HeapObject) (heap : Heap) :
    ((o.keys? heap).isSome = true ↔
      ∃ chain, Chain heap o chain ∧ chain.length ≤ 33 ∧ ∀ p ∈ chain, p.IsListed heap) ∧
    ∀ keys, o.keys? heap = some keys →
      keys.Nodup ∧
      (∃ chain, Chain heap o chain ∧
        ∀ name, name ∈ keys ↔ ∃ d, nearest? chain name = some d ∧ d.enumerable = true) ∧
      (∃ indices named inherited, keys = indices ++ named ++ inherited ∧
        IsOrdered heap o indices named inherited) ∧
      ∀ name ∈ keys, ∀ run : Reference → Value,
        ((o.lookup heap name).found? run).isSome = true := by
  refine ⟨keys?_isSome_iff, fun keys hkeys => ?_⟩
  obtain ⟨chain, hchain, hlength, hall⟩ := exists_chain hkeys
  refine ⟨nodup_of_keysWithin hkeys, ⟨chain, hchain, fun name => mem_keysWithin_iff hkeys hchain⟩,
    exists_ordered hkeys, fun name hname run => ?_⟩
  obtain ⟨d, hd, -⟩ := (mem_keysWithin_iff hkeys hchain).mp hname
  rw [lookup, lookupWithin_of_nearest? hchain hlength hall hd]
  exact found?_ofDescriptor run d

end

/-- An object that hides an enumerable property of its prototype, and has indices in between. -/
theorem enumeration_order_hidden :
    let v := Value.null
    let base := (((empty none .knowsAll).insert "a" (.data v)).insert "c" (.data v)).insert "1" (.data v)
    let own := ((empty (some (.object 1)) .noUnknownOverrideOrEnumerable).insert "10" (.data v)).insert
      "a" (.hidden v)
    let o := (own.insert "b" (.data v)).insert "2" (.data v)
    let heap : Heap := ⟨fun _ => base, false⟩
    let keys := ["2", "10", "b", "1", "c"]
    o.keys? heap = some keys ∧ keys.Nodup ∧
      ∀ name ∈ keys, ((o.lookup heap name).found? fun _ => .unknown).isSome = true := by
  intro v base own o heap keys
  have hbase : base.ownKeys = ["1", "a", "c"] := by
    have hindices : (base.enumerated.filterMap fun k => (arrayIndex? k).map fun i => (i, k)) =
        [(1, "1")] := by decide +kernel
    have hnamed : base.namedKeys = ["a", "c"] := by decide +kernel
    rw [ownKeys_eq, sortedIndices, hindices, hnamed, List.mergeSort_singleton]
    rfl
  have hown : o.ownKeys = ["2", "10", "b"] := by
    have hindices : (o.enumerated.filterMap fun k => (arrayIndex? k).map fun i => (i, k)) =
        [(10, "10"), (2, "2")] := by decide +kernel
    have hsorted : ([(10, "10"), (2, "2")].mergeSort fun a b => a.1 ≤ b.1) =
        [(2, "2"), (10, "10")] := by
      simp [List.mergeSort, List.MergeSort.Internal.splitInTwo]
    have hnamed : o.namedKeys = ["b"] := by decide +kernel
    rw [ownKeys_eq, sortedIndices, hindices, hsorted, hnamed]
    rfl
  have hinherited : keysWithin heap maxLinks base = some ["1", "a", "c"] :=
    keysWithin_succ_iff.mpr ⟨⟨rfl, by decide⟩, Or.inl ⟨rfl, hbase.symm⟩⟩
  have hkeys : o.keys? heap = some keys := by
    refine keysWithin_succ_iff.mpr
      ⟨⟨rfl, by decide⟩, Or.inr ⟨.object 1, ["1", "a", "c"], rfl, hinherited, ?_⟩⟩
    rw [hown]
    decide +kernel
  obtain ⟨hnodup, -, -, hfound⟩ := (enumeration_order o heap).2 keys hkeys
  exact ⟨hkeys, hnodup, fun name hname => hfound name hname _⟩

end HeapObject

end EsOptimizer
