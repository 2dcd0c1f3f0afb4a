import EsOptimizer.Flow.Reachable
import EsOptimizer.Proofs.Flow.Reach
import Mathlib.Data.Fintype.Card
import Mathlib.Data.Finset.Card
import Mathlib.Logic.Function.Iterate

/-!
# What a search finds

`Reaches next start` is the least set that has the references of `start` and is closed under links.
Two searches for it are considered: one level of references after the other (`closure`), and one
reference at a time (`Search`). Both are always somewhere between the start and the end of the same
exploration (`Explores`), and links lead to finitely many references only.

Where those are held by an object of the state or are built-in, `State.reachable` follows enough
levels (`State.mem_reachable`), and this is so for links that are read off the current versions of
objects (`State.mem_links_of_deref`).
-/

namespace EsOptimizer

/-- What can be reached from references of `start` by following links. -/
inductive Reaches (next : Reference → List Reference) (start : Reference → Prop) : Reference → Prop
  | root {r : Reference} : start r → Reaches next start r
  | link {q r : Reference} : Reaches next start q → r ∈ next q → Reaches next start r

section

variable {next : Reference → List Reference} {start : Reference → Prop} {visited : RefSet}
  {pending : List Reference} {links : Finset Reference}

/-- It is the least set of its kind. -/
theorem Reaches.least {R : Reference → Prop} (hstart : ∀ r, start r → R r)
    (hlink : ∀ q, R q → ∀ r ∈ next q, R r) {r : Reference} (h : Reaches next start r) : R r := by
  induction h with
  | root hr => exact hstart _ hr
  | link _ hr ih => exact hlink _ ih _ hr

/-! ## In the middle of a search -/

/-- What was visited or is pending can be reached, and nothing that can be reached is forgotten. -/
structure Explores (next : Reference → List Reference) (start : Reference → Prop)
    (visited : RefSet) (pending : List Reference) : Prop where
  sound : ∀ r, r ∈ visited ∨ r ∈ pending → Reaches next start r
  starts : ∀ r, start r → r ∈ visited ∨ r ∈ pending
  closed : ∀ q ∈ visited, ∀ r ∈ next q, r ∈ visited ∨ r ∈ pending

namespace Explores

theorem init (h : ∀ r, r ∈ pending ↔ start r) : Explores next start {} pending where
  sound r hr := .root ((h r).mp (hr.resolve_left Std.TreeSet.not_mem_emptyc))
  starts r hr := Or.inr ((h r).mpr hr)
  closed _ hq := absurd hq Std.TreeSet.not_mem_emptyc

/-- A search moves on if it forgets nothing, makes pending only what is linked, and all the links of
what it visits. -/
theorem advance {visited' : RefSet} {pending' : List Reference}
    (h : Explores next start visited pending)
    (hkeep : ∀ r, r ∈ visited ∨ r ∈ pending → r ∈ visited' ∨ r ∈ pending')
    (hvisited : ∀ r ∈ visited', r ∈ visited ∨ r ∈ pending)
    (hpending : ∀ r ∈ pending', r ∈ pending ∨ ∃ q ∈ pending, r ∈ next q)
    (hlinks : ∀ q ∈ visited', q ∈ visited ∨ ∀ r ∈ next q, r ∈ pending') :
    Explores next start visited' pending' := by
  refine ⟨fun r hr => ?_, fun r hr => hkeep r (h.starts r hr), fun q hq r hr => ?_⟩
  · rcases hr with hr | hr
    · exact h.sound r (hvisited r hr)
    · rcases hpending r hr with hr | ⟨q, hq, hr⟩
      · exact h.sound r (Or.inr hr)
      · exact .link (h.sound q (Or.inr hq)) hr
  · rcases hlinks q hq with hq | hq
    · exact hkeep r (h.closed q hq r hr)
    · exact Or.inr (hq r hr)

/-- With nothing left to visit, the search is at its end. -/
theorem mem_iff (h : Explores next start visited pending) (hpending : ∀ r ∈ pending, r ∈ visited)
    (r : Reference) : r ∈ visited ↔ Reaches next start r := by
  constructor
  · exact fun hr => h.sound r (Or.inl hr)
  · exact Reaches.least (fun r hr => (h.starts r hr).elim id (hpending r))
      fun q hq r hr => (h.closed q hq r hr).elim id (hpending r)

end Explores

/-- The links that were not followed yet. -/
def unvisited (links : Finset Reference) (visited : RefSet) : Finset Reference :=
  links.filter fun r => r ∉ visited

theorem unvisited_card_lt {visited' : RefSet} (hmore : ∀ r ∈ visited, r ∈ visited')
    {r : Reference} (hr : r ∈ links) (hnew : r ∉ visited) (hnew' : r ∈ visited') :
    (unvisited links visited').card < (unvisited links visited).card := by
  refine Finset.card_lt_card (Finset.ssubset_iff_of_subset (fun q hq => ?_) |>.mpr ⟨r, ?_, ?_⟩)
  · obtain ⟨hq, hnot⟩ := Finset.mem_filter.mp hq
    exact Finset.mem_filter.mpr ⟨hq, fun hv => hnot (hmore q hv)⟩
  · exact Finset.mem_filter.mpr ⟨hr, hnew⟩
  · exact fun hmem => (Finset.mem_filter.mp hmem).2 hnew'

/-! ## Level by level -/

/-- Visiting all that is pending makes its links pending. -/
theorem Explores.level (h : Explores next start visited pending) {found : List Reference}
    (hfound : ∀ r, r ∈ found ↔ r ∈ pending ∧ r ∉ visited) :
    Explores next start (visited.extend found) ((RefSet.ofList found).toList.flatMap next) := by
  have hmem (r : Reference) : r ∈ (RefSet.ofList found).toList.flatMap next ↔
      ∃ q ∈ found, r ∈ next q := by
    simp only [List.mem_flatMap, Std.TreeSet.mem_toList, RefSet.mem_ofList]
  refine h.advance (fun r hr => Or.inl (RefSet.mem_extend.mpr ?_)) (fun r hr => ?_) (fun r hr => ?_)
    fun q hq => ?_
  · by_cases hv : r ∈ visited
    · exact Or.inl hv
    · exact Or.inr ((hfound r).mpr ⟨hr.resolve_left hv, hv⟩)
  · exact (RefSet.mem_extend.mp hr).imp id fun hr => ((hfound r).mp hr).1
  · obtain ⟨q, hq, hr⟩ := (hmem r).mp hr
    exact Or.inr ⟨q, ((hfound q).mp hq).1, hr⟩
  · exact (RefSet.mem_extend.mp hq).imp id fun hq r hr => (hmem r).mpr ⟨q, hq, hr⟩

/-- If there are at most `n` references that were not visited yet, then `n` levels are enough. -/
theorem Explores.mem_closure {n : Nat} (h : Explores next start visited pending)
    (hpending : ∀ r ∈ pending, r ∈ links) (hnext : ∀ q, ∀ r ∈ next q, r ∈ links)
    (hn : (unvisited links visited).card ≤ n) (r : Reference) :
    r ∈ closure next n visited pending ↔ Reaches next start r := by
  induction n generalizing visited pending with
  | zero =>
    have hnone : unvisited links visited = ∅ := Finset.card_eq_zero.mp (Nat.le_zero.mp hn)
    have hdone : ∀ q ∈ pending, q ∈ visited := by
      intro q hq
      by_contra hnot
      have hmem : q ∈ unvisited links visited := Finset.mem_filter.mpr ⟨hpending q hq, hnot⟩
      rw [hnone] at hmem
      exact Finset.notMem_empty q hmem
    rw [closure, RefSet.mem_extend, ← h.mem_iff hdone]
    exact ⟨fun hr => hr.elim id (hdone r), Or.inl⟩
  | succ n ih =>
    rw [closure]
    have hfound (q : Reference) : q ∈ pending.filter (fun r => !visited.contains r) ↔
        q ∈ pending ∧ q ∉ visited := by
      rw [List.mem_filter, Bool.not_eq_true', ← Bool.not_eq_true, Std.TreeSet.contains_iff_mem]
    generalize pending.filter (fun r => !visited.contains r) = found at hfound
    cases found with
    | nil =>
      refine h.mem_iff (fun q hq => ?_) r
      by_contra hnot
      exact List.not_mem_nil ((hfound q).mpr ⟨hq, hnot⟩)
    | cons q rest =>
      obtain ⟨hq, hnew⟩ := (hfound q).mp List.mem_cons_self
      have hlt : (unvisited links (visited.extend (q :: rest))).card <
          (unvisited links visited).card :=
        unvisited_card_lt (fun r hr => RefSet.mem_extend.mpr (Or.inl hr)) (hpending q hq) hnew
          (RefSet.mem_extend.mpr (Or.inr List.mem_cons_self))
      refine ih (h.level hfound) (fun r hr => ?_) (by omega)
      obtain ⟨p, -, hr⟩ := List.mem_flatMap.mp hr
      exact hnext p r hr

/-! ## One at a time -/

/-- A search that takes one reference at a time. -/
structure Search where
  visited : RefSet := {}
  pending : List Reference

namespace Search

/-- Takes the last of the pending references. If it is new, then all its links are pending. -/
def step (next : Reference → List Reference) (s : Search) : Search :=
  match s.pending with
  | [] => s
  | r :: rest =>
    if s.visited.contains r then { s with pending := rest }
    else ⟨s.visited.insert r, next r ++ rest⟩

/-- The search from some references after `n` steps. -/
def run (next : Reference → List Reference) (roots : List Reference) (n : Nat) : Search :=
  (step next)^[n] { pending := roots }

theorem explores_step {s : Search} (h : Explores next start s.visited s.pending) :
    Explores next start (s.step next).visited (s.step next).pending := by
  obtain ⟨visited, pending⟩ := s
  cases pending with
  | nil => exact h
  | cons r rest =>
    rw [step]
    dsimp only at h ⊢
    split
    · rename_i hr
      have hr : r ∈ visited := Std.TreeSet.contains_iff_mem.mp hr
      refine h.advance (fun q hq => ?_) (fun q hq => Or.inl hq)
        (fun q hq => Or.inl (List.mem_cons_of_mem r hq)) fun q hq => Or.inl hq
      rcases hq with hq | hq
      · exact Or.inl hq
      · exact (List.mem_cons.mp hq).imp (fun heq => by rwa [heq]) id
    · have hmem (q : Reference) : q ∈ visited.insert r ↔ q = r ∨ q ∈ visited := by
        rw [Std.TreeSet.mem_insert, Std.LawfulEqCmp.compare_eq_iff_eq, eq_comm]
      refine h.advance (fun q hq => ?_) (fun q hq => ?_) (fun q hq => ?_) fun q hq => ?_
      · rw [hmem, List.mem_append]
        rw [List.mem_cons] at hq
        tauto
      · rw [hmem] at hq
        rw [List.mem_cons]
        tauto
      · rcases List.mem_append.mp hq with hq | hq
        · exact Or.inr ⟨r, List.mem_cons_self, hq⟩
        · exact Or.inl (List.mem_cons_of_mem r hq)
      · rcases (hmem q).mp hq with rfl | hq
        · exact Or.inr fun p hp => List.mem_append_left rest hp
        · exact Or.inl hq

theorem explores_iterate {s : Search} (h : Explores next start s.visited s.pending) (n : Nat) :
    Explores next start ((step next)^[n] s).visited ((step next)^[n] s).pending := by
  induction n generalizing s with
  | zero => exact h
  | succ n ih =>
    rw [Function.iterate_succ_apply]
    exact ih (explores_step h)

/-- A search among finitely many references ends: each step visits one that it did not visit before,
or leaves fewer of them pending. -/
theorem exists_finished (hpending : ∀ r ∈ pending, r ∈ links)
    (hnext : ∀ q, ∀ r ∈ next q, r ∈ links) : ∃ n, ((step next)^[n] ⟨visited, pending⟩).pending = [] := by
  induction hn : (unvisited links visited).card using Nat.strong_induction_on
    generalizing visited pending with
  | h n ih =>
    induction pending with
    | nil => exact ⟨0, rfl⟩
    | cons r rest ihrest =>
      have hrest : ∀ q ∈ rest, q ∈ links := fun q hq => hpending q (List.mem_cons_of_mem r hq)
      by_cases hr : r ∈ visited
      · obtain ⟨k, hk⟩ := ihrest hrest
        refine ⟨k + 1, ?_⟩
        rw [Function.iterate_succ_apply, step]
        dsimp only
        rwa [if_pos (Std.TreeSet.contains_iff_mem.mpr hr)]
      · have hlt : (unvisited links (visited.insert r)).card < n := by
          rw [← hn]
          refine unvisited_card_lt (fun q hq => ?_) (hpending r List.mem_cons_self) hr ?_
          · exact Std.TreeSet.mem_insert.mpr (Or.inr hq)
          · exact Std.TreeSet.mem_insert.mpr (Or.inl Std.ReflCmp.compare_self)
        have hmore : ∀ q ∈ next r ++ rest, q ∈ links := by
          intro q hq
          exact (List.mem_append.mp hq).elim (hnext r q) (hrest q)
        obtain ⟨k, hk⟩ := ih _ hlt hmore rfl
        refine ⟨k + 1, ?_⟩
        rw [Function.iterate_succ_apply, step]
        dsimp only
        rwa [if_neg fun hmem => hr (Std.TreeSet.contains_iff_mem.mp hmem)]

/-- When it ends, it has visited what can be reached. -/
theorem exists_mem_visited (h : ∀ r, r ∈ pending ↔ start r) (hpending : ∀ r ∈ pending, r ∈ links)
    (hnext : ∀ q, ∀ r ∈ next q, r ∈ links) :
    ∃ n, (run next pending n).pending = [] ∧
      ∀ r, r ∈ (run next pending n).visited ↔ Reaches next start r := by
  obtain ⟨n, hn⟩ : ∃ n, (run next pending n).pending = [] := exists_finished hpending hnext
  refine ⟨n, hn, (explores_iterate (Explores.init h) n).mem_iff fun r hr => ?_⟩
  rw [show ((step next)^[n] _).pending = [] from hn] at hr
  cases hr

end Search

end

/-! ## References of a state -/

theorem Host.rank_lt (h : Host) : h.rank < Host.count := by
  cases h with
  | function f =>
    have hf := f.ctorIdx_lt
    simp only [Host.rank, Host.count]
    omega
  | _ => decide

/-- The place of a built-in object among all of them. -/
def Host.index (h : Host) : Fin Host.count := ⟨h.rank, h.rank_lt⟩

theorem Host.index_injective : Function.Injective Host.index :=
  fun _ _ h => Host.rank_injective (Fin.mk.inj_iff.mp h)

noncomputable instance : Fintype Host := Fintype.ofInjective Host.index Host.index_injective

theorem Host.card_le : Fintype.card Host ≤ Host.count :=
  (Fintype.card_le_of_injective Host.index Host.index_injective).trans_eq (Fintype.card_fin _)

/-- Built-in objects hold built-in objects only. -/
theorem Host.isHost_of_mem_references (h : Host) {r : Reference} (hr : r ∈ h.object.references) :
    r.isHost = true := by
  have hall : h.object.references.all Reference.isHost = true := by
    cases h with
    | function f => cases f <;> rfl
    | _ => rfl
  exact List.all_eq_true.mp hall r hr

namespace Layer

/-- An object that is found in some layer is one of its objects. -/
theorem exists_mem_of_objectIn {r : Reference} {o : HeapObject} {layers : List Layer}
    (h : objectIn r layers = .found o) : ∃ l ∈ layers, (r, o) ∈ l.heap.toList := by
  induction layers with
  | nil => cases h
  | cons l rest ih =>
    rw [objectIn] at h
    split at h
    · rename_i o' ho
      cases h
      exact ⟨l, List.mem_cons_self, Objects.mem_toList.mpr ho⟩
    · split at h
      · cases h
      · obtain ⟨l', hl', hmem⟩ := ih h
        exact ⟨l', List.mem_cons_of_mem l hl', hmem⟩

end Layer

namespace State

/-- The references that an object of a state holds, and all built-in ones. -/
noncomputable def links (s : State) : Finset Reference :=
  s.heldReferences.toFinset ∪ Finset.univ.image Reference.host

theorem mem_links {s : State} {r : Reference} :
    r ∈ s.links ↔ r ∈ s.heldReferences ∨ r.isHost = true := by
  have hhost : r ∈ Finset.univ.image Reference.host ↔ r.isHost = true := by
    cases r <;> simp [Reference.isHost]
  rw [links, Finset.mem_union, List.mem_toFinset, hhost]

theorem card_links_le (s : State) : s.links.card ≤ s.heldReferences.length + Host.count :=
  (Finset.card_union_le _ _).trans (Nat.add_le_add (List.toFinset_card_le _)
    (Finset.card_image_le.trans Host.card_le))

/-- What the current version of an object holds, some object holds or is built-in. -/
theorem mem_links_of_deref {s : State} {q r : Reference} (h : r ∈ (s.deref q).references) :
    r ∈ s.links := by
  rw [mem_links]
  unfold deref object? at h
  cases hq : s.lookupObject q with
  | found o =>
    rw [hq] at h
    obtain ⟨l, hl, hmem⟩ := Layer.exists_mem_of_objectIn hq
    exact Or.inl (List.mem_flatMap.mpr ⟨l, hl, List.mem_flatMap.mpr ⟨(q, o), hmem, h⟩⟩)
  | changing =>
    rw [hq] at h
    cases h
  | missing =>
    rw [hq] at h
    cases q with
    | node id kind => cases h
    | host host => exact Or.inr (host.isHost_of_mem_references h)

section

variable {s : State} {next : Reference → List Reference} {start : Reference → Prop}
  {roots : List Reference}

/-- The search among the references of a state finds all that can be reached. -/
theorem mem_reachable (hroots : ∀ r, r ∈ roots ↔ start r) (hnext : ∀ q, ∀ r ∈ next q, r ∈ s.links)
    (r : Reference) : r ∈ s.reachable next roots ↔ Reaches next start r := by
  have hcard : (unvisited (roots.toFinset ∪ s.links) {}).card ≤
      roots.length + s.heldReferences.length + Host.count := by
    have hlength := List.toFinset_card_le roots
    have hlinks := s.card_links_le
    have hunion := Finset.card_union_le roots.toFinset s.links
    have hsub := Finset.card_filter_le (roots.toFinset ∪ s.links) fun r => r ∉ ({} : RefSet)
    exact hsub.trans (by omega)
  refine (Explores.init hroots).mem_closure (fun q hq => ?_) (fun p q hq => ?_) hcard r
  · exact Finset.mem_union_left _ (List.mem_toFinset.mpr hq)
  · exact Finset.mem_union_right _ (hnext p q hq)

/-- A search that takes one reference at a time finds the same. -/
theorem exists_search (hroots : ∀ r, r ∈ roots ↔ start r)
    (hnext : ∀ q, ∀ r ∈ next q, r ∈ s.links) :
    ∃ n, (Search.run next roots n).pending = [] ∧
      ∀ r, r ∈ (Search.run next roots n).visited ↔ Reaches next start r := by
  have hpending : ∀ r ∈ roots, r ∈ roots.toFinset ∪ s.links :=
    fun _ hr => Finset.mem_union_left _ (List.mem_toFinset.mpr hr)
  exact Search.exists_mem_visited hroots hpending
    fun q r hr => Finset.mem_union_right _ (hnext q r hr)

end

end State

end EsOptimizer
