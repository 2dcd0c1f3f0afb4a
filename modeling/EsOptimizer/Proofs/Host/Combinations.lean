import EsOptimizer.Host.Call
import EsOptimizer.Proofs.Value.Union
import Mathlib.Data.List.Nodup
import Mathlib.Data.List.Sections

/-!
# Calls with several possible inputs

A built-in function without effects that gets one of a few possible inputs is run on all of them.
`callProduct_of_few` says what comes of it: every combination of a receiver and one choice for each
argument is run once, there is a result exactly if none of them is refused, and then it is the least
value that holds what they give.

With more combinations than `maxCombinations` none is run (`callProduct_of_many`). Whether the
function refuses one of them is then not known, although there is a result.
-/

namespace EsOptimizer

namespace Native

/-! ## Choices -/

/-- The receivers that a call may have. If the function ignores its receiver, one of them stands for
all. -/
def receivers? (f : Native) (this : Value) : Option (List Primitive) :=
  if f.receiver = .ignored then some [.undefined] else choices? this

theorem forall₂_of_mapM {α β : Type} {f : α → Option β} {as : List α} {bs : List β}
    (h : as.mapM f = some bs) : List.Forall₂ (fun a b => f a = some b) as bs := by
  induction as generalizing bs with
  | nil =>
    cases h
    exact .nil
  | cons a rest ih =>
    simp only [List.mapM_cons, Option.bind_eq_bind, Option.bind_eq_some_iff, Option.pure_def,
      Option.some.injEq] at h
    obtain ⟨b, hb, bs, hbs, rfl⟩ := h
    exact .cons hb (ih hbs)

theorem primitive?_eq_some {s : Single} {p : Primitive} :
    s.primitive? = some p ↔ s = .primitive p := by
  cases s <;> simp [Single.primitive?]

/-- The choices of a value are its members. -/
theorem singles_of_choices {v : Value} {ps : List Primitive} (h : choices? v = some ps) :
    v.singles? = some (ps.map .primitive) := by
  obtain ⟨ss, hss, hps⟩ := Option.bind_eq_some_iff.mp h
  have hmembers : ss = ps.map .primitive := by
    have hall := forall₂_of_mapM hps
    clear h hss hps
    induction hall with
    | nil => rfl
    | cons hs _ ih => rw [primitive?_eq_some.mp hs, ih, List.map_cons]
  rw [hss, hmembers]

/-- No choice comes twice. -/
theorem nodup_choices {v : Value} {ps : List Primitive} (h : choices? v = some ps) : ps.Nodup := by
  have hdistinct := Value.distinct_of_singles (singles_of_choices h)
  refine (List.Pairwise.of_map Single.primitive (fun p q hpq heq => ?_) hdistinct :
    ps.Pairwise (· ≠ ·))
  rw [heq, BEq.rfl] at hpq
  cases hpq

theorem nodup_of_mem_choices {args : List Value} {choices : List (List Primitive)}
    (h : args.mapM choices? = some choices) : ∀ cs ∈ choices, cs.Nodup := by
  have hall := forall₂_of_mapM h
  clear h
  induction hall with
  | nil => exact nofun
  | cons hcs _ ih =>
    intro ds hds
    rcases List.mem_cons.mp hds with rfl | hds
    · exact nodup_choices hcs
    · exact ih ds hds

theorem holds_of_mem_choices {v : Value} {ps : List Primitive} (h : choices? v = some ps)
    {p : Primitive} (hp : p ∈ ps) : v.Holds (.primitive p) := by
  rw [Value.holds_iff_of_singles (singles_of_choices h)]
  exact Single.contains_of_mem (List.mem_map_of_mem hp)

/-- A primitive value that a value may have is one of its choices. -/
theorem exists_choice_of_holds {v : Value} {ps : List Primitive} (h : choices? v = some ps)
    {p : Primitive} (hp : v.Holds (.primitive p)) : ∃ q ∈ ps, (p == q) = true := by
  obtain ⟨s, hs, hps⟩ := hp.exists_mem (singles_of_choices h)
  obtain ⟨q, hq, rfl⟩ := List.mem_map.mp hs
  exact ⟨q, hq, hps⟩

theorem nodup_receivers {f : Native} {this : Value} {ps : List Primitive}
    (h : receivers? f this = some ps) : ps.Nodup := by
  unfold receivers? at h
  split at h
  · cases h
    exact List.nodup_singleton _
  · exact nodup_choices h

/-! ## Combinations -/

section

variable {α : Type}

theorem combinations_eq_sections (css : List (List α)) : combinations css = css.sections := by
  induction css with
  | nil => rfl
  | cons cs rest ih => rw [combinations, List.sections, ih]

theorem mem_combinations {css : List (List α)} {cs : List α} :
    cs ∈ combinations css ↔ List.Forall₂ (· ∈ ·) cs css := by
  rw [combinations_eq_sections]
  exact List.mem_sections

theorem length_combinations (css : List (List α)) :
    (combinations css).length = (css.map List.length).prod := by
  induction css with
  | nil => rfl
  | cons cs rest ih =>
    rw [combinations, List.length_flatMap, List.map_cons, List.prod_cons, ← ih]
    simp [Nat.mul_comm]

/-- Every combination is listed once. -/
theorem nodup_combinations {css : List (List α)} (h : ∀ cs ∈ css, cs.Nodup) :
    (combinations css).Nodup := by
  induction css with
  | nil => exact List.nodup_singleton _
  | cons cs rest ih =>
    have hcs := h cs List.mem_cons_self
    have hrest := ih fun ds hds => h ds (List.mem_cons_of_mem _ hds)
    refine List.nodup_flatMap.mpr ⟨fun tail _ => ?_, hrest.imp fun {a b} hab x ha hb => ?_⟩
    · exact hcs.map fun _ _ heq => (List.cons.inj heq).1
    · obtain ⟨c, -, rfl⟩ := List.mem_map.mp ha
      obtain ⟨d, -, heq⟩ := List.mem_map.mp hb
      exact hab (List.cons.inj heq).2.symm

end

/-- The inputs of a call: each receiver with each combination of the choices for the arguments. -/
def inputs (receivers : List Primitive) (choices : List (List Primitive)) :
    List (Primitive × List Primitive) :=
  receivers.flatMap fun r => (combinations choices).map fun a => (r, a)

section

variable {receivers : List Primitive} {choices : List (List Primitive)}

theorem mem_inputs {i : Primitive × List Primitive} : i ∈ inputs receivers choices ↔
    i.1 ∈ receivers ∧ List.Forall₂ (· ∈ ·) i.2 choices := by
  rw [inputs, List.mem_flatMap]
  constructor
  · rintro ⟨r, hr, hi⟩
    obtain ⟨a, ha, rfl⟩ := List.mem_map.mp hi
    exact ⟨hr, mem_combinations.mp ha⟩
  · rintro ⟨hr, ha⟩
    exact ⟨i.1, hr, List.mem_map.mpr ⟨i.2, mem_combinations.mpr ha, rfl⟩⟩

theorem length_inputs (receivers : List Primitive) (choices : List (List Primitive)) :
    (inputs receivers choices).length = receivers.length * (choices.map List.length).prod := by
  rw [inputs, List.length_flatMap, ← length_combinations]
  simp

theorem nodup_inputs (hreceivers : receivers.Nodup) (hchoices : ∀ cs ∈ choices, cs.Nodup) :
    (inputs receivers choices).Nodup := by
  refine List.nodup_flatMap.mpr ⟨fun r _ => ?_, hreceivers.imp fun {r s} hrs x hr hs => ?_⟩
  · exact (nodup_combinations hchoices).map fun _ _ heq => (Prod.mk.inj heq).2
  · obtain ⟨a, -, rfl⟩ := List.mem_map.mp hr
    obtain ⟨b, -, heq⟩ := List.mem_map.mp hs
    exact hrs (Prod.mk.inj heq).1.symm

theorem foldl_lengths (choices : List (List Primitive)) (n : Nat) :
    choices.foldl (fun n c => n * c.length) n = n * (choices.map List.length).prod := by
  induction choices generalizing n with
  | nil => exact (Nat.mul_one n).symm
  | cons c rest ih => rw [List.foldl_cons, ih, List.map_cons, List.prod_cons, Nat.mul_assoc]

end

/-! ## Calls -/

section

variable {f : Native} {this : Value} {args : List Value} {receivers : List Primitive}
  {choices : List (List Primitive)}

theorem callProduct_apply (f : Native) (this : Value) (args : List Value) :
    f.callProduct this args = (receivers? f this).bind fun receivers =>
      (args.mapM choices?).bind fun choices =>
        if 2 ^ 64 ≤ (inputs receivers choices).length then none
        else if maxCombinations < (inputs receivers choices).length then some .unknown
        else ((inputs receivers choices).mapM fun i => f.callPure i.1 i.2).map fun results =>
          .ofSingles (results.map .primitive) := by
  simp only [length_inputs, ← foldl_lengths, Option.map_eq_bind]
  rw [callProduct, receivers?]
  split
  · rfl
  · rfl

theorem callProduct_eq (hreceivers : receivers? f this = some receivers)
    (hchoices : args.mapM choices? = some choices) : f.callProduct this args =
      if 2 ^ 64 ≤ (inputs receivers choices).length then none
      else if maxCombinations < (inputs receivers choices).length then some .unknown
      else ((inputs receivers choices).mapM fun i => f.callPure i.1 i.2).map fun results =>
        .ofSingles (results.map .primitive) := by
  rw [callProduct_apply, hreceivers, hchoices]
  rfl

/-- A call of which some input is not known is not run. -/
theorem callProduct_of_unknown (h : receivers? f this = none ∨ ∃ v ∈ args, choices? v = none) :
    f.callProduct this args = none := by
  rw [callProduct_apply]
  rcases h with h | h
  · rw [h]
    rfl
  · rw [Value.mapM_eq_none_iff.mpr h]
    cases receivers? f this <;> rfl

/-- With too many combinations nothing is run, and nothing is known of the result. -/
theorem callProduct_of_many (hreceivers : receivers? f this = some receivers)
    (hchoices : args.mapM choices? = some choices)
    (hmany : maxCombinations < (inputs receivers choices).length) :
    f.callProduct this args =
      if 2 ^ 64 ≤ (inputs receivers choices).length then none else some .unknown := by
  rw [callProduct_eq hreceivers hchoices, if_pos hmany]

/-- A call with a few combinations of inputs runs each of them once. It has a result exactly if none
is refused, the least value that holds all that they give. -/
theorem callProduct_of_few (hreceivers : receivers? f this = some receivers)
    (hchoices : args.mapM choices? = some choices)
    (hfew : (inputs receivers choices).length ≤ maxCombinations) :
    (inputs receivers choices).Nodup ∧
      (f.callProduct this args = none ↔
        ∃ r ∈ receivers, ∃ a, List.Forall₂ (· ∈ ·) a choices ∧ f.callPure r a = none) ∧
      ∀ v, f.callProduct this args = some v → ∃ results,
        List.Forall₂ (fun i p => f.callPure i.1 i.2 = some p) (inputs receivers choices) results ∧
          v = .ofSingles (results.map .primitive) ∧ ∀ p ∈ results, v.Holds (.primitive p) := by
  have hsmall : ¬2 ^ 64 ≤ (inputs receivers choices).length :=
    Nat.not_le.mpr (Nat.lt_of_le_of_lt hfew (by decide))
  have hcall := callProduct_eq hreceivers hchoices
  rw [if_neg hsmall, if_neg (Nat.not_lt.mpr hfew)] at hcall
  refine ⟨nodup_inputs (nodup_receivers hreceivers) (nodup_of_mem_choices hchoices), ?_,
    fun v hv => ?_⟩
  · rw [hcall, Option.map_eq_none_iff, Value.mapM_eq_none_iff]
    constructor
    · rintro ⟨i, hi, hnone⟩
      obtain ⟨hr, ha⟩ := mem_inputs.mp hi
      exact ⟨i.1, hr, i.2, ha, hnone⟩
    · rintro ⟨r, hr, a, ha, hnone⟩
      exact ⟨(r, a), mem_inputs.mpr ⟨hr, ha⟩, hnone⟩
  · rw [hcall] at hv
    obtain ⟨results, hresults, rfl⟩ := Option.map_eq_some_iff.mp hv
    refine ⟨results, forall₂_of_mapM hresults, rfl, fun p hp => ?_⟩
    exact Value.holds_ofSingles (Single.contains_of_mem (List.mem_map_of_mem hp))

end

end Native

end EsOptimizer
