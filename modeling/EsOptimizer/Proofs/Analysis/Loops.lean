import EsOptimizer.Proofs.Analysis.UnknownCall
import EsOptimizer.Proofs.Flow.Kept

/-!
# Loops

A loop is followed round by round until a round writes nothing new, or until it is given up
(`Track.history`). All rounds add to one union, through which the loop is merged at its end, so that
the union holds whatever any of them stored (`Track.heldBy_unionOf`). Each round starts behind a
boundary that is read off the union so far, and what is behind it cannot be relied on.

`Track.loop_covers_rounds` puts this together. What a round stores is what its body does according
to `Acts`, of which the body itself need know nothing. `Track.Acting` shows that the steps of the
analysis act, and that they do when they are put together, in loops too.

Behind the boundary a variable is unknown without any join, so nothing escapes by it. Unknown code
finds what the variable referred to all the same if it may read the variable
(`Track.shared_given_up_in_round`), because what may be reached from it is kept.
-/

namespace EsOptimizer

namespace Written

/-- The union in which nothing is known of all that was written. -/
def lost (w : Written) : Written :=
  { w with vars := w.vars.map fun _ _ => .unknown, heap := w.heap.map fun _ _ => .unknown }

theorem lost_vars (w : Written) (v : VarId) : w.lost.vars[v]? = w.vars[v]?.map fun _ => .unknown :=
  Std.TreeMap.getElem?_map

theorem lost_heap (w : Written) (r : Reference) :
    w.lost.heap[r]? = w.heap[r]?.map fun _ => .unknown :=
  Std.TreeMap.getElem?_map

theorem heldBy_lost (w : Written) : w.HeldBy w.lost where
  value v x hx := by
    refine ⟨.unknown, ?_, Value.below_iff_or_beq.mp (Value.below_unknown x)⟩
    rw [lost_vars, hx, Option.map_some]
  version r o ho := by
    refine ⟨.unknown, ?_, HeapObject.below_iff_or_beq.mp (HeapObject.below_unknown o)⟩
    rw [lost_heap, ho, Option.map_some]
  reach _ _ hr := hr

theorem Unites.lost {union : Written} {parts : List Written} (h : union.Unites parts) :
    union.lost.Unites parts where
  holds w hw := (h.holds w hw).trans union.heldBy_lost
  vars v hv := by rw [lost_vars, h.vars v hv, Option.map_none]
  heap r hr := by rw [lost_heap, h.heap r hr, Option.map_none]

end Written

theorem HeapObject.dirty_of_unknown_below {o : HeapObject} (h : unknown.Below o) :
    o.dirty = true := by
  by_contra hclean
  have hwithin := within_of_below h (Bool.eq_false_iff.mpr hclean)
  cases hwithin.clean

namespace Store

/-- Joining what was stored to what a state knows changes nothing. -/
def KnownIn (scopes : ScopeTree) (s : State) : Store → Prop
  | value v x refs =>
    (x.or (s.current scopes v) == s.current scopes v) = true ∧ ∀ r ∈ refs, r ∈ s.reachOf v
  | version r o => ∃ p, s.object? r = some p ∧ (o.or p == p) = true

/-- Nothing is known of where it was stored. -/
def LostIn (scopes : ScopeTree) (s : State) : Store → Prop
  | value v _ _ => s.current scopes v = .unknown
  | version r _ => (s.deref r).dirty = true

variable {scopes : ScopeTree} {s : State} {w : Written} {x : Store}

/-- What a union holds is known once joining the union changes nothing. -/
theorem knownIn_of_heldBy (h : s.NothingNew scopes w) (hx : x.written.HeldBy w) :
    x.KnownIn scopes s := by
  have hnew := h.of_heldBy hx
  cases x with
  | value v y refs =>
    refine ⟨(hnew.value v y (Values.getElem?_insert_nat.trans (if_pos rfl))).1, fun r hr => ?_⟩
    refine hnew.reach v r ?_
    rw [written, Written.ofValue, Std.TreeMap.getD_insert_self]
    exact hr
  | version r o => exact hnew.version r o (Objects.getElem?_insert_ref.trans (if_pos rfl))

theorem lostIn_of_heldBy (h : s.NothingNew scopes w.lost) (hx : x.written.HeldBy w) :
    x.LostIn scopes s := by
  cases x with
  | value v y refs =>
    obtain ⟨z, hz, -⟩ := hx.value v y (Values.getElem?_insert_nat.trans (if_pos rfl))
    have hlost := (h.value v .unknown (by rw [Written.lost_vars, hz, Option.map_some])).1
    exact Value.eq_unknown_of_below (Value.below_iff_or_beq.mpr hlost)
  | version r o =>
    obtain ⟨z, hz, -⟩ := hx.version r o (Objects.getElem?_insert_ref.trans (if_pos rfl))
    obtain ⟨q, hq, hlost⟩ := h.version r .unknown (by rw [Written.lost_heap, hz, Option.map_some])
    change (s.deref r).dirty = true
    rw [State.deref, hq]
    exact HeapObject.dirty_of_unknown_below (HeapObject.below_iff_or_beq.mpr hlost)

end Store

namespace Track

/-- A round that a loop goes through: where its body starts and where it stops. -/
structure Run where
  start : State
  stop : State

/-- What cannot be relied on in a round, after rounds that wrote `acc`. -/
def boundaryOf (vars : VarSet) (acc : Written) : Boundary :=
  { vars, refs := RefSet.ofList acc.heap.keys, reach := acc.reach }

/-- The union of what rounds wrote, added to `acc`. -/
def unionOf (acc : Written) (runs : List Run) : Written :=
  runs.foldl (fun w run => (w.absorb run.stop.top.written).1) acc

section

variable {vars : VarSet} {body : Track Unit} {cx : Context} {p : Progress}

/-- One round after rounds that wrote `acc`, and the progress after it. -/
def runOnce (vars : VarSet) (body : Track Unit) (cx : Context) (acc : Written) (p : Progress) :
    Run × Progress :=
  let start := p.state.round (boundaryOf vars acc)
  let q := (body cx { p with state := start }).2
  (⟨start, q.state⟩, { q with state := p.state })

/-- The rounds that `rounds` goes through, and whether it gives up after them. -/
def history (vars : VarSet) (body : Track Unit) (cx : Context) :
    Nat → Written → Progress → List Run × Bool
  | 0, _, _ => ([], true)
  | n + 1, acc, p =>
    let once := runOnce vars body cx acc p
    let absorbed := acc.absorb once.1.stop.top.written
    let rest := if absorbed.2 then history vars body cx n absorbed.1 once.2 else ([], false)
    (once.1 :: rest.1, rest.2)

theorem rounds_succ (n : Nat) (acc : Written) (p : Progress) :
    rounds vars body (n + 1) acc cx p =
      let once := runOnce vars body cx acc p
      let absorbed := acc.absorb once.1.stop.top.written
      if absorbed.2 then rounds vars body n absorbed.1 cx once.2 else (absorbed.1, once.2) := by
  have honce : inState (·.round (boundaryOf vars acc)) body cx p =
      (((body cx { p with state := p.state.round (boundaryOf vars acc) }).1,
        (runOnce vars body cx acc p).1.stop.top), (runOnce vars body cx acc p).2) := rfl
  change (inState (·.round (boundaryOf vars acc)) body >>= _) cx p = _
  rw [bind_apply, honce]
  generalize runOnce vars body cx acc p = once
  dsimp only
  rcases acc.absorb once.1.stop.top.written with ⟨union, changed⟩
  cases changed with
  | true => rfl
  | false => rfl

/-- A loop is given up after as many rounds as it may go through, or its last round wrote nothing
that the rounds before it had not written. -/
theorem history_ends (n : Nat) (acc : Written) (p : Progress) :
    let runs := history vars body cx n acc p
    if runs.2 then runs.1.length = n
    else ∃ before run, runs.1 = before ++ [run] ∧
      run.stop.top.written.HeldBy (unionOf acc before) := by
  induction n generalizing acc p with
  | zero => rfl
  | succ n ih =>
    rw [history]
    generalize runOnce vars body cx acc p = once
    dsimp only
    by_cases hchanged : (acc.absorb once.1.stop.top.written).2 = true
    · rw [if_pos hchanged]
      have ih := ih (acc.absorb once.1.stop.top.written).1 once.2
      dsimp only at ih ⊢
      split
      · rename_i hgaveUp
        rw [if_pos hgaveUp] at ih
        rw [List.length_cons, ih]
      · rename_i hgaveUp
        rw [if_neg hgaveUp] at ih
        obtain ⟨before, run, hruns, hheld⟩ := ih
        exact ⟨once.1 :: before, run, by rw [hruns, List.cons_append], hheld⟩
    · rw [if_neg hchanged, if_neg Bool.false_ne_true]
      refine ⟨[], once.1, rfl, (Written.absorb_unchanged_iff _ _).mp ?_⟩
      exact Bool.eq_false_iff.mpr hchanged

theorem heldBy_unionOf (acc : Written) (runs : List Run) : acc.HeldBy (unionOf acc runs) ∧
    ∀ run ∈ runs, run.stop.top.written.HeldBy (unionOf acc runs) := by
  induction runs generalizing acc with
  | nil => exact ⟨.refl acc, fun _ h => nomatch h⟩
  | cons run rest ih =>
    obtain ⟨hacc, hrest⟩ := ih (acc.absorb run.stop.top.written).1
    refine ⟨(Written.heldBy_absorb_left _ _).trans hacc, fun x hx => ?_⟩
    rcases List.mem_cons.mp hx with rfl | hx
    · exact (Written.heldBy_absorb_right _ _).trans hacc
    · exact hrest x hx

theorem unionOf_append (acc : Written) (before rest : List Run) :
    (unionOf acc before).HeldBy (unionOf acc (before ++ rest)) := by
  rw [unionOf, unionOf, List.foldl_append]
  exact (heldBy_unionOf (unionOf acc before) rest).1

theorem giveUp_apply (acc : Written) (p : Progress) :
    (giveUp acc cx p).1 = acc.lost ∧ (giveUp acc cx p).2.state = p.state := by
  have hvars : Leaves cx (giveUp acc) := by
    refine Leaves.bind (Leaves.forIn (fun e _ => ?_) _ _) fun _ =>
      Leaves.bind (Leaves.forIn (fun e _ => ?_) _ _) fun _ => fun _ => rfl
    · exact (leaves_escape _).bind fun _ => fun _ => rfl
    · exact (leaves_escape _).bind fun _ => fun _ => rfl
  exact ⟨rfl, hvars p⟩

/-- The state stays as it is while the rounds are followed, and what comes out is their union, or
what is left of it if they are given up. -/
theorem rounds_apply (vars : VarSet) (body : Track Unit) (cx : Context) (n : Nat) (acc : Written)
    (p : Progress) :
    let runs := history vars body cx n acc p
    (rounds vars body n acc cx p).1 =
        (if runs.2 then (unionOf acc runs.1).lost else unionOf acc runs.1) ∧
      (rounds vars body n acc cx p).2.state = p.state := by
  induction n generalizing acc p with
  | zero => exact giveUp_apply acc p
  | succ n ih =>
    rw [rounds_succ, history]
    dsimp only
    split
    · exact ih _ _
    · exact ⟨rfl, rfl⟩

/-- Each round starts behind the boundary that the rounds before it make. -/
theorem start_of_history {n : Nat} {acc : Written} {before rest : List Run} {run : Run}
    (h : (history vars body cx n acc p).1 = before ++ run :: rest) :
    run.start = p.state.round (boundaryOf vars (unionOf acc before)) := by
  have hnone {before : List Run} : ([] : List Run) ≠ before ++ run :: rest :=
    (List.append_ne_nil_of_right_ne_nil before (List.cons_ne_nil run rest)).symm
  induction n generalizing acc p before with
  | zero => exact absurd h hnone
  | succ n ih =>
    rw [history] at h
    cases before with
    | nil =>
      rw [← (List.cons.inj h).1]
      rfl
    | cons first before =>
      obtain ⟨hfirst, h⟩ := List.cons.inj h
      split at h
      · rw [ih h, unionOf, unionOf, List.foldl_cons, ← hfirst]
        rfl
      · exact absurd h hnone

/-- Behind the boundary, an object changes that was put before. -/
theorem lookupObject_boundaryOf {s : State} {acc : Written} {r : Reference} {o : HeapObject}
    (h : (Store.version r o).written.HeldBy acc) :
    (s.round (boundaryOf vars acc)).lookupObject r = .changing := by
  obtain ⟨q, hq, -⟩ := h.version r o (Objects.getElem?_insert_ref.trans (if_pos rfl))
  have hmem : (RefSet.ofList acc.heap.keys).contains r = true := by
    refine Std.TreeSet.contains_iff_mem.mpr (RefSet.mem_ofList.mpr ?_)
    rw [Std.TreeMap.mem_keys, Std.TreeMap.mem_iff_isSome_getElem?, hq]
    rfl
  rw [State.lookupObject_round]
  exact if_pos hmem

/-- A loop is merged through the union of its rounds, or through what is left of it. -/
theorem loop_apply (vars : VarSet) (body : Track Unit) (cx : Context) (p : Progress) :
    ∃ esc, (loop vars body cx p).2.state =
    (p.state.mergeUnsure cx.scopes (rounds vars body maxRounds {} cx p).1 esc).1 := by
  have hstate := (rounds_apply vars body cx maxRounds {} p).2
  refine ⟨(rounds vars body maxRounds {} cx p).2.escaped, ?_⟩
  rw [← hstate]
  rfl

end

/-- A loop ends after a round that writes nothing new, or it is given up after as many rounds as it may
go through. Either way it covers everything that any of its rounds stored and made reachable, and if
it is given up, nothing is known of what they stored. In every round, the variables that the loop
writes are unknown until the round sets them, and an object that an earlier round put is dirty until
the round puts it. -/
theorem loop_covers_rounds (vars : VarSet) (body : Track Unit) (cx : Context) (p : Progress) :
    let runs := history vars body cx maxRounds {} p
    let after := (loop vars body cx p).2.state
    (if runs.2 then runs.1.length = maxRounds
      else ∃ before run, runs.1 = before ++ [run] ∧
        run.stop.top.written.HeldBy (unionOf {} before)) ∧
      State.JoinedIn cx.scopes p.state after ∧
      (∀ run ∈ runs.1, ∀ log, Acts cx.scopes run.start log run.stop →
        (∀ x ∈ log, x.KnownIn cx.scopes after ∧ (runs.2 = true → x.LostIn cx.scopes after)) ∧
          ∀ v r, r ∈ run.stop.reachOf v ∨ r ∈ run.stop.top.written.reach.getD v {} →
            r ∈ after.reachOf v) ∧
      ∀ before run rest, runs.1 = before ++ run :: rest →
        ∀ log m, During cx.scopes run.start log m →
          (∀ v ∈ vars, ¬Store.Sets log v → m.lookup v = some .unknown) ∧
          ∀ earlier ∈ before, ∀ log', Acts cx.scopes earlier.start log' earlier.stop →
            ∀ r, Store.Puts log' r → ¬Store.Puts log r → (m.deref r).dirty = true := by
  intro runs after
  obtain ⟨esc, hafter⟩ := loop_apply vars body cx p
  have hunion := (rounds_apply vars body cx maxRounds {} p).1
  have hafter : after = (p.state.mergeUnsure cx.scopes _ esc).1 := hafter
  have hunion : (rounds vars body maxRounds {} cx p).1 =
      if runs.2 then (unionOf {} runs.1).lost else unionOf {} runs.1 := hunion
  rw [hunion] at hafter
  have hnew : State.NothingNew cx.scopes after
      (if runs.2 then (unionOf {} runs.1).lost else unionOf {} runs.1) := by
    rw [hafter]
    exact State.nothingNew_mergeUnsure p.state cx.scopes _ esc
  have hjoined : State.JoinedIn cx.scopes p.state after := by
    rw [hafter]
    exact State.joinedIn_mergeUnsure esc (State.current_below_bound cx.scopes p.state _)
      fun r => VersionBelow.join_left _ _
  -- whether the loop is given up or not, it is merged through a union that holds all
  have hall : State.NothingNew cx.scopes after (unionOf {} runs.1) := by
    refine hnew.of_heldBy ?_
    split
    · exact Written.heldBy_lost _
    · exact .refl _
  refine ⟨history_ends maxRounds {} p, hjoined, fun run hrun log hacts => ?_,
    fun before run rest hruns log m hduring => ?_⟩
  · have hrunHeld : run.stop.top.written.HeldBy (unionOf {} runs.1) :=
      (heldBy_unionOf {} runs.1).2 run hrun
    refine ⟨fun x hx => ?_, fun v r hr => ?_⟩
    · have hheld := (hacts.accounts.held x hx).trans hrunHeld
      refine ⟨Store.knownIn_of_heldBy hall hheld, fun hgaveUp => ?_⟩
      rw [if_pos hgaveUp] at hnew
      exact Store.lostIn_of_heldBy hnew hheld
    · obtain ⟨before, rest, hruns⟩ := List.append_of_mem hrun
      have hbefore : (unionOf {} before).HeldBy (unionOf {} runs.1) := by
        rw [hruns]
        exact unionOf_append {} before (run :: rest)
      have hcame : r ∈ run.start.reachOf v ∨ r ∈ run.stop.top.written.reach.getD v {} :=
        hr.elim (hacts.accounts.reach v r) Or.inr
      rcases hcame with hr | hr
      · rw [start_of_history hruns] at hr
        rcases State.mem_reachOf_round.mp hr with hr | hr
        · rw [hafter]
          exact (State.mergeUnsure_reachOf p.state cx.scopes _ v r esc).mpr (Or.inl hr)
        · exact hall.reach v r (hbefore.reach v r hr)
      · exact hall.reach v r (hrunHeld.reach v r hr)
  · have hstart := start_of_history hruns
    refine ⟨fun v hv hsets => ?_, fun earlier hearlier log' hacts r hputs hnot => ?_⟩
    · refine hduring.lookup_unknown ?_ hsets
      rw [hstart, State.lookup_round, if_pos]
      exact Std.TreeSet.contains_iff_mem.mpr hv
    · obtain ⟨o, ho⟩ := hputs
      have hheld := (hacts.accounts.held _ ho).trans
        ((heldBy_unionOf {} before).2 earlier hearlier)
      have hchanging : run.start.lookupObject r = .changing := by
        rw [hstart]
        exact lookupObject_boundaryOf hheld
      rw [State.deref, State.object?, hduring.lookupObject_changing hchanging hnot]
      rfl

/-! ## Steps of the analysis -/

/-- From some progress on, a step changes the state as code does. -/
def ActsFrom {α : Type} (cx : Context) (p : Progress) (x : Track α) : Prop :=
  ∃ log, Acts cx.scopes p.state log (x cx p).2.state

/-- Wherever it starts, a step changes the state as code does. -/
def Acting {α : Type} (cx : Context) (x : Track α) : Prop := ∀ p, ActsFrom cx p x

section

variable {α β : Type} {cx : Context} {p : Progress} {x : Track α}

theorem ActsFrom.bind {f : α → Track β} (hx : ActsFrom cx p x) (hf : ∀ a, Acting cx (f a)) :
    ActsFrom cx p (x >>= f) := by
  obtain ⟨log, hlog⟩ := hx
  obtain ⟨log', hlog'⟩ := hf (x cx p).1 (x cx p).2
  exact ⟨log ++ log', hlog.seq hlog'⟩

theorem Leaves.acting (h : Leaves cx x) : Acting cx x := by
  intro p
  refine ⟨[], ?_⟩
  rw [h p]
  exact .done p.state

theorem Acting.pure (a : α) : Acting cx (Pure.pure a : Track α) := Leaves.acting fun _ => rfl

theorem Acting.bind {f : α → Track β} (hx : Acting cx x) (hf : ∀ a, Acting cx (f a)) :
    Acting cx (x >>= f) := fun p => (hx p).bind hf

theorem Acting.ite {c : Prop} [Decidable c] {x y : Track α} (hx : c → Acting cx x)
    (hy : ¬c → Acting cx y) : Acting cx (if c then x else y) := by
  split
  · exact hx ‹_›
  · exact hy ‹_›

theorem Acting.forIn {f : α → β → Track (ForInStep β)} (hf : ∀ a y, Acting cx (f a y))
    (items : List α) (y : β) : Acting cx (ForIn.forIn items y f) := by
  intro p
  refine forIn_keeps (I := fun q => ∃ log, Acts cx.scopes p.state log q.state)
    (fun a _ y q hq => ?_) y ⟨[], .done p.state⟩
  obtain ⟨log, hlog⟩ := hq
  obtain ⟨log', hlog'⟩ := hf a y q
  exact ⟨log ++ log', hlog.seq hlog'⟩

/-! ### Variables, objects and control -/

theorem acting_writeVar (v : VarId) (value : Value) : Acting cx (writeVar v value) := by
  refine (Leaves.acting fun _ => rfl : Acting cx (getVar v)).bind fun x => ?_
  refine (Leaves.acting fun _ => rfl : Acting cx (addPossible x.key value)).bind fun _ => ?_
  refine (Leaves.acting fun _ => rfl : Acting cx (isForeign x)).bind fun _ => ?_
  exact Acting.ite (fun _ => leaves_noteEffect.acting) fun _ p => ⟨_, .set p.state v value⟩

theorem acting_putObject (r : Reference) (o : HeapObject) :
    Acting cx (modifyState (·.putObject r o)) := fun p => ⟨_, .put p.state r o⟩

theorem acting_updateObject (r : Reference) (o : HeapObject) : Acting cx (updateObject r o) := by
  intro p
  rw [ActsFrom, state_updateObject]
  exact ⟨_, .put p.state r o⟩

theorem acting_makeDirty (r : Reference) : Acting cx (makeDirty r) := by
  intro p
  rw [ActsFrom, state_makeDirty]
  split
  · exact ⟨_, .done p.state⟩
  · exact ⟨_, .put p.state r .unknown⟩

theorem acting_allocate (r : Reference) (o : HeapObject) : Acting cx (allocate r o) := by
  refine (Leaves.acting fun _ => rfl : Acting cx (modifyFrame _)).bind fun _ => ?_
  refine (Leaves.acting fun _ => rfl : Acting cx getState).bind fun s => ?_
  dsimp only
  split
  · exact (Leaves.acting fun _ => rfl : Acting cx (escaping _)).bind fun o => acting_putObject r o
  · exact (leaves_escape _).acting.bind fun _ => acting_putObject r .unknown
  · exact acting_putObject r o

theorem acting_allocateFunction (id : NodeId) : Acting cx (allocateFunction id) :=
  (acting_allocate _ _).bind fun _ => (acting_allocate _ _).bind fun _ => Acting.pure _

theorem acting_unknownCall (roots : List Reference) : Acting cx (unknownCall roots) := by
  refine (Leaves.acting fun _ => rfl : Acting cx read).bind fun _ => ?_
  refine (Leaves.acting fun _ => rfl : Acting cx sharedVars).bind fun _ => ?_
  refine (leaves_mapM_variableRoots _).acting.bind fun _ => ?_
  refine (Leaves.acting fun _ => rfl : Acting cx getState).bind fun _ => ?_
  refine (Leaves.acting fun _ => rfl : Acting cx get).bind fun _ => ?_
  refine Acting.bind (Acting.forIn (fun r _ => ?_) _ _) fun _ => leaves_noteEffect.acting
  refine (leaves_escape _).acting.bind fun _ => ?_
  exact Acting.ite (fun _ => (acting_makeDirty r).bind fun _ => Acting.pure _)
    fun _ => Acting.pure _

theorem acting_join (a b : Value) : Acting cx (join a b) := Leaves.acting fun _ => rfl

theorem acting_endControl : Acting cx endControl := fun p => ⟨_, .stop p.state⟩

/-! ### Children -/

/-- Code in a child comes back as a layer, and the state is what it was. -/
theorem ActsFrom.child {f : α × Layer → Track β} (hx : Acting cx x)
    (hf : ∀ a c q log, q.state = p.state → Acts cx.scopes q.state.child log c →
      ActsFrom cx q (f (a, c.top))) : ActsFrom cx p (inChild x >>= f) := by
  let inner := x cx { p with state := p.state.child }
  obtain ⟨log, hlog⟩ := hx { p with state := p.state.child }
  exact hf inner.1 inner.2.state { inner.2 with state := p.state } log rfl hlog

theorem actsFrom_mergeBack {c : State} {log : List Store} (discard : Option ScopeId)
    (h : Acts cx.scopes p.state.child log c) : ActsFrom cx p (mergeBack c.top discard) :=
  ⟨log, h.back discard⟩

theorem actsFrom_mergeMaybe {c : State} {log : List Store}
    (h : Acts cx.scopes p.state.child log c) : ActsFrom cx p (mergeMaybe c.top) :=
  ⟨log, h.maybe p.escaped⟩

theorem actsFrom_mergeOr {c d : State} {log log' : List Store}
    (h : Acts cx.scopes p.state.child log c) (h' : Acts cx.scopes p.state.child log' d) :
    ActsFrom cx p (mergeOr c.top d.top) :=
  ⟨log ++ log', h.either p.escaped h'⟩

theorem actsFrom_mergeUnsure {c : State} {log : List Store}
    (h : Acts cx.scopes p.state.child log c) : ActsFrom cx p (mergeUnsure c.top.written) :=
  ⟨log, h.unsure p.escaped⟩

theorem acting_unsure {body : Track Unit} (h : Acting cx body) : Acting cx (unsure body) :=
  fun _ => .child h fun _ _ _ _ _ hlog => actsFrom_mergeUnsure hlog

theorem acting_logical (isOr : Bool) {left right : Track Tracked} (hleft : Acting cx left)
    (hright : Acting cx right) : Acting cx (logical isOr left right) := by
  refine hleft.bind fun left => ?_
  split
  · exact Acting.ite (fun _ => Acting.pure _) fun _ => hright.bind fun _ => Acting.pure _
  · exact fun _ => .child hright fun right _ _ _ _ hlog =>
      (actsFrom_mergeMaybe hlog).bind fun _ => (acting_join _ _).bind fun _ => Acting.pure _

theorem acting_choose {test yes no : Track Tracked} (htest : Acting cx test)
    (hyes : Acting cx yes) (hno : Acting cx no) : Acting cx (choose test yes no) := by
  refine htest.bind fun test => ?_
  split
  · exact hyes.bind fun _ => Acting.pure _
  · exact hno.bind fun _ => Acting.pure _
  · exact fun _ => .child hyes fun _ _ q _ _ hlog => .child hno fun _ _ u _ hu hlog' =>
      (actsFrom_mergeOr (hu ▸ hlog) hlog').bind fun _ =>
        (acting_join _ _).bind fun _ => Acting.pure _

theorem acting_branch {test : Track Tracked} {yes : Track Unit} {no : Option (Track Unit)}
    (htest : Acting cx test) (hyes : Acting cx yes) (hno : ∀ x, no = some x → Acting cx x) :
    Acting cx (branch test yes no) := by
  refine htest.bind fun test => ?_
  split
  · exact hyes
  · cases no with
    | none => exact Acting.pure _
    | some no => exact hno no rfl
  · refine fun _ => .child hyes fun _ c q log _ hlog => ?_
    cases no with
    | none => exact actsFrom_mergeMaybe hlog
    | some no => exact .child (hno no rfl) fun _ _ u _ hu hlog' =>
        actsFrom_mergeOr (hu ▸ hlog) hlog'

theorem acting_enterScope (scope : ScopeId) : Acting cx (enterScope scope) := by
  refine (Leaves.acting fun _ => rfl : Acting cx read).bind fun _ => ?_
  refine Acting.bind (Acting.forIn (fun x _ => ?_) _ _) fun _ =>
    Acting.bind (Acting.forIn (fun x _ => ?_) _ _) fun _ => Acting.pure _
  · dsimp only
    split
    · exact (acting_writeVar _ _).bind fun _ => Acting.pure _
    · exact Acting.pure _
  · exact (acting_allocateFunction _).bind fun _ =>
      (acting_writeVar _ _).bind fun _ => Acting.pure _

theorem acting_inScope (node : NodeId) {body : Track Unit} (h : Acting cx body) :
    Acting cx (inScope node body) := by
  refine (Leaves.acting fun _ => rfl : Acting cx read).bind fun _ p => .child ?_
    fun _ _ _ _ _ hlog => actsFrom_mergeBack _ hlog
  dsimp only
  split
  · exact (acting_enterScope _).bind fun _ => h
  · exact h

/-! ### Loops -/

/-- The rounds of a loop act if its body does. -/
theorem Acting.rounds {body : Track Unit} (h : Acting cx body) (vars : VarSet) (n : Nat)
    (acc : Written) (p : Progress) : ∃ rounds : List Round,
      (∀ x ∈ rounds, Acts cx.scopes (p.state.round x.boundary) x.log x.stop) ∧
        rounds.map (·.stop) = (history vars body cx n acc p).1.map (·.stop) := by
  induction n generalizing acc p with
  | zero => exact ⟨[], List.forall_mem_nil _, rfl⟩
  | succ n ih =>
    let once := runOnce vars body cx acc p
    obtain ⟨log, hlog⟩ : ∃ log, Acts cx.scopes (p.state.round (boundaryOf vars acc)) log
        once.1.stop := h { p with state := p.state.round (boundaryOf vars acc) }
    let first : Round := ⟨boundaryOf vars acc, log, once.1.stop⟩
    rw [history]
    dsimp only
    split
    · obtain ⟨rounds, hrounds, hstops⟩ :=
        ih (acc.absorb once.1.stop.top.written).1 once.2
      refine ⟨first :: rounds, List.forall_mem_cons.mpr ⟨hlog, hrounds⟩, ?_⟩
      rw [List.map_cons, List.map_cons, hstops]
    · exact ⟨[first], List.forall_mem_singleton.mpr hlog, rfl⟩

theorem unites_unionOf (runs : List Run) :
    (unionOf {} runs).Unites (runs.map fun run => run.stop.top.written) := by
  have hlacks {acc : Written} : (∀ v : VarId, acc.vars[v]? = none →
      (∀ run ∈ runs, run.stop.top.written.vars[v]? = none) →
        (unionOf acc runs).vars[v]? = none) ∧
      ∀ r : Reference, acc.heap[r]? = none →
        (∀ run ∈ runs, run.stop.top.written.heap[r]? = none) →
          (unionOf acc runs).heap[r]? = none := by
    induction runs generalizing acc with
    | nil => exact ⟨fun _ h _ => h, fun _ h _ => h⟩
    | cons run rest ih =>
      refine ⟨fun v hacc h => ?_, fun r hacc h => ?_⟩
      · obtain ⟨hrun, hrest⟩ := List.forall_mem_cons.mp h
        refine ih.1 v ?_ hrest
        rw [Written.absorb_of_none acc _ hrun, hacc]
      · obtain ⟨hrun, hrest⟩ := List.forall_mem_cons.mp h
        refine ih.2 r ?_ hrest
        rw [Written.absorb_heap_at, hacc, hrun]
        rfl
  refine ⟨fun w hw => ?_, fun v hv => hlacks.1 v Std.TreeMap.getElem?_emptyc ?_,
    fun r hr => hlacks.2 r Std.TreeMap.getElem?_emptyc ?_⟩
  · obtain ⟨run, hrun, rfl⟩ := List.mem_map.mp hw
    exact (heldBy_unionOf {} runs).2 run hrun
  · exact fun run hrun => hv _ (List.mem_map_of_mem hrun)
  · exact fun run hrun => hr _ (List.mem_map_of_mem hrun)

theorem acting_loop (vars : VarSet) {body : Track Unit} (h : Acting cx body) :
    Acting cx (loop vars body) := by
  intro p
  obtain ⟨esc, hafter⟩ := loop_apply vars body cx p
  obtain ⟨rounds, hrounds, hstops⟩ := h.rounds vars maxRounds {} p
  refine ⟨rounds.flatMap (·.log), ?_⟩
  rw [hafter]
  have hparts : rounds.map (fun x => x.stop.top.written) =
      (history vars body cx maxRounds {} p).1.map fun run => run.stop.top.written := by
    have hmap := congrArg (List.map fun s : State => s.top.written) hstops
    rwa [List.map_map, List.map_map] at hmap
  refine Acts.loop esc hrounds ?_
  rw [hparts, (rounds_apply vars body cx maxRounds {} p).1]
  split
  · exact (unites_unionOf _).lost
  · exact unites_unionOf _

end

/-! ## Unknown code in a round -/

/-- A variable that a loop writes is unknown in a round until the round sets it, but what it referred
to is not forgotten if code elsewhere may read the variable. What could be reached from it before the
loop, and what an earlier round stored in it, unknown code gets hold of, so that nothing is known of
it afterwards, unless it is a built-in object and those are trusted. -/
theorem shared_given_up_in_round {vars : VarSet} {body : Track Unit} {cx : Context} {p q : Progress}
    {before rest : List Run} {run : Run} {log : List Store}
    (hruns : (history vars body cx maxRounds {} p).1 = before ++ run :: rest)
    (hduring : During cx.scopes run.start log q.state) {v : VarId} (hshared : Shared cx v)
    (hsets : ¬Store.Sets log v) {r : Reference} (hspares : spares cx r = false)
    (hr : r ∈ p.state.reachOf v ∨ ∃ earlier ∈ before, ∃ log' x refs,
      Acts cx.scopes earlier.start log' earlier.stop ∧ .value v x refs ∈ log' ∧
        r ∈ x.references) (roots : List Reference) :
    ((unknownCall roots cx q).2.state.deref r).dirty = true := by
  have hstart : r ∈ run.start.reachOf v := by
    rw [start_of_history hruns, State.mem_reachOf_round]
    refine hr.imp id ?_
    rintro ⟨earlier, hearlier, log', x, refs, hacts, hx, hr⟩
    have hheld := (hacts.accounts.held _ hx).trans ((heldBy_unionOf {} before).2 earlier hearlier)
    exact Store.reach_of_heldBy hheld (hacts.references_reached hx r hr)
  obtain ⟨found, hfound, hover⟩ := unknownCall_handsOver roots cx q
  have hreached : ReachedBy roots cx q r :=
    .root (.reach hshared (hduring.mem_reachOf hsets hstart))
  exact hover.dirty ((hfound r).mpr hreached) hspares

end Track

end EsOptimizer
