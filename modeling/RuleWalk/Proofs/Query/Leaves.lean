import RuleWalk.Proofs.Plan.RunResult
import RuleWalk.Query

/-!
# Leaves of a run

A run that skips failures takes a node for a leaf when the walk failed to expand it, and else asks
its rule again, outside the reach of the policy. The two differ at a node that is pruned: the walk
never asked its rule, so a rule that fails there fails only now, and the fault escapes.

`Due` holds a run together with the nodes it has still to visit. Each request takes the first of
them, and a test for leaves in between changes nothing about the others, so the statistic and the
leaves follow by recursion on these nodes.
-/

namespace RuleWalk

/-- One serial number stands for one container. -/
def Value.Identified (l : List Value) : Prop :=
  ∀ u ∈ l, ∀ w ∈ l, ∀ n, u.serial? = some n → w.serial? = some n → u = w

/-- A value that has a kind is a container. -/
theorem Value.serial?_of_kind? {v : Value} {field kind : String}
    (h : v.kind? (.str field) = .ok (some kind)) : ∃ n, v.serial? = some n := by
  cases v with
  | list o items => exact ⟨o.serial, rfl⟩
  | tuple o items => exact ⟨o.serial, rfl⟩
  | dict o entries => exact ⟨o.serial, rfl⟩
  | node o k fields => exact ⟨o.serial, rfl⟩
  | _ => simp [kind?, getField, attr?] at h

/-! ## Sequences by their items -/

section Answers

variable {ρ : Type} {due : List Value → ρ → Prop} {wants : Value → Bool}
  {halt : Value → Option Fault}

/-- What a request for the next wanted item gives, when a scan of the items that are due finds the
given one. -/
def Answers (due : List Value → ρ → Prop) :
    Option (Except Fault (Value × List Value)) → Outcome Entry ρ Delivery → Prop
  | none, o => o.result = .ok .stop
  | some (.error e), o => o.result = .error e.leaving
  | some (.ok (v, ys)), o => o.result = .ok (.node v) ∧ due ys o.state

theorem length_of_scan {l l' : List Value} {v : Value}
    (h : scan wants halt l = some (.ok (v, l'))) :
    l'.length < l.length := by
  induction l with
  | nil => cases h
  | cons u l ih =>
    rw [scan] at h
    cases hu : halt u with
    | some e => simp [hu] at h
    | none =>
      cases hwants : wants u with
      | true =>
        simp only [hu, hwants, if_true, Option.some.injEq, Except.ok.injEq, Prod.mk.injEq] at h
        obtain ⟨-, rfl⟩ := h
        exact Nat.lt_succ_self _
      | false => exact Nat.lt_succ_of_lt (ih (by simpa [hu, hwants] using h))

theorem iterate_of_answers {next : Act Entry ρ Delivery} {ys : List Value} {s : ρ} {g : Nat}
    (hnext : ∀ ys s, due ys s → Answers due (scan wants halt ys) (next s)) (h : due ys s)
    (hg : ys.length < g) (xs : List Value) :
    let drawn := harvest wants halt none ys
    (Act.iterate (Drained.turn next none) g (xs, xs.length) s).result =
      .ok (.done ⟨xs.reverse ++ drawn.items, drawn.ending⟩) := by
  have hne (k : Nat) : none ≠ some k := (Option.some_ne_none k).symm
  -- On the requests: each leaves fewer items due.
  induction g generalizing ys s xs with
  | zero => exact absurd hg (Nat.not_lt_zero _)
  | succ g ih =>
    have hanswer := hnext ys s h
    rw [harvest_eq_scan _ _ (hne 0)]
    rcases hscan : scan wants halt ys with _ | e | ⟨v, ys'⟩ <;> rw [hscan] at hanswer
    · have hstop : (next s).result = .ok .stop := hanswer
      rw [Drained.iterate_done (hne _) (congrArg (Drained.answer xs xs.length) hstop)]
      simp
    · have hfault : (next s).result = .error e.leaving := hanswer
      rw [Drained.iterate_done (hne _) (congrArg (Drained.answer xs xs.length) hfault)]
      simp
    · obtain ⟨hnode, hdue⟩ := hanswer
      have hless := length_of_scan hscan
      rw [Drained.iterate_again (hne _) (congrArg (Drained.answer xs xs.length) hnode)]
      refine (ih hdue (by omega) (v :: xs)).trans ?_
      simp

/-- A sequence whose requests go from one wanted item to the next is harvested when it is
drained. -/
theorem drain_of_answers {next : Act Entry ρ Delivery} {ys : List Value} {s : ρ} {g : Nat}
    (hnext : ∀ ys s, due ys s → Answers due (scan wants halt ys) (next s)) (h : due ys s)
    (hg : ys.length < g) : (drain next none g s).result = .ok (harvest wants halt none ys) := by
  have hdrawn := iterate_of_answers hnext h hg []
  rcases hrun : Act.iterate (Drained.turn next none) g ([], 0) s with ⟨r, s', es⟩
  obtain rfl : r = _ := (congrArg Outcome.result hrun).symm.trans hdrawn
  rw [drain_of_done hrun]
  rfl

end Answers

/-! ## Failed nodes -/

section Failed

variable {σ : Type} {prune : Hook (Predicate σ)} {scene : Scene σ} {all : List Value} {t : Tally}

theorem Tally.hasFailed_iff {v : Value} :
    t.hasFailed v = true ↔
      ∃ i ∈ t.incidents, ∃ n, i.node.serial? = some n ∧ v.serial? = some n := by
  rw [hasFailed, List.any_eq_true]
  refine exists_congr fun i => and_congr_right fun _ => ?_
  rcases i.node.serial? with _ | a <;> rcases v.serial? with _ | b
  · simp
  · simp
  · simp
  · simp only [beq_iff_eq, Option.some.injEq]
    exact ⟨fun h => ⟨a, rfl, h.symm⟩, fun ⟨n, ha, hb⟩ => ha.trans hb.symm⟩

/-- Only nodes of the list that cannot be expanded are on record. -/
def Tally.Records (prune : Hook (Predicate σ)) (scene : Scene σ) (all : List Value) (t : Tally) :
    Prop :=
  ∀ i ∈ t.incidents, i.node ∈ all ∧ Walk.mishap prune scene i.node ≠ none

/-- A node that cannot be expanded is a container, unless the test for pruning failed. -/
theorem Walk.serial?_of_mishap (hprune : prune.All Predicate.NeverFails)
    (hrules : scene.registry.AllRules Rule.IsPure) (hfield : scene.registry.HasTextField)
    {v : Value}
    (h : mishap prune scene v ≠ none) : ∃ n, v.serial? = some n := by
  obtain ⟨field, hfield⟩ := hfield
  obtain ⟨_ | kind, hkind⟩ := v.kind?_text field
  · have hslots : Scene.slotsOf v scene = ⟨.ok [], scene, []⟩ :=
      Scene.slotsOf_of_no_kind (by rw [Registry.kindOf, hfield, hkind])
    refine absurd ?_ h
    rw [mishap, expand_result_of_neverFails hprune hrules, hslots]
    split <;> simp_all
  · exact Value.serial?_of_kind? hkind

end Failed

theorem Scene.isLeaf_result {σ : Type} (v : Value) (s : Scene σ) :
    (isLeaf v s).result = (slotsOf v s).result.map fun slots => (present slots).isEmpty := by
  rw [isLeaf, Act.bind_result, childrenOf, Act.bind_result]
  cases (slotsOf v s).result <;> rfl

theorem Scene.isLeaf_state {σ : Type} (v : Value) (s : Scene σ) :
    (isLeaf v s).state = (slotsOf v s).state := by
  rw [isLeaf, Act.bind_state, childrenOf, Act.bind_result, Act.bind_state]
  cases (slotsOf v s).result <;> rfl

namespace Run

variable {σ : Type} {c : Config σ} {f : Filter σ} {names : Option (List String)} {max : Option Nat}
  {scene : Scene σ} {all l seen : List Value} {v : Value} {t : Tally} {s : Run σ} {fuel g : Nat}

/-- What has to be known of a run that skips failures, and of all its nodes, to tell its leaves. -/
structure Surveys (c : Config σ) (f : Filter σ) (names : Option (List String)) (max : Option Nat)
    (scene : Scene σ) (all : List Value) : Prop extends Skips c f names max scene where
  identified : Value.Identified all

namespace Surveys

theorem predictable (hc : Surveys c f names max scene all) : Predictable c f names max scene :=
  ⟨hc.unfailing, hc.prune.mono fun _ hp => hp.1, hc.rules, hc.field⟩

theorem prune_neverFails (hc : Surveys c f names max scene all) :
    f.prune.heeded.All Predicate.NeverFails := hc.prune.heeded.mono fun _ hp => hp.2

theorem expand_eq (hc : Surveys c f names max scene all) (v : Value) :
    (Walk.expand f.prune.heeded v scene).result =
      if f.prune.heeded.holds scene.user v then .ok [] else (Scene.slotsOf v scene).result :=
  Walk.expand_result_of_neverFails hc.prune_neverFails hc.rules v

theorem verdict_eq (hc : Surveys c f names max scene all) (hhalt : halt f scene v = none) :
    (ruling c f names scene v).verdict = .ok (wants f names scene v) := by
  rw [ruling_of_skip hc.policy hc.field hhalt]

/-- What is recorded of a node is the node itself, if it cannot be expanded. -/
theorem incident_eq (hc : Surveys c f names max scene all) (hhalt : halt f scene v = none) :
    (ruling c f names scene v).incident.map Incident.node =
      (Walk.mishap f.prune.heeded scene v).map fun _ => v := by
  rw [ruling_of_skip hc.policy hc.field hhalt]
  cases hmishap : Walk.mishap f.prune.heeded scene v with
  | none => rfl
  | some e =>
    obtain ⟨kind, cause, detail, -, -, -, rfl⟩ :=
      Walk.mishap_of_no_escape hc.field hhalt hmishap
    rfl

theorem mem_enter (hc : Surveys c f names max scene all) (hhalt : halt f scene v = none)
    {i : Incident} (hi : i ∈ (t.enter (ruling c f names scene v)).incidents) :
    i.node = v ∧ Walk.mishap f.prune.heeded scene v ≠ none ∨ i ∈ t.incidents := by
  have hnode := hc.incident_eq hhalt
  rcases List.mem_append.mp hi with hnew | hold
  · left
    rw [Option.mem_toList.mp hnew] at hnode
    cases hmishap : Walk.mishap f.prune.heeded scene v with
    | none => simp [hmishap] at hnode
    | some e =>
      rw [hmishap] at hnode
      exact ⟨Option.some.inj hnode, Option.some_ne_none e⟩
  · exact .inr hold

theorem records_enter (hc : Surveys c f names max scene all) (hhalt : halt f scene v = none)
    (hv : v ∈ all) (ht : t.Records f.prune.heeded scene all) :
    (t.enter (ruling c f names scene v)).Records f.prune.heeded scene all := by
  intro i hi
  rcases hc.mem_enter hhalt hi with ⟨hnode, hmishap⟩ | hold
  · rw [hnode]
    exact ⟨hv, hmishap⟩
  · exact ht i hold

/-- A node that was just taken is on record if and only if it cannot be expanded. -/
theorem hasFailed_enter (hc : Surveys c f names max scene all) (hhalt : halt f scene v = none)
    (hv : v ∈ all) (ht : t.Records f.prune.heeded scene all) :
    (t.enter (ruling c f names scene v)).hasFailed v =
      (Walk.mishap f.prune.heeded scene v).isSome := by
  rw [Bool.eq_iff_iff, Tally.hasFailed_iff, Option.isSome_iff_ne_none]
  constructor
  · rintro ⟨i, hi, n, hnode, hn⟩
    obtain ⟨hmem, hmishap⟩ := hc.records_enter hhalt hv ht i hi
    rwa [hc.identified i.node hmem v hv n hnode hn] at hmishap
  · intro hmishap
    obtain ⟨n, hn⟩ := Walk.serial?_of_mishap hc.prune_neverFails hc.rules hc.field hmishap
    obtain ⟨e, he⟩ := Option.ne_none_iff_exists'.mp hmishap
    have hnode := hc.incident_eq hhalt
    rw [he, Option.map_some, Option.map_eq_some_iff] at hnode
    obtain ⟨i, hi, rfl⟩ := hnode
    exact ⟨i, List.mem_append_left _ (Option.mem_toList.mpr hi), n, hn, hn⟩

end Surveys

/-- A run that has still to visit the nodes in `seen`, and for which there is fuel enough. -/
def Due (f : Filter σ) (names : Option (List String)) (max : Option Nat) (scene : Scene σ)
    (all : List Value) (fuel : Nat) (seen : List Value) (s : Run σ) : Prop :=
  ∃ l t, Tracks f scene l t s ∧ visited (wants f names scene) (room max t.processed) l = seen ∧
    l ⊆ all ∧ l.length < fuel ∧ t.Records f.prune.heeded scene all

theorem length_visited_le (wants : Value → Bool) (room : Option Nat) (l : List Value) :
    (visited wants room l).length ≤ l.length := by
  fun_induction visited wants room l with
  | case1 l => exact Nat.zero_le _
  | case2 room => exact Nat.le_refl _
  | case3 room v l _ ih => exact Nat.succ_le_succ ih

namespace Due

theorem length_lt (h : Due f names max scene all fuel seen s) : seen.length < fuel := by
  obtain ⟨l, t, -, rfl, -, hfuel, -⟩ := h
  exact Nat.lt_of_le_of_lt (length_visited_le _ _ _) hfuel

theorem alike (h : Due f names max scene all fuel seen s) : s.toScene.Alike scene := by
  obtain ⟨l, t, htracks, -⟩ := h
  exact htracks.follows.alike

end Due

/-- What a request gives when the nodes in `seen` are due. If a fault escapes at the first of them,
it fails. Else the first is given, if it is wanted, and then it is known whether it can be expanded;
and if it is not, the request goes on behind it. -/
def Serves (c : Config σ) (f : Filter σ) (names : Option (List String)) (max : Option Nat)
    (scene : Scene σ) (all : List Value) (fuel : Nat) :
    List Value → Outcome Entry (Run σ) Delivery → Prop
  | [], o => o.result = .ok .stop
  | v :: seen, o =>
    match halt f scene v with
    | some e => o.result = .error e.leaving
    | none =>
      if wants f names scene v then
        o.result = .ok (.node v) ∧ Due f names max scene all fuel seen o.state ∧
          o.state.tally.hasFailed v = (Walk.mishap f.prune.heeded scene v).isSome
      else ∃ s es, Due f names max scene all fuel seen s ∧ o = (next c fuel s).after es

/-- A request takes the first node that is due. -/
theorem Due.next_serves (hc : Surveys c f names max scene all)
    (h : Due f names max scene all fuel seen s) :
    Serves c f names max scene all fuel seen (next c fuel s) := by
  obtain ⟨l, t, htracks, rfl, hall, hfuel, ht⟩ := h
  obtain ⟨fuel, rfl⟩ : ∃ m, fuel = m + 1 := ⟨fuel - 1, by omega⟩
  by_cases hnone : l = [] ∨ room max t.processed = some 0
  · have hseen : visited (wants f names scene) (room max t.processed) l = [] := by
      rcases hnone with rfl | hroom
      · exact visited_nil _
      · rw [hroom, visited]
    obtain ⟨es, -, hnext⟩ := htracks.next_stop hc.predictable hnone
    rw [hseen, hnext]
    rfl
  · rw [not_or] at hnone
    obtain ⟨hl, hroom⟩ := hnone
    obtain ⟨v, l, rfl⟩ := List.exists_cons_of_ne_nil hl
    have hv : v ∈ all := hall List.mem_cons_self
    have hrest : l ⊆ all := fun u hu => hall (List.mem_cons_of_mem v hu)
    have hfuel' : l.length + 1 < fuel + 1 := by simpa using hfuel
    obtain ⟨s', es, -, -, hnext⟩ := htracks.next_cons hc.predictable hroom
    rw [visited, Serves]
    · cases hhalt : halt f scene v with
      | some e =>
        rw [ruling_of_escape hc.field hhalt] at hnext
        rw [hnext]
      | none =>
        have hverdict := hc.verdict_eq hhalt
        have hrecords := hc.records_enter hhalt hv ht
        rw [hverdict] at hnext
        cases hwants : wants f names scene v with
        | true =>
          rw [hwants] at hnext hverdict
          obtain ⟨hnext, htracks'⟩ := hnext
          rw [hnext]
          refine ⟨rfl, ⟨l, _, htracks', ?_, hrest, Nat.lt_of_succ_lt hfuel', hrecords⟩, ?_⟩
          · rw [if_pos rfl, room_succ, Tally.enter, Ruling.count, hverdict]
          · rw [htracks'.tally]
            exact hc.hasFailed_enter hhalt hv ht
        | false =>
          rw [hwants] at hnext hverdict
          obtain ⟨hnext, htracks'⟩ := hnext
          refine ⟨s', es, ⟨l, _, htracks', ?_, hrest, Nat.lt_of_succ_lt hfuel', hrecords⟩,
            htracks'.next_passed hc.predictable hnext hfuel'⟩
          rw [if_neg Bool.false_ne_true, Tally.enter, Ruling.count, hverdict, Nat.add_zero]
    · exact hroom

/-! ## The test for leaves -/

/-- The fault that escapes when a node is tested for being a leaf: the rule of a pruned node is
asked only then. -/
def escape (f : Filter σ) (scene : Scene σ) (v : Value) : Option Fault :=
  if f.prune.heeded.holds scene.user v then
    match (Scene.slotsOf v scene).result with
    | .ok _ => none
    | .error e => some e
  else none

/-- The fault with which a query ends at a node that its run takes: what escapes from the run, or,
if the node is yielded, from the test for leaves. -/
def trouble (f : Filter σ) (names : Option (List String)) (scene : Scene σ) (v : Value) :
    Option Fault :=
  match halt f scene v with
  | some e => some e.leaving
  | none => if wants f names scene v then escape f scene v else none

theorem trouble_of_halt {e : Fault} (hhalt : halt f scene v = some e) :
    trouble f names scene v = some e.leaving := by
  rw [trouble, hhalt]

theorem trouble_of_wanted (hhalt : halt f scene v = none) (hwants : wants f names scene v = true) :
    trouble f names scene v = escape f scene v := by
  rw [trouble, hhalt]
  exact if_pos hwants

theorem trouble_of_unwanted (hhalt : halt f scene v = none)
    (hwants : wants f names scene v = false) : trouble f names scene v = none := by
  rw [trouble, hhalt]
  exact if_neg (Bool.eq_false_iff.mp hwants)

/-- No child is present, or none can be found. -/
def leafy (scene : Scene σ) (v : Value) : Bool := (scene.kids v).isEmpty

theorem isLeaf_of_failed (h : s.tally.hasFailed v = true) : isLeaf v s = ⟨.ok true, s, []⟩ := by
  rw [isLeaf, Act.get_bind, if_pos h]
  rfl

theorem isLeaf_of_not_failed (h : s.tally.hasFailed v = false) :
    isLeaf v s = onScene (Scene.isLeaf v) s := by
  rw [isLeaf, Act.get_bind, if_neg (Bool.eq_false_iff.mp h)]

/-- The test for leaves at a node that was just taken. -/
theorem isLeaf_result (hc : Surveys c f names max scene all) (hhalt : halt f scene v = none)
    (halike : s.toScene.Alike scene)
    (hfailed : s.tally.hasFailed v = (Walk.mishap f.prune.heeded scene v).isSome) :
    (isLeaf v s).result = (escape f scene v).elim (.ok (leafy scene v)) .error := by
  have hexpand := hc.expand_eq v
  cases hmishap : Walk.mishap f.prune.heeded scene v with
  | none =>
    rw [hmishap] at hfailed
    rw [isLeaf_of_not_failed hfailed, onScene, Act.zoom_result, Scene.isLeaf_result,
      Scene.slotsOf_result_congr halike hc.rules, escape, leafy, Scene.kids]
    cases hslots : (Scene.slotsOf v scene).result with
    | ok slots => split <;> rfl
    | error e =>
      -- The walk did not fail here, so it did not ask the rule.
      have hpruned : f.prune.heeded.holds scene.user v = true := by
        by_contra hpruned
        rw [if_neg hpruned, hslots] at hexpand
        simp [Walk.mishap, hexpand] at hmishap
      rw [if_pos hpruned]
      rfl
  | some e =>
    obtain ⟨kind, cause, detail, -, hcause, -, -⟩ :=
      Walk.mishap_of_no_escape hc.field hhalt hmishap
    rw [hmishap] at hfailed
    rw [hcause] at hexpand
    have hpruned : f.prune.heeded.holds scene.user v = false := by
      cases hpruned : f.prune.heeded.holds scene.user v with
      | false => rfl
      | true => rw [hpruned, if_pos rfl] at hexpand; cases hexpand
    have hslots : (Scene.slotsOf v scene).result = .error cause := by
      rw [hpruned] at hexpand
      exact hexpand.symm
    rw [isLeaf_of_failed hfailed, escape, hpruned, leafy, Scene.kids, hslots]
    rfl

/-- The test for leaves leaves the nodes due as they are. -/
theorem Due.isLeaf (h : Due f names max scene all fuel seen s) (v : Value) :
    Due f names max scene all fuel seen (isLeaf v s).state := by
  cases hfailed : s.tally.hasFailed v with
  | true => rwa [isLeaf_of_failed hfailed]
  | false =>
    obtain ⟨l, t, htracks, hseen, hall, hfuel, ht⟩ := h
    rw [isLeaf_of_not_failed hfailed]
    have halike : (Scene.isLeaf v s.toScene).state.Alike scene := by
      rw [Scene.isLeaf_state]
      exact (Scene.slotsOf_alike v s.toScene).trans htracks.follows.alike
    exact ⟨l, t, ⟨⟨halike, htracks.follows.prune_eq, htracks.follows.ahead⟩, htracks.live,
      htracks.tally⟩, hseen, hall, hfuel, ht⟩

/-- A request for a node that is wanted, and the test of that node. -/
theorem Due.next_isLeaf (hc : Surveys c f names max scene all)
    (h : Due f names max scene all fuel (v :: seen) s) (hhalt : halt f scene v = none)
    (hwants : wants f names scene v = true) :
    ∃ s' es, Run.next c fuel s = ⟨.ok (.node v), s', es⟩ ∧ s'.toScene.Alike scene ∧
      (Run.isLeaf v s').result = (trouble f names scene v).elim (.ok (leafy scene v)) .error ∧
      Due f names max scene all fuel seen (Run.isLeaf v s').state := by
  have hserves := h.next_serves hc
  rw [Serves, hhalt] at hserves
  dsimp only at hserves
  rw [if_pos hwants] at hserves
  obtain ⟨hresult, hdue, hfailed⟩ := hserves
  rcases hnext : Run.next c fuel s with ⟨r, s', es⟩
  rw [hnext] at hresult hdue hfailed
  obtain rfl : r = _ := hresult
  rw [trouble_of_wanted hhalt hwants]
  exact ⟨s', es, rfl, hdue.alike, isLeaf_result hc hhalt hdue.alike hfailed, hdue.isLeaf v⟩

/-- A request at a node that is not wanted goes on behind it. -/
theorem Due.next_unwanted (hc : Surveys c f names max scene all)
    (h : Due f names max scene all fuel (v :: seen) s) (hhalt : halt f scene v = none)
    (hwants : wants f names scene v = false) :
    ∃ s' es, Due f names max scene all fuel seen s' ∧
      Run.next c fuel s = (Run.next c fuel s').after es := by
  have hserves := h.next_serves hc
  rw [Serves, hhalt] at hserves
  dsimp only at hserves
  rwa [if_neg (Bool.eq_false_iff.mp hwants)] at hserves

/-- A request fails where a fault escapes. -/
theorem Due.next_halted (hc : Surveys c f names max scene all)
    (h : Due f names max scene all fuel (v :: seen) s) {e : Fault}
    (hhalt : halt f scene v = some e) :
    (Run.next c fuel s).result = .error e.leaving := by
  have hserves := h.next_serves hc
  rwa [Serves, hhalt] at hserves

/-! ## The statistic -/

/-- Node after node is counted, up to the first that is in trouble. -/
theorem iterate_census (hc : Surveys c f names max scene all)
    (h : Due f names max scene all fuel seen s) (hg : seen.length < g) (n : Census) :
    (Act.iterate (censusTurn c fuel) g n s).result =
      (seen.findSome? (trouble f names scene)).elim
        (.ok (.done ((seen.filter (wants f names scene)).foldl
          (fun n v => n.add (kindAt scene v) (leafy scene v)) n))) .error := by
  obtain ⟨g, rfl⟩ : ∃ m, g = m + 1 := ⟨g - 1, by omega⟩
  -- Along the nodes that are due: those that are not wanted are passed over in the same turn.
  induction seen generalizing s n g with
  | nil =>
    have hstop : (next c fuel s).result = .ok .stop := h.next_serves hc
    rw [Act.iterate_succ, Act.bind_result, censusTurn, Act.bind_result, hstop]
    rfl
  | cons v seen ih =>
    rw [List.findSome?_cons]
    cases hhalt : halt f scene v with
    | some e =>
      rw [Act.iterate_succ, Act.bind_result, censusTurn, Act.bind_result, h.next_halted hc hhalt,
        trouble_of_halt hhalt]
      rfl
    | none =>
      cases hwants : wants f names scene v with
      | false =>
        obtain ⟨s', es, hdue, hnext⟩ := h.next_unwanted hc hhalt hwants
        have hturn : censusTurn c fuel n s = (censusTurn c fuel n s').after es :=
          Act.bind_after hnext _
        rw [trouble_of_unwanted hhalt hwants,
          List.filter_cons_of_neg (Bool.eq_false_iff.mp hwants), Act.iterate_after hturn g,
          Outcome.after_result]
        exact ih hdue n g (by simp at hg; omega)
      | true =>
        obtain ⟨s', es, hnext, halike, hleaf, hdue⟩ := h.next_isLeaf hc hhalt hwants
        obtain ⟨kind, hkind⟩ := hc.field.kindOf v
        have hkindAt : kindAt scene v = kind := by rw [kindAt, hkind]; rfl
        rw [List.filter_cons_of_pos hwants, List.foldl_cons, Act.iterate_succ, Act.bind_apply,
          censusTurn, Act.bind_of_ok hnext, Outcome.after_result, Outcome.after_state]
        dsimp only
        rw [Act.get_bind, halike.kindOf v, hkind, Act.ofExcept_ok_bind, Act.bind_apply, hleaf,
          hkindAt]
        cases htrouble : trouble f names scene v with
        | some e => rfl
        | none =>
          obtain ⟨g, rfl⟩ : ∃ m, g = m + 1 := ⟨g - 1, by simp at hg; omega⟩
          exact ih hdue (n.add kind (leafy scene v)) g (by simp at hg ⊢; omega)

/-- The statistic of a run: the count of the nodes due, or the first fault that escapes. -/
theorem census_result (hc : Surveys c f names max scene all)
    (h : Due f names max scene all fuel seen s) :
    (census c fuel s).result =
      (seen.findSome? (trouble f names scene)).elim
        (.ok ((seen.filter (wants f names scene)).foldl
          (fun n v => n.add (kindAt scene v) (leafy scene v)) {})) .error := by
  rw [census, Act.bind_result, iterate_census hc h h.length_lt]
  cases seen.findSome? (trouble f names scene) <;> rfl

/-- Every node is counted, and each leaf as such. -/
theorem count_foldl_add {α : Type} (kind : α → Option String) (leaf : α → Bool) (ys : List α)
    (n : Census) :
    let counted := ys.foldl (fun n v => n.add (kind v) (leaf v)) n
    counted.total = n.total + ys.length ∧
      counted.leaves = n.leaves + (ys.filter leaf).length := by
  induction ys generalizing n with
  | nil => exact ⟨rfl, rfl⟩
  | cons v ys ih =>
    obtain ⟨htotal, hleaves⟩ := ih (n.add (kind v) (leaf v))
    rw [List.foldl_cons]
    refine ⟨?_, ?_⟩
    · rw [htotal, List.length_cons]
      simp only [Census.add]
      omega
    · rw [hleaves]
      cases hleaf : leaf v <;> simp [Census.add, hleaf]
      omega

/-! ## The leaves one by one -/

/-- Whether a node that is taken is yielded as a leaf. -/
def yieldsLeaf (f : Filter σ) (names : Option (List String)) (scene : Scene σ) (v : Value) : Bool :=
  wants f names scene v && leafy scene v

/-- The turns of one request for a leaf take nodes up to the first leaf. -/
theorem iterate_leafTurn (hc : Surveys c f names max scene all)
    (h : Due f names max scene all fuel seen s) (hg : seen.length < g) :
    match scan (yieldsLeaf f names scene) (trouble f names scene) seen with
    | none => (Act.iterate (leafTurn c fuel) g () s).result = .ok (.done .stop)
    | some (.error e) => (Act.iterate (leafTurn c fuel) g () s).result = .error e
    | some (.ok (v, seen')) =>
      (Act.iterate (leafTurn c fuel) g () s).result = .ok (.done (.node v)) ∧
        Due f names max scene all fuel seen' (Act.iterate (leafTurn c fuel) g () s).state := by
  obtain ⟨g, rfl⟩ : ∃ m, g = m + 1 := ⟨g - 1, by omega⟩
  induction seen generalizing s g with
  | nil =>
    have hstop : (next c fuel s).result = .ok .stop := h.next_serves hc
    rw [scan, Act.iterate_succ, Act.bind_result, leafTurn, Act.bind_result, hstop]
    rfl
  | cons v seen ih =>
    rw [scan]
    cases hhalt : halt f scene v with
    | some e =>
      rw [trouble_of_halt hhalt]
      dsimp only
      rw [Act.iterate_succ, Act.bind_result, leafTurn, Act.bind_result, h.next_halted hc hhalt]
      rfl
    | none =>
      cases hwants : wants f names scene v with
      | false =>
        obtain ⟨s', es, hdue, hnext⟩ := h.next_unwanted hc hhalt hwants
        have hturn : leafTurn c fuel () s = (leafTurn c fuel () s').after es :=
          Act.bind_after hnext _
        rw [trouble_of_unwanted hhalt hwants, yieldsLeaf, hwants, Act.iterate_after hturn g,
          Outcome.after_result, Outcome.after_state]
        exact ih hdue g (by simp at hg; omega)
      | true =>
        obtain ⟨s', es, hnext, -, hleaf, hdue⟩ := h.next_isLeaf hc hhalt hwants
        have hturn : (leafTurn c fuel () s).result = (trouble f names scene v).elim
            (.ok (if leafy scene v then .done (.node v) else .again ())) .error := by
          rw [leafTurn, Act.bind_of_ok hnext, Outcome.after_result]
          dsimp only
          rw [Act.bind_apply, hleaf]
          cases trouble f names scene v with
          | some e => rfl
          | none => cases leafy scene v <;> rfl
        have hstate : trouble f names scene v = none →
            (leafTurn c fuel () s).state = (Run.isLeaf v s').state := by
          intro hnone
          rw [leafTurn, Act.bind_of_ok hnext, Outcome.after_state]
          dsimp only
          rw [Act.bind_apply, hleaf, hnone]
          cases leafy scene v <;> rfl
        rw [Act.iterate_succ, Act.bind_apply, hturn, yieldsLeaf, hwants]
        cases htrouble : trouble f names scene v with
        | some e => rfl
        | none =>
          rw [← hstate htrouble] at hdue
          cases hleafy : leafy scene v with
          | true => exact ⟨rfl, hdue⟩
          | false =>
            obtain ⟨g, rfl⟩ : ∃ m, g = m + 1 := ⟨g - 1, by simp at hg; omega⟩
            exact ih hdue g (by simp at hg ⊢; omega)

theorem nextLeaf_answers (hc : Surveys c f names max scene all)
    (h : Due f names max scene all fuel seen s) :
    Answers (Due f names max scene all fuel)
      (scan (yieldsLeaf f names scene) (trouble f names scene) seen) (nextLeaf c fuel s) := by
  have hturns := iterate_leafTurn hc h h.length_lt
  rw [nextLeaf]
  generalize Act.iterate (leafTurn c fuel) fuel () s = turns at hturns ⊢
  generalize scan (yieldsLeaf f names scene) (trouble f names scene) seen = found at hturns ⊢
  obtain ⟨r, s', es⟩ := turns
  rcases found with _ | e | ⟨v, seen'⟩
  · obtain rfl : r = _ := hturns
    rfl
  · obtain rfl : r = _ := hturns
    rfl
  · obtain ⟨hr, hdue⟩ := hturns
    obtain rfl : r = _ := hr
    exact ⟨rfl, hdue⟩

/-- The leaves of a run: those among the nodes due, up to the first that is in trouble. -/
theorem drain_nextLeaf (hc : Surveys c f names max scene all)
    (h : Due f names max scene all fuel seen s) (hg : seen.length < g) :
    (drain (nextLeaf c fuel) none g s).result =
      .ok (harvest (yieldsLeaf f names scene) (trouble f names scene) none seen) :=
  drain_of_answers (fun _ _ hdue => nextLeaf_answers hc hdue) h hg

end Run

end RuleWalk
