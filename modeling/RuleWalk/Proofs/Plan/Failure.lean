import Mathlib.Data.List.Basic
import RuleWalk.Proofs.Plan.RunResult

/-!
# Policies for failed expansions

Where failures are skipped, a run yields what a raising run would yield if every failing expansion
gave no children, and each failure is recorded, told and logged once, before its node is yielded.
Where failures are raised, the run goes the same way up to the first visited node that fails, and
ends there. Expansions fail in the rule or in the test for pruning. A fault that escapes from one
ends the run under either policy, and is neither recorded nor told nor logged.

The three runs are compared through what comes of them, their `runResult`: `Predicate.repaired` and
`Rule.repaired` take the failures out of the tests and rules, and leave what a walk finds as it is.
-/

namespace RuleWalk

variable {σ : Type}

/-! ## Repairs -/

def Hook.map {φ ψ : Type} (g : φ → ψ) : Hook φ → Hook ψ
  | absent => absent
  | inert v => inert v
  | live f truth => live (g f) truth

theorem Hook.All.map {φ ψ : Type} {P : φ → Prop} {Q : ψ → Prop} {g : φ → ψ} {h : Hook φ}
    (hall : h.All P) (hPQ : ∀ f, P f → Q (g f)) : (h.map g).All Q := by
  cases h with
  | absent => trivial
  | inert v => exact hall
  | live f truth => exact hPQ f hall

theorem Hook.map_heeded {φ ψ : Type} (g : φ → ψ) (h : Hook φ) :
    (h.map g).heeded = h.heeded.map g := by
  have hset : (h.map g).isSet = h.isSet := by cases h <;> rfl
  rw [heeded, heeded, hset]
  cases h.isSet <;> rfl

/-- The test that holds where the given one fails. -/
def Predicate.repaired (p : Predicate σ) : Predicate σ := fun v u =>
  { p v u with result := .ok ((p v u).result.toOption.getD true) }

/-- The rule that offers nothing where the given one fails or breaks off. -/
def Rule.repaired (r : Rule σ) : Rule σ :=
  { r with expand := fun v u =>
    { r.expand v u with
      result := .ok ⟨((r.expand v u).result.bind Offer.collect).toOption.getD [], none⟩ } }

def Filter.repaired (f : Filter σ) : Filter σ := { f with prune := f.prune.map Predicate.repaired }

theorem Filter.repaired_prune_heeded (f : Filter σ) :
    f.repaired.prune.heeded = f.prune.heeded.map Predicate.repaired :=
  Hook.map_heeded Predicate.repaired f.prune

/-- The configuration whose test for pruning is repaired. -/
def Config.repaired (c : Config σ) : Config σ :=
  match c.filter with
  | .given f => { c with filter := .given f.repaired }
  | .foreign _ => c

/-- The scene whose rules are repaired. -/
def Scene.repaired (s : Scene σ) : Scene σ :=
  { s with registry := { s.registry with
    rules := s.registry.rules.map fun e => (e.1, e.2.repaired) } }

theorem Predicate.IsPure.repaired {p : Predicate σ} (h : p.IsPure) : p.repaired.IsPure := by
  intro v u u'
  simp only [Predicate.repaired, h v u u']

theorem Rule.IsPure.repaired {r : Rule σ} (h : r.IsPure) : r.repaired.IsPure := by
  intro v u u'
  simp only [Rule.repaired, h v u u']

theorem Config.Unfailing.repaired {c : Config σ} {f : Filter σ} {names : Option (List String)}
    {max : Option Nat} (hc : c.Unfailing f names max) :
    c.repaired.Unfailing f.repaired names max := by
  have hrepaired : c.repaired = { c with filter := .given f.repaired } := by
    rw [Config.repaired, hc.filter]
  rw [hrepaired]
  exact ⟨rfl, hc.kinds, hc.limit, hc.keep, hc.drop, hc.report, hc.progress⟩

namespace Scene

theorem repaired_rule? (s : Scene σ) (kind : String) :
    s.repaired.registry.rule? kind = (s.registry.rule? kind).map Rule.repaired := by
  exact lookup_map_snd Rule.repaired kind s.registry.rules

theorem repaired_isPure {s : Scene σ} (h : s.registry.AllRules Rule.IsPure) :
    s.repaired.registry.AllRules Rule.IsPure := by
  intro kind rule hrule
  rw [repaired_rule?, Option.map_eq_some_iff] at hrule
  obtain ⟨rule', hrule', rfl⟩ := hrule
  exact (h kind rule' hrule').repaired

/-- Repaired rules give what the given ones do, and nothing where these fail. -/
theorem slotsOf_repaired (v : Value) {s : Scene σ} (hfield : s.registry.HasTextField) :
    (slotsOf v s.repaired).result = .ok ((slotsOf v s).result.toOption.getD []) := by
  obtain ⟨kind, hkind⟩ := hfield.kindOf v
  have hkind' : s.repaired.registry.kindOf v = .ok kind := hkind
  rw [slotsOf_result, slotsOf_result, hkind, hkind']
  cases kind with
  | none => rfl
  | some kind =>
    dsimp only
    rw [repaired_rule?]
    cases s.registry.rule? kind <;> rfl

end Scene

namespace Walk

variable {prune : Hook (Predicate σ)}

theorem pruned_repaired {P : Predicate σ → Prop} (hprune : prune.All P) (v : Value) (s : Scene σ) :
    (pruned (prune.map Predicate.repaired) v s.repaired).result =
        .ok ((pruned prune v s).result.toOption.getD true) ∧
      (pruned (prune.map Predicate.repaired) v s.repaired).state =
        (pruned prune v s).state.repaired := by
  cases prune with
  | absent => exact ⟨rfl, rfl⟩
  | inert w => exact hprune.elim
  | live p truth => exact ⟨rfl, rfl⟩

/-- A repaired expansion finds what the given one finds, and nothing where that fails. -/
theorem expand_repaired {P : Predicate σ → Prop} (hprune : prune.All P) {s : Scene σ}
    (hfield : s.registry.HasTextField) (v : Value) :
    (expand (prune.map Predicate.repaired) v s.repaired).result =
      .ok ((expand prune v s).result.toOption.getD []) := by
  obtain ⟨hresult, hstate⟩ := pruned_repaired hprune v s
  rw [expand_result, expand_result, hresult, hstate]
  have hfield' := (pruned_alike prune v s).hasTextField hfield
  rcases (pruned prune v s).result with e | _ | _
  · rfl
  · exact Scene.slotsOf_repaired v hfield'
  · rfl

theorem mishap_repaired {P : Predicate σ → Prop} (hprune : prune.All P) {s : Scene σ}
    (hfield : s.registry.HasTextField) (v : Value) :
    mishap (prune.map Predicate.repaired) s.repaired v = none := by
  rw [mishap, expand_repaired hprune hfield]

theorem found_repaired {f : Filter σ} {P : Predicate σ → Prop} (hprune : f.prune.All P)
    {s : Scene σ} (hfield : s.registry.HasTextField) (v : Value) :
    found f.repaired.prune.heeded v s.repaired = found f.prune.heeded v s := by
  rw [found, found, f.repaired_prune_heeded, expand_repaired hprune.heeded hfield]
  cases (expand f.prune.heeded v s).result <;> rfl

end Walk

/-- The unfolding is the same after the repair. -/
def Unfolding.repaired {f : Filter σ} {P : Predicate σ → Prop} (hprune : f.prune.All P)
    {s : Scene σ} (hfield : s.registry.HasTextField) {root : Value}
    (t : Unfolding (fun v => Walk.found f.prune.heeded v s) root) :
    Unfolding (fun v => Walk.found f.repaired.prune.heeded v s.repaired) root where
  below := t.below
  roots_below := t.roots_below.trans (Walk.found_repaired hprune hfield root).symm
  unfolds_below := by
    rw [funext (Walk.found_repaired hprune hfield)]
    exact t.unfolds_below

/-! ## Runs that agree or fail -/

/-- Does what `m'` does, unless it fails. -/
def Act.AgreesOrFails {ω ρ α : Type} (m m' : Act ω ρ α) : Prop :=
  ∀ s, m s = m' s ∨ ∃ e, (m s).result = .error e

namespace Act

variable {ω ρ α β : Type}

theorem AgreesOrFails.bind {m m' : Act ω ρ α} (h : AgreesOrFails m m') (f : α → Act ω ρ β) :
    AgreesOrFails (m >>= f) (m' >>= f) := by
  intro s
  rcases h s with hs | ⟨e, he⟩
  · left
    rw [bind_apply, bind_apply, hs]
  · right
    exact ⟨e, by rw [bind_result, he]; rfl⟩

theorem AgreesOrFails.iterate {body body' : β → Act ω ρ (Turn β α)}
    (h : ∀ b, AgreesOrFails (body b) (body' b)) (fuel : Nat) (b : β) :
    AgreesOrFails (iterate body fuel b) (iterate body' fuel b) := by
  induction fuel generalizing b with
  | zero => exact fun s => .inl rfl
  | succ fuel ih =>
    intro s
    rw [iterate_succ, iterate_succ, bind_apply, bind_apply]
    rcases h b s with hs | ⟨e, he⟩
    · rw [← hs]
      rcases hresult : (body b s).result with e | b' | a
      · exact .inl rfl
      · dsimp only
        rcases ih b' (body b s).state with hrest | ⟨e, he⟩
        · left
          rw [hrest]
        · right
          exact ⟨e, he⟩
      · exact .inl rfl
    · rw [he]
      exact .inr ⟨e, rfl⟩

end Act

/-- The same configuration under another policy. -/
def Config.under (c : Config σ) (p : Policy) : Config σ := { c with policy := .given p }

theorem Config.Unfailing.under {c : Config σ} {f : Filter σ} {names : Option (List String)}
    {max : Option Nat} (hc : c.Unfailing f names max) (p : Policy) :
    (c.under p).Unfailing f names max :=
  ⟨hc.filter, hc.kinds, hc.limit, hc.keep, hc.drop, hc.report, hc.progress⟩

namespace Run

variable {c : Config σ}

/-- Whatever fault a raising run has to recover from, it fails. -/
theorem recover_raise (c : Config σ) (e : Fault) (s : Run σ) :
    ∃ e', (recover (c.under .raise) e s).result = .error e' := by
  cases e with
  | expansion v kind detail cause =>
    rcases h : recordFailure (c.under .raise) (.of v kind detail) (.expansion v kind detail cause) s
      with ⟨e | _, s', es⟩
    · exact ⟨e, by rw [recover_of_error h]⟩
    · exact ⟨_, by rw [recover_of_raise rfl h]⟩
  | _ => exact ⟨_, rfl⟩

theorem offer_under (c : Config σ) (p : Policy) (v : Value) : offer (c.under p) v = offer c v := by
  have hprogress : reportProgress (c.under p) = reportProgress c := rfl
  have hadmits : (c.under p).admits = c.admits := rfl
  rw [offer, offer, hprogress, hadmits]

/-- The policy matters only where a step fails. -/
theorem pop_raise (c : Config σ) :
    Act.AgreesOrFails (pop (c.under .raise)) (pop (c.under .skip)) := by
  intro s
  rw [pop, pop, Act.attempt_bind, Act.attempt_bind]
  rcases (onStage Walk.step s).result with e | _ | v
  · exact .inr (recover_raise c e _)
  · exact .inl rfl
  · left
    dsimp only
    rw [offer_under, offer_under]

theorem beat_raise (c : Config σ) :
    Act.AgreesOrFails (beat (c.under .raise)) (beat (c.under .skip)) := by
  intro s
  have hallows (p : Policy) :
      (c.under p).allows s.tally.processed = c.allows s.tally.processed := rfl
  rcases hlimit : c.allows s.tally.processed with e | _ | _
  · right
    exact ⟨e, by rw [beat, Act.get_bind, hallows, hlimit, Act.ofExcept_error_bind]⟩
  · left
    rw [beat_of_limit ((hallows .raise).trans hlimit), beat_of_limit ((hallows .skip).trans hlimit)]
  · rw [beat_of_allows ((hallows .raise).trans hlimit),
      beat_of_allows ((hallows .skip).trans hlimit)]
    exact pop_raise c s

theorem next_raise (c : Config σ) (fuel : Nat) :
    Act.AgreesOrFails (next (c.under .raise) fuel) (next (c.under .skip) fuel) := by
  intro s
  have hturns : Act.AgreesOrFails (Act.iterate (turn (c.under .raise)) fuel ())
      (Act.iterate (turn (c.under .skip)) fuel ()) :=
    .iterate (fun _ => (beat_raise c).bind _) fuel ()
  cases hlive : s.live with
  | false =>
    left
    rw [next_of_not_live fuel hlive, next_of_not_live fuel hlive]
  | true =>
    rw [next, next, hlive, if_pos rfl, if_pos rfl]
    rcases hturns s with hs | ⟨e, he⟩
    · left
      rw [hs]
    · right
      rcases hrun : Act.iterate (turn (c.under .raise)) fuel () s with ⟨r, s', es⟩
      obtain rfl : r = .error e := (congrArg Outcome.result hrun).symm.trans he
      exact ⟨e.leaving, rfl⟩

/-- Drawing from a raising run is drawing from a skipping one, unless a fault ends it. -/
theorem iterate_turn_raise (c : Config σ) (ask : Option Nat) (fuel g k : Nat) (xs : List Value)
    (s : Run σ) :
    let raised := Act.iterate (Drained.turn (next (c.under .raise) fuel) ask) g (xs, k) s
    raised = Act.iterate (Drained.turn (next (c.under .skip) fuel) ask) g (xs, k) s ∨
      ∃ items e, raised.result = .ok (.done ⟨items, .fault e⟩) := by
  induction g generalizing xs k s with
  | zero =>
    left
    rw [Act.iterate_zero, Act.iterate_zero]
  | succ g ih =>
    by_cases hask : ask = some k
    · left
      subst hask
      rw [Act.iterate_succ, Act.iterate_succ, Act.bind_of_ok (Drained.turn_of_limit _ xs k s),
        Act.bind_of_ok (Drained.turn_of_limit _ xs k s)]
    · rcases next_raise c fuel s with hs | ⟨e, he⟩
      · cases hanswer : Drained.answer xs k (next (c.under .raise) fuel s).result with
        | done d =>
          left
          rw [Drained.iterate_done hask hanswer, Drained.iterate_done hask (hs ▸ hanswer), hs]
        | again acc =>
          rw [Drained.iterate_again hask hanswer, Drained.iterate_again hask (hs ▸ hanswer), ← hs]
          rcases ih acc.2 acc.1 (next (c.under .raise) fuel s).state with hrest | ⟨items, e, he⟩
          · left
            rw [hrest]
          · right
            exact ⟨items, e, he⟩
      · right
        have hanswer : Drained.answer xs k (next (c.under .raise) fuel s).result =
            .done ⟨xs.reverse, .fault e⟩ := by
          rw [he]
          rfl
        exact ⟨xs.reverse, e, by rw [Drained.iterate_done hask hanswer]⟩

theorem drain_raise (c : Config σ) (ask : Option Nat) (fuel g : Nat) (s : Run σ) :
    let raised := drain (next (c.under .raise) fuel) ask g s
    raised = drain (next (c.under .skip) fuel) ask g s ∨
      ∃ items e, raised.result = .ok ⟨items, .fault e⟩ := by
  dsimp only
  rcases iterate_turn_raise c ask fuel g 0 [] s with heq | ⟨items, e, he⟩
  · left
    rw [drain, drain, Act.bind_apply, Act.bind_apply, heq]
  · right
    refine ⟨items, e, ?_⟩
    rcases hrun : Act.iterate (Drained.turn (next (c.under .raise) fuel) ask) g ([], 0) s with
      ⟨r, s', es⟩
    obtain rfl : r = _ := (congrArg Outcome.result hrun).symm.trans he
    exact congrArg Outcome.result (drain_of_done hrun)

variable {f : Filter σ} {names : Option (List String)} {max : Option Nat} {scene : Scene σ}
  {v : Value}

/-! ## Three runs -/

/-- After the repair no node ends a raising run, and the same nodes are wanted. -/
theorem ruling_repaired {P : Predicate σ → Prop} (hprune : f.prune.All P)
    (hfield : scene.registry.HasTextField) :
    (ruling (c.repaired.under .raise) f.repaired names scene.repaired v).verdict =
      .ok (wants f names scene v) := by
  rw [ruling, f.repaired_prune_heeded, Walk.mishap_repaired hprune.heeded hfield]
  rfl

section RunResult

variable {l before after : List Value} {ask : Option Nat}

/-- What is recorded along some nodes, if failed expansions are. -/
def incidentsAt (f : Filter σ) (scene : Scene σ) (l : List Value) : List Incident :=
  l.filterMap fun v => (Walk.mishap f.prune.heeded scene v).bind Fault.incident?

/-- The alarms that are raised along some nodes where failed expansions are skipped: the caller is
told, if there is someone to tell, and then a warning is logged. -/
def alarmsAt (c : Config σ) (f : Filter σ) (scene : Scene σ) (l : List Value) : List Alarm :=
  l.flatMap fun v => (Walk.mishap f.prune.heeded scene v).elim [] fun e =>
    (if c.report.isSet then [.told v e] else []) ++ [.warned e.wording]

theorem filterMap_incident (hfield : scene.registry.HasTextField)
    (hescape : ∀ v ∈ l, Walk.escape? f.prune.heeded scene v = none) :
    (l.filterMap fun v => (ruling (c.under .skip) f names scene v).incident) =
      incidentsAt f scene l :=
  List.filterMap_congr fun v hv => by rw [ruling_of_skip rfl hfield (hescape v hv)]

theorem flatMap_alarms (hfield : scene.registry.HasTextField)
    (hescape : ∀ v ∈ l, Walk.escape? f.prune.heeded scene v = none) :
    (l.flatMap fun v => (ruling (c.under .skip) f names scene v).alarms) =
      alarmsAt c f scene l :=
  List.flatMap_congr fun v hv => by rw [ruling_of_skip rfl hfield (hescape v hv)]; rfl

theorem runResult_skip (hfield : scene.registry.HasTextField)
    (hescape : ∀ v ∈ visited (wants f names scene) (Option.merge min ask max) l,
      Walk.escape? f.prune.heeded scene v = none) :
    let seen := visited (wants f names scene) (Option.merge min ask max) l
    let selected := seen.filter (wants f names scene)
    runResult (ruling (c.under .skip) f names scene) ask max l =
      { items := selected
        ending := if ask = some selected.length then .limit else .stop
        incidents := incidentsAt f scene seen
        alarms := alarmsAt c f scene seen } := by
  rw [runResult_of_no_error fun v hv => by rw [ruling_of_skip rfl hfield (hescape v hv)],
    filterMap_incident hfield hescape, flatMap_alarms hfield hescape]

/-- What comes of a skipping run from which a fault escapes. -/
theorem runResult_skip_of_escape (hfield : scene.registry.HasTextField) {e : Fault}
    (hseen : visited (wants f names scene) (Option.merge min ask max) l = before ++ v :: after)
    (hbefore : ∀ u ∈ before, Walk.escape? f.prune.heeded scene u = none)
    (hv : Walk.escape? f.prune.heeded scene v = some e) :
    runResult (ruling (c.under .skip) f names scene) ask max l =
      { items := before.filter (wants f names scene)
        ending := .fault e.leaving
        incidents := incidentsAt f scene before
        alarms := alarmsAt c f scene before } := by
  rw [runResult_of_error hseen
    (fun u hu => by rw [ruling_of_skip rfl hfield (hbefore u hu)])
    (by rw [ruling_of_escape hfield hv])]
  simp [filterMap_incident hfield hbefore, flatMap_alarms hfield hbefore,
    ruling_of_escape hfield hv]

/-- What comes of a raising run, when a node ends it and none before it fails. -/
theorem runResult_raise {e : Fault}
    (hseen : visited (wants f names scene) (Option.merge min ask max) l = before ++ v :: after)
    (hbefore : ∀ u ∈ before, Walk.mishap f.prune.heeded scene u = none)
    (hv : (ruling (c.under .raise) f names scene v).verdict = .error e) :
    runResult (ruling (c.under .raise) f names scene) ask max l =
      { items := before.filter (wants f names scene)
        ending := .fault e.leaving
        incidents := (ruling (c.under .raise) f names scene v).incident.toList
        alarms := (ruling (c.under .raise) f names scene v).alarms } := by
  have hruling : ∀ u ∈ before, ruling (c.under .raise) f names scene u =
      { verdict := .ok (wants f names scene u) } := fun u hu => by
    rw [ruling, hbefore u hu]
    rfl
  have hincidents :
      before.filterMap (fun u => (ruling (c.under .raise) f names scene u).incident) = [] :=
    List.filterMap_eq_nil_iff.mpr fun u hu => by rw [hruling u hu]
  have halarms : before.flatMap (fun u => (ruling (c.under .raise) f names scene u).alarms) = [] :=
    List.flatMap_eq_nil_iff.mpr fun u hu => by rw [hruling u hu]
  rw [runResult_of_error hseen (fun u hu => by rw [hruling u hu]) hv]
  simp [hincidents, halarms, filterMap_cons_toList]

theorem runResult_raise_of_none
    (hnone : ∀ v ∈ visited (wants f names scene) (Option.merge min ask max) l,
      Walk.mishap f.prune.heeded scene v = none) (e : Fault) :
    (runResult (ruling (c.under .raise) f names scene) ask max l).ending ≠ .fault e := by
  rw [runResult_of_no_error fun v hv => by rw [ruling, hnone v hv]; rfl]
  dsimp only
  split
  · exact Ending.noConfusion
  · exact Ending.noConfusion

theorem runResult_repaired {P : Predicate σ → Prop} (hprune : f.prune.All P)
    (hfield : scene.registry.HasTextField) :
    let selected := (visited (wants f names scene) (Option.merge min ask max) l).filter
      (wants f names scene)
    (runResult (ruling (c.repaired.under .raise) f.repaired names scene.repaired) ask max
        l).toDrained =
      ⟨selected, if ask = some selected.length then .limit else .stop⟩ := by
  rw [runResult_of_no_error fun v _ => ruling_repaired hprune hfield]

end RunResult

/-- How failed expansions bear on a run. The same run is drawn from under both policies, and the
raising one also after the repair, each asked for the same number of nodes. What is seen in the
meantime are the nodes up to the last that is asked for or allowed, so that the alarms for a node
stand on record when the node is yielded. A fault that escapes from an expansion, because it is an
interruption or has no text, ends either run before its node and leaves no trace; all else is as if
the run had been asked for the nodes before that one. -/
theorem drain_policies (c : Config σ) (f : Filter σ) (names : Option (List String))
    (max : Option Nat) (hc : c.Unfailing f names max) (hprune : f.prune.All Predicate.IsPure)
    (scene : Scene σ) (root : Value) {kind : String}
    (hroot : scene.registry.kindOf root = .ok (some kind))
    (hrules : scene.registry.AllRules Rule.IsPure)
    (t : Unfolding (fun v => Walk.found f.prune.heeded v scene) root)
    (ask : Option Nat) (fuel g : Nat) (hfuel : t.preorder.length < fuel)
    (hg : t.preorder.length < g) :
    ∃ r r', start (c.under .skip) scene root = .ok r ∧ start (c.under .raise) scene root = .ok r ∧
      start (c.repaired.under .raise) scene.repaired root = .ok r' ∧
      let skipped := drain (next (c.under .skip) fuel) ask g r
      let raised := drain (next (c.under .raise) fuel) ask g r
      let repaired := drain (next (c.repaired.under .raise) fuel) ask g r'
      let seen := visited (wants f names scene) (Option.merge min ask max) t.preorder
      let selected := fun l : List Value => l.filter (wants f names scene)
      let mishap := Walk.mishap f.prune.heeded scene
      let escape := Walk.escape? f.prune.heeded scene
      repaired.result =
        .ok ⟨selected seen, if ask = some (selected seen).length then .limit else .stop⟩ ∧
      ((∀ v ∈ seen, escape v = none) →
        skipped.result = repaired.result ∧
        skipped.state.tally.incidents.reverse = incidentsAt f scene seen ∧
        skipped.entries.filterMap Entry.alarm? = alarmsAt c f scene seen) ∧
      (∀ before v after e, seen = before ++ v :: after → (∀ u ∈ before, mishap u = none) →
        mishap v = some e → escape v = none →
        raised.result = .ok ⟨selected before, .fault e⟩ ∧
        (∃ k cause detail, scene.registry.kindOf v = .ok k ∧
          (Walk.expand f.prune.heeded v scene).result = .error cause ∧ cause.text = .ok detail ∧
          e = .expansion v k detail (some cause) ∧
          raised.state.tally.incidents = [⟨v, k, Fault.expansionText k detail⟩]) ∧
        raised.entries.filterMap Entry.alarm? = (if c.report.isSet then [.told v e] else []) ∧
        ∀ n, next (c.under .raise) n raised.state = ⟨.ok .stop, raised.state, []⟩) ∧
      ((∀ v ∈ seen, mishap v = none) → raised = skipped) ∧
      (∀ before v after e, seen = before ++ v :: after → escape v = some e →
        ((∀ u ∈ before, escape u = none) →
          skipped.result = .ok ⟨selected before, .fault e.leaving⟩ ∧
          skipped.state.tally.incidents.reverse = incidentsAt f scene before ∧
          skipped.entries.filterMap Entry.alarm? = alarmsAt c f scene before ∧
          ∀ n, next (c.under .skip) n skipped.state = ⟨.ok .stop, skipped.state, []⟩) ∧
        ((∀ u ∈ before, mishap u = none) →
          raised.result = .ok ⟨selected before, .fault e.leaving⟩ ∧
          raised.state.tally.incidents = [] ∧ raised.entries.filterMap Entry.alarm? = [] ∧
          ∀ n, next (c.under .raise) n raised.state = ⟨.ok .stop, raised.state, []⟩)) := by
  have hfield := Registry.hasTextField_of_kindOf hroot
  have hpredictable (p : Policy) : Predictable (c.under p) f names max scene :=
    ⟨hc.under p, hprune, hrules, hfield⟩
  have hrepaired : Predictable (c.repaired.under .raise) f.repaired names max scene.repaired :=
    ⟨hc.repaired.under .raise, hprune.map fun _ hp => hp.repaired, Scene.repaired_isPure hrules,
      hfield⟩
  let t' := t.repaired hprune hfield
  refine ⟨_, _, (hpredictable .skip).start_eq hroot, (hpredictable .raise).start_eq hroot,
    hrepaired.start_eq hroot, ?_⟩
  intro skipped raised repaired seen selected mishap escape
  obtain ⟨hskip, hincidents, halarms, hskiplive⟩ :=
    drain_runResult ask (hpredictable .skip) (tracks_start t) hfuel hg
  obtain ⟨hraise, hrecorded, htold, hlive⟩ :=
    drain_runResult ask (hpredictable .raise) (tracks_start t) hfuel hg
  have hrepair : repaired.result = _ :=
    (drain_runResult ask hrepaired (tracks_start t') hfuel hg).1.trans
      (congrArg Except.ok (runResult_repaired hprune hfield))
  refine ⟨hrepair, ?_, ?_, ?_, ?_⟩
  · intro hnone
    rw [runResult_skip hfield hnone] at hskip hincidents halarms
    exact ⟨hskip.trans hrepair.symm, by rw [hincidents, List.reverse_reverse], halarms⟩
  · intro before v after e hsplit hbefore hv hescape
    have hruling : ruling (c.under .raise) f names scene v = _ :=
      ruling_of_raise rfl hfield hescape
    obtain ⟨k, cause, detail, hkind, hcause, htext, rfl⟩ :=
      Walk.mishap_of_no_escape hfield hescape hv
    rw [show Walk.mishap f.prune.heeded scene v = _ from hv] at hruling
    rw [runResult_raise hsplit hbefore (by rw [hruling]; rfl), hruling]
      at hraise hrecorded htold hlive
    exact ⟨hraise, ⟨k, cause, detail, hkind, hcause, htext, rfl, hrecorded⟩, htold,
      fun n => next_of_not_live n (hlive _ rfl)⟩
  · intro hnone
    refine (drain_raise c ask fuel g _).resolve_right ?_
    rintro ⟨items, e, he⟩
    have hdrawn := Except.ok.inj (he.symm.trans hraise)
    exact runResult_raise_of_none hnone e (congrArg Drained.ending hdrawn).symm
  · intro before v after e hsplit hescape
    refine ⟨fun hbefore => ?_, fun hbefore => ?_⟩
    · rw [runResult_skip_of_escape hfield hsplit hbefore hescape]
        at hskip hincidents halarms hskiplive
      exact ⟨hskip, by rw [hincidents, List.reverse_reverse], halarms,
        fun n => next_of_not_live n (hskiplive _ rfl)⟩
    · have hruling : ruling (c.under .raise) f names scene v = _ := ruling_of_escape hfield hescape
      rw [runResult_raise hsplit hbefore (by rw [hruling]), hruling]
        at hraise hrecorded htold hlive
      exact ⟨hraise, hrecorded, htold, fun n => next_of_not_live n (hlive _ rfl)⟩

/-- A torn pair below another: skipped, it is yielded like the other nodes and one alarm of each
sort is raised; otherwise it ends the run, and what was before it has been yielded. -/
theorem drain_policies_tornHalf :
    let c : Config Unit := { report := .live fun _ _ => pure () }
    let scene : Scene Unit := ⟨Sample.tornPairs .value, ()⟩
    let e : Fault := .expansion Sample.torn (some "Torn") "torn" (some (.raised .value "torn"))
    ∃ r, start (c.under .raise) scene Sample.tornHalf = .ok r ∧
      let skipped := drain (next (c.under .skip) 4) none 4 r
      let raised := drain (next (c.under .raise) 4) none 4 r
      skipped.result = .ok ⟨[Sample.tornHalf, Sample.torn, Sample.name], .stop⟩ ∧
      skipped.entries.filterMap Entry.alarm? = [.told Sample.torn e, .warned e.wording] ∧
      raised.result = .ok ⟨[Sample.tornHalf], .fault e⟩ ∧
      raised.entries.filterMap Entry.alarm? = [.told Sample.torn e] := by
  intro c scene e
  have hc : c.Unfailing {} none none :=
    ⟨rfl, rfl, rfl, trivial, trivial, fun _ _ _ => ⟨(), rfl⟩, trivial⟩
  let t : Unfolding (fun v => Walk.found .absent v scene) Sample.tornHalf :=
    { below := .cons Sample.torn .nil (.cons Sample.name .nil .nil)
      roots_below := rfl
      unfolds_below := ⟨rfl, trivial, rfl, trivial, trivial⟩ }
  have hescape : ∀ v ∈ [Sample.tornHalf, Sample.torn, Sample.name],
      Walk.escape? .absent scene v = none := by
    intro v hv
    simp only [List.mem_cons, List.not_mem_nil, or_false] at hv
    rcases hv with rfl | rfl | rfl <;> rfl
  obtain ⟨r, r', -, hr, -, hrepaired, hskipped, hraised, -⟩ :=
    drain_policies c {} none none hc trivial scene Sample.tornHalf rfl
      (Sample.tornPairs_isPure .value) t none 4 4 (by decide) (by decide)
  obtain ⟨hsame, -, halarms⟩ := hskipped hescape
  obtain ⟨hfault, -, htold, -⟩ := hraised [Sample.tornHalf] Sample.torn [Sample.name] e rfl
    (by intro u hu; obtain rfl := List.mem_singleton.mp hu; rfl) rfl rfl
  exact ⟨r, hr, hsame.trans hrepaired, halarms, hfault, htold⟩

/-- A torn pair whose failure has no text is not yielded although failures are skipped. No alarm is
raised, nothing is recorded, and the run has ended with the fault met in asking for the text. The
same comes of a test for pruning that is interrupted, and then the interruption is what is left. -/
theorem drain_policies_escape :
    let c : Config Unit := { report := .live fun _ _ => pure () }
    let torn : Predicate Unit := fun _ => .fail (.raised .interrupt "torn")
    let pruning : Config Unit := { c with filter := .given { prune := .live torn } }
    torn.IsPure ∧
      ∃ r r', start (c.under .skip) ⟨Sample.failingPairs Sample.mute, ()⟩ Sample.tornHalf = .ok r ∧
        start (pruning.under .skip) ⟨Sample.pairs, ()⟩ Sample.halfPair = .ok r' ∧
        let silent := drain (next (c.under .skip) 4) none 4 r
        let interrupted := drain (next (pruning.under .skip) 4) none 4 r'
        silent.result = .ok ⟨[Sample.tornHalf], .fault (.notCallable "int")⟩ ∧
        silent.state.tally.incidents = [] ∧ silent.entries.filterMap Entry.alarm? = [] ∧
        interrupted.result = .ok ⟨[], .fault (.raised .interrupt "torn")⟩ ∧
        interrupted.state.tally.incidents = [] ∧
        interrupted.entries.filterMap Entry.alarm? = [] :=
  ⟨fun _ _ _ => rfl, _, _, rfl, rfl, rfl, rfl, rfl, rfl, rfl, rfl⟩

end Run

end RuleWalk
