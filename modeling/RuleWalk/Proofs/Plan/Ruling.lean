import RuleWalk.Proofs.Plan.Unfailing

/-!
# What becomes of a node

Where the tests are pure and the callbacks never fail, taking a node has one outcome that can be
told from the node and the policy: whether it is yielded or ends the run, what is recorded of it,
and what the outside hears of it. `Config.ruling` is that outcome and `pop_ruling` says that a run
keeps to it. Expansions may fail here, in the test for pruning as well as in the rule.
-/

namespace RuleWalk

/-- How the outside hears of a failed expansion: the caller is told, or a warning is logged. -/
inductive Alarm where
  | told (v : Value) (e : Fault)
  | warned (message : String)

/-- The alarm that an entry raises, if it does. -/
def Entry.alarm? : Entry → Option Alarm
  | .call (.report e) v _ => some (.told v e)
  | .log (.skipping message) => some (.warned message)
  | _ => none

/-! ## Activities that raise no alarm -/

/-- Nothing that is put on record raises an alarm. -/
def Act.IsQuiet {ρ α : Type} (m : Act Entry ρ α) : Prop :=
  ∀ s, (m s).entries.filterMap Entry.alarm? = []

/-- To look at a node is no cause for alarm. -/
theorem Entry.alarm?_of_isInquiry (e : Entry) (h : e.isInquiry = true) : e.alarm? = none := by
  cases e with
  | log record =>
    cases record with
    | skipping message => cases h
    | _ => rfl
  | call role subject remarks =>
    cases role with
    | report fault => cases h
    | _ => rfl

namespace Run

variable {σ : Type}

theorem reportProgress_isQuiet (c : Config σ) (count : Nat) : (reportProgress c count).IsQuiet := by
  unfold reportProgress
  split
  · exact (Hook.call_hides (fun _ => rfl) _ c.progress).zoom _ _
  · exact Act.hides_pure ()

/-- Offering a node raises no alarm. -/
theorem offer_isQuiet (c : Config σ) (v : Value) : (offer c v).IsQuiet := by
  refine Act.Hides.bind (fun _ => rfl) fun s => (Act.hides_ofExcept _).bind fun kind => ?_
  refine Act.Hides.bind
    ((c.admits_hides Entry.alarm?_of_isInquiry v (kindValue kind)).zoom _ _) fun b => ?_
  cases b with
  | true =>
    exact (Act.hides_modify _).bind fun _ =>
      Act.Hides.bind (reportProgress_isQuiet c _) fun _ => Act.hides_pure _
  | false => exact Act.hides_pure _

end Run

/-! ## Mishaps -/

namespace Walk

variable {σ : Type} {prune : Hook (Predicate σ)} {scene : Scene σ} {l : List Value} {v : Value}
  {s : Stage σ}

/-- The fault with which a step at a node fails, if it does. -/
def mishap (prune : Hook (Predicate σ)) (scene : Scene σ) (v : Value) : Option Fault :=
  match (expand prune v scene).result with
  | .ok _ => none
  | .error e => some (stepFault scene.registry v e)

/-- The fault of an expansion escapes, or a fault that carries the node and its kind takes its
place. -/
theorem mishap_of_error (hfield : scene.registry.HasTextField) {e : Fault}
    (h : (expand prune v scene).result = .error e) :
    ∃ kind, scene.registry.kindOf v = .ok kind ∧
      mishap prune scene v = some (e.escape?.getD (.expansion v kind e.wording (some e))) := by
  obtain ⟨kind, hkind⟩ := hfield.kindOf v
  exact ⟨kind, hkind, by rw [mishap, h, ← stepFault_of_kindOf hkind]⟩

/-- A node is expanded, or a fault that carries it says why not, or some other fault escapes. -/
theorem mishap_cases (hfield : scene.registry.HasTextField) (prune : Hook (Predicate σ))
    (v : Value) :
    mishap prune scene v = none ∧ escape? prune scene v = none ∨
      (∃ kind cause, scene.registry.kindOf v = .ok kind ∧
        (expand prune v scene).result = .error cause ∧ escape? prune scene v = none ∧
        mishap prune scene v = some (.expansion v kind cause.wording (some cause))) ∨
      ∃ e, escape? prune scene v = some e ∧ mishap prune scene v = some e := by
  cases hexpand : (expand prune v scene).result with
  | ok slots => exact .inl (by rw [mishap, escape?, hexpand]; exact ⟨rfl, rfl⟩)
  | error cause =>
    obtain ⟨kind, hkind, hmishap⟩ := mishap_of_error hfield hexpand
    rw [escape?, hexpand]
    dsimp only
    cases hescape : cause.escape? with
    | none =>
      rw [hescape] at hmishap
      exact .inr (.inl ⟨kind, cause, hkind, rfl, rfl, hmishap⟩)
    | some e =>
      rw [hescape] at hmishap
      exact .inr (.inr ⟨e, rfl, hmishap⟩)

theorem isExpansion_of_escape? {e : Fault} (h : escape? prune scene v = some e) :
    e.isExpansion = false := by
  unfold escape? at h
  split at h
  · cases h
  · exact (Fault.passes_of_escape? h).isExpansion

theorem mishap_of_escape? (hfield : scene.registry.HasTextField) {e : Fault}
    (h : escape? prune scene v = some e) : mishap prune scene v = some e := by
  obtain ⟨-, hnone⟩ | ⟨kind, cause, -, -, hnone, -⟩ | ⟨e', hsome, hmishap⟩ :=
    mishap_cases hfield prune v
  · cases hnone.symm.trans h
  · cases hnone.symm.trans h
  · cases hsome.symm.trans h
    exact hmishap

/-- Where nothing escapes, a mishap is a failed expansion that holds the text of its cause. -/
theorem mishap_of_no_escape (hfield : scene.registry.HasTextField)
    (h : escape? prune scene v = none) {e : Fault} (hmishap : mishap prune scene v = some e) :
    ∃ kind cause detail, scene.registry.kindOf v = .ok kind ∧
      (expand prune v scene).result = .error cause ∧ cause.text = .ok detail ∧
      e = .expansion v kind detail (some cause) := by
  obtain ⟨hnone, -⟩ | ⟨kind, cause, hkind, hcause, -, hfailed⟩ | ⟨e', hsome, -⟩ :=
    mishap_cases hfield prune v
  · cases hnone.symm.trans hmishap
  · rw [escape?, hcause] at h
    exact ⟨kind, cause, _, hkind, hcause, Fault.text_eq_of_escape? h,
      Option.some.inj (hmishap.symm.trans hfailed)⟩
  · cases hsome.symm.trans h

/-- A mishap that is a failed expansion is about the node itself. -/
theorem mishap_node {e : Fault} (h : mishap prune scene v = some e)
    (hfield : scene.registry.HasTextField) (w : Value) (kind : Option String) (detail : String)
    (cause : Option Fault) (he : e = .expansion w kind detail cause) : w = v := by
  subst he
  cases hescape : escape? prune scene v with
  | some e =>
    cases (mishap_of_escape? hfield hescape).symm.trans h
    cases isExpansion_of_escape? hescape
  | none =>
    obtain ⟨kind', cause', detail', -, -, -, hfault⟩ := mishap_of_no_escape hfield hescape h
    cases hfault
    rfl

/-- A step gives the first node that lies ahead, or fails with its mishap. -/
theorem Follows.step_result_eq (hprune : prune.All Predicate.IsPure)
    (hrules : scene.registry.AllRules Rule.IsPure) (h : Follows prune scene (v :: l) s) :
    (step s).result =
      match mishap prune scene v with
      | none => .ok (some v)
      | some e => .error e := by
  obtain ⟨rest, hfringe, -⟩ := h.fringe_cons
  have hkind := ((expand_alike prune v s.toScene).trans h.alike).kindOf v
  rw [step_cons hfringe, h.prune_eq, mishap, expand_result_congr hprune hrules h.alike v]
  cases (expand prune v scene).result with
  | ok slots => rfl
  | error e => simp only [stepFault, hkind]

end Walk

/-! ## Rulings -/

/-- What is recorded of a fault: only a failed expansion is. -/
def Fault.incident? : Fault → Option Incident
  | .expansion v kind detail _ => some (.of v kind detail)
  | _ => none

/-- What becomes of a node that is taken: whether it is yielded, or the fault that ends the run;
what is recorded of it; and the alarms that are raised. -/
structure Ruling where
  verdict : Except Fault Bool
  incident : Option Incident := none
  alarms : List Alarm := []

/-- Failed expansions end a run. -/
def Config.raises {σ : Type} (c : Config σ) : Bool :=
  match c.policy with
  | .given .raise => true
  | _ => false

/-- The ruling on a node, by the fault of its step. A failed expansion is recorded and told whatever
the policy, and only then can it end the run. Any other fault passes through. -/
def Config.ruling {σ : Type} (c : Config σ) (wanted : Bool) : Option Fault → Ruling
  | none => { verdict := .ok wanted }
  | some (.expansion v kind detail cause) =>
    let e := .expansion v kind detail cause
    { verdict := if c.raises then .error e else .ok wanted
      incident := e.incident?
      alarms := (if c.report.isSet then [.told v e] else []) ++
        if c.raises then [] else [.warned e.wording] }
  | some e => { verdict := .error e }

namespace Run

variable {σ : Type} {c : Config σ} {f : Filter σ} {names : Option (List String)} {max : Option Nat}
  {scene : Scene σ} {l : List Value} {v : Value} {s : Run σ}

/-- The ruling on a node of a run that was begun in `scene`. -/
def ruling (c : Config σ) (f : Filter σ) (names : Option (List String)) (scene : Scene σ)
    (v : Value) : Ruling := c.ruling (wants f names scene v) (Walk.mishap f.prune.heeded scene v)

/-- A fault that escapes ends the run whatever the policy, and nobody hears of it. -/
theorem ruling_of_escape (hfield : scene.registry.HasTextField) {e : Fault}
    (h : Walk.escape? f.prune.heeded scene v = some e) :
    ruling c f names scene v = { verdict := .error e } := by
  rw [ruling, Walk.mishap_of_escape? hfield h]
  cases e with
  | expansion => cases Walk.isExpansion_of_escape? h
  | _ => rfl

/-- Where failures are skipped, a node is yielded if it is wanted, and its failure is recorded, told
and logged. -/
theorem ruling_of_skip (hpolicy : c.policy = .given .skip) (hfield : scene.registry.HasTextField)
    (hescape : Walk.escape? f.prune.heeded scene v = none) :
    ruling c f names scene v =
      { verdict := .ok (wants f names scene v)
        incident := (Walk.mishap f.prune.heeded scene v).bind Fault.incident?
        alarms := (Walk.mishap f.prune.heeded scene v).elim [] fun e =>
          (if c.report.isSet then [.told v e] else []) ++ [.warned e.wording] } := by
  rw [ruling]
  cases hmishap : Walk.mishap f.prune.heeded scene v with
  | none => rfl
  | some e =>
    have hraises : c.raises = false := by rw [Config.raises, hpolicy]
    obtain ⟨kind, cause, detail, -, -, -, rfl⟩ := Walk.mishap_of_no_escape hfield hescape hmishap
    simp [Config.ruling, hraises]

/-- Where failures are raised, a failure ends the run; it is recorded and told, but not logged. -/
theorem ruling_of_raise (hpolicy : c.policy = .given .raise) (hfield : scene.registry.HasTextField)
    (hescape : Walk.escape? f.prune.heeded scene v = none) :
    ruling c f names scene v =
      { verdict := (Walk.mishap f.prune.heeded scene v).elim (.ok (wants f names scene v)) .error
        incident := (Walk.mishap f.prune.heeded scene v).bind Fault.incident?
        alarms := (Walk.mishap f.prune.heeded scene v).elim [] fun e =>
          if c.report.isSet then [.told v e] else [] } := by
  rw [ruling]
  cases hmishap : Walk.mishap f.prune.heeded scene v with
  | none => rfl
  | some e =>
    have hraises : c.raises = true := by rw [Config.raises, hpolicy]
    obtain ⟨kind, cause, detail, -, -, -, rfl⟩ := Walk.mishap_of_no_escape hfield hescape hmishap
    simp [Config.ruling, hraises]

/-- What has to be known of a run to tell it from the nodes it takes, whatever fails. -/
structure Predictable (c : Config σ) (f : Filter σ) (names : Option (List String))
    (max : Option Nat) (scene : Scene σ) : Prop where
  unfailing : c.Unfailing f names max
  prune : f.prune.All Predicate.IsPure
  rules : scene.registry.AllRules Rule.IsPure
  field : scene.registry.HasTextField

/-- An outcome of a node in a state with the given incidents is as the ruling says. -/
structure Obeys (r : Ruling) (v : Value) (incidents : List Incident)
    (o : Outcome Entry (Run σ) Beat) : Prop where
  result : o.result = r.verdict.map fun yields => if yields then .yielded v else .passed
  incidents : o.state.tally.incidents = r.incident.toList ++ incidents
  alarms : o.entries.filterMap Entry.alarm? = r.alarms

theorem Obeys.after {r : Ruling} {incidents : List Incident} {o : Outcome Entry (Run σ) Beat}
    (h : Obeys r v incidents o) {es : List Entry} (hes : es.filterMap Entry.alarm? = []) :
    Obeys r v incidents (o.after es) :=
  ⟨h.result, h.incidents, by rw [Outcome.after, List.filterMap_append, hes, h.alarms]; rfl⟩

/-- An offered node is ruled on as one without a mishap. -/
theorem offer_obeys (hc : c.Unfailing f names max) (hfield : scene.registry.HasTextField)
    (halike : s.toScene.Alike scene) (v : Value) :
    Obeys (c.ruling (wants f names scene v) none) v s.tally.incidents (offer c v s) := by
  obtain ⟨user, processed, hstate, -⟩ := offer_state c v s
  refine ⟨offer_result_of_alike hc hfield halike v, ?_, offer_isQuiet c v s⟩
  rw [hstate]
  rfl

/-- When a failure was recorded and the caller did not fail, the caller was told of it. -/
theorem recordFailure_alarms {i : Incident} {e : Fault} {s' : Run σ} {es : List Entry}
    (h : recordFailure c i e s = ⟨.ok (), s', es⟩) :
    es.filterMap Entry.alarm? = if c.report.isSet then [.told i.node e] else [] := by
  rw [recordFailure, onTally, Act.modify_bind] at h
  split at h
  · next hset =>
    rw [if_pos hset]
    cases hreport : c.report with
    | absent => simp [hreport, Hook.isSet] at hset
    | inert w =>
      rw [hreport] at h
      cases congrArg Outcome.result h
    | live r truth =>
      rw [hreport] at h
      obtain rfl := congrArg Outcome.entries h
      rfl
  · next hset =>
    rw [if_neg hset]
    cases h
    rfl

/-- Recovering from the fault of a step is ruled on by that fault. -/
theorem recover_obeys (hc : c.Unfailing f names max) (hfield : scene.registry.HasTextField)
    (halike : s.toScene.Alike scene) {e : Fault}
    (he : ∀ w kind detail cause, e = .expansion w kind detail cause → w = v) :
    Obeys (c.ruling (wants f names scene v) (some e)) v s.tally.incidents (recover c e s) := by
  cases e with
  | expansion w kind detail cause =>
    obtain rfl := he w kind detail cause rfl
    obtain ⟨user, es, h⟩ :=
      recordFailure_eq hc.report (.of w kind detail) (.expansion w kind detail cause) s
    have halarms := recordFailure_alarms h
    by_cases hpolicy : c.policy = .given .raise
    · have hraises : c.raises = true := by rw [Config.raises, hpolicy]
      rw [recover_of_raise hpolicy h]
      refine ⟨?_, rfl, ?_⟩
      · simp [Config.ruling, hraises, Except.map]
      · simpa [Config.ruling, hraises] using halarms
    · have hraises : c.raises = false := by
        unfold Config.raises
        split
        · next h => exact absurd h hpolicy
        · rfl
      rw [recover_of_skip hpolicy h]
      generalize hs' : ({ s with user, tally := _ } : Run σ) = s'
      have halike' : s'.toScene.Alike scene := hs' ▸ ⟨halike.kindField, halike.rules⟩
      have hoffer := offer_obeys hc hfield halike' w
      refine ⟨?_, ?_, ?_⟩
      · rw [Outcome.after_result, hoffer.result]
        simp [Config.ruling, hraises]
      · rw [Outcome.after_state, hoffer.incidents, ← hs']
        rfl
      · rw [Outcome.after, List.filterMap_append, hoffer.alarms, List.filterMap_append, halarms]
        simp [Config.ruling, hraises, Entry.alarm?]
  | _ => exact ⟨rfl, rfl, rfl⟩

/-- Taking a node is as the ruling on it says. -/
theorem pop_ruling (hc : Predictable c f names max scene)
    (h : Walk.Follows f.prune.heeded scene (v :: l) s.toStage) :
    Obeys (ruling c f names scene v) v s.tally.incidents (pop c s) := by
  obtain ⟨rest, hfringe, -⟩ := h.fringe_cons
  have halike : (onStage Walk.step s).state.toScene.Alike scene := by
    rw [onStage, Act.zoom_state, Walk.step_cons hfringe]
    exact (Walk.expand_alike _ v s.toScene).trans h.alike
  have hquiet : (onStage Walk.step s).entries.filterMap Entry.alarm? = [] := by
    have hentries : (onStage Walk.step s).entries = (Walk.step s.toStage).entries := rfl
    rw [hentries]
    exact Walk.step_hides Entry.alarm?_of_isInquiry s.toStage
  rw [pop, Act.attempt_bind]
  refine Obeys.after ?_ hquiet
  rw [onStage, Act.zoom_result, h.step_result_eq hc.prune.heeded hc.rules, ruling]
  cases hmishap : Walk.mishap f.prune.heeded scene v with
  | none => exact offer_obeys hc.unfailing hc.field halike v
  | some e => exact recover_obeys hc.unfailing hc.field halike (Walk.mishap_node hmishap hc.field)

end Run

end RuleWalk
