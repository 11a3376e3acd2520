import RuleWalk.Proofs.Fault
import RuleWalk.Proofs.Rules
import RuleWalk.Proofs.Walk.Step

/-!
# Steps that fail

Where kinds can be read, the expansion of a node fails by the test of the walk or by the rule of the
node, and a rule fails when it is called or later, when its offer breaks off. `FailsWith` says which
fault comes of it. A step hands on an interrupt as it is; any other fault becomes the fault of the
node that was taken, unless it has no text: then what was met in asking for the text is left. In all
cases the node has left the fringe and nothing else has changed there.
-/

namespace RuleWalk

/-- An offer is lost by a fault of the rule or by one that cuts the offer off. -/
theorem Offer.bind_collect_eq_error_iff {r : Except Fault Offer} {e : Fault} :
    r.bind collect = .error e ↔ r = .error e ∨ ∃ slots, r = .ok ⟨slots, some e⟩ := by
  rcases r with e' | ⟨slots, _ | e'⟩ <;> simp [Except.bind, collect]

/-- The slots cannot be found exactly where the rule of the node fails. -/
theorem Scene.slotsOf_error_iff {σ : Type} {v : Value} {s : Scene σ}
    (hfield : s.registry.HasTextField) {e : Fault} :
    (slotsOf v s).result = .error e ↔
      ∃ kind rule, s.registry.kindOf v = .ok (some kind) ∧ s.registry.rule? kind = some rule ∧
        (rule.expand v s.user).result.bind Offer.collect = .error e := by
  rw [slotsOf_result]
  obtain ⟨_ | kind, hkind⟩ := hfield.kindOf v
  · simp [hkind]
  · rw [hkind]
    cases hrule : s.registry.rule? kind <;> simp [hrule]

namespace Walk

variable {σ : Type} {prune : Hook (Predicate σ)} {v : Value}

/-- The ways in which the expansion of a node can fail, each with its fault. -/
inductive FailsWith (prune : Hook (Predicate σ)) (v : Value) (s : Scene σ) : Fault → Prop
  /-- The test fails. -/
  | test {p : Predicate σ} {truth : Bool} {e : Fault} (hprune : prune = .live p truth)
      (hfault : (p v s.user).result = .error e) : FailsWith prune v s e
  /-- What stands in the place of a test cannot be asked. -/
  | inert {w : Value} (hprune : prune = .inert w) : FailsWith prune v s (.notCallable w.typeName)
  /-- The test lets the node pass, and its rule fails. -/
  | rule {kind : String} {rule : Rule σ} {e : Fault}
      (hpruned : (pruned prune v s).result = .ok false)
      (hkind : s.registry.kindOf v = .ok (some kind)) (hrule : s.registry.rule? kind = some rule)
      (hfault : (rule.expand v (pruned prune v s).state.user).result = .error e) :
      FailsWith prune v s e
  /-- The test lets the node pass, and its rule breaks off after some slots. -/
  | offer {kind : String} {rule : Rule σ} {slots : List Value} {e : Fault}
      (hpruned : (pruned prune v s).result = .ok false)
      (hkind : s.registry.kindOf v = .ok (some kind)) (hrule : s.registry.rule? kind = some rule)
      (hoffer : (rule.expand v (pruned prune v s).state.user).result = .ok ⟨slots, some e⟩) :
      FailsWith prune v s e

theorem pruned_error_iff {s : Scene σ} {e : Fault} :
    (pruned prune v s).result = .error e ↔
      (∃ p truth, prune = .live p truth ∧ (p v s.user).result = .error e) ∨
        ∃ w, prune = .inert w ∧ e = .notCallable w.typeName := by
  cases prune with
  | absent => simp [pruned, Hook.isPresent]
  | inert w => simp [pruned, Hook.isPresent, Hook.call, eq_comm]
  | live p truth => simp [pruned, Hook.isPresent, Hook.call]

/-- What the test does leaves the rules where they are. -/
theorem slotsOf_pruned_error_iff {s : Scene σ} (hfield : s.registry.HasTextField) {e : Fault} :
    (Scene.slotsOf v (pruned prune v s).state).result = .error e ↔
      ∃ kind rule, s.registry.kindOf v = .ok (some kind) ∧ s.registry.rule? kind = some rule ∧
        (rule.expand v (pruned prune v s).state.user).result.bind Offer.collect = .error e := by
  have halike := pruned_alike prune v s
  simp only [Scene.slotsOf_error_iff (halike.hasTextField hfield), halike.kindOf, halike.rule?]

/-- An expansion ends with a fault exactly when it fails with it. -/
theorem expand_error_iff {s : Scene σ} (hfield : s.registry.HasTextField) {e : Fault} :
    (expand prune v s).result = .error e ↔ FailsWith prune v s e := by
  rw [expand_result]
  constructor
  · intro h
    rcases hpruned : (pruned prune v s).result with e' | _ | _
    · rw [hpruned] at h
      cases h
      obtain ⟨p, truth, hprune, hfault⟩ | ⟨w, hprune, rfl⟩ := pruned_error_iff.mp hpruned
      · exact .test hprune hfault
      · exact .inert hprune
    · rw [hpruned] at h
      obtain ⟨kind, rule, hkind, hrule, hfault⟩ := (slotsOf_pruned_error_iff hfield).mp h
      obtain hfault | ⟨slots, hoffer⟩ := Offer.bind_collect_eq_error_iff.mp hfault
      · exact .rule hpruned hkind hrule hfault
      · exact .offer hpruned hkind hrule hoffer
    · rw [hpruned] at h
      cases h
  · intro h
    cases h with
    | test hprune hfault => rw [pruned_error_iff.mpr (.inl ⟨_, _, hprune, hfault⟩)]
    | inert hprune => rw [pruned_error_iff.mpr (.inr ⟨_, hprune, rfl⟩)]
    | rule hpruned hkind hrule hfault =>
      rw [hpruned]
      exact (slotsOf_pruned_error_iff hfield).mpr
        ⟨_, _, hkind, hrule, Offer.bind_collect_eq_error_iff.mpr (.inl hfault)⟩
    | offer hpruned hkind hrule hoffer =>
      rw [hpruned]
      exact (slotsOf_pruned_error_iff hfield).mpr
        ⟨_, _, hkind, hrule, Offer.bind_collect_eq_error_iff.mpr (.inr ⟨_, hoffer⟩)⟩

/-- The fault of a step, told by the kind that the node has before the step. -/
theorem step_of_fails {s : Stage σ} {rest : List Value} {kind : Option String} {e : Fault}
    (hfringe : s.walk.fringe = v :: rest) (hkind : s.registry.kindOf v = .ok kind)
    (hfails : (expand s.walk.prune v s.toScene).result = .error e) :
    (step s).result = .error (e.escape?.getD (.expansion v kind e.wording (some e))) ∧
      (step s).state.walk = ⟨rest, s.walk.prune⟩ := by
  have hkind' := ((expand_alike s.walk.prune v s.toScene).kindOf v).trans hkind
  rw [step_cons hfringe, found, hfails]
  exact ⟨congrArg Except.error (stepFault_of_kindOf hkind' e), rfl⟩

/-- Whatever makes the expansion of the first node fail, the step fails for that node: an ordinary
fault that has a text is the cause of the fault of the node, and its text is in the message. One
that has none leaves what is met in asking for it, and an interrupt passes as it is. The fringe
loses the node and nothing more, also where the rule had offered slots before it broke off. A step
that has nothing to fail with gives the node. -/
theorem step_failing {s : Stage σ} {rest : List Value} (hfield : s.registry.HasTextField)
    (hfringe : s.walk.fringe = v :: rest) :
    (∀ e, FailsWith s.walk.prune v s.toScene e →
      (step s).state.walk = ⟨rest, s.walk.prune⟩ ∧
        (∀ detail, e.isOrdinary = true → e.text = .ok detail →
          ∃ kind, s.registry.kindOf v = .ok kind ∧
            (step s).result = .error (.expansion v kind detail (some e)) ∧
            (Fault.expansion v kind detail (some e)).text =
              .ok ("Child rule for " ++ Fault.kindText kind ++ " failed: " ++ detail)) ∧
        (∀ e', e.isOrdinary = true → e.text = .error e' → (step s).result = .error e') ∧
        (e.isOrdinary = false → (step s).result = .error e)) ∧
      ((∀ e, ¬ FailsWith s.walk.prune v s.toScene e) → (step s).result = .ok (some v)) := by
  obtain ⟨kind, hkind⟩ := hfield.kindOf v
  refine ⟨fun e hfails => ?_, fun hnever => ?_⟩
  · obtain ⟨hresult, hwalk⟩ := step_of_fails hfringe hkind ((expand_error_iff hfield).mpr hfails)
    rw [Fault.escape?, Fault.wording] at hresult
    refine ⟨hwalk, fun detail he htext => ⟨kind, hkind, ?_, rfl⟩, fun e' he htext => ?_,
      fun he => ?_⟩
    · rw [hresult, he, htext]
      rfl
    · rw [hresult, he, htext]
      rfl
    · rw [hresult, he]
      rfl
  · rw [step_cons hfringe]
    cases hexpand : (expand s.walk.prune v s.toScene).result with
    | ok slots => rfl
    | error e => exact absurd ((expand_error_iff hfield).mp hexpand) (hnever e)

/-- A rule that offers a name and then breaks off with the fault of a node elsewhere. -/
def breakingOff : Rule σ :=
  .ofFunction "breaking off" fun _ =>
    .ok ⟨[Sample.name], some (.expansion Sample.folded (some "Fold") "lost" none)⟩

/-- The name that was offered is not on the fringe, and the fault names the torn pair. -/
theorem step_failing_breakingOff :
    let fault : Fault := .expansion Sample.folded (some "Fold") "lost" none
    let s : Stage Unit :=
      ⟨⟨{ rules := [("Torn", breakingOff)] }, ()⟩, ⟨[Sample.torn, Sample.halfPair], .absent⟩⟩
    FailsWith s.walk.prune Sample.torn s.toScene fault ∧
      (step s).state.walk.fringe = [Sample.halfPair] ∧
      ∃ kind, s.registry.kindOf Sample.torn = .ok kind ∧
        (step s).result = .error (.expansion Sample.torn kind fault.wording (some fault)) := by
  intro fault s
  have hfield : s.registry.HasTextField := ⟨"type", rfl⟩
  have hrule : s.registry.rule? "Torn" = some breakingOff := rfl
  have hfails : FailsWith s.walk.prune Sample.torn s.toScene fault := .offer rfl rfl hrule rfl
  obtain ⟨hwalk, hordinary, -⟩ := (step_failing hfield rfl).1 fault hfails
  obtain ⟨kind, hkind, hresult, -⟩ := hordinary _ rfl rfl
  exact ⟨hfails, congrArg Walk.fringe hwalk, kind, hkind, hresult⟩

/-- The rule of the torn pair looks for a key that is missing and that has no text. The step names
neither the pair nor the missing key: what is left is that the text could not be made. -/
theorem step_mute :
    let s : Stage Unit :=
      ⟨⟨Sample.failingPairs Sample.mute, ()⟩, ⟨[Sample.torn, Sample.halfPair], .absent⟩⟩
    FailsWith s.walk.prune Sample.torn s.toScene Sample.mute ∧ Sample.mute.isOrdinary = true ∧
      s.registry.kindOf Sample.torn = .ok (some "Torn") ∧
      (step s).result = .error (.notCallable "int") := by
  intro s
  have hkind : s.registry.kindOf Sample.torn = .ok (some "Torn") := rfl
  exact ⟨.rule rfl hkind rfl rfl, rfl, hkind, rfl⟩

end Walk

end RuleWalk
