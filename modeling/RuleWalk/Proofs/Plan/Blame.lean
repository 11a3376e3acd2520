import RuleWalk.Proofs.Plan.Independence
import RuleWalk.Proofs.Plan.Unfailing
import RuleWalk.Proofs.Walk.Failing

/-!
# Whose fault it is

Once a configuration is accepted, a run fails by one of the caller's functions: the last call on
record ended with the fault of the run, or the fault is that of a failed expansion and the call that
made it fail is on record. Functions may do what they like here, and rules, tally and the caller's
state may change between two requests.

There are two exceptions. Where a call makes an expansion fail with a failure that has no text, the
run fails with what is met in asking for the text, which no function of the caller need have raised.
And the callback for progress is not looked at when a configuration is checked, so a plain value can
stand in its place. `next_of_inert` says what such a value does: nothing at all, until a node is
found whose number is due. That node is lost, and the run ends.
-/

namespace RuleWalk

/-! ## Explanations -/

namespace Act

variable {ω ρ τ α β : Type} {Q : List ω → Fault → Prop}

/-- Every fault is explained by what the activity put on record. -/
def Explained (Q : List ω → Fault → Prop) (m : Act ω ρ α) : Prop :=
  ∀ s e, (m s).result = .error e → Q (m s).entries e

theorem explained_of_ok {m : Act ω ρ α} (h : m.NeverFails) : Explained Q m := by
  intro s e he
  obtain ⟨a, ha⟩ := h s
  cases ha.symm.trans he

theorem explained_pure (a : α) : Explained Q (Pure.pure a : Act ω ρ α) :=
  explained_of_ok fun _ => ⟨a, rfl⟩

/-- An explanation stands whatever was put on record before. -/
theorem Explained.bind (hQ : ∀ es es' e, Q es' e → Q (es ++ es') e) {m : Act ω ρ α}
    {f : α → Act ω ρ β} (hm : Explained Q m) (hf : ∀ a, Explained Q (f a)) :
    Explained Q (m >>= f) := by
  intro s e h
  rw [bind_apply] at h ⊢
  cases hfirst : (m s).result with
  | error e' =>
    rw [hfirst] at h
    cases h
    exact hm s e hfirst
  | ok a =>
    rw [hfirst] at h
    exact hQ _ _ _ (hf a _ e h)

theorem Explained.zoom {m : Act ω τ α} (hm : Explained Q m) (view : ρ → τ) (update : ρ → τ → ρ) :
    Explained Q (zoom view update m) := fun s => hm (view s)

end Act

variable {σ φ α : Type}

/-- The entry is of a call of the function that hangs there, which counts as true, and in some state
of the caller this call ends with the fault `e`. -/
def Hook.EndsWith (h : Hook φ) (role : Role) (subject : Value) (use : φ → Act Remark σ α)
    (e : Fault) (entry : Entry) : Prop :=
  ∃ f u, h = .live f ∧ (use f u).result = .error e ∧
    entry = .call role subject (use f u).entries

/-- Where no plain value hangs, only a function is called. -/
theorem Hook.call_explained {h : Hook φ} (hsound : h.isSound = true) (hset : h.isSet = true)
    (role : Role) (subject : Value) (use : φ → Act Remark σ α) :
    Act.Explained (fun es e => ∃ entry, es.getLast? = some entry ∧
      h.EndsWith role subject use e entry) (h.call role subject use) := by
  intro u e he
  cases h with
  | absent => cases hset
  | inert v => cases hsound
  | live f truth =>
    obtain rfl : truth = true := hset
    exact ⟨_, rfl, f, u, rfl, he, rfl⟩

/-- The entry is of a call that is made to expand `v`, of the test or of its rule, and the call
ends with the fault `e`. -/
inductive Filter.Botches (f : Filter σ) (registry : Registry σ) (v : Value) (e : Fault) :
    Entry → Prop
  | test {entry : Entry} (h : f.prune.EndsWith .prune v (fun p => p v) e entry) :
      Botches f registry v e entry
  | rule {kind : String} {rule : Rule σ} {u : σ} (hkind : registry.kindOf v = .ok (some kind))
      (hrule : registry.rule? kind = some rule)
      (hfault : (rule.expand v u).result.bind Offer.collect = .error e) :
      Botches f registry v e (.call (.rule kind) v (rule.expand v u).entries)

/-- The entry is of a call of one of the caller's functions, and the call ends with `e`. -/
inductive Config.Breaks (c : Config σ) (f : Filter σ) (registry : Registry σ) (e : Fault) :
    Entry → Prop
  | expand {v : Value} {entry : Entry} (h : f.Botches registry v e entry) :
      Breaks c f registry e entry
  | drop {v : Value} {entry : Entry} (h : f.drop.EndsWith .drop v (fun p => p v) e entry) :
      Breaks c f registry e entry
  | keep {v : Value} {entry : Entry} (h : f.keep.EndsWith .keep v (fun p => p v) e entry) :
      Breaks c f registry e entry
  | report {v : Value} {told : Fault} {entry : Entry}
      (h : c.report.EndsWith (.report told) v (fun r => r v told) e entry) :
      Breaks c f registry e entry
  | progress {count : Nat} {entry : Entry}
      (h : c.progress.EndsWith .progress (.int count) (fun p => p count) e entry) :
      Breaks c f registry e entry

/-- What can end a run that put `es` on record. -/
inductive Config.Blames (c : Config σ) (f : Filter σ) (registry : Registry σ) (es : List Entry) :
    Fault → Prop
  /-- The last call failed. -/
  | call {e : Fault} {entry : Entry} (hlast : es.getLast? = some entry)
      (hcall : c.Breaks f registry e entry) : Blames c f registry es e
  /-- An expansion failed, where such failures are raised. -/
  | expansion {v : Value} {kind : Option String} {cause : Fault} {detail : String} {entry : Entry}
      (hpolicy : c.policy = .given .raise) (hkind : registry.kindOf v = .ok kind)
      (hmem : entry ∈ es) (hcause : f.Botches registry v cause entry)
      (hordinary : cause.isOrdinary = true) (htext : cause.text = .ok detail) :
      Blames c f registry es (.expansion v kind detail (some cause))
  /-- The last call made an expansion fail, and the text of its fault was asked for in vain. -/
  | text {v : Value} {cause e : Fault} {entry : Entry} (hlast : es.getLast? = some entry)
      (hcause : f.Botches registry v cause entry) (hordinary : cause.isOrdinary = true)
      (htext : cause.text = .error e) : Blames c f registry es e
  /-- A plain value was to be told of progress. -/
  | progress {w : Value} {count : Nat} (hprogress : c.progress = .inert w)
      (hset : w.truthy = true) (htick : c.isTick count = true) :
      Blames c f registry es (.notCallable w.typeName)

/-- The incident is the failed expansion of a node, and the call that made it fail is in `es`. -/
def Filter.Causes (f : Filter σ) (registry : Registry σ) (es : List Entry) (i : Incident) : Prop :=
  ∃ v kind cause detail entry, registry.kindOf v = .ok kind ∧ entry ∈ es ∧
    f.Botches registry v cause entry ∧ cause.isOrdinary = true ∧ cause.text = .ok detail ∧
    i = ⟨v, kind, Fault.expansionText kind detail⟩

theorem Config.Blames.append {c : Config σ} {f : Filter σ} {registry : Registry σ}
    (es es' : List Entry) (e : Fault) (h : c.Blames f registry es' e) :
    c.Blames f registry (es ++ es') e := by
  cases h with
  | call hlast hcall => exact .call (by rw [List.getLast?_append, hlast]; rfl) hcall
  | expansion hpolicy hkind hmem hcause hordinary htext =>
    exact .expansion hpolicy hkind (List.mem_append_right es hmem) hcause hordinary htext
  | text hlast hcause hordinary htext =>
    exact .text (by rw [List.getLast?_append, hlast]; rfl) hcause hordinary htext
  | progress hprogress hset htick => exact .progress hprogress hset htick

theorem Filter.Causes.mono {f : Filter σ} {registry : Registry σ} {es es' : List Entry}
    (hsub : ∀ entry ∈ es, entry ∈ es') {i : Incident} (h : f.Causes registry es i) :
    f.Causes registry es' i := by
  obtain ⟨v, kind, cause, detail, entry, hkind, hmem, hrest⟩ := h
  exact ⟨v, kind, cause, detail, entry, hkind, hsub entry hmem, hrest⟩

/-! ## Accepted configurations -/

/-- What an accepted configuration assures: nothing but functions hangs where the walk and its
faults are handled, and neither kinds nor limit can fail. -/
structure Config.Accepted (c : Config σ) (f : Filter σ) : Prop where
  filter : c.filter = .given f
  kinds : ∀ kind, ∃ b, f.kinds.contains (Run.kindValue kind) = .ok b
  keep : f.keep.isSound = true
  drop : f.drop.isSound = true
  prune : f.prune.isSound = true
  report : c.report.isSound = true
  allows : ∀ count, ∃ b, c.allows count = .ok b

/-- Whether a kind is in a set can always be said. -/
theorem Kinds.contains_of_set {kinds : Kinds} (h : ∀ v, kinds ≠ .within v) (kind : Option String) :
    ∃ b, kinds.contains (Run.kindValue kind) = .ok b := by
  cases kinds with
  | all => exact ⟨true, rfl⟩
  | oneOf vs => cases kind <;> exact ⟨_, rfl⟩
  | within v => exact absurd rfl (h v)

/-- A limit that can be compared with zero can be compared with any count. -/
theorem Config.allows_of_limitProblems {c : Config σ} {m : Value} (hlimit : c.limit = .given m)
    (h : c.limitProblems = .ok []) (count : Nat) : ∃ b, c.allows count = .ok b := by
  rw [limitProblems, limitValue, hlimit] at h
  rw [allows, hlimit]
  cases m with
  | null | bool _ | int _ | float _ => exact ⟨_, rfl⟩
  | _ => cases h

theorem Config.accepted_of_check {c : Config σ} {f : Filter σ} {m : Value}
    (hfilter : c.filter = .given f) (hkinds : ∀ v, f.kinds ≠ .within v)
    (hlimit : c.limit = .given m) (hcheck : c.check = .ok ()) : c.Accepted f := by
  obtain ⟨-, hlimits, -, -, -, hhooks⟩ := (check_eq_ok_iff c).mp hcheck
  obtain ⟨hkeep, hdrop, hprune, hreport⟩ := (hookProblems_iff hfilter).mp hhooks
  exact ⟨hfilter, Kinds.contains_of_set hkinds, hkeep, hdrop, hprune, hreport,
    allows_of_limitProblems hlimit hlimits⟩

/-! ## Expansions -/

/-- The call of the rule is all that is put on record for a kind that has one. -/
theorem Scene.slotsOf_entries {v : Value} {s : Scene σ} {kind : String} {rule : Rule σ}
    (hkind : s.registry.kindOf v = .ok (some kind)) (hrule : s.registry.rule? kind = some rule) :
    (slotsOf v s).entries = [.call (.rule kind) v (rule.expand v s.user).entries] := by
  have hasked : consult (.rule kind) v (rule.expand v) s =
      ⟨(rule.expand v s.user).result, { s with user := (rule.expand v s.user).state },
        [.call (.rule kind) v (rule.expand v s.user).entries]⟩ := rfl
  rw [slotsOf, hkind]
  simp only [hrule, Act.bind_apply, hasked]
  rcases (rule.expand v s.user).result with e | ⟨slots, _ | e⟩ <;> rfl

namespace Walk

variable {f : Filter σ} {v : Value} {e : Fault}

/-- The call that makes an expansion fail is the last one on record. -/
theorem FailsWith.botches {s : Scene σ} (hsound : f.prune.isSound = true)
    (h : FailsWith f.prune.heeded v s e) :
    ∃ entry, (expand f.prune.heeded v s).entries.getLast? = some entry ∧
      f.Botches s.registry v e entry := by
  -- The rule is asked after the test, whose entries stand before its own.
  have hasked {kind : String} {rule : Rule σ}
      (hpruned : (pruned f.prune.heeded v s).result = .ok false)
      (hkind : s.registry.kindOf v = .ok (some kind)) (hrule : s.registry.rule? kind = some rule)
      (hfault : (rule.expand v (pruned f.prune.heeded v s).state.user).result.bind Offer.collect =
        .error e) :
      ∃ entry, (expand f.prune.heeded v s).entries.getLast? = some entry ∧
        f.Botches s.registry v e entry := by
    have halike := pruned_alike f.prune.heeded v s
    have hslots := Scene.slotsOf_entries ((halike.kindOf v).trans hkind)
      ((halike.rule? kind).trans hrule)
    refine ⟨_, ?_, .rule hkind hrule hfault⟩
    rw [expand, Act.bind_apply, hpruned]
    simp [Outcome.after, hslots]
  cases h with
  | test hprune hfault =>
    refine ⟨.call .prune v _, ?_, .test ⟨_, s.user, (Hook.eq_of_heeded hprune).1, hfault, rfl⟩⟩
    have hpruned := pruned_error_iff.mpr (.inl ⟨_, _, hprune, hfault⟩)
    rw [expand, Act.bind_apply, hpruned, pruned, hprune]
    rfl
  | inert hprune =>
    have hsound' := Hook.isSound_heeded hsound
    rw [hprune] at hsound'
    cases hsound'
  | rule hpruned hkind hrule hfault =>
    exact hasked hpruned hkind hrule (Offer.bind_collect_eq_error_iff.mpr (.inl hfault))
  | offer hpruned hkind hrule hoffer =>
    exact hasked hpruned hkind hrule (Offer.bind_collect_eq_error_iff.mpr (.inr ⟨_, hoffer⟩))

end Walk

namespace Run

variable {c : Config σ} {f : Filter σ} {scene : Scene σ} {s : Run σ} {v : Value}

/-- The rules of a run are those of `scene`, and it is pruned by the test of the filter. -/
structure Ready (f : Filter σ) (scene : Scene σ) (s : Run σ) : Prop where
  alike : s.toScene.Alike scene
  prune_eq : s.walk.prune = f.prune.heeded
  field : scene.registry.HasTextField

/-- Neither the caller's state nor the tally matters. -/
theorem Ready.congr (hs : Ready f scene s) (t : Stage σ) (tally : Tally)
    (halike : t.toScene.Alike s.toScene) (hprune : t.walk.prune = s.walk.prune) :
    Ready f scene { s with toStage := t, tally } :=
  ⟨halike.trans hs.alike, hprune.trans hs.prune_eq, hs.field⟩

/-- A step that fails does so by a call for the node it took. -/
theorem Ready.step_error (hs : Ready f scene s) (hsound : f.prune.isSound = true) {e : Fault}
    (he : (Walk.step s.toStage).result = .error e) :
    ∃ v kind cause entry, scene.registry.kindOf v = .ok kind ∧
      (Walk.step s.toStage).entries.getLast? = some entry ∧
      f.Botches scene.registry v cause entry ∧
      e = cause.escape?.getD (.expansion v kind cause.wording (some cause)) := by
  cases hfringe : s.walk.fringe with
  | nil => rw [Walk.step_nil hfringe] at he; cases he
  | cons v rest =>
    obtain ⟨kind, hkind⟩ := hs.field.kindOf v
    rw [Walk.step_cons hfringe] at he ⊢
    rw [hs.prune_eq] at he ⊢
    cases hexpand : (Walk.expand f.prune.heeded v s.toScene).result with
    | ok slots => rw [hexpand] at he; cases he
    | error cause =>
      have hfield := hs.alike.hasTextField hs.field
      have hfails := (Walk.expand_error_iff hfield).mp hexpand
      obtain ⟨entry, hlast, hbotched⟩ := hfails.botches hsound
      rw [hexpand] at he
      refine ⟨v, kind, cause, entry, hkind, hlast, ?_, ?_⟩
      · cases hbotched with
        | test h => exact .test h
        | rule hkind hrule hfault =>
          exact .rule ((hs.alike.kindOf v).symm.trans hkind)
            ((hs.alike.rule? _).symm.trans hrule) hfault
      · have hkind' := ((Walk.expand_alike f.prune.heeded v s.toScene).trans hs.alike).kindOf v
        rw [← Walk.stepFault_of_kindOf (hkind'.trans hkind)]
        exact (Except.error.inj he).symm

end Run

/-! ## Beats -/

/-- The tests of an accepted configuration fail by their own calls. -/
theorem Config.Accepted.admits_explained {c : Config σ} {f : Filter σ} (hc : c.Accepted f)
    (registry : Registry σ) (v : Value) (kind : Option String) :
    Act.Explained (c.Blames f registry) (c.admits v (Run.kindValue kind)) := by
  have htest (h : Hook (Predicate σ)) (hsound : h.isSound = true) (role : Role) (fallback : Bool)
      (hbreaks : ∀ e entry, h.EndsWith role v (fun p => p v) e entry →
        c.Breaks f registry e entry) :
      Act.Explained (c.Blames f registry)
        (if h.isSet then h.call role v (fun p => p v) else pure fallback : Act Entry σ Bool) := by
    split
    · next hset =>
      intro u e he
      obtain ⟨entry, hlast, hends⟩ := Hook.call_explained hsound hset role v _ u e he
      exact .call hlast (hbreaks e entry hends)
    · exact Act.explained_pure fallback
  rw [admits, hc.filter]
  refine Act.Explained.bind Blames.append (htest f.drop hc.drop .drop false fun _ _ => .drop) ?_
  intro dropped
  cases dropped with
  | true => exact Act.explained_pure false
  | false =>
    obtain ⟨b, hb⟩ := hc.kinds kind
    rw [hb]
    refine Act.Explained.bind Blames.append (Act.explained_pure b) ?_
    intro named
    cases named with
    | true => exact htest f.keep hc.keep .keep true fun _ _ => .keep
    | false => exact Act.explained_pure false

namespace Run

variable {c : Config σ} {f : Filter σ} {scene : Scene σ} {s : Run σ} {v : Value}

/-- The callback for progress fails by its call, or because it is none. -/
theorem reportProgress_explained (c : Config σ) (f : Filter σ) (registry : Registry σ)
    (count : Nat) : Act.Explained (c.Blames f registry) (reportProgress c count) := by
  unfold reportProgress
  split
  · next hdue =>
    obtain ⟨hset, htick⟩ := Bool.and_eq_true_iff.mp hdue
    intro s e he
    cases hprogress : c.progress with
    | absent =>
      rw [hprogress] at hset
      cases hset
    | inert w =>
      rw [hprogress] at he hset
      cases he
      exact .progress hprogress hset htick
    | live p truth =>
      rw [hprogress] at he hset
      obtain rfl : truth = true := hset
      exact .call rfl (.progress ⟨p, s.user, hprogress, he, rfl⟩)
  · exact Act.explained_pure ()

theorem recordFailure_explained (hc : c.Accepted f) (registry : Registry σ) (i : Incident)
    (told : Fault) : Act.Explained (c.Blames f registry) (recordFailure c i told) := by
  refine Act.Explained.bind Config.Blames.append (Act.explained_of_ok fun _ => ⟨(), rfl⟩) ?_
  intro _
  split
  · next hset =>
    refine Act.Explained.zoom ?_ _ _
    intro u e he
    obtain ⟨entry, hlast, hends⟩ := Hook.call_explained hc.report hset _ _ _ u e he
    exact .call hlast (.report hends)
  · exact Act.explained_pure ()

/-- What is to be said of an activity that found the incidents `old`: its fault is explained, and
every incident is an old one or was caused by a call on record. -/
structure Accounted (c : Config σ) (f : Filter σ) (registry : Registry σ) (old : List Incident)
    (o : Outcome Entry (Run σ) α) : Prop where
  fault : ∀ e, o.result = .error e → c.Blames f registry o.entries e
  incident : ∀ i ∈ o.state.tally.incidents, i ∈ old ∨ f.Causes registry o.entries i

theorem Accounted.after {registry : Registry σ} {old : List Incident}
    {o : Outcome Entry (Run σ) α} (h : Accounted c f registry old o) (es : List Entry) :
    Accounted c f registry old (o.after es) := by
  refine ⟨fun e he => (h.fault e he).append es o.entries e, fun i hi => ?_⟩
  exact (h.incident i hi).imp_right (Filter.Causes.mono fun _ => List.mem_append_right es)

namespace Ready

/-- An offered node fails by a test or by the callback, and adds no incident. -/
theorem offer_accounted (hs : Ready f scene s) (hc : c.Accepted f) (v : Value) :
    Accounted c f scene.registry s.tally.incidents (offer c v s) := by
  constructor
  · intro e he
    obtain ⟨kind, hkind⟩ := hs.field.kindOf v
    rw [← hs.alike.kindOf] at hkind
    have hadmits := (hc.admits_explained scene.registry v kind).zoom (fun s : Run σ => s.user)
      (fun s u => { s with user := u }) s
    rcases htold : onUser (c.admits v (kindValue kind)) s with ⟨e' | _ | _, s', es⟩
    · rw [offer_of_error hkind htold] at he ⊢
      cases he
      have hentries : (onUser (c.admits v (kindValue kind)) s).entries = es := by rw [htold]
      exact hentries ▸ hadmits e (congrArg Outcome.result htold)
    · rw [offer_of_false hkind htold] at he
      cases he
    · rw [offer_of_true hkind htold] at he ⊢
      dsimp only at he ⊢
      apply Config.Blames.append
      apply reportProgress_explained
      generalize (reportProgress c _ _).result = r at he
      cases r <;> cases he
      rfl
  · intro i hi
    obtain ⟨user, processed, hstate, -⟩ := offer_state c v s
    rw [hstate] at hi
    exact .inl hi

/-- Recovering from an expansion that a call in `es` made fail. -/
theorem recover_accounted (hs : Ready f scene s) (hc : c.Accepted f) {kind : Option String}
    {cause : Fault} {detail : String} {es : List Entry} {entry : Entry}
    (hkind : scene.registry.kindOf v = .ok kind) (hmem : entry ∈ es)
    (hcause : f.Botches scene.registry v cause entry) (hordinary : cause.isOrdinary = true)
    (htext : cause.text = .ok detail) :
    Accounted c f scene.registry s.tally.incidents
      ((recover c (.expansion v kind detail (some cause)) s).after es) := by
  let i : Incident := .of v kind detail
  have hrecorded (es' : List Entry) : f.Causes scene.registry (es ++ es') i :=
    ⟨v, kind, cause, detail, entry, hkind, List.mem_append_left es' hmem, hcause, hordinary, htext,
      rfl⟩
  obtain ⟨user, hstate⟩ := recordFailure_state c i (.expansion v kind detail (some cause)) s
  have hexplained :=
    recordFailure_explained hc scene.registry i (.expansion v kind detail (some cause)) s
  -- The incident is on record before the caller hears of it, so it is there in all three cases.
  have hincident (es' : List Entry) {s' : Run σ}
      (hs' : s'.tally.incidents = i :: s.tally.incidents) : ∀ j ∈ s'.tally.incidents,
      j ∈ s.tally.incidents ∨ f.Causes scene.registry (es ++ es') j := by
    intro j hj
    rw [hs'] at hj
    rcases List.mem_cons.mp hj with rfl | hj
    · exact .inr (hrecorded es')
    · exact .inl hj
  rcases hreport : recordFailure c i (.expansion v kind detail (some cause)) s with
    ⟨e | _, s', es'⟩ <;>
    rw [hreport] at hstate hexplained <;> dsimp only at hstate <;>
    have htally : s'.tally.incidents = i :: s.tally.incidents := by
      rw [hstate]
  · rw [recover_of_error hreport]
    refine ⟨fun e' he' => ?_, hincident es' htally⟩
    cases he'
    exact (hexplained e rfl).append es es' e
  · by_cases hpolicy : c.policy = .given .raise
    · rw [recover_of_raise hpolicy hreport]
      refine ⟨fun e' he' => ?_, hincident es' htally⟩
      cases he'
      exact .expansion hpolicy hkind (List.mem_append_left es' hmem) hcause hordinary htext
    · have hs' : Ready f scene s' := hstate ▸ hs.congr { s.toStage with user } _ ⟨rfl, rfl⟩ rfl
      have hoffer := hs'.offer_accounted hc v
      rw [recover_of_skip hpolicy hreport, Outcome.after_after]
      refine ⟨(hoffer.after _).fault, fun i hi => ?_⟩
      rcases hoffer.incident i hi with hold | hnew
      · rw [Outcome.after, List.append_assoc]
        exact hincident _ htally i hold
      · exact .inr (hnew.mono fun _ => List.mem_append_right _)

/-- Taking a node: what the step of the walk cannot answer for is asked of the offer. -/
theorem pop_accounted (hs : Ready f scene s) (hc : c.Accepted f) :
    Accounted c f scene.registry s.tally.incidents (pop c s) := by
  have hnext : Ready f scene (onStage Walk.step s).state :=
    hs.congr _ s.tally (Walk.advance_alike s.toStage) (Walk.advance_prune s.toStage)
  rw [pop, Act.attempt_bind]
  rcases hstep : (onStage Walk.step s).result with e | _ | v
  · obtain ⟨v, kind, cause, entry, hkind, hlast, hcause, he⟩ := hs.step_error hc.prune hstep
    have hmem : entry ∈ (onStage Walk.step s).entries := List.mem_of_getLast? hlast
    -- What is not announced passes the plan, and the last call has to answer for it.
    have hescaped (hescape : cause.escape? = some e)
        (hblames : c.Blames f scene.registry (onStage Walk.step s).entries e) :
        Accounted c f scene.registry s.tally.incidents
          ((recover c e (onStage Walk.step s).state).after (onStage Walk.step s).entries) := by
      rw [recover_of_isExpansion (Fault.passes_of_escape? hescape).isExpansion]
      refine ⟨fun e' he' => ?_, fun i hi => .inl hi⟩
      cases he'
      simpa [Outcome.after] using hblames
    cases hordinary : cause.isOrdinary with
    | true =>
      cases htext : cause.text with
      | ok detail =>
        simp only [Fault.escape?, hordinary, if_true, htext, Fault.wording] at he
        subst he
        exact hnext.recover_accounted hc hkind hmem hcause hordinary htext
      | error e' =>
        have hescape : cause.escape? = some e' := by simp [Fault.escape?, hordinary, htext]
        rw [hescape] at he
        subst he
        exact hescaped hescape (.text hlast hcause hordinary htext)
    | false =>
      have hescape : cause.escape? = some cause := by simp [Fault.escape?, hordinary]
      rw [hescape] at he
      subst he
      exact hescaped hescape (.call hlast (.expand hcause))
  · exact ⟨by rintro _ ⟨⟩, fun i hi => .inl hi⟩
  · exact (hnext.offer_accounted hc v).after _

theorem beat_accounted (hs : Ready f scene s) (hc : c.Accepted f) :
    Accounted c f scene.registry s.tally.incidents (beat c s) := by
  obtain ⟨allowed, hallows⟩ := hc.allows s.tally.processed
  cases allowed with
  | true =>
    rw [beat_of_allows hallows]
    exact hs.pop_accounted hc
  | false =>
    rw [beat_of_limit hallows]
    exact ⟨by rintro _ ⟨⟩, fun i hi => .inl hi⟩

theorem beat (hs : Ready f scene s) (c : Config σ) : Ready f scene (beat c s).state := by
  rcases hallows : c.allows s.tally.processed with e | _ | _
  · rw [Run.beat, Act.get_bind, hallows, Act.ofExcept_error_bind]
    exact hs
  · rw [beat_of_limit hallows]
    exact hs
  · obtain ⟨user, tally, hstate, -⟩ := pop_state c s
    rw [beat_of_allows hallows, hstate]
    have halike := Walk.advance_alike s.toStage
    exact hs.congr _ tally ⟨halike.kindField, halike.rules⟩ (Walk.advance_prune s.toStage)

/-- A request goes from one beat to the next as long as nodes are passed over. -/
theorem next (hs : Ready f scene s) (hc : c.Accepted f) (fuel : Nat) :
    Ready f scene (next c fuel s).state ∧
      (∀ e, (next c fuel s).result = .error e →
        ∃ fault, e = fault.leaving ∧ c.Blames f scene.registry (next c fuel s).entries fault) ∧
      ∀ i ∈ (next c fuel s).state.tally.incidents,
        i ∈ s.tally.incidents ∨ f.Causes scene.registry (next c fuel s).entries i := by
  induction fuel generalizing s with
  | zero =>
    rw [Run.next, Act.iterate_zero]
    cases s.live <;> exact ⟨hs, by rintro _ ⟨⟩, fun i hi => .inl hi⟩
  | succ fuel ih =>
    cases hlive : s.live with
    | false =>
      rw [next_of_not_live _ hlive]
      exact ⟨hs, by rintro _ ⟨⟩, fun i hi => .inl hi⟩
    | true =>
      have haccounted := hs.beat_accounted hc
      have hs' := hs.beat c
      have hlive' := beat_live c s
      rcases h : Run.beat c s with ⟨e | v | _ | _, s', es⟩ <;> rw [h] at haccounted hs' hlive'
      · rw [next_of_error fuel hlive h]
        refine ⟨⟨hs'.alike, hs'.prune_eq, hs'.field⟩, fun e' he' => ?_, haccounted.incident⟩
        cases he'
        exact ⟨e, rfl, haccounted.fault e rfl⟩
      · rw [next_of_yielded fuel hlive h]
        exact ⟨hs', by rintro _ ⟨⟩, haccounted.incident⟩
      · rw [next_of_passed fuel hlive (hlive'.trans hlive) h]
        obtain ⟨hready, hfault, hincident⟩ := ih hs'
        refine ⟨hready, fun e he => ?_, fun i hi => ?_⟩
        · obtain ⟨fault, rfl, hblames⟩ := hfault e he
          exact ⟨fault, rfl, hblames.append es _ fault⟩
        · rcases hincident i hi with hpassed | hcaused
          · exact (haccounted.incident i hpassed).imp_right
              (Filter.Causes.mono fun _ => List.mem_append_left _)
          · exact .inr (hcaused.mono fun _ => List.mem_append_right es)
      · rw [next_of_ended fuel hlive h]
        exact ⟨⟨hs'.alike, hs'.prune_eq, hs'.field⟩, by rintro _ ⟨⟩, haccounted.incident⟩

end Ready

/-! ## Runs -/

/-- The states that a run can be in. It goes on by requests; between two of them the caller's state,
the rules and the tally of the plan may change in any way. -/
inductive Reached (c : Config σ) : Run σ → Prop
  | start {scene : Scene σ} {root : Value} {s : Run σ} (h : start c scene root = .ok s) :
      Reached c s
  | next {s : Run σ} (h : Reached c s) (fuel : Nat) : Reached c (next c fuel s).state
  | meanwhile {s : Run σ} (h : Reached c s) (scene : Scene σ) (tally : Tally)
      (hfield : scene.registry.kindField = s.registry.kindField) :
      Reached c { s with toScene := scene, tally }

theorem Reached.ready (hc : c.Accepted f) (h : Reached c s) : Ready f s.toScene s := by
  induction h with
  | start h =>
    obtain ⟨prune, kind, hprune, hkind, rfl⟩ := eq_of_start h
    cases hprune.symm.trans (Config.prune_eq hc.filter)
    exact ⟨.refl _, rfl, Registry.hasTextField_of_kindOf hkind⟩
  | next h fuel ih =>
    have hnext := (ih.next hc fuel).1
    exact ⟨.refl _, hnext.prune_eq, hnext.alike.hasTextField ih.field⟩
  | meanwhile h scene tally hfield ih =>
    obtain ⟨field, htext⟩ := ih.field
    exact ⟨.refl _, ih.prune_eq, field, hfield.trans htext⟩

end Run

/-! ## A plain value for progress -/

/-- The configuration without a callback for progress. -/
def Config.untold (c : Config σ) : Config σ := { c with progress := .absent }

namespace Run

variable {c : Config σ} {f : Filter σ} {s : Run σ} {w : Value}

/-- Whether a node was found whose number is due, where the plain value `w` is to be told. -/
def isLost (c : Config σ) (w : Value) (weight : α → Nat) (o : Outcome Entry (Run σ) α) : Bool :=
  o.result.toOption.elim 0 weight != 0 && (w.truthy && c.isTick o.state.tally.processed)

/-- The outcome, with a fault in the place of a node that is lost. -/
def lose (c : Config σ) (w : Value) (weight : α → Nat) (o : Outcome Entry (Run σ) α) :
    Outcome Entry (Run σ) α :=
  if isLost c w weight o then { o with result := .error (.notCallable w.typeName) } else o

theorem lose_after (weight : α → Nat) (o : Outcome Entry (Run σ) α) (es : List Entry) :
    lose c w weight (o.after es) = (lose c w weight o).after es := by
  rw [lose, lose]
  have hlost : isLost c w weight (o.after es) = isLost c w weight o := rfl
  rw [hlost]
  split <;> rfl

theorem reportProgress_of_inert (hprogress : c.progress = .inert w) (count : Nat) (s : Run σ) :
    reportProgress c count s =
      if w.truthy && c.isTick count then ⟨.error (.notCallable w.typeName), s, []⟩
      else ⟨.ok (), s, []⟩ := by
  have hset : c.progress.isSet = w.truthy := by rw [hprogress]; rfl
  rw [reportProgress, hset, hprogress]
  by_cases hdue : (w.truthy && c.isTick count) = true
  · rw [if_pos hdue, if_pos hdue]
    rfl
  · rw [if_neg hdue, if_neg hdue]
    rfl

theorem offer_of_inert (hprogress : c.progress = .inert w) (v : Value) (s : Run σ) :
    offer c v s = lose c w Beat.count (offer c.untold v s) := by
  cases hkind : s.registry.kindOf v with
  | error e =>
    rw [offer_of_kind_error hkind, offer_of_kind_error hkind]
    rfl
  | ok kind =>
    rcases htold : onUser (c.admits v (kindValue kind)) s with ⟨e | _ | _, s', es⟩
    · rw [offer_of_error hkind htold, offer_of_error (c := c.untold) hkind htold]
      rfl
    · rw [offer_of_false hkind htold, offer_of_false (c := c.untold) hkind htold]
      rfl
    · rw [offer_of_true hkind htold, offer_of_true (c := c.untold) hkind htold]
      generalize ht : ({ s' with tally := _ } : Run σ) = t
      have hcount : t.tally.processed = s.tally.processed + 1 := by rw [← ht]
      have huntold : reportProgress c.untold (s.tally.processed + 1) t = ⟨.ok (), t, []⟩ := rfl
      have hlose : lose c w Beat.count ⟨.ok (.yielded v), t, es ++ []⟩ =
          if w.truthy && c.isTick t.tally.processed then
            ⟨.error (.notCallable w.typeName), t, es ++ []⟩ else ⟨.ok (.yielded v), t, es ++ []⟩ :=
        rfl
      rw [huntold, reportProgress_of_inert hprogress, ← hcount]
      refine Eq.trans ?_ hlose.symm
      by_cases hdue : (w.truthy && c.isTick t.tally.processed) = true
      · simp only [if_pos hdue]
        rfl
      · simp only [if_neg hdue]
        rfl

theorem recover_of_inert (hprogress : c.progress = .inert w) (e : Fault) (s : Run σ) :
    recover c e s = lose c w Beat.count (recover c.untold e s) := by
  cases e with
  | expansion v kind detail cause =>
    rcases hreport : recordFailure c (.of v kind detail) (.expansion v kind detail cause) s with
      ⟨e | _, s', es⟩
    · rw [recover_of_error hreport, recover_of_error (c := c.untold) hreport]
      rfl
    · by_cases hpolicy : c.policy = .given .raise
      · rw [recover_of_raise hpolicy hreport, recover_of_raise (c := c.untold) hpolicy hreport]
        rfl
      · rw [recover_of_skip hpolicy hreport, recover_of_skip (c := c.untold) hpolicy hreport,
          offer_of_inert hprogress, lose_after]
  | _ => rfl

theorem beat_of_inert (hprogress : c.progress = .inert w) (s : Run σ) :
    beat c s = lose c w Beat.count (beat c.untold s) := by
  rcases hallows : c.allows s.tally.processed with e | _ | _
  · rw [beat, beat, Act.get_bind, Act.get_bind, hallows]
    have hallows' : c.untold.allows s.tally.processed = .error e := hallows
    rw [hallows']
    rfl
  · rw [beat_of_limit hallows, beat_of_limit (c := c.untold) hallows]
    rfl
  · rw [beat_of_allows hallows, beat_of_allows (c := c.untold) hallows, pop, pop, Act.attempt_bind,
      Act.attempt_bind, lose_after]
    rcases (onStage Walk.step s).result with e | _ | v
    · exact congrArg _ (recover_of_inert hprogress e _)
    · rfl
    · exact congrArg _ (offer_of_inert hprogress v _)

/-- Where a plain value is to be told of progress, a request does what it does without it, but a
node whose number is due is lost, and the run ends with a fault that is nobody's. -/
theorem next_of_inert (hprogress : c.progress = .inert w) (fuel : Nat) (s : Run σ) :
    next c fuel s =
      let o := next c.untold fuel s
      if isLost c w Delivery.count o then
        ⟨.error (.notCallable w.typeName), { o.state with live := false }, o.entries⟩
      else o := by
  induction fuel generalizing s with
  | zero =>
    rw [next, next, Act.iterate_zero, Act.iterate_zero]
    cases s.live <;> rfl
  | succ fuel ih =>
    cases hlive : s.live with
    | false =>
      rw [next_of_not_live _ hlive, next_of_not_live _ hlive]
      rfl
    | true =>
      have hbeat := beat_of_inert hprogress s
      have hlive' := beat_live c.untold s
      rcases h : beat c.untold s with ⟨e | v | _ | _, s', es⟩ <;> rw [h] at hbeat hlive'
      · rw [next_of_error fuel hlive hbeat, next_of_error fuel hlive h]
        rfl
      · rw [next_of_yielded fuel hlive h]
        have hlost : isLost c w Delivery.count ⟨.ok (.node v), s', es⟩ =
          isLost c w Beat.count ⟨.ok (.yielded v), s', es⟩ := rfl
        dsimp only
        rw [hlost]
        rw [lose] at hbeat
        split at hbeat
        · next hdue =>
          rw [next_of_error fuel hlive hbeat, if_pos hdue]
          rfl
        · next hdue => rw [next_of_yielded fuel hlive hbeat, if_neg hdue]
      · rw [next_of_passed fuel hlive (hlive'.trans hlive) h,
          next_of_passed fuel hlive (hlive'.trans hlive) hbeat, ih s']
        dsimp only
        have hlost : isLost c w Delivery.count ((next c.untold fuel s').after es) =
          isLost c w Delivery.count (next c.untold fuel s') := rfl
        rw [hlost]
        split <;> rfl
      · rw [next_of_ended fuel hlive hbeat, next_of_ended fuel hlive h]
        rfl

/-- Once its configuration is accepted, a run fails by the last call on record or by an expansion
that a call on record made fail, and its incidents are such expansions too. If the failure by which
the last call made an expansion fail has no text, the run fails with what was met in asking for it.
The one thing that can fail without a call is a plain value that counts as true where the callback
for progress should be: requests then go as without it, except that each node whose number is due is
lost. -/
theorem next_blames {m : Value} (hfilter : c.filter = .given f) (hkinds : ∀ v, f.kinds ≠ .within v)
    (hlimit : c.limit = .given m) (hcheck : c.check = .ok ()) (hs : Reached c s) (fuel : Nat) :
    (∀ e, (next c fuel s).result = .error e →
      ∃ fault, e = fault.leaving ∧ c.Blames f s.registry (next c fuel s).entries fault) ∧
    (∀ i ∈ (next c fuel s).state.tally.incidents,
      i ∈ s.tally.incidents ∨ f.Causes s.registry (next c fuel s).entries i) ∧
    ∀ w, c.progress = .inert w →
      next c fuel s =
        let o := next c.untold fuel s
        if isLost c w Delivery.count o then
          ⟨.error (.notCallable w.typeName), { o.state with live := false }, o.entries⟩
        else o := by
  have hc := Config.accepted_of_check hfilter hkinds hlimit hcheck
  obtain ⟨-, hfault, hincident⟩ := (hs.ready hc).next hc fuel
  exact ⟨hfault, hincident, fun w hprogress => next_of_inert hprogress fuel s⟩

/-- Pairs are walked under a number as callback for progress, to be told of every second node. The
rule fails at the root, before anything is due. -/
theorem next_blames_flaky :
    let c : Config Nat := { progress := .inert (.int 5), interval := .int 2 }
    let s : Run Nat := { toScene := ⟨Sample.flakyPairs 0, 0⟩, walk := ⟨[Sample.pairTree], .absent⟩ }
    let lost : Fault :=
      .expansion Sample.pairTree (some "Pair") "flaky" (some (.raised .value "flaky"))
    c.check = .ok () ∧ Reached c s ∧ (next c 1 s).result = .error lost ∧
      ∃ fault, lost = fault.leaving ∧ c.Blames {} s.registry (next c 1 s).entries fault := by
  intro c s lost
  have hcheck : c.check = .ok () := rfl
  have hlost : (next c 1 s).result = .error lost := rfl
  have hstart : start c ⟨Sample.flakyPairs 0, 0⟩ Sample.pairTree = .ok s := rfl
  have hkinds (v : Value) : ({} : Filter Nat).kinds ≠ .within v := by rintro ⟨⟩
  obtain ⟨hfault, -, -⟩ := next_blames rfl hkinds rfl hcheck (.start hstart) 1
  exact ⟨hcheck, .start hstart, hlost, hfault lost hlost⟩

/-- A number is accepted as callback for progress and called at the first node, though no function
of the caller was called at all. -/
theorem next_calls_number :
    let c : Config Unit := { progress := .inert (.int 5), interval := .int 1 }
    c.check = .ok () ∧
      ∃ s, start c ⟨{}, ()⟩ Sample.name = .ok s ∧
        (next c 1 s).result = .error (.notCallable "int") ∧
        (next c 1 s).entries = [.log (.unknownKind "Name")] := by
  exact ⟨rfl, _, rfl, rfl, rfl⟩

end Run

end RuleWalk
