import RuleWalk.Proofs.Plan.Calls
import RuleWalk.Proofs.Plan.Independence
import RuleWalk.Proofs.Query.Leaves

/-!
# Queries that agree

To count the nodes of a tree, to take its statistic, to look for its leaves and just to list it are
loops of their own, each over a run of its own. Where rules and tests are pure these runs differ in
the states of their callers only. A callback may fail in one of them and not in another; but where
both go on, they go on in the same way (`next_peers`). One thing sets them apart: to be told of
failures a function must count as true, unless the query keeps a record of its own and the function
hangs inside that.

`Gives` is what a run gives until it ends: the nodes, what the test for leaves says of each when it
is given, and the alarms on the way. There is one such list for all runs that begin alike
(`Gives.unique`), and whatever a query returns is read off that list.
-/

namespace RuleWalk

variable {σ : Type}

/-- What the tests say of a node, or how they fail, does not depend on the caller's state. -/
structure Config.HasPureTests (c : Config σ) : Prop where
  keep : c.tests.keep.All Predicate.IsPure
  drop : c.tests.drop.All Predicate.IsPure
  prune : c.tests.prune.All Predicate.IsPure

theorem Config.HasPureTests.admits_isPure {c : Config σ} (hc : c.HasPureTests) (v kind : Value) :
    (c.admits v kind).IsPure := by
  rw [Config.admits]
  cases hfilter : c.filter with
  | given f =>
    have htests : c.tests = f := by rw [Config.tests, hfilter]
    rw [← htests]
    exact Filter.admits_isPure hc.keep hc.drop v kind
  | foreign w => exact fun _ _ => rfl

/-! ## Callers that are told, and callers that are not -/

/-- A warning was logged. -/
def Alarm.isWarning : Alarm → Bool
  | warned _ => true
  | told .. => false

/-- The alarms that are raised with this report: all if it counts as true, and else the warnings. -/
def Hook.passes (r : Hook (Reporter σ)) (a : Alarm) : Bool := r.isSet || a.isWarning

/-- With the report `r` those alarms are raised that `p` lets pass of what is raised with `r'`. -/
structure Hook.Hears (p : Alarm → Bool) (r r' : Hook (Reporter σ)) : Prop where
  told : ∀ v e, (if r.isSet then [Alarm.told v e] else []) =
    (if r'.isSet then [.told v e] else []).filter p
  warned : ∀ message, p (.warned message) = true

theorem Hook.hears_self (r : Hook (Reporter σ)) : Hears r.passes r r := by
  refine ⟨fun v e => ?_, fun message => by simp [passes, Alarm.isWarning]⟩
  cases hset : r.isSet <;> simp [passes, hset]

theorem Hook.hears_wrapped (r : Hook (Reporter σ)) : Hears r.passes r r.wrapped := by
  refine ⟨fun v e => ?_, fun message => by simp [passes, Alarm.isWarning]⟩
  cases r with
  | live f truth => cases truth <;> rfl
  | _ => exact (hears_self _).told v e

/-- The configuration with another report. -/
def Config.reporting (c : Config σ) (r : Hook (Reporter σ)) : Config σ := { c with report := r }

@[simp] theorem Config.report_reporting (c : Config σ) (r : Hook (Reporter σ)) :
    (c.reporting r).report = r := rfl

/-- The configuration of a query that keeps a record of failed expansions. -/
def Config.watching (c : Config σ) : Config σ := c.reporting c.report.wrapped

/-- A node that a run gave, with what the test for leaves says of it at that moment. -/
structure Finding where
  node : Value
  leaf : Except Fault Bool

/-- The test says that it is a leaf. -/
def Finding.isLeaf (x : Finding) : Bool :=
  match x.leaf with
  | .ok b => b
  | .error _ => false

/-- What is drawn to the end is drawn turn by turn. -/
theorem iterate_of_drain {ρ : Type} {next : Act Entry ρ Delivery} {limit : Option Nat} {g : Nat}
    {s : ρ} {items : List Value} (h : (drain next limit g s).result = .ok ⟨items, .stop⟩) :
    (Act.iterate (Drained.turn next limit) g ([], 0) s).result = .ok (.done ⟨items, .stop⟩) ∧
      (drain next limit g s).entries =
        (Act.iterate (Drained.turn next limit) g ([], 0) s).entries := by
  rw [drain, Act.bind_apply] at h ⊢
  rcases hturn : (Act.iterate (Drained.turn next limit) g ([], 0) s).result with e | acc | d <;>
    rw [hturn] at h <;> cases h
  exact ⟨rfl, by simp [Outcome.after]⟩

namespace Run

variable {c : Config σ} {f : Filter σ} {scene : Scene σ} {l : List Value} {s t r : Run σ}
  {v : Value} {xs ys : List Finding} {alarms alarms' : List Alarm} {fuel fuel' g : Nat}
  {p : Alarm → Bool} {report : Hook (Reporter σ)} {α : Type}

/-! ## Runs that differ in their callers -/

/-- Two runs that are the same but for the states of their callers, in scenes that are like
`scene`. -/
structure Peers (f : Filter σ) (scene : Scene σ) (s t : Run σ) : Prop
    extends Twins f scene s t where
  tally : s.tally = t.tally

namespace Peers

theorem symm (h : Peers f scene s t) : Peers f scene t s :=
  ⟨⟨h.right, h.left, h.walk.symm, h.walk ▸ h.prune, h.live.symm⟩, h.tally.symm⟩

theorem trans (h : Peers f scene s t) (h' : Peers f scene t r) : Peers f scene s r :=
  ⟨⟨h.left, h'.right, h.walk.trans h'.walk, h'.prune, h.live.trans h'.live⟩,
    h.tally.trans h'.tally⟩

/-- The callers may do to themselves what they like. -/
theorem update (h : Peers f scene s t) (user user' : σ) (tally : Tally) :
    Peers f scene { s with user, tally } { t with user := user', tally } :=
  ⟨⟨⟨h.left.kindField, h.left.rules⟩, ⟨h.right.kindField, h.right.rules⟩, h.walk, h.prune,
    h.live⟩, rfl⟩

end Peers

/-- Outcomes that are the same but for the states of the callers. Of the alarms of the second, the
first has those that `p` lets pass. -/
structure Attends (p : Alarm → Bool) (f : Filter σ) (scene : Scene σ)
    (o o' : Outcome Entry (Run σ) α) : Prop where
  result : o.result = o'.result
  state : Peers f scene o.state o'.state
  alarms : o.entries.filterMap Entry.alarm? = (o'.entries.filterMap Entry.alarm?).filter p

theorem Attends.after {o o' : Outcome Entry (Run σ) α} (h : Attends p f scene o o')
    {es es' : List Entry}
    (hes : es.filterMap Entry.alarm? = (es'.filterMap Entry.alarm?).filter p) :
    Attends p f scene (o.after es) (o'.after es') := by
  refine ⟨h.result, h.state, ?_⟩
  simp only [Outcome.after, List.filterMap_append, List.filter_append, hes, h.alarms]

theorem offer_eq_ok {b : Beat} (h : (offer c v s).result = .ok b) :
    ∃ kind yields, s.registry.kindOf v = .ok kind ∧
      (c.admits v (kindValue kind) s.user).result = .ok yields ∧
      b = if yields then .yielded v else .passed := by
  cases hkind : s.registry.kindOf v with
  | error e =>
    rw [offer_of_kind_error hkind] at h
    cases h
  | ok kind =>
    have hadmits : (onUser (c.admits v (kindValue kind)) s).result =
        (c.admits v (kindValue kind) s.user).result := rfl
    rcases htold : onUser (c.admits v (kindValue kind)) s with ⟨e | _ | _, s', es⟩ <;>
      rw [htold] at hadmits
    · rw [offer_of_error hkind htold] at h
      cases h
    · rw [offer_of_false hkind htold] at h
      cases h
      exact ⟨kind, false, rfl, hadmits.symm, rfl⟩
    · rw [offer_of_true hkind htold] at h
      dsimp only at h
      generalize (reportProgress c _ _).result = ticked at h
      cases ticked <;> cases h
      exact ⟨kind, true, rfl, hadmits.symm, rfl⟩

/-- Where a node is offered to both callers and neither fails, it is yielded to both or passed over
for both. -/
theorem offer_peers (hc : c.HasPureTests) (h : Peers c.tests scene s t) {b b' : Beat}
    (hb : (offer c v s).result = .ok b) (hb' : (offer c v t).result = .ok b') :
    Attends p c.tests scene (offer c v s) (offer c v t) := by
  obtain ⟨kind, yields, hkind, hadmits, rfl⟩ := offer_eq_ok hb
  obtain ⟨kind', yields', hkind', hadmits', rfl⟩ := offer_eq_ok hb'
  have hkinds : kind = kind' := by
    rw [h.left.kindOf] at hkind
    rw [h.right.kindOf, hkind] at hkind'
    exact Except.ok.inj hkind'
  subst hkinds
  have hyields : yields = yields' := by
    rw [hc.admits_isPure v (kindValue kind) s.user t.user, hadmits'] at hadmits
    exact (Except.ok.inj hadmits).symm
  subst hyields
  obtain ⟨user, processed, hstate, hcount⟩ := offer_state c v s
  obtain ⟨user', processed', hstate', hcount'⟩ := offer_state c v t
  refine ⟨hb.trans hb'.symm, ?_, ?_⟩
  · rw [hstate, hstate', hcount _ hb, hcount' _ hb', h.tally]
    exact h.update user user' _
  · rw [offer_isQuiet c v s, offer_isQuiet c v t]
    rfl

/-- A step is recovered from only if it failed to expand a node, the caller did not fail when it was
told, and failures are skipped. -/
theorem recover_eq_ok {e : Fault} {b : Beat} (h : (recover c e s).result = .ok b) :
    ∃ v kind detail user es, (∃ cause, e = .expansion v kind detail cause) ∧
      es.filterMap Entry.alarm? = (if c.report.isSet then [.told v e] else []) ∧
      recover c e s = (offer c v { s with user, tally := { s.tally with
        incidents := .of v kind detail :: s.tally.incidents } }).after
          (es ++ [.log (.skipping (Fault.expansionText kind detail))]) := by
  cases e with
  | expansion v kind detail cause =>
    let i := Incident.of v kind detail
    obtain ⟨user, huser⟩ := recordFailure_state c i (.expansion v kind detail cause) s
    rcases hrecord : recordFailure c i (.expansion v kind detail cause) s with ⟨e | _, s', es⟩
    · rw [recover_of_error hrecord] at h
      cases h
    · by_cases hpolicy : c.policy = .given .raise
      · rw [recover_of_raise hpolicy hrecord] at h
        cases h
      · rw [hrecord] at huser
        refine ⟨v, kind, detail, user, es, ⟨cause, rfl⟩, recordFailure_alarms hrecord, ?_⟩
        rw [recover_of_skip hpolicy hrecord]
        obtain rfl := huser
        rfl
  | _ => cases h

theorem recover_peers (hc : c.HasPureTests) (hreport : c.report.Hears p report)
    (h : Peers c.tests scene s t) {e : Fault} {b b' : Beat} (hb : (recover c e s).result = .ok b)
    (hb' : (recover (c.reporting report) e t).result = .ok b') :
    Attends p c.tests scene (recover c e s) (recover (c.reporting report) e t) := by
  obtain ⟨v, kind, detail, user, es, ⟨cause, rfl⟩, halarms, hoffer⟩ := recover_eq_ok hb
  obtain ⟨v', kind', detail', user', es', ⟨_, he⟩, halarms', hoffer'⟩ := recover_eq_ok hb'
  cases he
  rw [hoffer] at hb ⊢
  rw [hoffer'] at hb' ⊢
  rw [h.tally] at hb ⊢
  refine (offer_peers hc (h.update user user' _) hb hb').after ?_
  rw [Config.report_reporting] at halarms'
  rw [List.filterMap_append, List.filterMap_append, halarms, halarms', List.filter_append,
    hreport.told]
  simp [Entry.alarm?, hreport.warned]

/-- Both runs take the same node, and the same becomes of it. -/
theorem pop_peers (hc : c.HasPureTests) (hreport : c.report.Hears p report)
    (hrules : scene.registry.AllRules Rule.IsPure) (h : Peers c.tests scene s t) {b b' : Beat}
    (hb : (pop c s).result = .ok b) (hb' : (pop (c.reporting report) t).result = .ok b') :
    Attends p c.tests scene (pop c s) (pop (c.reporting report) t) := by
  obtain ⟨hstep, hwalk⟩ := Walk.step_congr hrules h.left h.right h.walk
    (h.prune ▸ hc.prune.heeded)
  have hquiet (r : Run σ) : (onStage Walk.step r).entries.filterMap Entry.alarm? = [] :=
    Walk.step_hides Entry.alarm?_of_isInquiry r.toStage
  have hpeers : Peers c.tests scene (onStage Walk.step s).state (onStage Walk.step t).state :=
    ⟨⟨(Walk.advance_alike s.toStage).trans h.left, (Walk.advance_alike t.toStage).trans h.right,
      hwalk, (Walk.advance_prune t.toStage).trans h.prune, h.live⟩, h.tally⟩
  rw [pop, Act.attempt_bind, Outcome.after_result] at hb hb'
  rw [pop, pop, Act.attempt_bind, Act.attempt_bind]
  have hresult : (onStage Walk.step s).result = (onStage Walk.step t).result := hstep
  rw [hresult] at hb ⊢
  refine Attends.after ?_ (by rw [hquiet s, hquiet t]; rfl)
  rcases hanswer : (onStage Walk.step t).result with e | _ | v <;> rw [hanswer] at hb hb'
  · exact recover_peers hc hreport hpeers hb hb'
  · exact ⟨rfl, hpeers, rfl⟩
  · exact offer_peers hc hpeers hb hb'

theorem beat_peers (hc : c.HasPureTests) (hreport : c.report.Hears p report)
    (hrules : scene.registry.AllRules Rule.IsPure) (h : Peers c.tests scene s t) {b b' : Beat}
    (hb : (beat c s).result = .ok b) (hb' : (beat (c.reporting report) t).result = .ok b') :
    Attends p c.tests scene (beat c s) (beat (c.reporting report) t) := by
  have hallowed : (c.reporting report).allows t.tally.processed = c.allows s.tally.processed := by
    rw [h.tally]
    rfl
  rcases hallows : c.allows s.tally.processed with e | _ | _
  · rw [beat, Act.get_bind, hallows, Act.ofExcept_error_bind] at hb
    cases hb
  · rw [beat_of_limit hallows, beat_of_limit (hallowed.trans hallows), h.walk, h.tally]
    refine ⟨rfl, h, ?_⟩
    dsimp only
    split <;> rfl
  · rw [beat_of_allows hallows] at hb ⊢
    rw [beat_of_allows (hallowed.trans hallows)] at hb' ⊢
    exact pop_peers hc hreport hrules h hb hb'

/-- Where a request comes to an answer in both runs, it comes to the same, whatever fuel there
was. -/
theorem next_peers (hc : c.HasPureTests) (hreport : c.report.Hears p report)
    (hrules : scene.registry.AllRules Rule.IsPure) (h : Peers c.tests scene s t) {d d' : Delivery}
    (hd : (next c fuel s).result = .ok d)
    (hd' : (next (c.reporting report) fuel' t).result = .ok d') (hne : d ≠ .pending)
    (hne' : d' ≠ .pending) :
    Attends p c.tests scene (next c fuel s) (next (c.reporting report) fuel' t) := by
  cases hlive : s.live with
  | false =>
    rw [next_of_not_live fuel hlive, next_of_not_live fuel' (h.live.symm.trans hlive)]
    exact ⟨rfl, h, rfl⟩
  | true =>
    have hlive' := h.live.symm.trans hlive
    -- On the fuel of one of them: as long as nodes are passed over, both go on.
    induction fuel generalizing s t fuel' with
    | zero =>
      rw [next, if_pos hlive] at hd
      exact absurd (Except.ok.inj hd).symm hne
    | succ fuel ih =>
      cases fuel' with
      | zero =>
        rw [next, if_pos hlive'] at hd'
        exact absurd (Except.ok.inj hd').symm hne'
      | succ fuel' =>
        rcases hs : beat c s with ⟨e | b, s', es⟩
        · rw [next_of_error fuel hlive hs] at hd
          cases hd
        · rcases ht : beat (c.reporting report) t with ⟨e | b', t', es'⟩
          · rw [next_of_error fuel' hlive' ht] at hd'
            cases hd'
          · have hbeat := beat_peers hc hreport hrules h (congrArg Outcome.result hs)
              (congrArg Outcome.result ht)
            rw [hs, ht] at hbeat
            obtain ⟨hresult, hpeers, halarms⟩ := hbeat
            cases hresult
            have hlive₁ : s'.live = true := by
              rw [← hlive, ← beat_live c s, hs]
            have hlive₁' : t'.live = true := hpeers.live.symm.trans hlive₁
            rcases b with w | _ | _
            · rw [next_of_yielded fuel hlive hs, next_of_yielded fuel' hlive' ht]
              exact ⟨rfl, hpeers, halarms⟩
            · rw [next_of_passed fuel hlive hlive₁ hs] at hd ⊢
              rw [next_of_passed fuel' hlive' hlive₁' ht] at hd' ⊢
              exact (ih hpeers hd hd' hlive₁ hlive₁').after halarms
            · rw [next_of_ended fuel hlive hs, next_of_ended fuel' hlive' ht]
              exact ⟨rfl, ⟨⟨hpeers.left, hpeers.right, hpeers.walk, hpeers.prune, rfl⟩,
                hpeers.tally⟩, halarms⟩

/-! ## The test for leaves -/

theorem isLeaf_result_congr (hrules : scene.registry.AllRules Rule.IsPure)
    (h : Peers f scene s t) (v : Value) : (isLeaf v s).result = (isLeaf v t).result := by
  cases hfailed : s.tally.hasFailed v with
  | true => rw [isLeaf_of_failed hfailed, isLeaf_of_failed (h.tally ▸ hfailed)]
  | false =>
    rw [isLeaf_of_not_failed hfailed, isLeaf_of_not_failed (h.tally ▸ hfailed), onScene,
      Act.zoom_result, Act.zoom_result, Scene.isLeaf_result, Scene.isLeaf_result,
      Scene.slotsOf_result_congr h.left hrules, Scene.slotsOf_result_congr h.right hrules]

/-- The test leaves a run as it is, but for the state of its caller. -/
theorem Peers.isLeaf (h : Peers f scene s s) (v : Value) : Peers f scene (isLeaf v s).state s := by
  cases hfailed : s.tally.hasFailed v with
  | true => rwa [isLeaf_of_failed hfailed]
  | false =>
    have halike : (Scene.isLeaf v s.toScene).state.Alike scene := by
      rw [Scene.isLeaf_state]
      exact (Scene.slotsOf_alike v s.toScene).trans h.left
    rw [isLeaf_of_not_failed hfailed]
    exact ⟨⟨halike, h.right, rfl, h.prune, rfl⟩, rfl⟩

theorem isLeaf_isQuiet (v : Value) : (isLeaf v : Act Entry (Run σ) Bool).IsQuiet := by
  intro s
  cases hfailed : s.tally.hasFailed v with
  | true =>
    rw [isLeaf_of_failed hfailed]
    rfl
  | false =>
    have hslots : Act.Hides Entry.alarm? (Scene.isLeaf v : Act Entry (Scene σ) Bool) :=
      Act.Hides.bind ((Scene.slotsOf_hides Entry.alarm?_of_isInquiry v).bind
        fun _ => Act.hides_pure _) fun _ => Act.hides_pure _
    rw [isLeaf_of_not_failed hfailed]
    exact hslots s.toScene

/-! ## What a run gives -/

/-- Request after request, a run gives these nodes, with these alarms on the way, and then it has
ended. Between two requests its nodes may be tested. -/
inductive Gives (c : Config σ) (scene : Scene σ) (fuel : Nat) :
    Run σ → List Finding → List Alarm → Prop
  | stop {s : Run σ} (h : (next c fuel s).result = .ok .stop) :
      Gives c scene fuel s [] ((next c fuel s).entries.filterMap Entry.alarm?)
  | node {s t : Run σ} {v : Value} {xs : List Finding} {alarms : List Alarm}
      (h : (next c fuel s).result = .ok (.node v))
      (ht : Peers c.tests scene t (next c fuel s).state) (hrest : Gives c scene fuel t xs alarms) :
      Gives c scene fuel s (⟨v, (isLeaf v (next c fuel s).state).result⟩ :: xs)
        ((next c fuel s).entries.filterMap Entry.alarm? ++ alarms)

/-- Runs that begin alike and come to their ends give the same, with the alarms that pass. -/
theorem Gives.unique (hc : c.HasPureTests) (hreport : c.report.Hears p report)
    (hrules : scene.registry.AllRules Rule.IsPure) (h : Gives c scene fuel s xs alarms)
    (h' : Gives (c.reporting report) scene fuel' t ys alarms') (hst : Peers c.tests scene s t) :
    xs = ys ∧ alarms = alarms'.filter p := by
  induction h generalizing t ys alarms' with
  | stop hs =>
    cases h' with
    | stop ht => exact ⟨rfl, (next_peers hc hreport hrules hst hs ht (by simp) (by simp)).alarms⟩
    | node ht _ _ =>
      have hsame := (next_peers hc hreport hrules hst hs ht (by simp) (by simp)).result
      cases hs.symm.trans (hsame.trans ht)
  | node hs hrun _ ih =>
    cases h' with
    | stop ht =>
      have hsame := (next_peers hc hreport hrules hst hs ht (by simp) (by simp)).result
      cases hs.symm.trans (hsame.trans ht)
    | node ht hrun' hrest' =>
      obtain ⟨hsame, hpeers, halarms⟩ := next_peers hc hreport hrules hst hs ht (by simp) (by simp)
      cases hs.symm.trans (hsame.trans ht)
      obtain ⟨rfl, rfl⟩ := ih hrest' (hrun.trans (hpeers.trans hrun'.symm))
      rw [isLeaf_result_congr hrules hpeers, halarms, List.filter_append]
      exact ⟨rfl, rfl⟩

/-- Where the report is the same, so are the alarms. -/
theorem Gives.eq (hc : c.HasPureTests) (hrules : scene.registry.AllRules Rule.IsPure)
    (h : Gives c scene fuel s xs alarms) (h' : Gives c scene fuel' t ys alarms')
    (hst : Peers c.tests scene s t) : xs = ys ∧ alarms = alarms' := by
  have hall : c.report.Hears (fun _ => true) c.report := ⟨fun v e => by simp, fun _ => rfl⟩
  obtain ⟨rfl, rfl⟩ := h.unique hc hall hrules h' hst
  exact ⟨rfl, List.filter_true _⟩

/-- So there is one list for all of them, whichever of them come to their ends. A run that is
watched raises all alarms, and any other one those that its own report lets pass. -/
theorem exists_gives (hc : c.HasPureTests) (hrules : scene.registry.AllRules Rule.IsPure)
    (begins : Run σ → Prop) (hbegins : ∀ s t, begins s → begins t → Peers c.tests scene s t) :
    ∃ xs alarms, ∀ fuel s ys alarms', begins s →
      (Gives c scene fuel s ys alarms' → ys = xs ∧ alarms' = alarms.filter c.report.passes) ∧
      (Gives c.watching scene fuel s ys alarms' → ys = xs ∧ alarms' = alarms) := by
  have hwatching : c.watching.HasPureTests := ⟨hc.keep, hc.drop, hc.prune⟩
  by_cases hwatched : ∃ fuel s xs alarms, begins s ∧ Gives c.watching scene fuel s xs alarms
  · obtain ⟨fuel, s, xs, alarms, hs, hgives⟩ := hwatched
    refine ⟨xs, alarms, fun fuel' t ys alarms' ht => ⟨fun h => ?_, fun h => ?_⟩⟩
    · exact h.unique hc (Hook.hears_wrapped _) hrules hgives (hbegins t s ht hs)
    · exact h.eq hwatching hrules hgives (hbegins t s ht hs)
  · by_cases hplain : ∃ fuel s xs alarms, begins s ∧ Gives c scene fuel s xs alarms
    · obtain ⟨fuel, s, xs, alarms, hs, hgives⟩ := hplain
      refine ⟨xs, alarms, fun fuel' t ys alarms' ht => ⟨fun h => ?_, fun h => ?_⟩⟩
      · exact h.unique hc (Hook.hears_self _) hrules hgives (hbegins t s ht hs)
      · exact absurd ⟨fuel', t, ys, alarms', ht, h⟩ hwatched
    · refine ⟨[], [], fun fuel s ys alarms' hs => ⟨fun h => ?_, fun h => ?_⟩⟩
      · exact absurd ⟨fuel, s, ys, alarms', hs, h⟩ hplain
      · exact absurd ⟨fuel, s, ys, alarms', hs, h⟩ hwatched

/-! ## Nodes ahead -/

theorem Peers.follows {prune : Hook (Predicate σ)} (h : Peers f scene s t)
    (ht : Walk.Follows prune scene l t.toStage) : Walk.Follows prune scene l s.toStage :=
  ⟨h.left, h.walk ▸ ht.prune_eq, h.walk ▸ ht.ahead⟩

/-- A run that goes on is its own peer. -/
theorem peers_of_follows (h : Walk.Follows f.prune.heeded scene l s.toStage) : Peers f scene s s :=
  ⟨⟨h.alike, h.alike, rfl, h.prune_eq, rfl⟩, rfl⟩

/-- A beat that does not end the run takes the first of the nodes that lie ahead. -/
theorem beat_follows (hc : c.HasPureTests) (hrules : scene.registry.AllRules Rule.IsPure)
    (h : Walk.Follows c.tests.prune.heeded scene l s.toStage) {b : Beat}
    (hb : (beat c s).result = .ok b) (hended : b ≠ .ended) :
    ∃ v l', l = v :: l' ∧ Walk.Follows c.tests.prune.heeded scene l' (beat c s).state.toStage := by
  rcases hallows : c.allows s.tally.processed with e | _ | _
  · rw [beat, Act.get_bind, hallows, Act.ofExcept_error_bind] at hb
    cases hb
  · rw [beat_of_limit hallows] at hb
    exact absurd (Except.ok.inj hb).symm hended
  · rw [beat_of_allows hallows] at hb ⊢
    obtain ⟨user, tally, hstate, -⟩ := pop_state c s
    obtain ⟨halike, hprune, hahead⟩ := h.advance hc.prune.heeded hrules
    cases l with
    | nil =>
      have hdone := (pop_ended_iff c s).2 (h.isDone_iff.2 rfl)
      exact absurd (Except.ok.inj (hb.symm.trans hdone)) hended
    | cons v l' =>
      rw [hstate]
      exact ⟨v, l', rfl, ⟨halike.kindField, halike.rules⟩, hprune, hahead⟩

/-- With fuel for all nodes ahead, a request comes to an answer, and if that is a node then fewer of
them lie ahead. -/
theorem next_follows (hc : c.HasPureTests) (hrules : scene.registry.AllRules Rule.IsPure)
    (h : Walk.Follows c.tests.prune.heeded scene l s.toStage) (hfuel : l.length < fuel) :
    (next c fuel s).result ≠ .ok .pending ∧ ∀ v, (next c fuel s).result = .ok (.node v) →
      ∃ l', Walk.Follows c.tests.prune.heeded scene l' (next c fuel s).state.toStage ∧
        l'.length < l.length := by
  cases hlive : s.live with
  | false =>
    rw [next_of_not_live fuel hlive]
    exact ⟨by simp, by simp⟩
  | true =>
    induction fuel generalizing l s with
    | zero => exact absurd hfuel (Nat.not_lt_zero _)
    | succ fuel ih =>
      have hbeat (b : Beat) := beat_follows (b := b) hc hrules h
      have hlive' := (beat_live c s).trans hlive
      rcases hs : beat c s with ⟨e | w | _ | _, s', es⟩ <;> rw [hs] at hbeat hlive'
      · rw [next_of_error fuel hlive hs]
        exact ⟨by simp, by simp⟩
      · rw [next_of_yielded fuel hlive hs]
        obtain ⟨v, l', rfl, hfollows⟩ := hbeat _ rfl (by simp)
        exact ⟨by simp, fun _ _ => ⟨l', hfollows, Nat.lt_succ_self _⟩⟩
      · rw [next_of_passed fuel hlive hlive' hs]
        obtain ⟨v, l', rfl, hfollows⟩ := hbeat _ rfl (by simp)
        obtain ⟨hanswer, hnode⟩ := ih hfollows (Nat.lt_of_succ_lt_succ hfuel) hlive'
        refine ⟨hanswer, fun w hw => ?_⟩
        obtain ⟨l'', hfollows', hless⟩ := hnode w hw
        exact ⟨l'', hfollows', Nat.lt_succ_of_lt hless⟩
      · rw [next_of_ended fuel hlive hs]
        exact ⟨by simp, by simp⟩

/-! ## Loops with one request in each turn -/

section Loops

variable {β γ : Type}

/-- One turn of a loop, when `b` was gathered before: a node that is given is gathered as well and
the run is left as it is, or the run has ended and the loop is done. -/
inductive Turns (c : Config σ) (scene : Scene σ) (fuel : Nat) (gather : β → Finding → β)
    (finish : β → γ) (b : β) (s : Run σ) : Outcome Entry (Run σ) (Act.Turn β γ) → Prop
  | again {v : Value} {t : Run σ} {es : List Entry} (h : (next c fuel s).result = .ok (.node v))
      (ht : Peers c.tests scene t (next c fuel s).state)
      (hes : es.filterMap Entry.alarm? = (next c fuel s).entries.filterMap Entry.alarm?) :
      Turns c scene fuel gather finish b s
        ⟨.ok (.again (gather b ⟨v, (isLeaf v (next c fuel s).state).result⟩)), t, es⟩
  | done (h : (next c fuel s).result = .ok .stop) :
      Turns c scene fuel gather finish b s
        ⟨.ok (.done (finish b)), (next c fuel s).state, (next c fuel s).entries⟩

/-- Every turn of the loop is such a turn, unless it fails, or is done with something that is not
complete. -/
def Gathers (c : Config σ) (scene : Scene σ) (fuel : Nat) (complete : γ → Prop)
    (gather : β → Finding → β) (finish : β → γ)
    (body : β → Act Entry (Run σ) (Act.Turn β γ)) : Prop :=
  ∀ b s turn, Peers c.tests scene s s → (next c fuel s).result ≠ .ok .pending →
    (body b s).result = .ok turn → (∀ d, turn = .done d → complete d) →
      Turns c scene fuel gather finish b s (body b s)

/-- Such a loop gathers all that the run gives. -/
theorem Gathers.iterate {complete : γ → Prop} {gather : β → Finding → β} {finish : β → γ}
    {body : β → Act Entry (Run σ) (Act.Turn β γ)}
    (hbody : Gathers c scene fuel complete gather finish body) (hc : c.HasPureTests)
    (hrules : scene.registry.AllRules Rule.IsPure)
    (h : Walk.Follows c.tests.prune.heeded scene l s.toStage) (hfuel : l.length < fuel)
    (hg : l.length < g) {b : β} {turn : Act.Turn β γ}
    (hturn : (Act.iterate body g b s).result = .ok turn)
    (hcomplete : ∀ d, turn = .done d → complete d) :
    ∃ xs, Gives c scene fuel s xs ((Act.iterate body g b s).entries.filterMap Entry.alarm?) ∧
      turn = .done (finish (xs.foldl gather b)) ∧
      (Act.iterate body g b s).state.toScene.Alike scene := by
  -- On the turns: each leaves fewer nodes ahead.
  induction g generalizing l s b with
  | zero => exact absurd hg (Nat.not_lt_zero _)
  | succ g ih =>
    obtain ⟨hanswer, hless⟩ := next_follows hc hrules h hfuel
    have hself := peers_of_follows h
    rw [Act.iterate_succ, Act.bind_apply] at hturn ⊢
    have hone := hbody b s
    rcases hresult : (body b s).result with e | b' | d <;> rw [hresult] at hturn
    · cases hturn
    · specialize hone _ hself hanswer hresult (by simp)
      generalize body b s = o at *
      cases hone with
      | again hnode ht hes =>
        cases hresult
        obtain ⟨l', hfollows, hl'⟩ := hless _ hnode
        obtain ⟨xs, hgives, hfolded, halike⟩ :=
          ih (ht.follows hfollows) (by omega) (by omega) hturn
        refine ⟨_ :: xs, ?_, hfolded, halike⟩
        dsimp only
        rw [Outcome.after, List.filterMap_append, hes]
        exact .node hnode ht hgives
      | done => cases hresult
    · cases hturn
      specialize hone _ hself hanswer hresult hcomplete
      generalize body b s = o at *
      cases hone with
      | again => cases hresult
      | done hstop =>
        cases hresult
        have hattends :=
          next_peers hc (Hook.hears_self _) hrules hself hstop hstop (by simp) (by simp)
        have halike := hattends.state.left
        refine ⟨[], ?_, rfl, halike⟩
        simpa [Outcome.after] using Gives.stop hstop

end Loops

/-- A node that was given leaves a run that is its own peer. -/
theorem Peers.next (hc : c.HasPureTests) (hrules : scene.registry.AllRules Rule.IsPure)
    (h : Peers c.tests scene s s) (hnode : (next c fuel s).result = .ok (.node v)) :
    Peers c.tests scene (next c fuel s).state (next c fuel s).state :=
  (next_peers hc (Hook.hears_self _) hrules h hnode hnode (by simp) (by simp)).state

/-! ## Listing, counting and taking the statistic -/

theorem turn_gathers (hc : c.HasPureTests) (hrules : scene.registry.AllRules Rule.IsPure) :
    Gathers c scene fuel (fun d => d.ending = .stop)
      (fun acc x => (x.node :: acc.1, acc.2 + 1)) (fun acc => ⟨acc.1.reverse, .stop⟩)
      (Drained.turn (next c fuel) none) := by
  rintro ⟨xs, k⟩ s turn hself hanswer hresult hcomplete
  rw [Drained.turn_of_ne _ xs (Option.some_ne_none k).symm] at hresult ⊢
  cases hresult
  rcases hnext : (next c fuel s).result with e | v | _ | _
  · rw [hnext] at hcomplete
    cases hcomplete _ rfl
  · exact .again hnext (hself.next hc hrules hnext) rfl
  · exact .done hnext
  · exact absurd hnext hanswer

theorem countTurn_gathers (hc : c.HasPureTests) (hrules : scene.registry.AllRules Rule.IsPure) :
    Gathers c scene fuel (fun _ => True) (fun n _ => n + 1) id (countTurn c fuel) := by
  intro n s turn hself hanswer hresult _
  rw [countTurn, Act.bind_apply] at hresult ⊢
  rcases hnext : (next c fuel s).result with e | v | _ | _
  · rw [hnext] at hresult
    cases hresult
  · exact .again hnext (hself.next hc hrules hnext) (by simp)
  · simpa [Outcome.after] using .done hnext
  · exact absurd hnext hanswer

/-- The statistic counts a node by its kind and by the answer of the test for leaves. -/
theorem censusTurn_gathers (hc : c.HasPureTests) (hrules : scene.registry.AllRules Rule.IsPure) :
    Gathers c scene fuel (fun _ => True)
      (fun (n : Census) x => n.add (kindAt scene x.node) x.isLeaf) id (censusTurn c fuel) := by
  intro n s turn hself hanswer hresult _
  rw [censusTurn, Act.bind_apply] at hresult ⊢
  rcases hnext : (next c fuel s).result with e | v | _ | _ <;> rw [hnext] at hresult
  · cases hresult
  · have hgiven := hself.next hc hrules hnext
    dsimp only at hresult ⊢
    rw [Outcome.after_result, Act.get_bind] at hresult
    rw [Act.get_bind]
    cases hkind : (next c fuel s).state.registry.kindOf v with
    | error e =>
      rw [hkind, Act.ofExcept_error_bind] at hresult
      cases hresult
    | ok kind =>
      have hkindAt : kindAt scene v = kind := by
        rw [kindAt, ← hgiven.left.kindOf v, hkind]
        rfl
      rw [hkind, Act.ofExcept_ok_bind, Act.bind_apply] at hresult
      rw [Act.ofExcept_ok_bind, Act.bind_apply]
      cases hleaf : (isLeaf v (next c fuel s).state).result with
      | error e =>
        rw [hleaf] at hresult
        cases hresult
      | ok leaf =>
        have hadd : n.add kind leaf = n.add (kindAt scene v)
            (Finding.isLeaf ⟨v, (isLeaf v (next c fuel s).state).result⟩) := by
          rw [hkindAt, hleaf]
          rfl
        dsimp only
        rw [hadd]
        refine .again hnext (hgiven.isLeaf v) ?_
        simp [Outcome.after, List.filterMap_append, isLeaf_isQuiet v (next c fuel s).state]
  · simpa [Outcome.after] using .done hnext
  · exact absurd hnext hanswer

/-- A listing holds the nodes that the run gives. -/
theorem drain_next_gives (hc : c.HasPureTests) (hrules : scene.registry.AllRules Rule.IsPure)
    (h : Walk.Follows c.tests.prune.heeded scene l s.toStage) (hfuel : l.length < fuel)
    (hg : l.length < g) {items : List Value}
    (hitems : (drain (next c fuel) none g s).result = .ok ⟨items, .stop⟩) :
    ∃ xs, Gives c scene fuel s xs
        ((drain (next c fuel) none g s).entries.filterMap Entry.alarm?) ∧
      items = xs.map Finding.node := by
  have hfold (xs : List Finding) (acc : List Value × Nat) :
      (xs.foldl (fun acc x => (x.node :: acc.1, acc.2 + 1)) acc).1 =
        (xs.map Finding.node).reverse ++ acc.1 := by
    induction xs generalizing acc with
    | nil => rfl
    | cons x xs ih => simp [ih]
  obtain ⟨hturn, hentries⟩ := iterate_of_drain hitems
  obtain ⟨xs, hgives, hdone, -⟩ := (turn_gathers hc hrules).iterate hc hrules h hfuel hg hturn
    (by rintro d ⟨⟩; rfl)
  rw [hentries]
  refine ⟨xs, hgives, ?_⟩
  rw [hfold] at hdone
  cases hdone
  simp

theorem count_gives (hc : c.HasPureTests) (hrules : scene.registry.AllRules Rule.IsPure)
    (h : Walk.Follows c.tests.prune.heeded scene l s.toStage) (hfuel : l.length < fuel) {n : Nat}
    (hn : (count c fuel s).result = .ok n) :
    ∃ xs, Gives c scene fuel s xs ((count c fuel s).entries.filterMap Entry.alarm?) ∧
      n = xs.length := by
  have hfold (xs : List Finding) (n : Nat) : xs.foldl (fun n _ => n + 1) n = n + xs.length := by
    induction xs generalizing n with
    | nil => rfl
    | cons x xs ih => rw [List.foldl_cons, ih, List.length_cons, Nat.add_assoc, Nat.add_comm 1]
  rw [count, Act.bind_apply] at hn ⊢
  cases hturn : (Act.iterate (countTurn c fuel) fuel 0 s).result with
  | error e =>
    rw [hturn] at hn
    cases hn
  | ok turn =>
    obtain ⟨xs, hgives, hdone, -⟩ := (countTurn_gathers hc hrules).iterate hc hrules h hfuel hfuel
      hturn fun _ _ => trivial
    rw [hturn, hdone] at hn
    cases hn
    rw [hdone]
    exact ⟨xs, by simpa [Outcome.after] using hgives, (hfold xs 0).trans (Nat.zero_add _)⟩

theorem census_gives (hc : c.HasPureTests) (hrules : scene.registry.AllRules Rule.IsPure)
    (h : Walk.Follows c.tests.prune.heeded scene l s.toStage) (hfuel : l.length < fuel) {n : Census}
    (hn : (census c fuel s).result = .ok n) :
    ∃ xs, Gives c scene fuel s xs ((census c fuel s).entries.filterMap Entry.alarm?) ∧
      n = xs.foldl (fun n x => n.add (kindAt scene x.node) x.isLeaf) {} ∧
      (census c fuel s).state.toScene.Alike scene := by
  rw [census, Act.bind_apply] at hn ⊢
  cases hturn : (Act.iterate (censusTurn c fuel) fuel {} s).result with
  | error e =>
    rw [hturn] at hn
    cases hn
  | ok turn =>
    obtain ⟨xs, hgives, hdone, halike⟩ := (censusTurn_gathers hc hrules).iterate hc hrules h hfuel
      hfuel hturn fun _ _ => trivial
    rw [hturn, hdone] at hn
    cases hn
    rw [hdone]
    exact ⟨xs, by simpa [Outcome.after] using hgives, rfl, halike⟩

/-! ## Looking for leaves -/

/-- A turn tests the node that is given, or ends as the request did. -/
theorem leafTurn_eq_ok {turn : Act.Turn Unit Delivery}
    (h : (leafTurn c fuel () s).result = .ok turn) :
    (∃ v leaf, (next c fuel s).result = .ok (.node v) ∧
      (isLeaf v (next c fuel s).state).result = .ok leaf ∧
      leafTurn c fuel () s = ⟨.ok (if leaf then .done (.node v) else .again ()),
        (isLeaf v (next c fuel s).state).state,
        (next c fuel s).entries ++ (isLeaf v (next c fuel s).state).entries⟩) ∨
    ∃ d, (next c fuel s).result = .ok d ∧ (∀ v, d ≠ .node v) ∧
      leafTurn c fuel () s = ⟨.ok (.done d), (next c fuel s).state, (next c fuel s).entries⟩ := by
  rw [leafTurn, Act.bind_apply] at h ⊢
  rcases hnext : (next c fuel s).result with e | v | _ | _ <;> rw [hnext] at h
  · cases h
  · left
    dsimp only at h ⊢
    rw [Outcome.after_result, Act.bind_apply] at h
    rw [Act.bind_apply]
    cases hleaf : (isLeaf v (next c fuel s).state).result with
    | error e =>
      rw [hleaf] at h
      cases h
    | ok leaf => exact ⟨v, leaf, rfl, hleaf, by cases leaf <;> simp [Outcome.after]⟩
  · exact .inr ⟨_, rfl, by simp, by simp [Outcome.after]⟩
  · exact .inr ⟨_, rfl, by simp, by simp [Outcome.after]⟩

/-- The turns of one request for a leaf take nodes that are none, up to a leaf or to the end. -/
theorem iterate_leafTurn_gives (hc : c.HasPureTests) (hrules : scene.registry.AllRules Rule.IsPure)
    (h : Peers c.tests scene s s) {d : Delivery}
    (hd : (Act.iterate (leafTurn c fuel) g () s).result = .ok (.done d)) :
    let o := Act.iterate (leafTurn c fuel) g () s
    ∃ xs, (∀ x ∈ xs, Finding.isLeaf x = false) ∧
      (d = .stop → Gives c scene fuel s xs (o.entries.filterMap Entry.alarm?)) ∧
      ∀ v, d = .node v → Peers c.tests scene o.state o.state ∧
        ∀ ys alarms, Gives c scene fuel o.state ys alarms →
          Gives c scene fuel s (xs ++ ⟨v, .ok true⟩ :: ys)
            (o.entries.filterMap Entry.alarm? ++ alarms) := by
  induction g generalizing s with
  | zero => cases hd
  | succ g ih =>
    rw [Act.iterate_succ] at hd ⊢
    cases hturn : (leafTurn c fuel () s).result with
    | error e =>
      rw [Act.bind_apply, hturn] at hd
      cases hd
    | ok turn =>
      obtain ⟨v, leaf, hnode, hleaf, hresult⟩ | ⟨d', hanswer, hnode, hresult⟩ :=
        leafTurn_eq_ok hturn
      · have hgiven := h.next hc hrules hnode
        have htested := hgiven.isLeaf v
        have hself := htested.trans htested.symm
        have hquiet := isLeaf_isQuiet v (next c fuel s).state
        have hgives {ys : List Finding} {alarms : List Alarm}
            (hrest : Gives c scene fuel (isLeaf v (next c fuel s).state).state ys alarms) :=
          Gives.node hnode htested hrest
        rw [hleaf] at hgives
        rw [Act.bind_of_ok hresult] at hd ⊢
        cases leaf with
        | true =>
          cases hd
          refine ⟨[], by simp, by simp, ?_⟩
          rintro v ⟨⟩
          refine ⟨hself, fun ys alarms hrest => ?_⟩
          simpa [Outcome.after, hquiet] using hgives hrest
        | false =>
          obtain ⟨xs, hxs, hstop, hleaves⟩ := ih hself hd
          refine ⟨⟨v, .ok false⟩ :: xs, ?_, fun hd => ?_, fun w hw => ?_⟩
          · rintro x (_ | ⟨_, hx⟩)
            · rfl
            · exact hxs x hx
          · simpa [Outcome.after, hquiet] using hgives (hstop hd)
          · obtain ⟨hself', hrest⟩ := hleaves w hw
            refine ⟨hself', fun ys alarms hys => ?_⟩
            simpa [Outcome.after, hquiet] using hgives (hrest ys alarms hys)
      · rw [Act.bind_of_ok hresult] at hd ⊢
        cases hd
        refine ⟨[], by simp, ?_, fun v hv => absurd hv (hnode v)⟩
        rintro rfl
        simpa [Outcome.after] using Gives.stop hanswer

/-- What is drawn from the leaves are those among the nodes that the run gives. -/
theorem iterate_nextLeaf_gives (hc : c.HasPureTests) (hrules : scene.registry.AllRules Rule.IsPure)
    (h : Peers c.tests scene s s) {items drawn : List Value} {k : Nat}
    (hitems : (Act.iterate (Drained.turn (nextLeaf c fuel) none) g (drawn, k) s).result =
      .ok (.done ⟨items, .stop⟩)) :
    ∃ xs, Gives c scene fuel s xs ((Act.iterate (Drained.turn (nextLeaf c fuel) none) g (drawn, k)
        s).entries.filterMap Entry.alarm?) ∧
      items = drawn.reverse ++ (xs.filter Finding.isLeaf).map Finding.node := by
  induction g generalizing s drawn k with
  | zero => cases hitems
  | succ g ih =>
    have hne : none ≠ some k := (Option.some_ne_none k).symm
    rcases hturns : Act.iterate (leafTurn c fuel) fuel () s with ⟨e | _ | d, s', es⟩
    · have hleaf : nextLeaf c fuel s = ⟨.error e.leaving, { s' with live := false }, es⟩ := by
        rw [nextLeaf, hturns]
      rw [Drained.iterate_done hne (by rw [hleaf]; rfl)] at hitems
      cases hitems
    · have hleaf : nextLeaf c fuel s = ⟨.ok .pending, s', es⟩ := by rw [nextLeaf, hturns]
      rw [Drained.iterate_done hne (by rw [hleaf]; rfl)] at hitems
      cases hitems
    · have hleaf : nextLeaf c fuel s = ⟨.ok d, s', es⟩ := by rw [nextLeaf, hturns]
      obtain ⟨xs, hxs, hstop, hrest⟩ :=
        iterate_leafTurn_gives hc hrules h (congrArg Outcome.result hturns)
      have hnone : xs.filter Finding.isLeaf = [] := List.filter_eq_nil_iff.2 fun x hx => by
        rw [hxs x hx]
        exact Bool.false_ne_true
      rw [hturns] at hstop hrest
      rcases d with v | _ | _
      · obtain ⟨hself, hgives⟩ := hrest v rfl
        rw [Drained.iterate_again hne (by rw [hleaf]; rfl), hleaf] at hitems ⊢
        obtain ⟨ys, hys, rfl⟩ := ih hself hitems
        refine ⟨_, by simpa [Outcome.after] using hgives ys _ hys, ?_⟩
        rw [List.filter_append, hnone, List.nil_append, List.filter_cons_of_pos rfl]
        simp
      · rw [Drained.iterate_done hne (by rw [hleaf]; rfl), hleaf] at hitems ⊢
        cases hitems
        exact ⟨xs, hstop rfl, by rw [hnone]; simp⟩
      · rw [Drained.iterate_done hne (by rw [hleaf]; rfl)] at hitems
        cases hitems

/-- The leaves that are drawn are those among the nodes that the run gives. -/
theorem drain_nextLeaf_gives (hc : c.HasPureTests) (hrules : scene.registry.AllRules Rule.IsPure)
    (h : Peers c.tests scene s s) {items : List Value}
    (hitems : (drain (nextLeaf c fuel) none g s).result = .ok ⟨items, .stop⟩) :
    ∃ xs, Gives c scene fuel s xs
        ((drain (nextLeaf c fuel) none g s).entries.filterMap Entry.alarm?) ∧
      items = (xs.filter Finding.isLeaf).map Finding.node := by
  obtain ⟨hturn, hentries⟩ := iterate_of_drain hitems
  rw [hentries]
  exact iterate_nextLeaf_gives hc hrules h hturn

end Run

end RuleWalk
