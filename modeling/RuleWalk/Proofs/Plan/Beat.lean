import RuleWalk.Plan
import RuleWalk.Proofs.Fault
import RuleWalk.Proofs.Walk.Step

/-!
# One beat of a run

A beat first asks the limit. If that allows another node, it takes the next node of the walk and
offers it, and this part does not look at the limit any more. Only a yielded node is counted.

The lemmas `offer_of_…` and `recover_of_…` say what each of the two parts does, one for each way in
which the caller's functions can end. `pop_state` sums up what a beat can change: the walk goes on
by one step, and else only the caller's state and the tally are touched.
-/

namespace RuleWalk

@[simp] theorem Incident.of_node (v : Value) (kind : Option String) (detail : String) :
    (Incident.of v kind detail).node = v := rfl

/-- How many nodes a beat yields. -/
def Beat.count : Beat → Nat
  | yielded _ => 1
  | _ => 0

/-- Whether a node is admitted is a matter of the tests alone. -/
theorem Config.admits_hides {σ κ : Type} {view : Entry → Option κ}
    (hview : ∀ e, e.isInquiry = true → view e = none) (c : Config σ) (v kind : Value) :
    Act.Hides view (c.admits v kind) := by
  have htest (h : Hook (Predicate σ)) {role : Role}
      (hrole : ∀ remarks, view (.call role v remarks) = none) (fallback : Bool) :
      Act.Hides view (if h.isSet then h.call role v (fun p => p v) else pure fallback :
        Act Entry σ Bool) := by
    split
    · exact Hook.call_hides hrole _ h
    · exact Act.hides_pure fallback
  unfold Config.admits
  split
  · refine (htest _ (fun _ => hview _ rfl) false).bind fun b => ?_
    cases b with
    | true => exact Act.hides_pure false
    | false =>
      refine (Act.hides_ofExcept _).bind fun b => ?_
      cases b with
      | true => exact htest _ (fun _ => hview _ rfl) true
      | false => exact Act.hides_pure false
  · exact Act.hides_fail _

namespace Run

variable {σ α : Type} {c : Config σ} {s : Run σ}

/-- A run begins with the root alone on the fringe, and with nothing counted. -/
theorem eq_of_start {scene : Scene σ} {root : Value} {r : Run σ}
    (h : start c scene root = .ok r) :
    ∃ prune kind, c.prune = .ok prune ∧ scene.registry.kindOf root = .ok (some kind) ∧
      r = { toScene := scene, walk := ⟨[root], prune⟩ } := by
  unfold start at h
  cases hprune : c.prune with
  | error e => rw [hprune] at h; cases h
  | ok prune =>
    cases hkind : scene.registry.kindOf root with
    | error e => simp [hprune, Walk.start, hkind, Bind.bind, Except.bind] at h
    | ok kind =>
      cases kind with
      | none => simp [hprune, Walk.start, hkind, Bind.bind, Except.bind] at h
      | some kind =>
        simp [hprune, Walk.start_eq hkind, Bind.bind, Except.bind, Pure.pure, Except.pure] at h
        exact ⟨prune, kind, rfl, rfl, h.symm⟩

theorem live_of_start {scene : Scene σ} {root : Value} {r : Run σ}
    (h : start c scene root = .ok r) : r.live = true := by
  obtain ⟨prune, kind, -, -, rfl⟩ := eq_of_start h
  rfl

/-- Takes the next node of the walk and offers it. -/
def pop (c : Config σ) : Act Entry (Run σ) Beat := do
  match ← Act.attempt (onStage Walk.step) with
  | .ok none => return .ended
  | .ok (some v) => offer c v
  | .error e => recover c e

theorem beat_of_allows (h : c.allows s.tally.processed = .ok true) : beat c s = pop c s := by
  rw [beat, Act.get_bind, h, Act.ofExcept_ok_bind]
  rfl

/-- At the limit a run ends, and says so when nodes are left. -/
theorem beat_of_limit (h : c.allows s.tally.processed = .ok false) :
    beat c s = ⟨.ok .ended, s,
      if s.walk.isDone then [] else [.log (.limitReached s.tally.processed)]⟩ := by
  rw [beat, Act.get_bind, h, Act.ofExcept_ok_bind]
  cases s.walk.isDone with
  | true => rfl
  | false => exact Act.note_bind _ _ s

/-- Once it may take a node, a beat does not look at the limit. -/
theorem pop_limit (c : Config σ) (limit : Setting Value) : pop { c with limit } = pop c := rfl

/-! ## Offers -/

section Offer

variable {v : Value} {kind : Option String} {s' : Run σ} {es : List Entry} {e : Fault}

/-- A node whose kind cannot be read ends the run with that fault. -/
theorem offer_of_kind_error (hkind : s.registry.kindOf v = .error e) :
    offer c v s = ⟨.error e, s, []⟩ := by
  rw [offer, Act.get_bind, hkind, Act.ofExcept_error_bind]

theorem offer_of_error (hkind : s.registry.kindOf v = .ok kind)
    (h : onUser (c.admits v (kindValue kind)) s = ⟨.error e, s', es⟩) :
    offer c v s = ⟨.error e, s', es⟩ := by
  rw [offer, Act.get_bind, hkind, Act.ofExcept_ok_bind, Act.bind_apply_error h]

/-- A node that is not admitted is passed over. -/
theorem offer_of_false (hkind : s.registry.kindOf v = .ok kind)
    (h : onUser (c.admits v (kindValue kind)) s = ⟨.ok false, s', es⟩) :
    offer c v s = ⟨.ok .passed, s', es⟩ := by
  rw [offer, Act.get_bind, hkind, Act.ofExcept_ok_bind, Act.bind_of_ok h]
  simp [Outcome.after]

/-- An admitted node is counted before the caller is told. -/
theorem offer_of_true (hkind : s.registry.kindOf v = .ok kind)
    (h : onUser (c.admits v (kindValue kind)) s = ⟨.ok true, s', es⟩) :
    offer c v s =
      let ticked := reportProgress c (s.tally.processed + 1)
        { s' with tally := { s'.tally with processed := s.tally.processed + 1 } }
      ⟨ticked.result.map fun _ => .yielded v, ticked.state, es ++ ticked.entries⟩ := by
  rw [offer, Act.get_bind, hkind, Act.ofExcept_ok_bind, Act.bind_of_ok h]
  simp only [if_true]
  rw [onTally, Act.modify_bind]
  rcases hticked : reportProgress c (s.tally.processed + 1) _ with ⟨_ | _, t, es'⟩
  · rw [Act.bind_apply_error hticked]; rfl
  · rw [Act.bind_of_ok hticked]; simp [Outcome.after, Except.map]

end Offer

/-- The caller's functions change the caller's state and nothing else. -/
theorem eq_of_onUser {m : Act Entry σ α} {r : Except Fault α} {s' : Run σ} {es : List Entry}
    (h : onUser m s = ⟨r, s', es⟩) : ∃ user, s' = { s with user } :=
  ⟨_, (congrArg Outcome.state h).symm⟩

theorem reportProgress_state (c : Config σ) (count : Nat) (s : Run σ) :
    ∃ user, (reportProgress c count s).state = { s with user } := by
  unfold reportProgress
  split
  · exact ⟨_, rfl⟩
  · exact ⟨s.user, rfl⟩

/-- Offering a node changes the caller's state, and the count if the node is yielded. -/
theorem offer_state (c : Config σ) (v : Value) (s : Run σ) :
    ∃ user processed, (offer c v s).state = { s with user, tally := { s.tally with processed } } ∧
      ∀ b, (offer c v s).result = .ok b → processed = s.tally.processed + b.count := by
  cases hkind : s.registry.kindOf v with
  | error e =>
    rw [offer_of_kind_error hkind]
    exact ⟨s.user, s.tally.processed, rfl, nofun⟩
  | ok kind =>
    rcases htold : onUser (c.admits v (kindValue kind)) s with ⟨e | _ | _, s', es⟩
    · obtain ⟨user, rfl⟩ := eq_of_onUser htold
      rw [offer_of_error hkind htold]
      exact ⟨user, s.tally.processed, rfl, nofun⟩
    · obtain ⟨user, rfl⟩ := eq_of_onUser htold
      rw [offer_of_false hkind htold]
      refine ⟨user, s.tally.processed, rfl, ?_⟩
      rintro b ⟨⟩
      rfl
    · obtain ⟨user, rfl⟩ := eq_of_onUser htold
      rw [offer_of_true hkind htold]
      obtain ⟨user', huser⟩ := reportProgress_state c (s.tally.processed + 1)
        { s with user, tally := { s.tally with processed := s.tally.processed + 1 } }
      refine ⟨user', s.tally.processed + 1, huser, ?_⟩
      -- If the caller fails when told of progress there is no beat, though the node was counted.
      intro b hb
      dsimp only at hb
      generalize (reportProgress c _ _).result = r at hb
      cases r <;> cases hb
      rfl

/-! ## Failures -/

/-- A failure is recorded before the caller hears of it, and stays recorded whatever the caller
does. -/
theorem recordFailure_state (c : Config σ) (i : Incident) (e : Fault) (s : Run σ) :
    ∃ user, (recordFailure c i e s).state =
      { s with user, tally := { s.tally with incidents := i :: s.tally.incidents } } := by
  rw [recordFailure, onTally, Act.modify_bind]
  split
  · exact ⟨_, rfl⟩
  · exact ⟨s.user, rfl⟩

section Recover

variable {v : Value} {kind : Option String} {detail : String} {cause : Option Fault} {s' : Run σ}
  {es : List Entry}

/-- The caller's own fault takes the place of the one it was told of. -/
theorem recover_of_error {e : Fault}
    (h : recordFailure c (.of v kind detail) (.expansion v kind detail cause) s =
      ⟨.error e, s', es⟩) :
    recover c (.expansion v kind detail cause) s = ⟨.error e, s', es⟩ := by
  rw [recover, Act.bind_apply_error h]

/-- Where failures are raised, the run ends with the failure itself. -/
theorem recover_of_raise (hpolicy : c.policy = .given .raise)
    (h : recordFailure c (.of v kind detail) (.expansion v kind detail cause) s =
      ⟨.ok (), s', es⟩) :
    recover c (.expansion v kind detail cause) s =
      ⟨.error (.expansion v kind detail cause), s', es⟩ := by
  rw [recover, Act.bind_of_ok h, hpolicy]
  simp [Outcome.after]

/-- Where failures are skipped, the node is offered as a leaf. -/
theorem recover_of_skip (hpolicy : c.policy ≠ .given .raise)
    (h : recordFailure c (.of v kind detail) (.expansion v kind detail cause) s =
      ⟨.ok (), s', es⟩) :
    recover c (.expansion v kind detail cause) s = (offer c v s').after
      (es ++ [.log (.skipping (Fault.expansionText kind detail))]) := by
  rw [recover, Act.bind_of_ok h]
  rcases hgiven : c.policy with (_ | _) | w
  · exact absurd hgiven hpolicy
  all_goals
    dsimp only
    rw [Act.log, Act.note_bind, Outcome.after_after]

/-- A plan knows no failures but failed expansions. -/
theorem recover_of_isExpansion {e : Fault} (h : e.isExpansion = false) :
    recover c e s = ⟨.error e, s, []⟩ := by
  cases e with
  | expansion => cases h
  | _ => rfl

end Recover

/-- Recovering from a failure touches the caller's state and the tally alone. -/
theorem recover_state (c : Config σ) (e : Fault) (s : Run σ) :
    ∃ user tally, (recover c e s).state = { s with user, tally } ∧
      ∀ b, (recover c e s).result = .ok b →
        tally.processed = s.tally.processed + b.count := by
  cases e with
  | expansion v kind detail cause =>
    obtain ⟨user, huser⟩ :=
      recordFailure_state c (.of v kind detail) (.expansion v kind detail cause) s
    rcases h : recordFailure c (.of v kind detail) (.expansion v kind detail cause) s with
      ⟨e | _, s', es⟩
    · rw [h] at huser
      rw [recover_of_error h]
      exact ⟨user, _, huser, nofun⟩
    · rw [h] at huser
      by_cases hpolicy : c.policy = .given .raise
      · rw [recover_of_raise hpolicy h]
        exact ⟨user, _, huser, nofun⟩
      · obtain ⟨user', processed, hstate, hcount⟩ := offer_state c v s'
        rw [recover_of_skip hpolicy h, Outcome.after_state, Outcome.after_result, hstate]
        subst huser
        exact ⟨user', _, rfl, hcount⟩
  | _ => exact ⟨s.user, s.tally, rfl, nofun⟩

/-! ## Taking a node -/

/-- Taking a node goes on by one step of the walk. It leaves the run alive and counts a node if it
is yielded. -/
theorem pop_state (c : Config σ) (s : Run σ) :
    ∃ user tally, (pop c s).state =
        { s with toStage := { Walk.advance s.toStage with user }, tally } ∧
      ∀ b, (pop c s).result = .ok b → tally.processed = s.tally.processed + b.count := by
  rw [pop, Act.attempt_bind, Outcome.after_state, Outcome.after_result]
  rcases (onStage Walk.step s).result with e | _ | v
  · exact recover_state c e _
  · exact ⟨_, s.tally, rfl, by rintro b ⟨⟩; rfl⟩
  · obtain ⟨user, processed, hstate, hcount⟩ := offer_state c v (onStage Walk.step s).state
    exact ⟨user, _, hstate, hcount⟩

theorem pop_alike (c : Config σ) (s : Run σ) : (pop c s).state.toScene.Alike s.toScene := by
  obtain ⟨user, tally, hstate, -⟩ := pop_state c s
  have halike := Walk.advance_alike s.toStage
  rw [hstate]
  exact ⟨halike.kindField, halike.rules⟩

/-- Taking a node leaves the others ahead. -/
theorem pop_follows {prune : Hook (Predicate σ)} {scene : Scene σ} {l : List Value}
    (hprune : prune.All Predicate.IsPure) (hrules : scene.registry.AllRules Rule.IsPure)
    (h : Walk.Follows prune scene l s.toStage) :
    Walk.Follows prune scene l.tail (pop c s).state.toStage := by
  obtain ⟨user, tally, hstate, -⟩ := pop_state c s
  have hnext := h.advance hprune hrules
  rw [hstate]
  exact ⟨⟨hnext.alike.kindField, hnext.alike.rules⟩, hnext.prune_eq, hnext.ahead⟩

/-- A beat by itself does not end a run. -/
theorem beat_live (c : Config σ) (s : Run σ) : (beat c s).state.live = s.live := by
  rcases hallows : c.allows s.tally.processed with e | _ | _
  · rw [beat, Act.get_bind, hallows, Act.ofExcept_error_bind]
  · rw [beat_of_limit hallows]
  · obtain ⟨user, tally, hstate, -⟩ := pop_state c s
    rw [beat_of_allows hallows, hstate]

theorem beat_alike (c : Config σ) (s : Run σ) : (beat c s).state.toScene.Alike s.toScene := by
  rcases hallows : c.allows s.tally.processed with e | _ | _
  · rw [beat, Act.get_bind, hallows, Act.ofExcept_error_bind]
    exact .refl _
  · rw [beat_of_limit hallows]
    exact .refl _
  · rw [beat_of_allows hallows]
    exact pop_alike c s

/-- A beat that may take a node counts it if it is yielded. -/
theorem beat_processed {b : Beat} (hallows : c.allows s.tally.processed = .ok true)
    (h : (beat c s).result = .ok b) :
    (beat c s).state.tally.processed = s.tally.processed + b.count := by
  obtain ⟨user, tally, hstate, hcount⟩ := pop_state c s
  rw [beat_of_allows hallows] at h ⊢
  rw [hstate]
  exact hcount b h

/-- Only a walk that is done ends a run without a fault: an offered node never does. -/
theorem offer_ne_ended (c : Config σ) (v : Value) (s : Run σ) :
    (offer c v s).result ≠ .ok .ended := by
  cases hkind : s.registry.kindOf v with
  | error e => rw [offer_of_kind_error hkind]; nofun
  | ok kind =>
    rcases htold : onUser (c.admits v (kindValue kind)) s with ⟨e | _ | _, s', es⟩
    · rw [offer_of_error hkind htold]; nofun
    · rw [offer_of_false hkind htold]; nofun
    · rw [offer_of_true hkind htold]
      dsimp only
      generalize (reportProgress c _ _).result = r
      cases r <;> nofun

theorem recover_ne_ended (c : Config σ) (e : Fault) (s : Run σ) :
    (recover c e s).result ≠ .ok .ended := by
  cases e with
  | expansion v kind detail cause =>
    rcases h : recordFailure c (.of v kind detail) (.expansion v kind detail cause) s with
      ⟨e | _, s', es⟩
    · rw [recover_of_error h]; nofun
    · by_cases hpolicy : c.policy = .given .raise
      · rw [recover_of_raise hpolicy h]; nofun
      · rw [recover_of_skip hpolicy h]
        exact offer_ne_ended c v s'
  | _ => nofun

/-- There is a node to take unless the walk is done. -/
theorem pop_ended_iff (c : Config σ) (s : Run σ) :
    (pop c s).result = .ok .ended ↔ s.walk.isDone = true := by
  rw [pop, Act.attempt_bind, Outcome.after_result, onStage, Act.zoom_result]
  cases hfringe : s.walk.fringe with
  | nil => simp [Walk.step_nil hfringe, Walk.isDone, hfringe]
  | cons v rest =>
    rw [Walk.step_cons hfringe, Walk.isDone, hfringe]
    cases (Walk.expand s.walk.prune v s.toScene).result with
    | ok slots => simpa using offer_ne_ended c v _
    | error e => simpa using recover_ne_ended c _ _

/-! ## Requests -/

section Request

variable {s' : Run σ} {es : List Entry} {v : Value} {e : Fault}

/-- A request at which a node is passed over goes on as the next one would. -/
theorem next_of_passed (fuel : Nat) (hlive : s.live = true) (hlive' : s'.live = true)
    (h : beat c s = ⟨.ok .passed, s', es⟩) : next c (fuel + 1) s = (next c fuel s').after es := by
  have hturns : Act.iterate (turn c) (fuel + 1) () s =
      (Act.iterate (turn c) fuel () s').after es := by
    rw [Act.iterate_succ, Act.bind_apply, turn, Act.bind_of_ok h]
    simp [Outcome.after]
  rw [next, next, hlive, hlive', if_pos rfl, if_pos rfl, hturns]
  rcases Act.iterate (turn c) fuel () s' with ⟨e | _ | _ | w, t, es'⟩ <;> rfl

theorem next_of_yielded (fuel : Nat) (hlive : s.live = true)
    (h : beat c s = ⟨.ok (.yielded v), s', es⟩) :
    next c (fuel + 1) s = ⟨.ok (.node v), s', es⟩ := by
  have hturns : Act.iterate (turn c) (fuel + 1) () s = ⟨.ok (.done (some v)), s', es⟩ := by
    rw [Act.iterate_succ, Act.bind_apply, turn, Act.bind_of_ok h]
    simp [Outcome.after]
  rw [next, hlive, if_pos rfl, hturns]

theorem next_of_ended (fuel : Nat) (hlive : s.live = true) (h : beat c s = ⟨.ok .ended, s', es⟩) :
    next c (fuel + 1) s = ⟨.ok .stop, { s' with live := false }, es⟩ := by
  have hturns : Act.iterate (turn c) (fuel + 1) () s = ⟨.ok (.done none), s', es⟩ := by
    rw [Act.iterate_succ, Act.bind_apply, turn, Act.bind_of_ok h]
    simp [Outcome.after]
  rw [next, hlive, if_pos rfl, hturns]

theorem next_of_error (fuel : Nat) (hlive : s.live = true) (h : beat c s = ⟨.error e, s', es⟩) :
    next c (fuel + 1) s = ⟨.error e.leaving, { s' with live := false }, es⟩ := by
  have hturns : Act.iterate (turn c) (fuel + 1) () s = ⟨.error e, s', es⟩ := by
    rw [Act.iterate_succ, Act.bind_apply, turn, Act.bind_apply_error h]
  rw [next, hlive, if_pos rfl, hturns]

/-- A run that has ended stays so. -/
theorem next_of_not_live (fuel : Nat) (hlive : s.live = false) :
    next c fuel s = ⟨.ok .stop, s, []⟩ := by
  rw [next, hlive]
  rfl

end Request

end Run

end RuleWalk
