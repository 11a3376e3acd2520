import RuleWalk.Proofs.Plan.Limit
import RuleWalk.Proofs.Plan.Unfailing
import RuleWalk.Proofs.Simulation

/-!
# What a run depends on

Where tests and rules are pure and no callback fails, what a run without a limit gives is settled by
its walk and by the rules. The caller's state and the tally have no part in it: two runs with the
same walk, in scenes that are alike, give the same answers for ever (`next_simulates`). What they
leave in the tally is one more for each node that was given (`next_counts`). Tests may fail here,
and so may rules.
-/

namespace RuleWalk

/-- What `f` says of a node does not depend on the caller's state, though it may fail, and no
callback ever fails. -/
structure Config.Steady {σ : Type} (c : Config σ) (f : Filter σ) : Prop where
  filter : c.filter = .given f
  keep : f.keep.All Predicate.IsPure
  drop : f.drop.All Predicate.IsPure
  prune : f.prune.All Predicate.IsPure
  report : c.report.All fun r => ∀ v e, Act.NeverFails (r v e)
  progress : c.progress.All fun p => ∀ count, Act.NeverFails (p count)

theorem Hook.call_isPure {σ : Type} {h : Hook (Predicate σ)} (hall : h.All Predicate.IsPure)
    (role : Role) (fallback : Bool) (v : Value) :
    (if h.isSet then h.call role v (fun p => p v) else pure fallback :
      Act Entry σ Bool).IsPure := by
  cases h with
  | absent => exact fun _ _ => rfl
  | inert w => exact hall.elim
  | live p truth =>
    cases truth with
    | false => exact fun _ _ => rfl
    | true => exact hall v

/-- With pure tests, whether a node is admitted does not depend on the caller's state. -/
theorem Filter.admits_isPure {σ : Type} {f : Filter σ} (hkeep : f.keep.All Predicate.IsPure)
    (hdrop : f.drop.All Predicate.IsPure) (v kind : Value) : (f.admits v kind).IsPure := by
  refine Act.IsPure.bind (Hook.call_isPure hdrop .drop false v) fun dropped => ?_
  cases dropped with
  | true => exact fun _ _ => rfl
  | false =>
    refine Act.IsPure.bind (fun _ _ => by simp only [Act.ofExcept_result]) fun named => ?_
    cases named with
    | true => exact Hook.call_isPure hkeep .keep true v
    | false => exact fun _ _ => rfl

theorem Config.Steady.admits_isPure {σ : Type} {c : Config σ} {f : Filter σ} (hc : c.Steady f)
    (v kind : Value) : (c.admits v kind).IsPure := by
  rw [Config.admits, hc.filter]
  exact Filter.admits_isPure hc.keep hc.drop v kind

/-- How many nodes an answer holds. -/
def Delivery.count : Delivery → Nat
  | node _ => 1
  | _ => 0

namespace Run

variable {σ α β : Type} {c : Config σ} {f : Filter σ} {scene : Scene σ} {s t : Run σ}

/-! ## The count -/

/-- The count grows by the weight of the result, and stays where there is none. -/
def Counts (weight : α → Nat) (m : Act Entry (Run σ) α) : Prop :=
  ∀ s, (m s).state.tally.processed = s.tally.processed + (m s).result.toOption.elim 0 weight

/-- Nothing is counted. -/
theorem counts_of_state {m : Act Entry (Run σ) α}
    (h : ∀ s, (m s).state.tally.processed = s.tally.processed) : Counts (fun _ => 0) m := by
  intro s
  rw [h s]
  cases (m s).result <;> rfl

theorem Counts.bind {weight : β → Nat} {m : Act Entry (Run σ) α} {g : α → Act Entry (Run σ) β}
    (hm : Counts (fun _ => 0) m) (hg : ∀ a, Counts weight (g a)) : Counts weight (m >>= g) := by
  intro s
  have hfirst := hm s
  rw [Act.bind_apply]
  cases hresult : (m s).result with
  | error e => rwa [hresult] at hfirst
  | ok a =>
    rw [hresult] at hfirst
    exact (hg a (m s).state).trans (congrArg (· + _) hfirst)

theorem offer_counts (hc : c.progress.All fun p => ∀ count, Act.NeverFails (p count))
    (v : Value) : Counts Beat.count (offer c v) := by
  intro s
  cases hkind : s.registry.kindOf v with
  | error e =>
    rw [offer_of_kind_error hkind]
    rfl
  | ok kind =>
    rcases htold : onUser (c.admits v (kindValue kind)) s with ⟨e | _ | _, s', es⟩ <;>
      obtain ⟨user, rfl⟩ := eq_of_onUser htold
    · rw [offer_of_error hkind htold]
      rfl
    · rw [offer_of_false hkind htold]
      rfl
    · obtain ⟨user', huser⟩ := reportProgress_state c (s.tally.processed + 1)
        { s with user, tally := { s.tally with processed := s.tally.processed + 1 } }
      rw [offer_of_true hkind htold]
      dsimp only
      rw [reportProgress_result hc]
      exact congrArg (·.tally.processed) huser

theorem recover_counts (hc : c.progress.All fun p => ∀ count, Act.NeverFails (p count))
    (e : Fault) : Counts Beat.count (recover c e) := by
  cases e with
  | expansion v kind detail cause =>
    refine Counts.bind (counts_of_state fun s => ?_) fun _ => ?_
    · obtain ⟨user, huser⟩ :=
        recordFailure_state c (.of v kind detail) (.expansion v kind detail cause) s
      rw [huser]
    · split
      · exact fun _ => rfl
      · exact Counts.bind (counts_of_state fun _ => rfl) fun _ => offer_counts hc v
  | _ => exact fun _ => rfl

theorem beat_counts (hc : c.progress.All fun p => ∀ count, Act.NeverFails (p count)) :
    Counts Beat.count (beat c) := by
  refine Counts.bind (counts_of_state fun _ => rfl) fun s => ?_
  refine Counts.bind (counts_of_state fun _ => by rw [Act.ofExcept_state]) fun allowed => ?_
  cases allowed with
  | true =>
    refine Counts.bind (counts_of_state fun _ => rfl) fun taken => ?_
    rcases taken with e | _ | v
    · exact recover_counts hc e
    · exact fun _ => rfl
    · exact offer_counts hc v
  | false =>
    cases s.walk.isDone <;> exact fun _ => rfl

/-- How many nodes a turn yields. -/
def turnCount : Act.Turn Unit (Option Value) → Nat
  | .done (some _) => 1
  | _ => 0

theorem turn_counts (hc : c.progress.All fun p => ∀ count, Act.NeverFails (p count)) :
    Counts turnCount (turn c ()) := by
  intro s
  have hbeat := beat_counts hc s
  rw [turn, Act.bind_apply]
  rcases h : beat c s with ⟨e | v | _ | _, s', es⟩ <;> rw [h] at hbeat <;> exact hbeat

theorem iterate_turn_counts (hc : c.progress.All fun p => ∀ count, Act.NeverFails (p count))
    (fuel : Nat) : Counts turnCount (Act.iterate (turn c) fuel ()) := by
  induction fuel with
  | zero => exact fun _ => rfl
  | succ fuel ih =>
    intro s
    have hturn := turn_counts hc s
    rw [Act.iterate_succ, Act.bind_apply]
    rcases h : turn c () s with ⟨e | _ | _, s', es⟩ <;> rw [h] at hturn
    · exact hturn
    · exact (ih s').trans (congrArg (· + _) hturn)
    · exact hturn

/-- A request counts the node that it gives, and nothing else, if no callback for progress fails. -/
theorem next_counts (hc : c.progress.All fun p => ∀ count, Act.NeverFails (p count))
    (fuel : Nat) : Counts Delivery.count (next c fuel) := by
  intro s
  cases hlive : s.live with
  | false =>
    rw [next_of_not_live fuel hlive]
    rfl
  | true =>
    have hturns := iterate_turn_counts hc fuel s
    rw [next, hlive, if_pos rfl]
    rcases h : Act.iterate (turn c) fuel () s with ⟨e | _ | _ | v, s', es⟩ <;> rw [h] at hturns <;>
      exact hturns

/-! ## Runs with the same walk -/

/-- Two runs with the same walk, in scenes that are like `scene`. Their tallies and the states of
their callers may differ. -/
structure Twins (f : Filter σ) (scene : Scene σ) (s t : Run σ) : Prop where
  left : s.toScene.Alike scene
  right : t.toScene.Alike scene
  walk : s.walk = t.walk
  prune : t.walk.prune = f.prune.heeded
  live : s.live = t.live

/-- An offer is settled by the kind of the node and by what the tests say. -/
theorem offer_result_eq (hc : c.Steady f) (v : Value) (s : Run σ) :
    (offer c v s).result = (s.registry.kindOf v).bind fun kind =>
      (c.admits v (kindValue kind) s.user).result.map fun yields =>
        if yields then .yielded v else .passed := by
  cases hkind : s.registry.kindOf v with
  | error e =>
    rw [offer_of_kind_error hkind]
    rfl
  | ok kind =>
    have hadmits : (onUser (c.admits v (kindValue kind)) s).result =
        (c.admits v (kindValue kind) s.user).result := rfl
    rw [Except.bind, ← hadmits]
    rcases htold : onUser (c.admits v (kindValue kind)) s with ⟨e | _ | _, s', es⟩
    · rw [offer_of_error hkind htold]
      rfl
    · rw [offer_of_false hkind htold]
      rfl
    · rw [offer_of_true hkind htold]
      dsimp only
      rw [reportProgress_result hc.progress]
      rfl

theorem offer_result_congr (hc : c.Steady f) (hs : s.toScene.Alike scene)
    (ht : t.toScene.Alike scene) (v : Value) : (offer c v s).result = (offer c v t).result := by
  rw [offer_result_eq hc, offer_result_eq hc, hs.kindOf, ht.kindOf]
  congr 1
  funext kind
  rw [hc.admits_isPure v (kindValue kind) s.user t.user]

theorem recover_result_congr (hc : c.Steady f) (hs : s.toScene.Alike scene)
    (ht : t.toScene.Alike scene) (e : Fault) : (recover c e s).result = (recover c e t).result := by
  cases e with
  | expansion v kind detail cause =>
    obtain ⟨user, es, hrecorded⟩ :=
      recordFailure_eq hc.report (.of v kind detail) (.expansion v kind detail cause) s
    obtain ⟨user', es', hrecorded'⟩ :=
      recordFailure_eq hc.report (.of v kind detail) (.expansion v kind detail cause) t
    by_cases hpolicy : c.policy = .given .raise
    · rw [recover_of_raise hpolicy hrecorded, recover_of_raise hpolicy hrecorded']
    · -- The record is kept apart from the scene, so the scenes stay alike.
      rw [recover_of_skip hpolicy hrecorded, recover_of_skip hpolicy hrecorded']
      apply offer_result_congr hc
      · exact ⟨hs.kindField, hs.rules⟩
      · exact ⟨ht.kindField, ht.rules⟩
  | _ => rfl

/-- Runs with the same walk take the same node and do the same with it. -/
theorem pop_simulates (hc : c.Steady f) (hrules : scene.registry.AllRules Rule.IsPure) :
    Act.Simulates (Twins f scene) Entry.unseen (pop c) (pop c) := by
  intro s t h
  obtain ⟨hstep, hwalk⟩ := Walk.step_congr hrules h.left h.right h.walk (h.prune ▸ hc.prune.heeded)
  have hs := (Walk.advance_alike s.toStage).trans h.left
  have ht := (Walk.advance_alike t.toStage).trans h.right
  refine Outcome.matches_unseen ?_ ?_
  · rw [pop, Act.attempt_bind, Act.attempt_bind, Outcome.after_result, Outcome.after_result,
      onStage, Act.zoom_result, Act.zoom_result, hstep]
    rcases (Walk.step t.toStage).result with e | _ | v
    · exact recover_result_congr hc hs ht e
    · rfl
    · exact offer_result_congr hc hs ht v
  · obtain ⟨user, tally, hstate, -⟩ := pop_state c s
    obtain ⟨user', tally', hstate', -⟩ := pop_state c t
    rw [hstate, hstate']
    exact ⟨⟨hs.kindField, hs.rules⟩, ⟨ht.kindField, ht.rules⟩, hwalk,
      (Walk.advance_prune t.toStage).trans h.prune, h.live⟩

theorem turn_simulates (hc : c.Steady f) (hlimit : c.IsUnlimited)
    (hrules : scene.registry.AllRules Rule.IsPure) :
    Act.Simulates (Twins f scene) Entry.unseen (turn c ()) (turn c ()) := by
  refine Act.Simulates.bind ?_ fun b => ?_
  · intro s t h
    rw [beat_of_allows (hlimit.allows _), beat_of_allows (hlimit.allows _)]
    exact pop_simulates hc hrules s t h
  · cases b <;> exact Act.simulates_pure _

/-- Without a limit, runs with the same walk give the same answers and have the same walk again. -/
theorem next_simulates (hc : c.Steady f) (hlimit : c.IsUnlimited)
    (hrules : scene.registry.AllRules Rule.IsPure) (fuel : Nat) :
    Act.Simulates (Twins f scene) Entry.unseen (next c fuel) (next c fuel) := by
  intro s t h
  cases hlive : t.live with
  | false =>
    rw [next_of_not_live fuel hlive, next_of_not_live fuel (h.live.trans hlive)]
    exact ⟨rfl, h, rfl⟩
  | true =>
    have hturns : Act.Simulates (Twins f scene) Entry.unseen (Act.iterate (turn c) fuel ())
        (Act.iterate (turn c) fuel ()) :=
      Act.Simulates.iterate (fun _ => turn_simulates hc hlimit hrules) fuel ()
    obtain ⟨hresult, hstate, -⟩ := hturns s t h
    rw [next, next, h.live, hlive, if_pos rfl, if_pos rfl]
    rcases hs : Act.iterate (turn c) fuel () s with ⟨r, s', es⟩
    rcases ht : Act.iterate (turn c) fuel () t with ⟨r', t', es'⟩
    rw [hs, ht] at hresult hstate
    obtain rfl : r = r' := hresult
    have hended : Twins f scene { s' with live := false } { t' with live := false } :=
      ⟨hstate.left, hstate.right, hstate.walk, hstate.prune, rfl⟩
    rcases r with e | _ | _ | v
    · exact Outcome.matches_unseen rfl hended
    · exact Outcome.matches_unseen rfl hstate
    · exact Outcome.matches_unseen rfl hended
    · exact Outcome.matches_unseen rfl hstate

end Run

end RuleWalk
