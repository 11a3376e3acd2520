import RuleWalk.Proofs.Lists
import RuleWalk.Proofs.Session.Interleaving
import RuleWalk.Proofs.Session.Isolation
import RuleWalk.Proofs.Walk.Growth

/-!
# Traversals without options

A traversal that is given no options does what a bare walk does, request by request: it gives the
same answers, calls the same functions and logs the same kinds, and leaves the registries and the
caller's state the same. `Shadows` relates the two sessions, and every request keeps it until one
fails. Then the two part: the traversal is over, and the walk goes on with the next node that waits.
-/

namespace RuleWalk

namespace Walk

variable {σ : Type}

/-- A request to a walk is a step. -/
theorem next_apply (s : Stage σ) :
    next s = ⟨(step s).result.map fun o => o.elim .stop .node, advance s, (step s).entries⟩ := by
  rw [next, Act.bind_apply, advance]
  rcases step s with ⟨e | _ | v, t, es⟩ <;> simp [Outcome.after, Except.map]

/-- The answer is about a node: the node is given, or a fault names it, or the fault of its
expansion escaped, being an interruption or one without a text. -/
def Concerns (v : Value) : Except Fault Delivery → Prop
  | .ok d => d = .node v
  | .error (.expansion u _ _ _) => u = v
  | .error e => ∃ cause : Fault, cause.escape? = some e

theorem next_concerns {s : Stage σ} {v : Value} {rest : List Value}
    (hfield : s.registry.HasTextField) (h : s.walk.fringe = v :: rest) :
    Concerns v (next s).result := by
  have hvisit : History.visit? s = some ⟨v, found s.walk.prune v s.toScene⟩ := by
    simp [History.visit?, h]
  have hshows := History.step_shows hfield hvisit
  rw [next_apply]
  generalize (step s).result = answer at hshows
  rcases answer with e | o
  · cases e with
    | expansion u kind detail cause => exact hshows.1
    | _ => exact hshows.1
  · cases hshows
    rfl

/-- A step that fails leaves the rest of the fringe. -/
theorem fringe_of_step_error {s : Stage σ} {e : Fault} (h : (step s).result = .error e) :
    ∃ v rest, s.walk.fringe = v :: rest ∧ (advance s).walk.fringe = rest := by
  cases hfringe : s.walk.fringe with
  | nil => rw [step_nil hfringe] at h; cases h
  | cons v rest =>
    refine ⟨v, rest, rfl, ?_⟩
    rw [step_cons hfringe] at h
    rw [advance, step_cons hfringe, found]
    cases hexpand : (expand s.walk.prune v s.toScene).result with
    | ok slots => rw [hexpand] at h; cases h
    | error e => rfl

theorem fringe_of_step_none {s : Stage σ} (h : (step s).result = .ok none) :
    (advance s).walk.fringe = [] := by
  cases hfringe : s.walk.fringe with
  | nil => rw [advance, step_nil hfringe, hfringe]
  | cons v rest =>
    rw [step_cons hfringe] at h
    cases hexpand : (expand s.walk.prune v s.toScene).result <;> simp [hexpand] at h

end Walk

namespace Run

variable {σ : Type} {s : Run σ} {v : Value}

/-- Without options every node is yielded, and nothing is put on record. -/
theorem offer_plain (hfield : s.registry.HasTextField) :
    offer {} v s =
      ⟨.ok (.yielded v), { s with tally := { s.tally with processed := s.tally.processed + 1 } },
        []⟩ := by
  obtain ⟨kind, hkind⟩ := hfield.kindOf v
  have hadmits : onUser (Config.admits {} v (kindValue kind)) s = ⟨.ok true, s, []⟩ := rfl
  exact offer_of_true hkind hadmits

/-- Without options a failed expansion ends the run, and the caller is told nothing else. -/
theorem recover_plain (e : Fault) (s : Run σ) :
    ∃ tally, recover {} e s = ⟨.error e, { s with tally }, []⟩ := by
  cases e with
  | expansion v kind detail cause => exact ⟨_, recover_of_raise rfl rfl⟩
  | _ => exact ⟨s.tally, rfl⟩

/-- The fault of a step is not one that a sequence would replace on its way out. -/
theorem leaving_of_concerns {e : Fault} (h : Walk.Concerns v (.error e)) : e.leaving = e := by
  cases e with
  | expansion u kind detail cause => rfl
  | _ =>
    obtain ⟨cause, hescape⟩ := h
    exact (Fault.passes_of_escape? hescape).leaving

/-- Without options a request is a request to the walk. The run stays alive as long as the walk
gives nodes. -/
theorem next_plain (fuel : Nat) (hfield : s.registry.HasTextField)
    (hlive : s.live = false → s.walk.fringe = []) :
    ∃ tally live,
      next {} (fuel + 1) s =
          ⟨(Walk.next s.toStage).result,
            { toStage := (Walk.next s.toStage).state, tally, live },
            (Walk.next s.toStage).entries⟩ ∧
        (live = true ↔ ∃ v, (Walk.next s.toStage).result = .ok (.node v)) := by
  rw [Walk.next_apply]
  cases hs : s.live with
  | false =>
    refine ⟨s.tally, false, ?_, ?_⟩
    · rw [next_of_not_live _ hs, Walk.advance, Walk.step_nil (hlive hs), ← hs]
      rfl
    · rw [Walk.step_nil (hlive hs)]
      constructor
      · rintro ⟨⟩
      · rintro ⟨v, ⟨⟩⟩
  | true =>
    have hbeat : beat {} s = pop {} s := beat_of_allows rfl
    rw [pop, Act.attempt_bind] at hbeat
    rw [Walk.advance]
    rcases hstep : Walk.step s.toStage with ⟨e | _ | v, t, es⟩
    · have hfault : e.leaving = e := by
        obtain ⟨v, rest, hfringe, -⟩ := Walk.fringe_of_step_error (congrArg Outcome.result hstep)
        have hconcerns := Walk.next_concerns hfield hfringe
        rw [Walk.next_apply, hstep] at hconcerns
        exact leaving_of_concerns hconcerns
      obtain ⟨tally, hrecover⟩ := recover_plain e { s with toStage := t }
      have hbeat' : beat {} s = ⟨.error e, { s with toStage := t, tally }, es⟩ := by
        rw [hbeat, onStage, Act.zoom, hstep]
        simp [hrecover, Outcome.after]
      refine ⟨tally, false, ?_, by simp [Except.map]⟩
      rw [next_of_error fuel hs hbeat', hfault]
      rfl
    · have hbeat' : beat {} s = ⟨.ok .ended, { s with toStage := t }, es⟩ := by
        rw [hbeat, onStage, Act.zoom, hstep]
        simp [Outcome.after]
      refine ⟨s.tally, false, ?_, by simp [Except.map]⟩
      rw [next_of_ended fuel hs hbeat']
      rfl
    · have hfield' : t.registry.HasTextField := by
        have halike := Walk.advance_alike s.toStage
        rw [Walk.advance, hstep] at halike
        exact halike.hasTextField hfield
      have hbeat' : beat {} s = ⟨.ok (.yielded v), { s with
          toStage := t
          tally := { s.tally with processed := s.tally.processed + 1 } }, es⟩ := by
        have hoffer := offer_plain (s := { s with toStage := t }) (v := v) hfield'
        rw [hbeat, onStage, Act.zoom, hstep]
        simp [hoffer, Outcome.after]
      refine ⟨{ s.tally with processed := s.tally.processed + 1 }, true, ?_, by simp [Except.map]⟩
      rw [next_of_yielded fuel hs hbeat', ← hs]
      rfl

end Run

/-- What a walk answers with `pending` on its fringe: it is done, or goes on with the first. -/
inductive Walk.Resumes : List Value → Except Fault Delivery → Prop where
  | done : Resumes [] (.ok .stop)
  | next {v : Value} {rest : List Value} {answer : Except Fault Delivery}
      (h : Concerns v answer) : Resumes (v :: rest) answer

namespace Session

variable {σ : Type} {registry : Option Nat} {root : Value} {s t : Session σ} {i p r fuel : Nat}
  {w : Walk σ}

/-- The registries and the caller's state are the same. -/
structure Agrees (s t : Session σ) : Prop where
  registries : s.registries = t.registries
  shared : s.shared = t.shared
  user : s.user = t.user

theorem Agrees.scene (h : Agrees s t) (r : Nat) : s.scene r = t.scene r := by
  rw [Session.scene, Session.scene, Session.registry, Session.registry, h.registries, h.user]

/-- The session after `k` requests to the sequence `i`. -/
def asked (i fuel k : Nat) (s : Session σ) : Session σ := (fun s => (next i fuel s).state)^[k] s

/-- Whoever asks the sequence is told that it has ended, and nothing else happens. -/
def IsOver (i : Nat) (s : Session σ) : Prop := ∀ fuel, next i fuel s = ⟨.ok .stop, s, []⟩

/-! ## Ended runs -/

/-- A run that is put back as it was found leaves the session as it was. -/
theorem store_run {make : Walk σ → Bool → Cursor σ} {live : Bool}
    (h : s.cursor i = make w live) : s.store i p make (s.run p w live) = s := by
  have hcursors : s.cursors.setIfInBounds i (make w live) = s.cursors := by
    rw [← h]
    exact setIfInBounds_getD s.cursors i .spent
  have hplans : s.plans.setIfInBounds p (s.plan p) = s.plans := setIfInBounds_getD s.plans p _
  have hregistries : s.registries.set (s.plan p).registry
      (s.registry (s.plan p).registry) = s.registries := s.registries.set_get _
  simp only [store, putScene, putPlan, putCursor, run, scene, hcursors, hplans, hregistries]

theorem isOver_of_not_live (h : s.cursor i = .run p w false) : IsOver i s := by
  intro fuel
  rw [next, h]
  simp only
  rw [onRun_apply, Run.next_of_not_live fuel rfl, store_run h]

/-! ## Side by side -/

/-- The sequence `i` is a run without options in the one session and a bare walk in the other, and
both have the same nodes to visit. -/
structure Shadows (i p r : Nat) (w : Walk σ) (s t : Session σ) : Prop extends Agrees s t where
  run : ∃ live, s.cursor i = .run p w live ∧ (live = false → w.fringe = [])
  walk : t.cursor i = .walk r w
  cursor_lt : i < s.cursors.size
  plan_lt : p < s.plans.size
  config : (s.plan p).config = {}
  registry_eq : (s.plan p).registry = r
  hasTextField : (s.registry r).HasTextField

/-- The kind field stays a text. -/
theorem hasTextField_putScene {scene : Scene σ} (h : (s.registry r).HasTextField)
    (halike : scene.Alike (s.scene r)) : ((s.putScene r scene).registry r).HasTextField := by
  by_cases hr : r < s.registries.size
  · have hscene := congrArg Scene.registry (scene_putScene scene hr)
    exact (congrArg Registry.HasTextField hscene).mpr (halike.hasTextField h)
  · have hsame : (s.putScene r scene).registry r = s.registry r := by
      rw [Session.registry, putScene, Registries.set_of_size_le _ (Nat.not_lt.1 hr),
        Session.registry]
    rwa [hsame]

theorem next_of_walk (h : t.cursor i = .walk r w) :
    next i fuel t =
      ⟨(Walk.next ⟨t.scene r, w⟩).result,
        (t.putScene r (Walk.advance ⟨t.scene r, w⟩).toScene).putCursor i
          (.walk r (Walk.advance ⟨t.scene r, w⟩).walk),
        (Walk.next ⟨t.scene r, w⟩).entries⟩ := by
  rw [next, h, Walk.next_apply]
  simp only [onWalk, Act.zoom, Walk.next_apply]

/-- A request to the run gives what a request to the walk gives, and takes the same step. -/
theorem Shadows.next_run (h : Shadows i p r w s t) (fuel : Nat) :
    ∃ tally live,
      next i (fuel + 1) s =
          ⟨(Walk.next ⟨t.scene r, w⟩).result,
            s.store i p (.run p) { toStage := Walk.advance ⟨t.scene r, w⟩, tally, live },
            (Walk.next ⟨t.scene r, w⟩).entries⟩ ∧
        (live = true ↔ ∃ v, (Walk.next ⟨t.scene r, w⟩).result = .ok (.node v)) := by
  obtain ⟨live, hcursor, hlive⟩ := h.run
  have hstage : (s.run p w live).toStage = ⟨t.scene r, w⟩ := by
    rw [Session.run, h.registry_eq, h.scene]
  have hfield : (s.run p w live).registry.HasTextField := by
    have hregistry : (s.run p w live).registry = s.registry r := by
      rw [← h.registry_eq]
      rfl
    rw [hregistry]
    exact h.hasTextField
  obtain ⟨tally, live', hnext, hlive'⟩ := Run.next_plain fuel hfield hlive
  rw [hstage] at hnext hlive'
  refine ⟨tally, live', ?_, hlive'⟩
  rw [Session.next, hcursor]
  simp only
  rw [onRun_apply, h.config, hnext, Walk.next_apply]

/-- A request to both sequences gives the same answer, puts the same on record and leaves the same
registries and the same state of the caller. -/
theorem Shadows.next_matches (h : Shadows i p r w s t) (fuel : Nat) :
    (next i (fuel + 1) s).Matches Agrees some (next i (fuel + 1) t) := by
  obtain ⟨tally, live, hnext, -⟩ := h.next_run fuel
  rw [hnext, next_of_walk h.walk]
  refine ⟨rfl, ⟨?_, h.shared, rfl⟩, rfl⟩
  simp only [store, putScene, putPlan, putCursor, h.registry_eq, h.registries]

/-- While no request fails, the sequences stay side by side. -/
theorem Shadows.next_ok (h : Shadows i p r w s t) {d : Delivery}
    (hd : (next i (fuel + 1) t).result = .ok d) :
    ∃ w', Shadows i p r w' (next i (fuel + 1) s).state (next i (fuel + 1) t).state := by
  have hagrees := (h.next_matches fuel).state
  obtain ⟨tally, live, hnext, hlive⟩ := h.next_run fuel
  rw [next_of_walk h.walk] at hd hagrees ⊢
  rw [hnext] at hagrees ⊢
  have hplan := plan_store (i := i) (.run p)
    { toStage := Walk.advance ⟨t.scene r, w⟩, tally, live } h.plan_lt
  refine ⟨(Walk.advance ⟨t.scene r, w⟩).walk, hagrees, ?_, ?_, ?_, ?_, ?_, ?_, ?_⟩
  · refine ⟨live, cursor_store (.run p) _ h.cursor_lt, fun hend => ?_⟩
    -- The run ended with an answer, so this was that the walk is done.
    rw [Walk.next_apply] at hd hlive
    apply Walk.fringe_of_step_none
    rcases hstep : (Walk.step ⟨t.scene r, w⟩).result with e | _ | v
    · rw [hstep] at hd
      cases hd
    · rfl
    · rw [hstep] at hlive
      exact absurd (hlive.2 ⟨v, rfl⟩) (by rw [hend]; decide)
  · exact cursor_putCursor (s := t.putScene r _) _ (lt_of_cursor_walk h.walk)
  · rw [size_cursors_store]
    exact h.cursor_lt
  · rw [size_plans_store]
    exact h.plan_lt
  · rw [hplan]
    exact h.config
  · rw [hplan]
    exact h.registry_eq
  · have halike := Walk.advance_alike ⟨t.scene r, w⟩
    rw [← h.scene] at halike
    have hput := hasTextField_putScene h.hasTextField halike
    rw [store, h.registry_eq, ← h.scene]
    exact hput

/-- After the first fault the run is over, and the walk goes on with the rest of its fringe. -/
theorem Shadows.next_error (h : Shadows i p r w s t) {e : Fault}
    (he : (next i (fuel + 1) t).result = .error e) :
    IsOver i (next i (fuel + 1) s).state ∧
      ∃ v rest, w = ⟨v :: rest, w.prune⟩ ∧ Walk.Concerns v (.error e) ∧
        (next i (fuel + 1) t).state.cursor i = .walk r ⟨rest, w.prune⟩ ∧
        ∀ fuel', Walk.Resumes rest (next i fuel' (next i (fuel + 1) t).state).result := by
  obtain ⟨tally, live, hnext, hlive⟩ := h.next_run fuel
  have hfield : (t.registry r).HasTextField := by
    have hregistry := congrArg Scene.registry (h.scene r)
    exact (congrArg Registry.HasTextField hregistry).mp h.hasTextField
  rw [hnext, next_of_walk h.walk]
  rw [next_of_walk h.walk] at he
  have hended : live = false := by
    apply Bool.eq_false_iff.2
    intro hlive'
    obtain ⟨v, hv⟩ := hlive.1 hlive'
    cases he.symm.trans hv
  have hstep : (Walk.step ⟨t.scene r, w⟩).result = .error e := by
    rw [Walk.next_apply] at he
    rcases hresult : (Walk.step ⟨t.scene r, w⟩).result with e' | o
    · rw [hresult] at he
      cases he
      rfl
    · rw [hresult] at he
      cases he
  obtain ⟨v, rest, hfringe, hrest⟩ := Walk.fringe_of_step_error hstep
  have hwalk : (Walk.advance ⟨t.scene r, w⟩).walk = ⟨rest, w.prune⟩ := by
    have hprune := Walk.advance_prune ⟨t.scene r, w⟩
    rw [← hrest, ← hprune]
  have hcursor : ((t.putScene r (Walk.advance ⟨t.scene r, w⟩).toScene).putCursor i
      (.walk r (Walk.advance ⟨t.scene r, w⟩).walk)).cursor i = .walk r ⟨rest, w.prune⟩ := by
    rw [hwalk]
    exact cursor_putCursor (s := t.putScene r _) _ (lt_of_cursor_walk h.walk)
  refine ⟨?_, v, rest, by rw [← hfringe], ?_, hcursor, fun fuel' => ?_⟩
  · apply isOver_of_not_live (p := p) (w := (Walk.advance ⟨t.scene r, w⟩).walk)
    rw [cursor_store (.run p) _ h.cursor_lt, hended]
  · rw [← he]
    exact Walk.next_concerns hfield hfringe
  · rw [next_of_walk hcursor]
    cases rest with
    | nil =>
      rw [Walk.next_apply, Walk.step_nil rfl]
      exact .done
    | cons u rest =>
      exact .next (Walk.next_concerns
        (hasTextField_putScene hfield (Walk.advance_alike ⟨t.scene r, w⟩)) rfl)

/-- The sequences stay side by side through all requests before the first that fails. -/
theorem Shadows.asked (h : Shadows i p r w s t) {k : Nat}
    (hok : ∀ j < k, ∃ d, (next i (fuel + 1) (asked i (fuel + 1) j t)).result = .ok d) :
    ∃ w', Shadows i p r w' (asked i (fuel + 1) k s) (asked i (fuel + 1) k t) := by
  induction k with
  | zero => exact ⟨w, h⟩
  | succ k ih =>
    obtain ⟨w', hw'⟩ := ih fun j hj => hok j (Nat.lt_succ_of_lt hj)
    obtain ⟨d, hd⟩ := hok k (Nat.lt_succ_self k)
    simp only [Session.asked, Function.iterate_succ_apply']
    exact hw'.next_ok hd

/-! ## Opening -/

/-- Once the registry is found, it is as if it had been given. -/
theorem planFor_settled {o : Options σ} {c : Config σ} (hconfig : o.config = .ok c) :
    planFor registry o s = planFor (some (s.target registry)) o (s.settled registry) := by
  rw [planFor, planFor, hconfig, Act.ofExcept_ok_bind, Act.ofExcept_ok_bind, makePlan, makePlan,
    Act.bind_of_ok (registryOr_eq registry s)]
  rfl

theorem traverse_settled {o : Options σ} {c : Config σ} (hconfig : o.config = .ok c) :
    traverse registry o root s =
      traverse (some (s.target registry)) o root (s.settled registry) := by
  rw [traverse, traverse, Act.bind_apply, Act.bind_apply, planFor_settled hconfig]

theorem startWalk_settled {prune : Hook (Predicate σ)} :
    startWalk registry prune root s =
      startWalk (some (s.target registry)) prune root (s.settled registry) := by
  rw [startWalk, startWalk, Act.bind_of_ok (registryOr_eq registry s)]
  rfl

/-- Both sequences begin with the root, or are refused for the same reason. -/
theorem open_plain (r : Nat) (root : Value) (s : Session σ) :
    (traverse (some r) {} root s).Matches Agrees some (startWalk (some r) .absent root s) ∧
      ∀ i, (startWalk (some r) .absent root s).result = .ok i →
        ∃ p w, Shadows i p r w (traverse (some r) {} root s).state
          (startWalk (some r) .absent root s).state := by
  have hwalk : startWalk (some r) .absent root s =
      (Act.ofExcept (Walk.start (s.registry r) .absent root) >>= fun w =>
        addCursor (.walk r w)) s := rfl
  cases hstart : Walk.start (s.registry r) .absent root with
  | error e =>
    have hrun : Run.start {} (s.scene r) root = .error e := by
      simp [Run.start, Config.prune, scene, Hook.heeded, Hook.isSet, hstart, Bind.bind, Except.bind]
    have hplan : planFor (some r) {} s =
        ⟨.ok s.plans.size, { s with plans := s.plans.push { config := {}, registry := r } }, []⟩ :=
      rfl
    have hnew : Session.plan { s with plans := s.plans.push { config := {}, registry := r } }
        s.plans.size = { config := {}, registry := r } := by
      simp [Session.plan]
    have htraverse : traverse (some r) {} root s =
        ⟨.error e, { s with plans := s.plans.push { config := {}, registry := r } }, []⟩ := by
      rw [traverse, Act.bind_of_ok hplan, execute_of_error (by rw [hnew]; exact hrun)]
      rfl
    rw [htraverse, hwalk, hstart, Act.ofExcept_error_bind]
    refine ⟨⟨rfl, ⟨rfl, rfl, rfl⟩, rfl⟩, ?_⟩
    rintro i ⟨⟩
  | ok w =>
    have hrun : Run.start {} (s.scene r) root = .ok { toScene := s.scene r, walk := w } := by
      simp [Run.start, Config.prune, scene, Hook.heeded, Hook.isSet, hstart, Bind.bind, Except.bind,
        Pure.pure, Except.pure]
    have htraverse : traverse (some r) {} root s =
        addCursor (.run s.plans.size w true) (s.opened {} r) :=
      planFor_beginRun rfl rfl hrun fun p w => addCursor (.run p w true)
    have hfield : (s.registry r).HasTextField := by
      obtain ⟨prune, kind, -, hkind, -⟩ := Run.eq_of_start hrun
      exact Registry.hasTextField_of_kindOf hkind
    rw [htraverse, hwalk, hstart, Act.ofExcept_ok_bind]
    refine ⟨⟨rfl, ⟨rfl, rfl, rfl⟩, rfl⟩, ?_⟩
    rintro i ⟨⟩
    refine ⟨s.plans.size, w, ⟨rfl, rfl, rfl⟩, ⟨true, ?_, ?_⟩, ?_, ?_, ?_, ?_, ?_, hfield⟩
    · simp [addCursor, cursor, opened]
    · rintro ⟨⟩
    · simp [addCursor, cursor]
    · simp [addCursor, opened]
    · simp [addCursor, opened]
    · exact congrArg Plan.config (plan_opened s {} r)
    · exact congrArg Plan.registry (plan_opened s {} r)

end Session

end RuleWalk
