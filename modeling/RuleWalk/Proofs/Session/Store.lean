import RuleWalk.Proofs.Plan.Beat
import RuleWalk.Proofs.Registries
import RuleWalk.Proofs.Simulation
import RuleWalk.Session

/-!
# Runs in a session

What is put into a session is read back from the same place and nowhere else. A bare walk steps in
the scene of its registry. Any other lazy sequence of a session is a run whose parts are stored
apart: the walk with its cursor, the tally with its plan and the scene with its registry. `Holds`
puts the parts together again; a request to the cursor does what a request to that run does, and
keeps the parts in their places.
-/

namespace RuleWalk.Session

variable {σ α : Type} {s : Session σ} {i j p q r : Nat}

/-! ## Reading back -/

theorem scene_putScene (t : Scene σ) (hr : r < s.registries.size) :
    (s.putScene r t).scene r = t := by
  rw [scene, registry, putScene, Registries.get_set_self _ hr]

theorem plan_putPlan (b : Plan σ) (hp : p < s.plans.size) : (s.putPlan p b).plan p = b := by
  simp [plan, putPlan, hp]

theorem cursor_putCursor (c : Cursor σ) (hi : i < s.cursors.size) :
    (s.putCursor i c).cursor i = c := by
  simp [cursor, putCursor, hi]

theorem cursor_putCursor_ne (h : j ≠ i) (c : Cursor σ) :
    (s.putCursor i c).cursor j = s.cursor j := by
  simp [cursor, putCursor, Array.getElem?_setIfInBounds_ne h.symm]

theorem registry_putScene_ne (h : q ≠ r) (t : Scene σ) :
    (s.putScene r t).registry q = s.registry q :=
  Registries.get_set_ne _ h.symm

/-! ## Bare walks -/

/-- A step of a walk is a step in the scene of its registry. -/
theorem stepWalk_of_walk {w : Walk σ} (h : s.cursor i = .walk r w) :
    stepWalk i s =
      ⟨(Walk.step ⟨s.scene r, w⟩).result,
        (s.putScene r (Walk.advance ⟨s.scene r, w⟩).toScene).putCursor i
          (.walk r (Walk.advance ⟨s.scene r, w⟩).walk),
        (Walk.step ⟨s.scene r, w⟩).entries⟩ := by
  rw [stepWalk, h]
  rfl

theorem stepWalk_of_not_walk (h : ∀ r w, s.cursor i ≠ .walk r w) :
    stepWalk i s = ⟨.ok none, s, []⟩ := by
  unfold stepWalk
  split
  · next hcursor => exact absurd hcursor (h _ _)
  · rfl

theorem lt_of_cursor_walk {w : Walk σ} (h : s.cursor i = .walk r w) :
    i < s.cursors.size := by
  apply Classical.byContradiction
  intro hi
  rw [cursor, Array.getElem?_eq_none (Nat.not_lt.1 hi)] at h
  cases h

/-! ## Runs by their parts -/

/-- The session in which a run is put back in its places. -/
def store (s : Session σ) (i p : Nat) (make : Walk σ → Bool → Cursor σ) (t : Run σ) : Session σ :=
  ((s.putScene (s.plan p).registry t.toScene).putPlan p
    { s.plan p with tally := t.tally }).putCursor i (make t.walk t.live)

section Store

variable (make : Walk σ → Bool → Cursor σ) (t : Run σ)

/-- Acting on a run takes it from its places and puts it back. -/
theorem onRun_apply (w : Walk σ) (live : Bool) (m : Act Entry (Run σ) α) (s : Session σ) :
    onRun i p w live make m s =
      ⟨(m (s.run p w live)).result, s.store i p make (m (s.run p w live)).state,
        (m (s.run p w live)).entries⟩ := rfl

theorem plan_store (hp : p < s.plans.size) :
    (s.store i p make t).plan p = { s.plan p with tally := t.tally } :=
  plan_putPlan (s := s.putScene _ t.toScene) _ hp

theorem scene_store (hr : (s.plan p).registry < s.registries.size) :
    (s.store i p make t).scene (s.plan p).registry = t.toScene := scene_putScene t.toScene hr

theorem cursor_store (hi : i < s.cursors.size) :
    (s.store i p make t).cursor i = make t.walk t.live :=
  cursor_putCursor (s := (s.putScene _ t.toScene).putPlan p _) _ hi

theorem cursor_store_ne (h : j ≠ i) : (s.store i p make t).cursor j = s.cursor j :=
  cursor_putCursor_ne (s := (s.putScene _ t.toScene).putPlan p _) h _

@[simp] theorem size_cursors_store : (s.store i p make t).cursors.size = s.cursors.size := by
  simp [store, putScene, putPlan, putCursor]

@[simp] theorem size_plans_store : (s.store i p make t).plans.size = s.plans.size := by
  simp [store, putScene, putPlan, putCursor]

@[simp] theorem size_registries_store :
    (s.store i p make t).registries.size = s.registries.size := by
  simp [store, putScene, putPlan, putCursor]

end Store

/-- The plan `p` of a session, with a walk that is kept elsewhere, is the run `t`. -/
structure Carries (p : Nat) (c : Config σ) (s : Session σ) (t : Run σ) : Prop where
  config : (s.plan p).config = c
  run : s.run p t.walk t.live = t
  plan_lt : p < s.plans.size
  registry_lt : (s.plan p).registry < s.registries.size

/-- The cursor `i`, made by `make`, stands for a run of the plan `p`, which is `t`. -/
structure Holds (i p : Nat) (make : Walk σ → Bool → Cursor σ) (c : Config σ) (s : Session σ)
    (t : Run σ) : Prop extends Carries p c s t where
  cursor : s.cursor i = make t.walk t.live
  cursor_lt : i < s.cursors.size

theorem Carries.store {c : Config σ} {t : Run σ} (h : Carries p c s t) (hi : i < s.cursors.size)
    (make : Walk σ → Bool → Cursor σ) (t' : Run σ) : Holds i p make c (s.store i p make t') t' := by
  have hplan := plan_store (i := i) make t' h.plan_lt
  refine ⟨⟨?_, ?_, ?_, ?_⟩, cursor_store make t' hi, ?_⟩
  · rw [hplan]
    exact h.config
  · rw [Session.run, hplan, scene_store make t' h.registry_lt]
  · rw [size_plans_store]
    exact h.plan_lt
  · rw [hplan, size_registries_store]
    exact h.registry_lt
  · rwa [size_cursors_store]

/-- Acting on a run of the session is acting on the run, and puts the parts back in their places. -/
theorem onRun_matches {c : Config σ} {t : Run σ} (h : Carries p c s t) (hi : i < s.cursors.size)
    (make : Walk σ → Bool → Cursor σ) (m : Act Entry (Run σ) α) :
    (onRun i p t.walk t.live make m s).Matches (Holds i p make c) some (m t) := by
  rw [onRun_apply, h.run]
  exact ⟨rfl, h.store hi make (m t).state, rfl⟩

/-- A request to a cursor is a request to the run it stands for. -/
theorem next_simulates_of {make : Walk σ → Bool → Cursor σ} {fuel : Nat}
    (m : Config σ → Act Entry (Run σ) Delivery)
    (hmake : ∀ s w live, s.cursor i = make w live →
      next i fuel s = onRun i p w live make (m (s.plan p).config) s) (c : Config σ) :
    Act.Simulates (Holds i p make c) some (next i fuel) (m c) := by
  intro s t h
  rw [hmake s t.walk t.live h.cursor, h.config]
  exact onRun_matches h.toCarries h.cursor_lt make (m c)

theorem next_run_simulates (i p fuel : Nat) (c : Config σ) :
    Act.Simulates (Holds i p (.run p) c) some (next i fuel) (Run.next c fuel) :=
  next_simulates_of (fun c => Run.next c fuel) (fun s w live h => by rw [next, h]) c

theorem next_leaves_simulates (i p fuel : Nat) (c : Config σ) :
    Act.Simulates (Holds i p (.leaves p) c) some (next i fuel) (Run.nextLeaf c fuel) :=
  next_simulates_of (fun c => Run.nextLeaf c fuel) (fun s w live h => by rw [next, h]) c

/-! ## Opening -/

section Opening

variable {o : Options σ} {c : Config σ} {root : Value} {t : Run σ}

/-- A run that begins leaves its walk to be stored, and starts the tally of its plan anew. -/
theorem beginRun_eq
    (h : Run.start (s.plan p).config (s.scene (s.plan p).registry) root = .ok t) :
    beginRun p root s = ⟨.ok t.walk, s.putPlan p (s.plan p).restart, []⟩ := by
  rw [beginRun, Act.get_bind, h, Act.ofExcept_ok_bind, Act.modify_bind]
  rfl

/-- The session with one more plan, of which a run has begun. -/
def opened (s : Session σ) (c : Config σ) (r : Nat) : Session σ :=
  { s with plans := s.plans.push (Plan.restart { config := c, registry := r }) }

theorem plan_opened (s : Session σ) (c : Config σ) (r : Nat) :
    (s.opened c r).plan s.plans.size = Plan.restart { config := c, registry := r } := by
  simp [plan, opened]

/-- Options that make sense open a plan and begin its first run. -/
theorem planFor_beginRun (hconfig : o.config = .ok c) (hcheck : c.check = .ok ())
    (hstart : Run.start c (s.scene r) root = .ok t)
    (f : Nat → Walk σ → Act Entry (Session σ) α) :
    (planFor (some r) o >>= fun p => beginRun p root >>= f p) s =
      f s.plans.size t.walk (s.opened c r) := by
  have hplan : planFor (some r) o s =
      ⟨.ok s.plans.size, { s with plans := s.plans.push { config := c, registry := r } }, []⟩ := by
    rw [planFor, hconfig, Act.ofExcept_ok_bind, makePlan, registryOr, hcheck]
    rfl
  have hnew : Session.plan { s with plans := s.plans.push { config := c, registry := r } }
      s.plans.size = { config := c, registry := r } := by
    simp [plan]
  have hbegun : beginRun s.plans.size root
      { s with plans := s.plans.push { config := c, registry := r } } =
      ⟨.ok t.walk, s.opened c r, []⟩ := by
    have hput : (s.plans.push { config := c, registry := r }).setIfInBounds s.plans.size
        (Plan.restart { config := c, registry := r }) =
        s.plans.push (Plan.restart { config := c, registry := r }) := by
      apply Array.ext'
      simp
    rw [beginRun_eq (by rw [hnew]; exact hstart), hnew, putPlan, hput]
    rfl
  rw [Act.bind_of_ok hplan, Act.bind_of_ok hbegun]
  simp [Outcome.after]

/-- The plan that was opened carries the run as it was begun. -/
theorem opened_carries (hr : r < s.registries.size)
    (hstart : Run.start c (s.scene r) root = .ok t) :
    Carries s.plans.size c (s.opened c r) t := by
  obtain ⟨prune, kind, -, -, rfl⟩ := Run.eq_of_start hstart
  have hplan := plan_opened s c r
  refine ⟨?_, ?_, ?_, ?_⟩
  · rw [hplan]
    rfl
  · rw [run, hplan]
    rfl
  · simp [opened]
  · rw [hplan]
    exact hr

/-- A query that is run to its end does what the run does, and leaves its parts in their places. -/
theorem runThrough_matches (hconfig : o.config = .ok c) (hcheck : c.check = .ok ())
    (hr : r < s.registries.size) (hstart : Run.start c (s.scene r) root = .ok t)
    (m : Config σ → Act Entry (Run σ) α) :
    (runThrough (some r) o root m s).Matches
      (fun s' t' => s'.scene r = t'.toScene) some (m c t) := by
  let spent : Session σ := { s.opened c r with cursors := s.cursors.push .spent }
  have hcarries := opened_carries hr hstart
  have hspent : addCursor .spent (s.opened c r) = ⟨.ok s.cursors.size, spent, []⟩ := rfl
  have hconfig' : (spent.plan s.plans.size).config = c := hcarries.config
  have hregistry : (spent.plan s.plans.size).registry = r := by
    have hplan : spent.plan s.plans.size = _ := plan_opened s c r
    rw [hplan]
    rfl
  have hrun : spent.run s.plans.size t.walk true = t := by
    rw [← Run.live_of_start hstart]
    exact hcarries.run
  rw [runThrough, planFor_beginRun hconfig hcheck hstart, Act.bind_of_ok hspent, Act.get_bind,
    onRun_apply, hconfig', hrun]
  refine ⟨rfl, ?_, rfl⟩
  have hscene := scene_store (i := s.cursors.size) (p := s.plans.size)
    (fun _ _ => (.spent : Cursor σ)) (m c t).state (hregistry ▸ hr)
  rwa [hregistry] at hscene

/-- A query that is run to its end gives what the run gives. -/
theorem runThrough_result (hconfig : o.config = .ok c) (hcheck : c.check = .ok ())
    (hr : r < s.registries.size) (hstart : Run.start c (s.scene r) root = .ok t)
    (m : Config σ → Act Entry (Run σ) α) :
    (runThrough (some r) o root m s).result = (m c t).result :=
  (runThrough_matches hconfig hcheck hr hstart m).result

/-- The first request for a leaf opens a plan, and from then on the cursor stands for its run. -/
theorem openLeaves_matches (hconfig : o.watching.config = .ok c) (hcheck : c.check = .ok ())
    (hr : r < s.registries.size) (hi : i < s.cursors.size)
    (hstart : Run.start c (s.scene r) root = .ok t) (fuel : Nat) :
    (openLeaves i (some r) o root fuel s).Matches (Holds i s.plans.size (.leaves s.plans.size) c)
      some (Run.nextLeaf c fuel t) := by
  have hcarries : Carries s.plans.size c ((s.putCursor i .spent).opened c r) t :=
    opened_carries (s := s.putCursor i .spent) hr hstart
  have hlive := Run.live_of_start hstart
  have hi' : i < ((s.putCursor i .spent).opened c r).cursors.size := by
    simpa [opened, putCursor] using hi
  have hmatches := onRun_matches hcarries hi' (.leaves s.plans.size) (Run.nextLeaf c fuel)
  rw [openLeaves, Act.modify_bind,
    planFor_beginRun (s := s.putCursor i .spent) hconfig hcheck hstart, Act.get_bind]
  rw [hlive] at hmatches
  have hplan : (s.putCursor i .spent).plans.size = s.plans.size := rfl
  rw [hplan, hcarries.config]
  exact hmatches

/-- Once the first request has opened the leaves of a run, what is drawn are the leaves of the
run. -/
theorem draw_unopened {registry : Option Nat} {fuel : Nat}
    (hopen : (openLeaves s.cursors.size registry o root fuel
      (leaves registry o root s).state).Matches (Holds s.cursors.size p (.leaves p) c) some
        (Run.nextLeaf c fuel t)) (limit : Option Nat) :
    ∃ R, (draw s.cursors.size limit fuel (leaves registry o root s).state).Matches R some
      (drain (Run.nextLeaf c fuel) limit fuel t) := by
  have hcursor : (leaves registry o root s).state.cursor s.cursors.size =
      .unopened registry o root := by
    simp [leaves, addCursor, cursor]
  -- Before the first request the cursor is not opened yet; from then on it stands for the run.
  let R (s' : Session σ) (t' : Run σ) : Prop :=
    (s' = (leaves registry o root s).state ∧ t' = t) ∨
      Holds s.cursors.size p (.leaves p) c s' t'
  have hnext : Act.Simulates R some (next s.cursors.size fuel) (Run.nextLeaf c fuel) := by
    rintro s' t' (⟨rfl, rfl⟩ | h)
    · rw [next, hcursor]
      exact ⟨hopen.result, .inr hopen.state, hopen.entries⟩
    · have hleaf := next_leaves_simulates s.cursors.size p fuel c s' t' h
      exact ⟨hleaf.result, .inr hleaf.state, hleaf.entries⟩
  exact ⟨R, simulates_drain hnext limit fuel _ _ (.inl ⟨rfl, rfl⟩)⟩

/-- The leaves of a session are the leaves of the run that their options ask for. -/
theorem draw_leaves (hconfig : o.watching.config = .ok c) (hcheck : c.check = .ok ())
    (hr : r < s.registries.size) (hstart : Run.start c (s.scene r) root = .ok t)
    (limit : Option Nat) (fuel : Nat) :
    (draw s.cursors.size limit fuel (leaves (some r) o root s).state).result =
      (drain (Run.nextLeaf c fuel) limit fuel t).result := by
  have hi : s.cursors.size < (leaves (some r) o root s).state.cursors.size := by
    simp [leaves, addCursor]
  obtain ⟨R, hdrawn⟩ := draw_unopened (openLeaves_matches (s := (leaves (some r) o root s).state)
    hconfig hcheck hr hi hstart fuel) limit
  exact hdrawn.result

end Opening

end RuleWalk.Session
