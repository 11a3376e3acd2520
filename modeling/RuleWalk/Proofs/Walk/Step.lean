import RuleWalk.Proofs.Scene
import RuleWalk.Proofs.Unfolding
import RuleWalk.Walk

/-!
# One step of a walk

`step_cons` is all that a step can do: the first node leaves the fringe, and what was found for it
takes its place. Where rules and test are pure, what is found depends on the node alone, and a step
goes on by one along the list of nodes that lie ahead.
-/

namespace RuleWalk.Walk

variable {σ : Type} {prune : Hook (Predicate σ)}

/-- The children that a walk finds at a node: none where it is pruned or its expansion fails. -/
def found (prune : Hook (Predicate σ)) (v : Value) (s : Scene σ) : List Value :=
  match (expand prune v s).result with
  | .ok slots => Scene.present slots
  | .error _ => []

theorem null_notMem_found (prune : Hook (Predicate σ)) (v : Value) (s : Scene σ) :
    Value.null ∉ found prune v s := by
  unfold found
  split
  · exact Scene.null_notMem_present _
  · exact List.not_mem_nil

/-! ## Expansions -/

theorem pruned_alike (prune : Hook (Predicate σ)) (v : Value) (s : Scene σ) :
    (pruned prune v s).state.Alike s := by
  unfold pruned
  split <;> exact ⟨rfl, rfl⟩

/-- Without a test, an expansion only looks for the slots. -/
theorem expand_absent (v : Value) (s : Scene σ) : expand .absent v s = Scene.slotsOf v s := rfl

/-- Whatever the caller's functions do, the rules and the kind field stay. -/
theorem expand_alike (prune : Hook (Predicate σ)) (v : Value) (s : Scene σ) :
    (expand prune v s).state.Alike s := by
  refine Act.bind_keeps (P := fun t : Scene σ => t.Alike s) (pruned_alike prune v s) fun b => ?_
  cases b with
  | true => exact pruned_alike prune v s
  | false => exact (Scene.slotsOf_alike v _).trans (pruned_alike prune v s)

/-- An expansion asks the test and the rule, and puts nothing else on record. -/
theorem expand_hides {κ : Type} {view : Entry → Option κ}
    (hview : ∀ e, e.isInquiry = true → view e = none) (prune : Hook (Predicate σ)) (v : Value) :
    Act.Hides view (expand prune v) := by
  refine Act.Hides.bind ?_ fun b => ?_
  · unfold pruned
    split
    · exact (Hook.call_hides (fun _ => hview _ rfl) _ prune).zoom _ _
    · exact Act.hides_pure false
  · cases b with
    | true => exact Act.hides_pure []
    | false => exact Scene.slotsOf_hides hview v

theorem expand_result (prune : Hook (Predicate σ)) (v : Value) (s : Scene σ) :
    (expand prune v s).result =
      match (pruned prune v s).result with
      | .ok true => .ok []
      | .ok false => (Scene.slotsOf v (pruned prune v s).state).result
      | .error e => .error e := by
  rw [expand, Act.bind_result]
  rcases (pruned prune v s).result with e | _ | _ <;> rfl

theorem pruned_result_congr (hprune : prune.All Predicate.IsPure) (v : Value) (s t : Scene σ) :
    (pruned prune v s).result = (pruned prune v t).result := by
  cases prune with
  | absent => rfl
  | inert w => exact hprune.elim
  | live p => exact hprune v s.user t.user

/-- In scenes that are alike, pure functions give one expansion. -/
theorem expand_result_congr {s t : Scene σ} (hprune : prune.All Predicate.IsPure)
    (hrules : t.registry.AllRules Rule.IsPure) (h : s.Alike t) (v : Value) :
    (expand prune v s).result = (expand prune v t).result := by
  -- The test was asked first, and the rules meet the state that it left.
  have hslots : (Scene.slotsOf v (pruned prune v s).state).result =
      (Scene.slotsOf v (pruned prune v t).state).result := by
    rw [Scene.slotsOf_result_congr ((pruned_alike prune v s).trans h) hrules,
      Scene.slotsOf_result_congr (pruned_alike prune v t) hrules]
  rw [expand_result, expand_result, pruned_result_congr hprune v s t, hslots]

theorem found_congr {s t : Scene σ} (hprune : prune.All Predicate.IsPure)
    (hrules : t.registry.AllRules Rule.IsPure) (h : s.Alike t) (v : Value) :
    found prune v s = found prune v t := by
  rw [found, found, expand_result_congr hprune hrules h]

/-- A test that never fails is asked for what it holds of. -/
theorem pruned_result (hprune : prune.All Predicate.NeverFails) (v : Value) (s : Scene σ) :
    (pruned prune v s).result = .ok (prune.holds s.user v) := by
  cases prune with
  | absent => rfl
  | inert w => exact hprune.elim
  | live p =>
    obtain ⟨b, hb⟩ := hprune v s.user
    rw [Hook.holds_of_ok hb]
    exact hb

/-- Expansion with a test that never fails, and pure rules. -/
theorem expand_result_of_neverFails {s : Scene σ} (hprune : prune.All Predicate.NeverFails)
    (hrules : s.registry.AllRules Rule.IsPure) (v : Value) :
    (expand prune v s).result =
      if prune.holds s.user v then .ok [] else (Scene.slotsOf v s).result := by
  rw [expand_result, pruned_result hprune]
  cases prune.holds s.user v with
  | true => rfl
  | false => exact Scene.slotsOf_result_congr (pruned_alike prune v s) hrules v

/-- What a walk finds is what the scene shows, or nothing where the node is pruned. -/
theorem found_eq {s : Scene σ} (hprune : prune.All Predicate.NeverFails)
    (hrules : s.registry.AllRules Rule.IsPure) (v : Value) :
    found prune v s = if prune.holds s.user v then [] else s.kids v := by
  rw [found, expand_result_of_neverFails hprune hrules]
  cases prune.holds s.user v <;> rfl

/-! ## Steps -/

theorem start_eq {registry : Registry σ} {root : Value} {kind : String}
    (h : registry.kindOf root = .ok (some kind)) :
    start registry prune root = .ok ⟨[root], prune⟩ := by
  rw [start, h]

/-- The stage after a step, whatever the step gave. -/
def advance (s : Stage σ) : Stage σ := (step s).state

theorem step_nil {s : Stage σ} (h : s.walk.fringe = []) : step s = ⟨.ok none, s, []⟩ := by
  rw [step]
  simp only [h]

/-- All that a step can do while a node waits. -/
theorem step_cons {s : Stage σ} {v : Value} {rest : List Value} (h : s.walk.fringe = v :: rest) :
    step s =
      { result := match (expand s.walk.prune v s.toScene).result with
          | .ok _ => .ok (some v)
          | .error e => .error (stepFault (expand s.walk.prune v s.toScene).state.registry v e)
        state :=
          { toScene := (expand s.walk.prune v s.toScene).state
            walk := ⟨found s.walk.prune v s.toScene ++ rest, s.walk.prune⟩ }
        entries := (expand s.walk.prune v s.toScene).entries } := by
  rw [step, found]
  simp only [h]
  rcases expand s.walk.prune v s.toScene with ⟨_ | slots, t, es⟩ <;> rfl

/-- A step puts on record what the expansion does. -/
theorem step_hides {κ : Type} {view : Entry → Option κ}
    (hview : ∀ e, e.isInquiry = true → view e = none) :
    Act.Hides view (step : Act Entry (Stage σ) (Option Value)) := by
  intro s
  cases hfringe : s.walk.fringe with
  | nil => rw [step_nil hfringe]; rfl
  | cons v rest =>
    rw [step_cons hfringe]
    exact expand_hides hview s.walk.prune v s.toScene

theorem advance_alike (s : Stage σ) : (advance s).toScene.Alike s.toScene := by
  cases hfringe : s.walk.fringe with
  | nil =>
    rw [advance, step_nil hfringe]
    exact .refl _
  | cons v rest =>
    rw [advance, step_cons hfringe]
    exact expand_alike s.walk.prune v s.toScene

theorem advance_prune (s : Stage σ) : (advance s).walk.prune = s.walk.prune := by
  cases hfringe : s.walk.fringe with
  | nil => rw [advance, step_nil hfringe]
  | cons v rest => rw [advance, step_cons hfringe]

/-- In scenes that are like one with pure rules, walks that are the same take the same step. -/
theorem step_congr {scene : Scene σ} {s t : Stage σ} (hrules : scene.registry.AllRules Rule.IsPure)
    (hs : s.toScene.Alike scene) (ht : t.toScene.Alike scene) (hwalk : s.walk = t.walk)
    (hprune : t.walk.prune.All Predicate.IsPure) :
    (step s).result = (step t).result ∧ (advance s).walk = (advance t).walk := by
  rw [advance, advance]
  cases hfringe : t.walk.fringe with
  | nil =>
    rw [step_nil hfringe, step_nil (hwalk ▸ hfringe)]
    exact ⟨rfl, hwalk⟩
  | cons v rest =>
    have hexpand : (expand t.walk.prune v s.toScene).result =
        (expand t.walk.prune v t.toScene).result := by
      rw [expand_result_congr hprune hrules hs, expand_result_congr hprune hrules ht]
    have hkind : (expand t.walk.prune v s.toScene).state.registry.kindOf v =
        (expand t.walk.prune v t.toScene).state.registry.kindOf v := by
      rw [((expand_alike _ v _).trans hs).kindOf, ((expand_alike _ v _).trans ht).kindOf]
    rw [step_cons hfringe, step_cons (hwalk ▸ hfringe), hwalk, found, found, hexpand]
    simp only [stepFault, hkind, and_self]

/-- The nodes in `l` are those that a walk, begun in `scene` and pruned by `prune`, still has to
take. -/
structure Follows (prune : Hook (Predicate σ)) (scene : Scene σ) (l : List Value) (s : Stage σ) :
    Prop where
  alike : s.toScene.Alike scene
  prune_eq : s.walk.prune = prune
  ahead : Ahead (fun v => found prune v scene) s.walk.fringe l

namespace Follows

variable {scene : Scene σ} {l rest : List Value} {v : Value} {s : Stage σ}

theorem fringe_nil (h : Follows prune scene [] s) : s.walk.fringe = [] := by
  cases hs : s.walk.fringe with
  | nil => rfl
  | cons v rest => exact nomatch hs ▸ h.ahead

/-- The first node that lies ahead is the first on the fringe. -/
theorem fringe_cons (h : Follows prune scene (v :: l) s) :
    ∃ rest, s.walk.fringe = v :: rest ∧
      Ahead (fun v => found prune v scene) (found prune v scene ++ rest) l := by
  have hahead := h.ahead
  generalize s.walk.fringe = fringe at hahead
  cases hahead with
  | next hnext => exact ⟨_, rfl, hnext⟩

/-- A walk is done when nothing lies ahead. -/
theorem isDone_iff (h : Follows prune scene l s) : s.walk.isDone = true ↔ l = [] := by
  cases l with
  | nil => simp [isDone, h.fringe_nil]
  | cons v l =>
    obtain ⟨rest, hfringe, -⟩ := h.fringe_cons
    simp [isDone, hfringe]

/-- A step takes the first node that lies ahead, if there is one. -/
theorem advance (hprune : prune.All Predicate.IsPure)
    (hrules : scene.registry.AllRules Rule.IsPure) (h : Follows prune scene l s) :
    Follows prune scene l.tail (advance s) := by
  cases l with
  | nil => rwa [Walk.advance, step_nil h.fringe_nil]
  | cons v l =>
    obtain ⟨rest, hfringe, hahead⟩ := h.fringe_cons
    have hfound := found_congr hprune hrules h.alike v
    rw [Walk.advance, step_cons hfringe, h.prune_eq, hfound]
    exact ⟨(expand_alike prune v s.toScene).trans h.alike, rfl, hahead⟩

end Follows

end RuleWalk.Walk
