import Mathlib.Algebra.GroupWithZero.Nat
import Mathlib.Logic.Function.Iterate
import RuleWalk.Proofs.Fault
import RuleWalk.Proofs.Rules
import RuleWalk.Proofs.Walk.Step

/-!
# The tree that a walk has seen

Rules can answer differently each time they are asked, and they can be replaced between two steps,
so a walk need not have a tree given in advance. It has the tree it has seen: each node taken off
the fringe is an occurrence that was expanded, with the children that were found at that moment.
This tree grows at its first pending occurrence, and it always lists what was taken first and then
what waits.

A move is a step or a change of the registry. `Sound` is what every move keeps; `play_growth` reads
the tree, the count and the fringe off it, after any number of moves.
-/

namespace RuleWalk

/-- A node that a walk took off its fringe, and the children that it found there. -/
structure Visit where
  node : Value
  found : List Value

/-- Ordered trees side by side, some of whose leaves still wait to be expanded. -/
inductive Growth where
  | nil
  | pending (value : Value) (siblings : Growth)
  | expanded (value : Value) (children siblings : Growth)

namespace Growth

def roots : Growth → List Value
  | nil => []
  | pending v s => v :: s.roots
  | expanded v _ s => v :: s.roots

/-- The expanded occurrences in pre-order, each with its children. -/
def visits : Growth → List Visit
  | nil => []
  | pending _ s => s.visits
  | expanded v c s => ⟨v, c.roots⟩ :: (c.visits ++ s.visits)

/-- The pending occurrences from left to right. -/
def waiting : Growth → List Value
  | nil => []
  | pending v s => v :: s.waiting
  | expanded _ c s => c.waiting ++ s.waiting

/-- Pending leaves side by side. -/
def sprout : List Value → Growth
  | [] => nil
  | v :: vs => pending v (sprout vs)

/-- The first pending occurrence, from the left, gets its children. -/
def graft (found : List Value) : Growth → Growth
  | nil => nil
  | pending v s => expanded v (sprout found) s
  | expanded v c s =>
    if c.waiting.isEmpty then expanded v c (s.graft found) else expanded v (c.graft found) s

/-- The tree that grows from `root` when one list of children after the other is given. -/
def of (root : Value) (lists : List (List Value)) : Growth :=
  lists.foldl (fun g found => g.graft found) (pending root nil)

/-- All occurrences in pre-order, expanded or pending. -/
def occurrences : Growth → List (Visit ⊕ Value)
  | nil => []
  | pending v s => .inr v :: s.occurrences
  | expanded v c s => .inl ⟨v, c.roots⟩ :: (c.occurrences ++ s.occurrences)

theorem visits_eq (g : Growth) : g.visits = g.occurrences.filterMap Sum.getLeft? := by
  induction g with
  | nil => rfl
  | pending v s ih => simpa [visits, occurrences, List.filterMap_cons] using ih
  | expanded v c s ihc ihs => simp [visits, occurrences, ihc, ihs]

theorem waiting_eq (g : Growth) : g.waiting = g.occurrences.filterMap Sum.getRight? := by
  induction g with
  | nil => rfl
  | pending v s ih => simpa [waiting, occurrences] using ih
  | expanded v c s ihc ihs => simp [waiting, occurrences, List.filterMap_cons, ihc, ihs]

@[simp] theorem roots_sprout (vs : List Value) : (sprout vs).roots = vs := by
  induction vs with
  | nil => rfl
  | cons v vs ih => rw [sprout, roots, ih]

@[simp] theorem occurrences_sprout (vs : List Value) : (sprout vs).occurrences = vs.map .inr := by
  induction vs with
  | nil => rfl
  | cons v vs ih => rw [sprout, occurrences, ih, List.map_cons]

@[simp] theorem roots_graft (found : List Value) (g : Growth) :
    (g.graft found).roots = g.roots := by
  induction g with
  | nil => rfl
  | pending v s => rfl
  | expanded v c s _ ihs =>
    rw [graft]
    split
    · rw [roots, roots, ihs]
    · rfl

/-- Grafting, on the listing: the children are listed behind their parent. -/
def plant (found : List Value) : List (Visit ⊕ Value) → List (Visit ⊕ Value)
  | [] => []
  | .inl x :: l => .inl x :: plant found l
  | .inr v :: l => .inl ⟨v, found⟩ :: (found.map .inr ++ l)

theorem plant_append_of_none (found : List Value) {l : List (Visit ⊕ Value)}
    (h : l.filterMap Sum.getRight? = []) (l' : List (Visit ⊕ Value)) :
    plant found (l ++ l') = l ++ plant found l' := by
  induction l with
  | nil => rfl
  | cons x l ih =>
    cases x with
    | inl x => rw [List.cons_append, plant, ih h, List.cons_append]
    | inr v => simp at h

theorem plant_append_of_some (found : List Value) {l : List (Visit ⊕ Value)}
    (h : l.filterMap Sum.getRight? ≠ []) (l' : List (Visit ⊕ Value)) :
    plant found (l ++ l') = plant found l ++ l' := by
  induction l with
  | nil => exact absurd rfl h
  | cons x l ih =>
    cases x with
    | inl x => rw [List.cons_append, plant, plant, ih h, List.cons_append]
    | inr v => simp [plant]

/-- Grafting, seen on the listing. -/
theorem occurrences_graft (found : List Value) (g : Growth) :
    (g.graft found).occurrences = plant found g.occurrences := by
  induction g with
  | nil => rfl
  | pending v s => simp [graft, occurrences, plant]
  | expanded v c s ihc ihs =>
    rw [graft, occurrences, plant]
    -- The first pending place is below `v`, unless nothing is pending there.
    by_cases hc : c.waiting = []
    · rw [if_pos (by simp [hc]), occurrences, ihs, plant_append_of_none found (waiting_eq c ▸ hc)]
    · rw [if_neg (by simp [hc]), occurrences, roots_graft, ihc,
        plant_append_of_some found (waiting_eq c ▸ hc)]

/-- Where everything expanded is listed before everything pending, grafting keeps it so. -/
theorem plant_visits (found : List Value) (vs : List Visit) (v : Value) (l : List Value) :
    plant found (vs.map .inl ++ .inr v :: l.map .inr) =
      (vs ++ [(⟨v, found⟩ : Visit)]).map .inl ++ (found ++ l).map .inr := by
  induction vs with
  | nil => simp [plant]
  | cons x vs ih => simpa [plant] using ih

end Growth

/-! ## Histories -/

namespace Registry

variable {σ : Type}

theorem register_kindField (kind : Value) (candidate : Candidate σ) (r : Registry σ) :
    (register kind candidate r).state.kindField = r.kindField := by
  unfold register
  split
  · split
    · rfl
    · split <;> rfl
  · rfl

theorem unregister_kindField (kind : Value) (r : Registry σ) :
    (unregister kind r).state.kindField = r.kindField := by
  unfold unregister
  split
  · rfl
  · split
    · split <;> rfl
    · rfl

end Registry

/-- What a caller does with one walk: step, or change a rule between two steps. -/
inductive Move (σ : Type) where
  | step
  | register (kind : Value) (candidate : Candidate σ)
  | unregister (kind : Value)

/-- A walk that is under way, with all its visits so far. -/
structure History (σ : Type) where
  stage : Stage σ
  visits : List Visit

namespace History

variable {σ : Type} {root : Value} {h : History σ}

/-- The visit that the next step makes. -/
def visit? (s : Stage σ) : Option Visit :=
  s.walk.fringe.head?.map fun v => ⟨v, Walk.found s.walk.prune v s.toScene⟩

/-- Changes the registry, or leaves it as it is where the change is refused. -/
def change (m : Act Entry (Registry σ) Unit) (h : History σ) : History σ :=
  { h with stage := { h.stage with toScene := (Scene.onRegistry m h.stage.toScene).state } }

def move (h : History σ) : Move σ → History σ
  | .step => ⟨Walk.advance h.stage, h.visits ++ (visit? h.stage).toList⟩
  | .register kind candidate => h.change (Registry.register kind candidate)
  | .unregister kind => h.change (Registry.unregister kind)

/-- A sequence of moves. -/
def play (h : History σ) (moves : List (Move σ)) : History σ := moves.foldl move h

/-- The tree built from the children that were found, visit by visit. -/
def growth (root : Value) (h : History σ) : Growth := .of root (h.visits.map (·.found))

/-- The tree lists the visits and then the fringe. No hole waits, and kinds can be read. -/
structure Sound (root : Value) (h : History σ) : Prop where
  occurrences : (h.growth root).occurrences =
    h.visits.map .inl ++ h.stage.walk.fringe.map .inr
  count : h.visits.length + h.stage.walk.pending = 1 + (h.visits.map (·.found.length)).sum
  null_notMem : Value.null ∉ h.stage.walk.fringe
  hasTextField : h.stage.registry.HasTextField

namespace Sound

theorem start {scene : Scene σ} {prune : Hook (Predicate σ)} {w : Walk σ}
    (hw : Walk.start scene.registry prune root = .ok w) : Sound root ⟨⟨scene, w⟩, []⟩ := by
  unfold Walk.start at hw
  split at hw
  · cases hw
  · cases hw
  · next kind hkind =>
    cases hw
    refine ⟨rfl, rfl, fun hnull => ?_, Registry.hasTextField_of_kindOf hkind⟩
    cases List.mem_singleton.mp hnull
    cases hkind

theorem change (m : Act Entry (Registry σ) Unit) (hs : h.Sound root)
    (hfield : (m h.stage.registry).state.kindField = h.stage.registry.kindField) :
    (h.change m).Sound root where
  occurrences := hs.occurrences
  count := hs.count
  null_notMem := hs.null_notMem
  hasTextField := by
    obtain ⟨field, h'⟩ := hs.hasTextField
    exact ⟨field, hfield.trans h'⟩

theorem step (hs : h.Sound root) : (h.move .step).Sound root := by
  rw [move, visit?]
  cases hfringe : h.stage.walk.fringe with
  | nil =>
    rw [Walk.advance, Walk.step_nil hfringe]
    simpa using hs
  | cons v rest =>
    have hnull := hs.null_notMem
    rw [hfringe, List.mem_cons, not_or] at hnull
    have hlisted := hs.occurrences
    rw [growth, Growth.of, hfringe, List.map_cons] at hlisted
    have hcount := hs.count
    rw [Walk.pending, hfringe, List.length_cons] at hcount
    have halike := Walk.expand_alike h.stage.walk.prune v h.stage.toScene
    rw [Walk.advance, Walk.step_cons hfringe]
    refine ⟨?_, ?_, ?_, halike.hasTextField hs.hasTextField⟩
    -- On the listing, the end of the visits and the first pending place are the same place.
    · simp only [growth, Growth.of, List.head?_cons, Option.map_some, Option.toList_some,
        List.map_append, List.map_cons, List.map_nil, List.foldl_append, List.foldl_cons,
        List.foldl_nil, Growth.occurrences_graft, hlisted, Growth.plant_visits]
    · simp [Walk.pending]
      omega
    · rw [List.mem_append, not_or]
      exact ⟨Walk.null_notMem_found _ _ _, hnull.2⟩

theorem move (hs : h.Sound root) (m : Move σ) : (h.move m).Sound root := by
  cases m with
  | step => exact hs.step
  | register kind candidate => exact hs.change _ (Registry.register_kindField kind candidate _)
  | unregister kind => exact hs.change _ (Registry.unregister_kindField kind _)

theorem play (hs : h.Sound root) (moves : List (Move σ)) : (h.play moves).Sound root := by
  induction moves generalizing h with
  | nil => exact hs
  | cons m moves ih => exact ih (hs.move m)

theorem visits_growth (hs : h.Sound root) : (h.growth root).visits = h.visits := by
  rw [Growth.visits_eq, hs.occurrences]
  simp [List.filterMap_map, Function.comp_def]

theorem waiting_growth (hs : h.Sound root) :
    (h.growth root).waiting = h.stage.walk.fringe := by
  rw [Growth.waiting_eq, hs.occurrences]
  simp [List.filterMap_map, Function.comp_def]

end Sound

/-- What a step gives shows the visit it made: it gives the node, or its fault names the node, or a
fault escaped from the expansion, which was interrupted or failed with a failure that has no text.
After a fault no children were found. -/
def Shows (visit : Visit) : Except Fault (Option Value) → Prop
  | .ok o => o = some visit.node
  | .error (.expansion node _ _ _) => node = visit.node ∧ visit.found = []
  | .error e => (∃ cause : Fault, cause.escape? = some e) ∧ visit.found = []

/-- What a step gives, whatever the caller's functions do, shows the visit it makes. -/
theorem step_shows {s : Stage σ} {visit : Visit} (hfield : s.registry.HasTextField)
    (hvisit : visit? s = some visit) : Shows visit (Walk.step s).result := by
  cases hfringe : s.walk.fringe with
  | nil => simp [visit?, hfringe] at hvisit
  | cons v rest =>
    simp only [visit?, hfringe, List.head?_cons, Option.map_some, Option.some.injEq] at hvisit
    subst hvisit
    rw [Walk.step_cons hfringe, Walk.found]
    cases hexpand : (Walk.expand s.walk.prune v s.toScene).result with
    | ok slots => rfl
    | error e =>
      have halike := Walk.expand_alike s.walk.prune v s.toScene
      obtain ⟨kind, hkind⟩ := (halike.hasTextField hfield).kindOf v
      simp only [Walk.stepFault_of_kindOf hkind]
      cases hescape : e.escape? with
      | none => exact ⟨rfl, rfl⟩
      | some e' =>
        have hexpansion := (Fault.passes_of_escape? hescape).isExpansion
        cases e' with
        | expansion => cases hexpansion
        | _ => exact ⟨⟨e, hescape⟩, rfl⟩

theorem step_of_visit?_none {s : Stage σ} (hvisit : visit? s = none) :
    (Walk.step s).result = .ok none := by
  have hfringe : s.walk.fringe = [] := by simpa [visit?] using hvisit
  rw [Walk.step_nil hfringe]

/-- A step gives no hole in the place of a node. -/
theorem Sound.step_null_iff (hs : h.Sound root) {o : Option Value}
    (ho : (Walk.step h.stage).result = .ok o) : o.getD .null = .null ↔ o = none := by
  cases hvisit : visit? h.stage with
  | none =>
    cases (step_of_visit?_none hvisit).symm.trans ho
    exact iff_of_true rfl rfl
  | some visit =>
    have hshows := step_shows hs.hasTextField hvisit
    rw [ho] at hshows
    subst hshows
    obtain ⟨v, hv, rfl⟩ := Option.map_eq_some_iff.mp hvisit
    have hne : v ≠ .null := fun hnull => hs.null_notMem (hnull ▸ List.mem_of_mem_head? hv)
    simp [hne]

/-- Whatever rules and test do, and however rules are changed between the steps, the visits of a
walk are the expanded part of the tree they build, in pre-order, and its pending occurrences are the
fringe. -/
theorem play_growth (scene : Scene σ) (prune : Hook (Predicate σ)) {root : Value} {w : Walk σ}
    (hw : Walk.start scene.registry prune root = .ok w) (moves : List (Move σ)) :
    let h := play ⟨⟨scene, w⟩, []⟩ moves
    (h.growth root).visits = h.visits ∧
      (h.growth root).waiting = h.stage.walk.fringe ∧
      h.visits.length + h.stage.walk.pending = 1 + (h.visits.map (·.found.length)).sum ∧
      Value.null ∉ h.stage.walk.fringe ∧
      (∀ o, (Walk.step h.stage).result = .ok o → (o.getD .null = .null ↔ o = none)) ∧
      (visit? h.stage = none → (Walk.step h.stage).result = .ok none) ∧
      ∀ visit, visit? h.stage = some visit → Shows visit (Walk.step h.stage).result := by
  intro h
  have hs : h.Sound root := (Sound.start hw).play moves
  exact ⟨hs.visits_growth, hs.waiting_growth, hs.count, hs.null_notMem,
    fun _ => hs.step_null_iff, step_of_visit?_none,
    fun _ => step_shows hs.hasTextField⟩

/-- The second call for a pair fails, and the rule of folded pairs is taken away before that. -/
theorem play_growth_flaky :
    let h := play ⟨⟨⟨Sample.flakyPairs 1, 0⟩, ⟨[Sample.pairTree], .absent⟩⟩, []⟩
      [.step, .unregister (.str "Fold"), .step, .step]
    h.visits = [⟨Sample.pairTree, [Sample.folded, Sample.halfPair]⟩, ⟨Sample.folded, []⟩,
        ⟨Sample.halfPair, []⟩] ∧
      (h.growth Sample.pairTree).visits = h.visits ∧
      (h.growth Sample.pairTree).waiting = h.stage.walk.fringe := by
  intro h
  have hstart : Walk.start (Sample.flakyPairs 1) .absent Sample.pairTree =
      .ok ⟨[Sample.pairTree], .absent⟩ := rfl
  have hgrowth := play_growth ⟨Sample.flakyPairs 1, 0⟩ .absent hstart
    [.step, .unregister (.str "Fold"), .step, .step]
  exact ⟨rfl, hgrowth.1, hgrowth.2.1⟩

end History

end RuleWalk
