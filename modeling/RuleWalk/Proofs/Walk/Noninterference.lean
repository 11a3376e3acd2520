import Mathlib.Logic.Function.Iterate
import RuleWalk.Proofs.Registry.Operations

/-!
# Walks that share a scene

A walk may share its scene with others. Where the rules are pure and the caller's state has a part
that is used by the test of this walk alone, the walk does not notice the others: it goes as its
twin that is alone in a scene of its own. A step of the twins gives the same result, looks up the
slots of the same node and leaves them twins (`Twins.step`). A step of another walk leaves them
twins too, since it does not touch that part (`advance_leaves`).
-/

namespace RuleWalk

variable {σ τ : Type}

/-- Every function that hangs there satisfies `P`. -/
def Hook.Each {φ : Type} (P : φ → Prop) (h : Hook φ) : Prop := ∀ f truth, h = .live f truth → P f

/-- A part of the caller's state stays as it is. -/
def Act.Leaves {ω α : Type} (part : σ → τ) (m : Act ω σ α) : Prop :=
  ∀ u, part (m u).state = part u

/-- What the test says, and what becomes of a part of the caller's state, is settled by that
part. -/
def Predicate.KeepsTo (part : σ → τ) (p : Predicate σ) : Prop :=
  ∀ v u u', part u = part u' →
    (p v u).result = (p v u').result ∧ part (p v u).state = part (p v u').state

/-- The test does not touch the part of the caller's state. -/
def Predicate.Leaves (part : σ → τ) (p : Predicate σ) : Prop := ∀ v, Act.Leaves part (p v)

/-- The rule does not touch the part of the caller's state. -/
def Rule.Leaves (part : σ → τ) (r : Rule σ) : Prop := ∀ v, Act.Leaves part (r.expand v)

theorem Scene.Alike.allRules {P : Rule σ → Prop} {s t : Scene σ} (h : s.Alike t)
    (ht : t.registry.AllRules P) : s.registry.AllRules P := by
  intro kind rule hrule
  exact ht kind rule (h.rule? kind ▸ hrule)

theorem Scene.slotsOf_leaves {part : σ → τ} {s : Scene σ}
    (hrules : s.registry.AllRules (Rule.Leaves part)) (v : Value) :
    part (slotsOf v s).state.user = part s.user := by
  unfold slotsOf
  split
  · rfl
  · rfl
  · next kind hkind =>
    split
    · next rule hrule =>
      refine Act.bind_keeps (P := fun t : Scene σ => part t.user = part s.user)
        (hrules kind rule hrule v s.user) fun o => ?_
      rw [Act.ofExcept_state]
      exact hrules kind rule hrule v s.user
    · split <;> rfl

namespace Walk

variable {part : σ → τ} {scene : Scene σ}

/-! ## Expansions -/

section Expand

variable {prune : Hook (Predicate σ)} {s t : Scene σ}

theorem pruned_congr (hprune : prune.Each (Predicate.KeepsTo part)) (v : Value)
    (h : part s.user = part t.user) :
    (pruned prune v s).result = (pruned prune v t).result ∧
      part (pruned prune v s).state.user = part (pruned prune v t).state.user := by
  cases prune with
  | absent => exact ⟨rfl, h⟩
  | inert w => exact ⟨rfl, h⟩
  | live p truth => exact hprune p truth rfl v s.user t.user h

theorem pruned_leaves (hprune : prune.Each (Predicate.Leaves part)) (v : Value) (s : Scene σ) :
    part (pruned prune v s).state.user = part s.user := by
  cases prune with
  | absent => rfl
  | inert w => rfl
  | live p truth => exact hprune p truth rfl v s.user

/-- After the test, an expansion does not touch the part. -/
theorem expand_part (hrules : s.registry.AllRules (Rule.Leaves part)) (v : Value) :
    part (expand prune v s).state.user = part (pruned prune v s).state.user := by
  have hslots : (pruned prune v s).state.registry.AllRules (Rule.Leaves part) := by
    rw [(pruned_registry prune v s).1]
    exact hrules
  refine Act.bind_keeps
    (P := fun t : Scene σ => part t.user = part (pruned prune v s).state.user) rfl fun b => ?_
  cases b with
  | true => rfl
  | false => exact Scene.slotsOf_leaves hslots v

/-- Pure rules, and a test that keeps to its part, give one expansion. -/
theorem expand_result_eq (hrules : scene.registry.AllRules Rule.IsPure)
    (hprune : prune.Each (Predicate.KeepsTo part)) (hs : s.Alike scene) (ht : t.Alike scene)
    (h : part s.user = part t.user) (v : Value) :
    (expand prune v s).result = (expand prune v t).result := by
  have hslots : (Scene.slotsOf v (pruned prune v s).state).result =
      (Scene.slotsOf v (pruned prune v t).state).result := by
    rw [Scene.slotsOf_result_congr ((pruned_alike prune v s).trans hs) hrules,
      Scene.slotsOf_result_congr ((pruned_alike prune v t).trans ht) hrules]
  rw [expand_result, expand_result, (pruned_congr hprune v h).1, hslots]

end Expand

/-! ## Steps -/

variable {s t : Stage σ}

/-- A step of a walk leaves a part that neither its test nor a rule touches. -/
theorem advance_leaves (hrules : s.registry.AllRules (Rule.Leaves part))
    (hprune : s.walk.prune.Each (Predicate.Leaves part)) :
    part (advance s).user = part s.user := by
  cases hfringe : s.walk.fringe with
  | nil => rw [advance, step_nil hfringe]
  | cons v rest =>
    rw [advance, step_cons hfringe]
    exact (expand_part hrules v).trans (pruned_leaves hprune v s.toScene)

/-- The same walk in two scenes that are alike and agree on its part of the caller's state. -/
structure Twins (part : σ → τ) (scene : Scene σ) (s t : Stage σ) : Prop where
  left : s.toScene.Alike scene
  right : t.toScene.Alike scene
  walk : s.walk = t.walk
  part_eq : part s.user = part t.user

namespace Twins

theorem refl (part : σ → τ) (scene : Scene σ) (w : Walk σ) :
    Twins part scene ⟨scene, w⟩ ⟨scene, w⟩ :=
  ⟨.refl scene, .refl scene, rfl, rfl⟩

/-- The twins look up the slots of the same node. -/
theorem subject? (hprune : t.walk.prune.Each (Predicate.KeepsTo part))
    (h : Twins part scene s t) :
    (Operation.step s.walk).subject? s.toScene = (Operation.step t.walk).subject? t.toScene := by
  rw [h.walk, Operation.subject?, Operation.subject?]
  cases t.walk.fringe with
  | nil => rfl
  | cons v rest => simp only [(pruned_congr hprune v h.part_eq).1]

/-- The twins take the same step, and are twins again. -/
theorem step (hrules : scene.registry.AllRules Rule.IsPure)
    (hleaves : scene.registry.AllRules (Rule.Leaves part))
    (hprune : t.walk.prune.Each (Predicate.KeepsTo part)) (h : Twins part scene s t) :
    (Walk.step s).result = (Walk.step t).result ∧ Twins part scene (advance s) (advance t) := by
  have hleft := (advance_alike s).trans h.left
  have hright := (advance_alike t).trans h.right
  cases hfringe : t.walk.fringe with
  | nil =>
    have hfringe' : s.walk.fringe = [] := h.walk ▸ hfringe
    rw [advance, advance, step_nil hfringe, step_nil hfringe']
    exact ⟨rfl, h⟩
  | cons v rest =>
    have hfringe' : s.walk.fringe = v :: rest := h.walk ▸ hfringe
    have hexpand := expand_result_eq hrules hprune h.left h.right h.part_eq v
    have hpart : part (expand t.walk.prune v s.toScene).state.user =
        part (expand t.walk.prune v t.toScene).state.user := by
      rw [expand_part (h.left.allRules hleaves), expand_part (h.right.allRules hleaves)]
      exact (pruned_congr hprune v h.part_eq).2
    have hkind : (expand t.walk.prune v s.toScene).state.registry.kindOf v =
        (expand t.walk.prune v t.toScene).state.registry.kindOf v := by
      rw [((expand_alike _ v _).trans h.left).kindOf, ((expand_alike _ v _).trans h.right).kindOf]
    refine ⟨?_, hleft, hright, ?_, ?_⟩
    · rw [step_cons hfringe, step_cons hfringe', h.walk, hexpand]
      simp only [stepFault, hkind]
    · rw [advance, advance, step_cons hfringe, step_cons hfringe', h.walk, found, found, hexpand]
    · rw [advance, advance, step_cons hfringe, step_cons hfringe', h.walk]
      exact hpart

end Twins

/-! ## Alone -/

/-- The value whose slots the walk looks up in the step after `k` steps. -/
def lookup (s : Stage σ) (k : Nat) : Option Value :=
  (Operation.step (advance^[k] s).walk).subject? (advance^[k] s).toScene

theorem advance_iterate_prune (s : Stage σ) (k : Nat) :
    (advance^[k] s).walk.prune = s.walk.prune := by
  induction k with
  | zero => rfl
  | succ k ih => rw [Function.iterate_succ_apply', advance_prune, ih]

/-- A walk that is done looks up nothing any more. -/
theorem lookup_of_done {n k : Nat} (hdone : (advance^[n] s).walk.fringe = []) (hk : n ≤ k) :
    lookup s k = none := by
  have hfixed : advance (advance^[n] s) = advance^[n] s := by
    rw [advance, step_nil hdone]
  obtain ⟨m, rfl⟩ := Nat.exists_eq_add_of_le' hk
  rw [lookup, Function.iterate_add_apply, Function.iterate_fixed hfixed]
  exact Operation.subject?_step_nil hdone

end Walk

end RuleWalk
