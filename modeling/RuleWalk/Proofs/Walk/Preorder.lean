import Mathlib.Logic.Function.Iterate
import RuleWalk.Proofs.Rules
import RuleWalk.Proofs.Walk.Step

/-!
# A walk is the pre-order listing

Where neither the test nor the rule of a node fails, call after call of `step` gives the recursive
listing of the unfolding, node by node, and then the end for ever. The listing is by recursion on
the tree and the walk goes by its fringe; `Follows` holds them together: it says which nodes still
lie ahead, and each step takes the first of them.
-/

namespace RuleWalk

namespace Walk

variable {σ : Type} {prune : Hook (Predicate σ)} {scene : Scene σ} {l : List Value} {s : Stage σ}

namespace Follows

/-- From its start, a walk has the whole unfolding ahead. -/
theorem start {root : Value} (hprune : prune.All Predicate.NeverFails)
    (hrules : scene.registry.AllRules Rule.IsPure)
    (t : Unfolding (fun v => if prune.holds scene.user v then [] else scene.kids v) root) :
    Follows prune scene t.preorder ⟨scene, ⟨[root], prune⟩⟩ := by
  have hfound : (fun v => if prune.holds scene.user v then [] else scene.kids v) =
      fun v => found prune v scene := funext fun v => (found_eq hprune hrules v).symm
  exact ⟨.refl scene, rfl, hfound ▸ t.ahead⟩

theorem iterate (hprune : prune.All Predicate.IsPure)
    (hrules : scene.registry.AllRules Rule.IsPure) (h : Follows prune scene l s) (k : Nat) :
    Follows prune scene (l.drop k) (Walk.advance^[k] s) := by
  induction k with
  | zero => exact h
  | succ k ih =>
    rw [Function.iterate_succ_apply', ← List.tail_drop]
    exact ih.advance hprune hrules

/-- Where the nodes that lie ahead can be expanded, a step gives the first of them. -/
theorem step_result_of_expands (hprune : prune.All Predicate.IsPure)
    (hrules : scene.registry.AllRules Rule.IsPure)
    (hexpands : ∀ v ∈ l, ∃ slots, (expand prune v scene).result = .ok slots)
    (h : Follows prune scene l s) : (step s).result = .ok l.head? := by
  cases l with
  | nil => rw [step_nil h.fringe_nil]; rfl
  | cons v l =>
    obtain ⟨rest, hfringe, -⟩ := h.fringe_cons
    obtain ⟨slots, hslots⟩ := hexpands v List.mem_cons_self
    rw [step_cons hfringe, h.prune_eq, expand_result_congr hprune hrules h.alike, hslots]
    rfl

/-- Where no rule fails at the nodes that lie ahead and are not pruned, a step gives the first of
them. -/
theorem step_result (hprune : prune.All fun p => p.IsPure ∧ p.NeverFails)
    (hrules : scene.registry.AllRules Rule.IsPure)
    (hexpands : ∀ v ∈ l, prune.holds scene.user v = false →
      ∃ slots, (Scene.slotsOf v scene).result = .ok slots)
    (h : Follows prune scene l s) : (step s).result = .ok l.head? := by
  refine h.step_result_of_expands (hprune.mono fun _ hp => hp.1) hrules fun v hv => ?_
  rw [expand_result_of_neverFails (hprune.mono fun _ hp => hp.2) hrules]
  cases hpruned : prune.holds scene.user v with
  | true => exact ⟨[], rfl⟩
  | false => exact hexpands v hv hpruned

end Follows

/-- A walk gives the pre-order listing: the call after `k` calls gives the node number `k` of the
listing, or the end when the listing is shorter, and the walk is done from the last node on. The
rules need to be pure, and must not fail at the nodes of the listing that are not pruned. -/
theorem step_iterate_eq_preorder (scene : Scene σ) (prune : Hook (Predicate σ)) (root : Value)
    {kind : String} (hroot : scene.registry.kindOf root = .ok (some kind))
    (hrules : scene.registry.AllRules Rule.IsPure)
    (hprune : prune.All fun p => p.IsPure ∧ p.NeverFails)
    (t : Unfolding (fun v => if prune.holds scene.user v then [] else scene.kids v) root)
    (hexpands : ∀ v ∈ t.preorder, prune.holds scene.user v = false →
      ∃ slots, (Scene.slotsOf v scene).result = .ok slots) :
    ∃ w, start scene.registry prune root = .ok w ∧ ∀ k,
      (step (advance^[k] ⟨scene, w⟩)).result = .ok t.preorder[k]? ∧
      ((advance^[k] ⟨scene, w⟩).walk.isDone = true ↔ t.preorder.length ≤ k) := by
  refine ⟨⟨[root], prune⟩, start_eq hroot, fun k => ?_⟩
  have hstart := Follows.start (hprune.mono fun _ hp => hp.2) hrules t
  have hk := hstart.iterate (hprune.mono fun _ hp => hp.1) hrules k
  constructor
  · rw [hk.step_result hprune hrules fun v hv => hexpands v (List.mem_of_mem_drop hv),
      List.head?_drop]
  · rw [hk.isDone_iff, List.drop_eq_nil_iff]

/-- The parts of a folded pair are left out, and a missing part leaves no hole. -/
theorem step_iterate_eq_preorder_pairTree :
    ∃ w, start (σ := Unit) Sample.pairs (.live (Toolkit.hasKind [.str "Fold"])) Sample.pairTree =
        .ok w ∧ ∀ k,
      (step (advance^[k] ⟨⟨Sample.pairs, ()⟩, w⟩)).result =
        .ok [Sample.pairTree, Sample.folded, Sample.halfPair, Sample.name][k]? ∧
      ((advance^[k] ⟨⟨Sample.pairs, ()⟩, w⟩).walk.isDone = true ↔ 4 ≤ k) :=
  step_iterate_eq_preorder ⟨Sample.pairs, ()⟩ (.live (Toolkit.hasKind [.str "Fold"]))
    Sample.pairTree rfl Sample.pairs_isPure
    ⟨Toolkit.hasKind_isPure _, Toolkit.hasKind_neverFails _⟩
    { below := .cons Sample.folded .nil (.cons Sample.halfPair (.cons Sample.name .nil .nil) .nil)
      roots_below := rfl
      unfolds_below := ⟨rfl, trivial, ⟨rfl, ⟨rfl, trivial, trivial⟩, trivial⟩⟩ }
    fun v _ _ => Sample.pairs_slotsOf v ()

end Walk

end RuleWalk
