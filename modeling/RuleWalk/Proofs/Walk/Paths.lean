import Mathlib.Data.Set.Card
import RuleWalk.Proofs.Walk.Preorder

/-!
# Paths

A path leads from the root to a node by positions among children. The places of an unfolding are
told apart by their paths, and its pre-order is the order of the paths: a path comes before those
that go on from it, and else the first position that differs decides.
-/

namespace RuleWalk

/-- What a path of child positions leads to, if it leads anywhere. -/
def follow (kids : Value → List Value) : Value → List Nat → Option Value
  | v, [] => some v
  | v, i :: path => (kids v)[i]?.bind fun w => follow kids w path

namespace Forest

variable {kids : Value → List Value} {f : Forest} {u : Value} {i : Nat}

/-- The paths to the nodes in pre-order, when the first root is the child number `i`. -/
def paths : Nat → Forest → List (List Nat)
  | _, nil => []
  | i, cons _ c s => [i] :: ((c.paths 0).map (i :: ·) ++ s.paths (i + 1))

/-- The paths lead to the nodes, one by one. -/
theorem Unfolds.map_follow (hf : f.Unfolds kids) (hu : (kids u).drop i = f.roots) :
    (f.paths i).map (follow kids u) = f.preorder.map some := by
  induction f generalizing u i with
  | nil => rfl
  | cons v c s ihc ihs =>
    obtain ⟨hroots, hc, hs⟩ := hf
    obtain ⟨hv, hrest⟩ := getElem?_of_drop hu
    have hbelow : (follow kids u) ∘ (i :: ·) = follow kids v := by
      funext path
      simp [follow, hv]
    simp only [paths, preorder, List.map_cons, List.map_append, List.map_map, hbelow,
      ihc hc (by rw [List.drop_zero, hroots]), ihs hs hrest]
    simp [follow, hv]

/-- A path below a node begins with a position. -/
theorem exists_of_mem_paths {path : List Nat} (h : path ∈ f.paths i) :
    ∃ j rest, path = j :: rest ∧ i ≤ j := by
  induction f generalizing i with
  | nil => cases h
  | cons v c s _ ihs =>
    simp only [paths, List.mem_cons, List.mem_append, List.mem_map] at h
    obtain rfl | ⟨rest, -, rfl⟩ | h := h
    · exact ⟨i, [], rfl, Nat.le_refl i⟩
    · exact ⟨i, rest, rfl, Nat.le_refl i⟩
    · obtain ⟨j, rest, rfl, hj⟩ := ihs h
      exact ⟨j, rest, rfl, Nat.le_of_succ_le hj⟩

/-- Pre-order is the order of the paths. -/
theorem pairwise_paths (i : Nat) (f : Forest) : (f.paths i).Pairwise (· < ·) := by
  induction f generalizing i with
  | nil => exact .nil
  | cons v c s ihc ihs =>
    have hbefore (rest : List Nat) (path : List Nat) (h : path ∈ s.paths (i + 1)) :
        i :: rest < path := by
      obtain ⟨j, rest', rfl, hj⟩ := exists_of_mem_paths h
      exact List.cons_lt_cons_iff.2 (.inl hj)
    rw [paths, List.pairwise_cons, List.pairwise_append, List.pairwise_map]
    refine ⟨?_, ?_, ihs (i + 1), ?_⟩
    · intro path h
      rcases List.mem_append.1 h with h | h
      · obtain ⟨rest, hrest, rfl⟩ := List.mem_map.1 h
        obtain ⟨j, rest', rfl, -⟩ := exists_of_mem_paths hrest
        exact List.cons_lt_cons_iff.2 (.inr ⟨rfl, List.nil_lt_cons j rest'⟩)
      · exact hbefore [] path h
    · exact (ihc 0).imp fun h => List.cons_lt_cons_iff.2 (.inr ⟨rfl, h⟩)
    · intro path hpath path' hpath'
      obtain ⟨rest, -, rfl⟩ := List.mem_map.1 hpath
      exact hbefore rest path' hpath'

/-- Every path that leads somewhere is listed. -/
theorem Unfolds.mem_paths (hf : f.Unfolds kids) (hu : (kids u).drop i = f.roots) {j : Nat}
    {rest : List Nat} (hj : i ≤ j) (h : (follow kids u (j :: rest)).isSome) :
    j :: rest ∈ f.paths i := by
  induction f generalizing u i j rest with
  | nil =>
    have hnone : (kids u)[j]? = none :=
      List.getElem?_eq_none (Nat.le_trans (List.drop_eq_nil_iff.1 hu) hj)
    simp [follow, hnone] at h
  | cons v c s ihc ihs =>
    obtain ⟨hroots, hc, hs⟩ := hf
    obtain ⟨hv, hrest⟩ := getElem?_of_drop hu
    rw [paths, List.mem_cons, List.mem_append, List.mem_map]
    obtain rfl | hlt := Nat.eq_or_lt_of_le hj
    · cases rest with
      | nil => exact .inl rfl
      | cons k rest =>
        have hbelow : (follow kids v (k :: rest)).isSome := by
          rwa [follow, hv] at h
        exact .inr (.inl ⟨k :: rest,
          ihc hc (by rw [List.drop_zero, hroots]) (Nat.zero_le k) hbelow, rfl⟩)
    · exact .inr (.inr (ihs hs hrest hlt h))

end Forest

namespace Unfolding

variable {kids : Value → List Value} {root : Value}

/-- The paths to the places of the tree in pre-order. -/
def paths (t : Unfolding kids root) : List (List Nat) := [] :: t.below.paths 0

theorem map_follow (t : Unfolding kids root) :
    t.paths.map (follow kids root) = t.preorder.map some := by
  rw [paths, preorder, List.map_cons, List.map_cons,
    t.unfolds_below.map_follow (by rw [List.drop_zero, t.roots_below])]
  rfl

theorem pairwise_paths (t : Unfolding kids root) : t.paths.Pairwise (· < ·) := by
  refine List.pairwise_cons.2 ⟨fun path h => ?_, t.below.pairwise_paths 0⟩
  obtain ⟨j, rest, rfl, -⟩ := Forest.exists_of_mem_paths h
  exact List.nil_lt_cons j rest

/-- The tree has a place for each path that leads somewhere. -/
theorem mem_paths_iff (t : Unfolding kids root) (path : List Nat) :
    path ∈ t.paths ↔ (follow kids root path).isSome := by
  constructor
  · intro h
    have hmem := List.mem_map_of_mem (f := follow kids root) h
    rw [t.map_follow] at hmem
    obtain ⟨v, -, hv⟩ := List.mem_map.1 hmem
    rw [← hv]
    rfl
  · intro h
    cases path with
    | nil => exact List.mem_cons_self
    | cons j rest =>
      exact List.mem_cons_of_mem _
        (t.unfolds_below.mem_paths (by rw [List.drop_zero, t.roots_below]) (Nat.zero_le j) h)

/-- A node is listed as often as there are paths to it. -/
theorem countP_preorder (t : Unfolding kids root) (q : Value → Bool) :
    t.preorder.countP q = Set.ncard {path | ∃ v, follow kids root path = some v ∧ q v = true} := by
  have hset : {path | ∃ v, follow kids root path = some v ∧ q v = true} =
      ((t.paths.filter fun path => (follow kids root path).any q).toFinset : Set (List Nat)) := by
    ext path
    simp only [Set.mem_ofPred_eq, List.coe_toFinset, List.mem_filter, t.mem_paths_iff,
      Option.any_eq_true, Option.isSome_iff_exists]
    exact ⟨fun ⟨v, hv, hq⟩ => ⟨⟨v, hv⟩, v, hv, hq⟩, fun h => h.2⟩
  have hnodup : t.paths.Nodup := t.pairwise_paths.imp fun h => ne_of_lt h
  rw [hset, Set.ncard_coe_finset, List.toFinset_card_of_nodup (hnodup.filter _),
    ← List.countP_eq_length_filter]
  calc t.preorder.countP q = (t.preorder.map some).countP (Option.any q) := by
        rw [List.countP_map]; rfl
    _ = t.paths.countP fun path => (follow kids root path).any q := by
        rw [← t.map_follow, List.countP_map]; rfl

end Unfolding

end RuleWalk
