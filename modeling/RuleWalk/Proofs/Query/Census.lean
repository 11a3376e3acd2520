import RuleWalk.Proofs.Query.Leaves
import RuleWalk.Proofs.Registry.Table

/-!
# What a statistic counts

The counted kinds are a list of pairs, in the order in which the kinds were met. `Sorts` says what
that list is for the nodes that were counted: every kind that was met stands there once, with the
number of nodes that have it. One more node keeps this, so a fold over the nodes establishes it.
-/

namespace RuleWalk.Census

variable {α : Type} {kinds : List (String × Nat)}

/-- The sum of the counts of all kinds. -/
def sumOf : List (String × Nat) → Nat
  | [] => 0
  | (_, m) :: rest => m + sumOf rest

theorem sumOf_countKind (k : String) (kinds : List (String × Nat)) :
    sumOf (countKind k kinds) = sumOf kinds + 1 := by
  induction kinds with
  | nil => rfl
  | cons e rest ih =>
    obtain ⟨j, m⟩ := e
    rw [countKind]
    split
    · simp only [sumOf]
      omega
    · simp only [sumOf, ih]
      omega

/-- A kind that is new comes last. -/
theorem map_fst_countKind (k : String) (kinds : List (String × Nat)) :
    (countKind k kinds).map Prod.fst =
      if k ∈ kinds.map Prod.fst then kinds.map Prod.fst else kinds.map Prod.fst ++ [k] := by
  induction kinds with
  | nil => rfl
  | cons e rest ih =>
    obtain ⟨j, m⟩ := e
    rw [countKind]
    by_cases hj : j = k
    · simp [hj]
    · rw [if_neg hj, List.map_cons, ih]
      have hk : k ≠ j := Ne.symm hj
      by_cases hmem : k ∈ rest.map Prod.fst
      · simp [hmem]
      · simp [hmem, hk]

theorem nodup_countKind (k : String) (h : (kinds.map Prod.fst).Nodup) :
    ((countKind k kinds).map Prod.fst).Nodup := by
  rw [map_fst_countKind]
  split
  · exact h
  · next hk => exact List.nodup_append.2 ⟨h, by simp, by grind⟩

/-- The count of the kind grows by one, and the other counts stay. -/
theorem mem_countKind {k j : String} {m : Nat} (h : (kinds.map Prod.fst).Nodup) :
    (j, m) ∈ countKind k kinds ↔
      if j = k then m = 1 ∧ k ∉ kinds.map Prod.fst ∨ ∃ m', m = m' + 1 ∧ (k, m') ∈ kinds
      else (j, m) ∈ kinds := by
  induction kinds with
  | nil => grind [countKind]
  | cons e rest ih =>
    obtain ⟨i, n⟩ := e
    rw [List.map_cons, List.nodup_cons] at h
    specialize ih h.2
    rw [countKind]
    by_cases hi : i = k
    · subst hi
      have hrest (m : Nat) : (i, m) ∉ rest := fun hm => h.1 (List.mem_map.2 ⟨_, hm, rfl⟩)
      rw [if_pos rfl]
      by_cases hj : j = i
      · subst hj
        simp [hrest]
      · simp [hj]
    · have hk : k ≠ i := Ne.symm hi
      rw [if_neg hi, List.mem_cons, ih]
      by_cases hj : j = k
      · subst hj
        simp [hk]
      · simp [hj]

/-- The nodes are sorted by their kinds. -/
structure Sorts (kind : α → Option String) (xs : List α) (n : Census) : Prop where
  nonNodes : n.nonNodes = xs.countP fun x => (kind x).isNone
  kinds : ∀ k m, (k, m) ∈ n.kinds ↔ 0 < m ∧ m = xs.countP fun x => kind x == some k
  distinct : (n.kinds.map Prod.fst).Nodup
  sum : n.nonNodes + sumOf n.kinds = xs.length

/-- A kind is counted if some node has it. -/
theorem Sorts.mem_iff {kind : α → Option String} {xs : List α} {n : Census} (h : n.Sorts kind xs)
    (k : String) :
    k ∈ n.kinds.map Prod.fst ↔ 0 < xs.countP fun x => kind x == some k := by
  rw [List.mem_map]
  constructor
  · rintro ⟨⟨_, m⟩, hm, rfl⟩
    obtain ⟨hpos, rfl⟩ := (h.kinds _ m).1 hm
    exact hpos
  · intro hpos
    exact ⟨(k, _), (h.kinds k _).2 ⟨hpos, rfl⟩, rfl⟩

/-- One more node is sorted in. -/
theorem Sorts.add {kind : α → Option String} {xs : List α} {n : Census} (h : n.Sorts kind xs)
    (x : α) (leaf : Bool) : (n.add (kind x) leaf).Sorts kind (xs ++ [x]) := by
  cases hkind : kind x with
  | none =>
    refine ⟨?_, fun k m => ?_, h.distinct, ?_⟩
    · simp [Census.add, h.nonNodes, hkind]
    · simpa [Census.add, hkind] using h.kinds k m
    · rw [List.length_append, ← h.sum]
      simp only [Census.add, Option.isNone_none, if_true, List.length_singleton]
      omega
  | some k =>
    refine ⟨?_, fun j m => ?_, nodup_countKind k h.distinct, ?_⟩
    · simp [Census.add, h.nonNodes, hkind]
    · rw [List.countP_append, List.countP_singleton, hkind]
      simp only [Census.add]
      rw [mem_countKind h.distinct, h.mem_iff, h.kinds]
      by_cases hj : j = k
      · subst hj
        simp only [h.kinds, if_pos, BEq.rfl]
        generalize List.countP _ xs = count
        constructor
        · rintro (⟨rfl, hnone⟩ | ⟨m, rfl, hpos, rfl⟩)
          · omega
          · omega
        · rintro ⟨-, rfl⟩
          rcases count with _ | count
          · exact .inl ⟨rfl, Nat.lt_irrefl 0⟩
          · exact .inr ⟨count + 1, rfl, Nat.succ_pos count, rfl⟩
      · simp [hj, Ne.symm hj]
    · rw [List.length_append, ← h.sum]
      simp only [Census.add, sumOf_countKind, Option.isNone_some, Bool.false_eq_true, if_false,
        List.length_singleton]
      omega

/-- So are any number of nodes, one after the other. -/
theorem Sorts.foldl {kind : α → Option String} {xs : List α} {n : Census} (h : n.Sorts kind xs)
    (leaf : α → Bool) (ys : List α) :
    (ys.foldl (fun n y => n.add (kind y) (leaf y)) n).Sorts kind (xs ++ ys) := by
  induction ys generalizing xs n with
  | nil => rwa [List.append_nil]
  | cons y ys ih =>
    rw [List.foldl_cons, List.append_cons]
    exact ih (h.add y (leaf y))

/-! ## The statistic as a whole -/

section Describes

variable {σ : Type} {scene : Scene σ}

/-- The statistic `n`, with the kinds in `unknown`, is that of the yielded nodes, when these are the
leaves among them. -/
structure Describes (scene : Scene σ) (yielded leaves : List Value) (n : Census)
    (unknown : List String) : Prop where
  total : n.total = yielded.length
  leaves : n.leaves = leaves.length
  total_eq_leaves : n.total = n.leaves + n.internal
  total_eq_kinds : n.total = n.nonNodes + sumOf n.kinds
  nonNodes : n.nonNodes = yielded.countP fun v => (Run.kindAt scene v).isNone
  kinds_iff : ∀ k m, (k, m) ∈ n.kinds ↔
    0 < m ∧ m = yielded.countP fun v => Run.kindAt scene v == some k
  distinct : (n.kinds.map Prod.fst).Nodup
  unknown_iff : ∀ k, k ∈ unknown ↔ k ∈ n.kinds.map Prod.fst ∧ scene.registry.has k = false
  increasing : unknown.Pairwise (· < ·)

/-- To count nodes one by one describes them. -/
theorem describes_foldl (node : α → Value) (leaf : α → Bool) (xs : List α) {r : Registry σ}
    (hr : ∀ k, r.has k = scene.registry.has k) :
    let n := xs.foldl (fun n x => n.add (Run.kindAt scene (node x)) (leaf x)) ({} : Census)
    n.Describes scene (xs.map node) ((xs.filter leaf).map node) (n.unknownKinds r) := by
  intro n
  have hempty : ({} : Census).Sorts (fun x => Run.kindAt scene (node x)) [] :=
    ⟨rfl, by simp; omega, by simp, rfl⟩
  have hsorts : n.Sorts (fun x => Run.kindAt scene (node x)) xs := hempty.foldl leaf xs
  obtain ⟨htotal, hleaves⟩ :=
    Run.count_foldl_add (fun x => Run.kindAt scene (node x)) leaf xs {}
  have htotal : n.total = xs.length := htotal.trans (Nat.zero_add _)
  have hleaves : n.leaves = (xs.filter leaf).length := hleaves.trans (Nat.zero_add _)
  refine ⟨?_, ?_, ?_, ?_, ?_, fun k m => ?_, hsorts.distinct, fun k => ?_, ?_⟩
  · rw [htotal, List.length_map]
  · rw [hleaves, List.length_map]
  · have hle := List.length_filter_le leaf xs
    rw [Census.internal]
    omega
  · rw [htotal, hsorts.sum]
  · rw [hsorts.nonNodes, List.countP_map]
    rfl
  · rw [hsorts.kinds, List.countP_map]
    rfl
  · simp only [unknownKinds, mem_sortTexts, List.mem_filter, Bool.not_eq_true', hr]
  · exact sortTexts_increasing (hsorts.distinct.filter _)

end Describes

end RuleWalk.Census
