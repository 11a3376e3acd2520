import RuleWalk.Proofs.Walk.Paths

/-!
# What waits on the fringe

When a walk has just given a node, what waits is told by the way from the root to that node: first
the children of the node, then its later siblings, then those of its parent, and so on up to the
root. A stop is such a way together with the node at its end. The stops of an unfolding in pre-order
are the steps of the walk, and the fringe after each of them is read off its trail.
-/

namespace RuleWalk

/-- The way down to a place of a tree: each node that is left, with the number of the child that is
taken, the root first; and the node at its end. -/
structure Stop where
  trail : List (Value × Nat)
  node : Value

/-- The trail leads from the first node to the last. -/
inductive Leads (kids : Value → List Value) : Value → List (Value × Nat) → Value → Prop
  | here (v : Value) : Leads kids v [] v
  | down {u w v : Value} {i : Nat} {trail : List (Value × Nat)} (hchild : (kids u)[i]? = some w)
      (h : Leads kids w trail v) : Leads kids u ((u, i) :: trail) v

/-- The later siblings of the nodes that a trail goes through, the nearest first. -/
def laterSiblings (kids : Value → List Value) (trail : List (Value × Nat)) : List Value :=
  trail.reverse.flatMap fun a => (kids a.1).drop (a.2 + 1)

@[simp] theorem laterSiblings_nil (kids : Value → List Value) : laterSiblings kids [] = [] := rfl

@[simp] theorem laterSiblings_cons (kids : Value → List Value) (a : Value × Nat)
    (trail : List (Value × Nat)) :
    laterSiblings kids (a :: trail) = laterSiblings kids trail ++ (kids a.1).drop (a.2 + 1) := by
  simp [laterSiblings]

theorem length_laterSiblings (kids : Value → List Value) (trail : List (Value × Nat)) :
    (laterSiblings kids trail).length =
      (trail.map fun a => (kids a.1).length - 1 - a.2).sum := by
  induction trail with
  | nil => rfl
  | cons a trail ih =>
    rw [laterSiblings_cons, List.length_append, ih, List.length_drop, List.map_cons, List.sum_cons]
    omega

/-- The fringe when its first node has made room for its children. -/
def pop (kids : Value → List Value) : List Value → List Value
  | [] => []
  | v :: rest => kids v ++ rest

namespace Forest

variable {kids : Value → List Value} {f : Forest} {u : Value} {i : Nat}

/-- The stops in pre-order, when the first root is the child number `i` of `u`. -/
def stops (u : Value) : Nat → Forest → List Stop
  | _, nil => []
  | i, cons v c s =>
    ⟨[(u, i)], v⟩ :: ((c.stops v 0).map (fun p => ⟨(u, i) :: p.trail, p.node⟩) ++ s.stops u (i + 1))

theorem map_node_stops (u : Value) (i : Nat) (f : Forest) :
    (f.stops u i).map Stop.node = f.preorder := by
  induction f generalizing u i with
  | nil => rfl
  | cons v c s ihc ihs =>
    rw [stops, preorder, List.map_cons, List.map_append, List.map_map, ihs, ← ihc v 0]
    rfl

theorem length_stops (u : Value) (i : Nat) (f : Forest) :
    (f.stops u i).length = f.preorder.length := by
  rw [← f.map_node_stops u i, List.length_map]

theorem map_positions_stops (u : Value) (i : Nat) (f : Forest) :
    ((f.stops u i).map fun p => p.trail.map Prod.snd) = f.paths i := by
  induction f generalizing u i with
  | nil => rfl
  | cons v c s ihc ihs =>
    rw [stops, paths, List.map_cons, List.map_append, List.map_map, ihs, ← ihc v 0, List.map_map]
    rfl

/-- The stops are the trails that begin at a root, with where they lead. -/
theorem Unfolds.mem_stops (hf : f.Unfolds kids) (hu : (kids u).drop i = f.roots) {p : Stop} :
    p ∈ f.stops u i ↔ ∃ j w trail, i ≤ j ∧ (kids u)[j]? = some w ∧ p.trail = (u, j) :: trail ∧
      Leads kids w trail p.node := by
  induction f generalizing u i p with
  | nil =>
    constructor
    · rintro ⟨⟩
    · rintro ⟨j, w, trail, hj, hw, -, -⟩
      have hlength := List.drop_eq_nil_iff.1 hu
      rw [List.getElem?_eq_none (hlength.trans hj)] at hw
      cases hw
  | cons v c s ihc ihs =>
    obtain ⟨hroots, hc, hs⟩ := hf
    obtain ⟨hv, hrest⟩ := getElem?_of_drop hu
    have hbelow := @ihc v 0
    rw [List.drop_zero] at hbelow
    rw [stops, List.mem_cons, List.mem_append, List.mem_map, ihs hs hrest]
    constructor
    · rintro (rfl | ⟨q, hq, rfl⟩ | ⟨j, w, trail, hj, hw, htrail, hleads⟩)
      · exact ⟨i, v, [], le_rfl, hv, rfl, .here v⟩
      · obtain ⟨j, w, trail, -, hw, htrail, hleads⟩ := (hbelow hc hroots.symm).1 hq
        exact ⟨i, v, q.trail, le_rfl, hv, rfl, htrail ▸ .down hw hleads⟩
      · exact ⟨j, w, trail, Nat.le_of_succ_le hj, hw, htrail, hleads⟩
    · rintro ⟨j, w, trail, hj, hw, htrail, hleads⟩
      obtain ⟨ptrail, node⟩ := p
      obtain rfl : ptrail = (u, j) :: trail := htrail
      obtain rfl | hlt := Nat.eq_or_lt_of_le hj
      · obtain rfl : v = w := Option.some.inj (hv.symm.trans hw)
        cases hleads with
        | here => exact .inl rfl
        | down hchild h =>
          exact .inr (.inl ⟨⟨_, node⟩,
            (hbelow hc hroots.symm).2 ⟨_, _, _, Nat.zero_le _, hchild, rfl, h⟩, rfl⟩)
      · exact .inr (.inr ⟨j, w, trail, hlt, hw, rfl, hleads⟩)

/-- All of a forest is taken off before what waits behind it. -/
theorem Unfolds.pop_iterate_length (hf : f.Unfolds kids) (rest : List Value) :
    (pop kids)^[f.preorder.length] (f.roots ++ rest) = rest := by
  induction f generalizing rest with
  | nil => rfl
  | cons v c s ihc ihs =>
    obtain ⟨hroots, hc, hs⟩ := hf
    have hfirst : pop kids ((cons v c s).roots ++ rest) = c.roots ++ (s.roots ++ rest) := by
      rw [hroots]
      rfl
    rw [preorder, List.length_cons, List.length_append, Function.iterate_succ_apply, hfirst,
      Nat.add_comm, Function.iterate_add_apply, ihc hc, ihs hs]

/-- Right after a stop, its children and the later siblings along its trail are before the rest. -/
theorem Unfolds.pop_iterate_stops (hf : f.Unfolds kids) (hu : (kids u).drop i = f.roots)
    (rest : List Value) {k : Nat} {p : Stop} (hp : (f.stops u i)[k]? = some p) :
    (pop kids)^[k + 1] (f.roots ++ rest) = kids p.node ++ laterSiblings kids p.trail ++ rest := by
  induction f generalizing u i rest k p with
  | nil => cases hp
  | cons v c s ihc ihs =>
    obtain ⟨hroots, hc, hs⟩ := hf
    obtain ⟨hv, hrest⟩ := getElem?_of_drop hu
    have hfirst : pop kids ((cons v c s).roots ++ rest) = c.roots ++ (s.roots ++ rest) := by
      rw [hroots]
      rfl
    rw [Function.iterate_succ_apply, hfirst]
    cases k with
    | zero =>
      cases hp
      simp [hroots, hrest]
    | succ k =>
      rw [stops, List.getElem?_cons_succ] at hp
      by_cases hk : k < ((c.stops v 0).map fun q => (⟨(u, i) :: q.trail, q.node⟩ : Stop)).length
      · -- The stop is below the first root, and the other roots are part of the rest there.
        rw [List.getElem?_append_left hk, List.getElem?_map, Option.map_eq_some_iff] at hp
        obtain ⟨q, hq, rfl⟩ := hp
        rw [ihc hc (by rw [List.drop_zero, hroots]) _ hq]
        simp [hrest]
      · -- What is below the first root has been taken off.
        rw [List.getElem?_append_right (Nat.le_of_not_lt hk), List.length_map, length_stops] at hp
        rw [List.length_map, length_stops] at hk
        have hsplit : k + 1 = (k - c.preorder.length + 1) + c.preorder.length := by omega
        rw [hsplit, Function.iterate_add_apply, hc.pop_iterate_length, ihs hs hrest rest hp]

end Forest

namespace Unfolding

variable {kids : Value → List Value} {root : Value}

/-- The stops of the tree in pre-order. -/
def stops (t : Unfolding kids root) : List Stop := ⟨[], root⟩ :: t.below.stops root 0

theorem map_node_stops (t : Unfolding kids root) : t.stops.map Stop.node = t.preorder := by
  rw [stops, preorder, List.map_cons, Forest.map_node_stops]

theorem map_positions_stops (t : Unfolding kids root) :
    (t.stops.map fun p => p.trail.map Prod.snd) = t.paths := by
  rw [stops, paths, List.map_cons, Forest.map_positions_stops]
  rfl

theorem mem_stops_iff (t : Unfolding kids root) {p : Stop} :
    p ∈ t.stops ↔ Leads kids root p.trail p.node := by
  have hbelow := t.unfolds_below.mem_stops (by rw [List.drop_zero, t.roots_below]) (p := p)
  rw [stops, List.mem_cons, hbelow]
  constructor
  · rintro (rfl | ⟨j, w, trail, -, hw, htrail, hleads⟩)
    · exact .here root
    · exact htrail ▸ .down hw hleads
  · obtain ⟨trail, node⟩ := p
    intro h
    cases h with
    | here => exact .inl rfl
    | down hchild h => exact .inr ⟨_, _, _, Nat.zero_le _, hchild, rfl, h⟩

theorem pop_iterate_stops (t : Unfolding kids root) {k : Nat} {p : Stop}
    (hp : t.stops[k]? = some p) :
    (pop kids)^[k + 1] [root] = kids p.node ++ laterSiblings kids p.trail := by
  rw [Function.iterate_succ_apply]
  cases k with
  | zero =>
    cases hp
    rfl
  | succ k =>
    have hfirst : pop kids [root] = t.below.roots ++ [] := by
      rw [t.roots_below]
      rfl
    rw [hfirst, t.unfolds_below.pop_iterate_stops (by rw [List.drop_zero, t.roots_below]) [] hp,
      List.append_nil]

end Unfolding

namespace Walk

variable {σ : Type}

/-- The children that a walk goes on to: none where the node is pruned. -/
def kids (prune : Hook (Predicate σ)) (scene : Scene σ) (v : Value) : List Value :=
  if prune.holds scene.user v then [] else scene.kids v

/-- The fringe changes as the children say. -/
theorem Follows.fringe_iterate {prune : Hook (Predicate σ)} {scene : Scene σ} {l : List Value}
    {s : Stage σ} (hprune : prune.All fun p => p.IsPure ∧ p.NeverFails)
    (hrules : scene.registry.AllRules Rule.IsPure) (h : Follows prune scene l s) (k : Nat) :
    (Walk.advance^[k] s).walk.fringe = (pop (kids prune scene))^[k] s.walk.fringe := by
  have hpure := hprune.mono fun _ hp => hp.1
  induction k with
  | zero => rfl
  | succ k ih =>
    have hk := h.iterate hpure hrules k
    rw [Function.iterate_succ_apply', Function.iterate_succ_apply', ← ih]
    generalize Walk.advance^[k] s = s' at hk ⊢
    rw [Walk.advance]
    cases hfringe : s'.walk.fringe with
    | nil =>
      rw [step_nil hfringe, hfringe]
      rfl
    | cons v rest =>
      have hfound : found prune v s'.toScene = kids prune scene v :=
        (found_congr hpure hrules hk.alike v).trans
          (found_eq (hprune.mono fun _ hp => hp.2) hrules v)
      rw [step_cons hfringe, hk.prune_eq, hfound]
      rfl

/-- The steps of a walk are the stops of the unfolding, one for each trail from the root, in the
order of the child numbers. Right after the step that gives a node, its children are on the fringe,
then the later siblings of the node and of each of its ancestors, the nearest first, and nothing
else; so the trail tells how many nodes wait. The rules need to be pure, and must not fail at the
nodes that are not pruned. -/
theorem fringe_of_stops (scene : Scene σ) (prune : Hook (Predicate σ)) (root : Value)
    {kind : String} (hroot : scene.registry.kindOf root = .ok (some kind))
    (hrules : scene.registry.AllRules Rule.IsPure)
    (hprune : prune.All fun p => p.IsPure ∧ p.NeverFails)
    (t : Unfolding (kids prune scene) root)
    (hexpands : ∀ v ∈ t.preorder, prune.holds scene.user v = false →
      ∃ slots, (Scene.slotsOf v scene).result = .ok slots) :
    ∃ (w : Walk σ) (stops : List Stop), start scene.registry prune root = .ok w ∧
      (∀ p, p ∈ stops ↔ Leads (kids prune scene) root p.trail p.node) ∧
      (stops.map fun p => p.trail.map Prod.snd).Pairwise (· < ·) ∧
      (∀ k p, stops[k]? = some p →
        (step (advance^[k] ⟨scene, w⟩)).result = .ok (some p.node) ∧
        (advance^[k + 1] ⟨scene, w⟩).walk.fringe =
          kids prune scene p.node ++
            p.trail.reverse.flatMap (fun a => (kids prune scene a.1).drop (a.2 + 1)) ∧
        (advance^[k + 1] ⟨scene, w⟩).walk.pending =
          (kids prune scene p.node).length +
            (p.trail.map fun a => (kids prune scene a.1).length - 1 - a.2).sum) ∧
      ∀ k, stops.length ≤ k → (step (advance^[k] ⟨scene, w⟩)).result = .ok none := by
  have hstart : Follows prune scene t.preorder ⟨scene, ⟨[root], prune⟩⟩ :=
    Follows.start (hprune.mono fun _ hp => hp.2) hrules t
  have hstep (k : Nat) :
      (step (advance^[k] ⟨scene, ⟨[root], prune⟩⟩)).result = .ok (t.stops.map Stop.node)[k]? := by
    have hk := hstart.iterate (hprune.mono fun _ hp => hp.1) hrules k
    rw [hk.step_result hprune hrules fun v hv => hexpands v (List.mem_of_mem_drop hv),
      List.head?_drop, t.map_node_stops]
  refine ⟨⟨[root], prune⟩, t.stops, start_eq hroot, fun p => t.mem_stops_iff, ?_, ?_, ?_⟩
  · rw [t.map_positions_stops]
    exact t.pairwise_paths
  · intro k p hp
    have hfringe := (hstart.fringe_iterate hprune hrules (k + 1)).trans (t.pop_iterate_stops hp)
    refine ⟨?_, hfringe, ?_⟩
    · rw [hstep, List.getElem?_map, hp]
      rfl
    · rw [pending, hfringe, List.length_append, length_laterSiblings]
  · intro k hk
    rw [hstep, List.getElem?_eq_none (by rwa [List.length_map])]

/-- When the folded pair has been given, only its sibling waits: its own parts are left out. When
the name below that sibling has been given, nothing waits. -/
theorem fringe_of_stops_pairTree :
    let prune : Hook (Predicate Unit) := .live (Toolkit.hasKind [.str "Fold"])
    let scene : Scene Unit := ⟨Sample.pairs, ()⟩
    ∃ w k k', start Sample.pairs prune Sample.pairTree = .ok w ∧
      (step (advance^[k] ⟨scene, w⟩)).result = .ok (some Sample.folded) ∧
      (advance^[k + 1] ⟨scene, w⟩).walk.fringe = [Sample.halfPair] ∧
      (step (advance^[k'] ⟨scene, w⟩)).result = .ok (some Sample.name) ∧
      (advance^[k' + 1] ⟨scene, w⟩).walk.pending = 0 := by
  intro prune scene
  obtain ⟨w, stops, hstart, hstops, -, hgiven, -⟩ :=
    fringe_of_stops scene prune Sample.pairTree rfl Sample.pairs_isPure
      ⟨Toolkit.hasKind_isPure _, Toolkit.hasKind_neverFails _⟩
      { below := .cons Sample.folded .nil (.cons Sample.halfPair (.cons Sample.name .nil .nil) .nil)
        roots_below := rfl
        unfolds_below := ⟨rfl, trivial, ⟨rfl, ⟨rfl, trivial, trivial⟩, trivial⟩⟩ }
      fun v _ _ => Sample.pairs_slotsOf v ()
  have hfolded : ⟨[(Sample.pairTree, 0)], Sample.folded⟩ ∈ stops :=
    (hstops _).2 (.down rfl (.here _))
  have hname : ⟨[(Sample.pairTree, 1), (Sample.halfPair, 0)], Sample.name⟩ ∈ stops :=
    (hstops _).2 (.down rfl (.down rfl (.here _)))
  obtain ⟨k, hk⟩ := List.mem_iff_getElem?.1 hfolded
  obtain ⟨k', hk'⟩ := List.mem_iff_getElem?.1 hname
  obtain ⟨hgives, hfringe, -⟩ := hgiven k _ hk
  obtain ⟨hgives', -, hpending⟩ := hgiven k' _ hk'
  exact ⟨w, k, k', hstart, hgives, hfringe, hgives', hpending⟩

end Walk

end RuleWalk
