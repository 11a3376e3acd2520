import RuleWalk.Proofs.Session.Store
import RuleWalk.Proofs.Walk.Noninterference

/-!
# Walks side by side

Several walks share one registry and take their steps in any order. `Abreast` says that each of them
is where it would be if it were alone, after as many steps of its own. Every step keeps this, so
each walk gives what it gives alone. What a walk looks up is then settled too, whatever the order,
and so are the kinds that are unknown when all walks are done, and what was logged about them.
-/

namespace RuleWalk

/-- The sequence is a bare walk that is done. -/
def Cursor.isDone {σ : Type} : Cursor σ → Bool
  | .walk _ w => w.isDone
  | _ => false

namespace Session

variable {σ τ : Type}

/-! ## Turns -/

/-- The session after the walks have stepped, each when it was its turn. -/
def stepAll (s : Session σ) : List Nat → Session σ
  | [] => s
  | j :: turns => (stepWalk j s).state.stepAll turns

/-- What the steps of one walk gave. -/
def takenBy (i : Nat) (s : Session σ) : List Nat → List (Except Fault (Option Value))
  | [] => []
  | j :: turns =>
    let later := (stepWalk j s).state.takenBy i turns
    if j = i then (stepWalk j s).result :: later else later

/-- What all steps together put on record. -/
def stepEntries (s : Session σ) : List Nat → List Entry
  | [] => []
  | j :: turns => (stepWalk j s).entries ++ (stepWalk j s).state.stepEntries turns

/-- All the walks are done. -/
def AllDone (walks : List Nat) (s : Session σ) : Prop := ∀ i ∈ walks, (s.cursor i).isDone = true

instance (walks : List Nat) (s : Session σ) : Decidable (s.AllDone walks) :=
  inferInstanceAs (Decidable (∀ i ∈ walks, _))

/-- The registry is all that the walks share. Of the caller's state each walk has a part of its own:
its test uses this part only, and neither the tests of the other walks nor the rules touch it. If
the parts hold nothing, this says that the tests are pure. Walks whose tests count their calls in
one place do notice each other. -/
structure Apart (part : Nat → σ → τ) (walks : List Nat) (w : Nat → Walk σ) (r : Registry σ) :
    Prop where
  own : ∀ i ∈ walks, (w i).prune.Each (Predicate.KeepsTo (part i))
  others : ∀ i ∈ walks, ∀ j ∈ walks, j ≠ i → (w j).prune.Each (Predicate.Leaves (part i))
  rules : ∀ i ∈ walks, r.AllRules (Rule.Leaves (part i))

/-- Each walk is where it would be alone, after its steps in `past`. -/
structure Abreast (part : Nat → σ → τ) (walks : List Nat) (w : Nat → Walk σ) (r : Nat)
    (scene : Scene σ) (past : List Nat) (s : Session σ) : Prop where
  registry_lt : r < s.registries.size
  twins : ∀ i ∈ walks, ∃ v, s.cursor i = .walk r v ∧
    Walk.Twins (part i) scene ⟨s.scene r, v⟩ (Walk.advance^[past.count i] ⟨scene, w i⟩)

variable {part : Nat → σ → τ} {walks past turns : List Nat} {w : Nat → Walk σ} {r j : Nat}
  {scene : Scene σ} {s : Session σ}

theorem abreast_nil (hr : r < s.registries.size) (hw : ∀ i ∈ walks, s.cursor i = .walk r (w i)) :
    Abreast part walks w r (s.scene r) [] s where
  registry_lt := hr
  twins := fun i hi => ⟨w i, hw i hi, .refl (part i) (s.scene r) (w i)⟩

/-! ## One turn -/

/-- The registry and the log after the step of a walk: what the walk would look up alone was
noticed. -/
theorem Abreast.noticed_step (hapart : Apart part walks w scene.registry)
    (h : Abreast part walks w r scene past s) (hj : j ∈ walks) :
    ∃ new, logged (stepWalk j s).entries = new.map .unknownKind ∧
      (s.registry r).Noticed (Walk.lookup ⟨scene, w j⟩ (past.count j)).toList new
        ((stepWalk j s).state.registry r) := by
  obtain ⟨v, hcursor, htwins⟩ := h.twins j hj
  have hprune : (Walk.advance^[past.count j] ⟨scene, w j⟩).walk.prune.Each
      (Predicate.KeepsTo (part j)) := by
    rw [Walk.advance_iterate_prune]
    exact hapart.own j hj
  have hsubject : (Operation.step v).subject? (s.scene r) =
      Walk.lookup ⟨scene, w j⟩ (past.count j) := htwins.subject? hprune
  obtain ⟨new, hrecords, hnoticed⟩ := (Operation.step_effect v (s.scene r) true).noticed rfl
  have hregistry : (stepWalk j s).state.registry r =
      (Scene.stepOf v (s.scene r)).state.registry := by
    rw [stepWalk_of_walk hcursor]
    exact congrArg Scene.registry (scene_putScene _ h.registry_lt)
  rw [stepWalk_of_walk hcursor] at hregistry ⊢
  rw [hregistry, ← hsubject]
  exact ⟨new, hrecords, hnoticed⟩

/-- A walk takes the step that it would take alone, and the others stay where they are. -/
theorem Abreast.step (hrules : scene.registry.AllRules Rule.IsPure)
    (hapart : Apart part walks w scene.registry) (h : Abreast part walks w r scene past s)
    (hj : j ∈ walks) :
    (stepWalk j s).result = (Walk.step (Walk.advance^[past.count j] ⟨scene, w j⟩)).result ∧
      Abreast part walks w r scene (j :: past) (stepWalk j s).state := by
  obtain ⟨v, hcursor, htwins⟩ := h.twins j hj
  have hprune : (Walk.advance^[past.count j] ⟨scene, w j⟩).walk.prune = (w j).prune :=
    Walk.advance_iterate_prune ⟨scene, w j⟩ _
  obtain ⟨hresult, htwins'⟩ :=
    htwins.step hrules (hapart.rules j hj) (hprune ▸ hapart.own j hj)
  rw [stepWalk_of_walk hcursor]
  refine ⟨hresult, ?_, fun i hi => ?_⟩
  · simpa [putCursor, putScene] using h.registry_lt
  have hscene : ((s.putScene r (Walk.advance ⟨s.scene r, v⟩).toScene).putCursor j
      (.walk r (Walk.advance ⟨s.scene r, v⟩).walk)).scene r =
      (Walk.advance ⟨s.scene r, v⟩).toScene := scene_putScene _ h.registry_lt
  rw [hscene]
  by_cases hij : i = j
  · subst hij
    have hlt := lt_of_cursor_walk hcursor
    refine ⟨_, cursor_putCursor (s := s.putScene r _) _ hlt, ?_⟩
    rw [List.count_cons_self, Function.iterate_succ_apply']
    exact htwins'
  · obtain ⟨v', hcursor', hstay⟩ := h.twins i hi
    refine ⟨v', (cursor_putCursor_ne (s := s.putScene r _) hij _).trans hcursor', ?_⟩
    rw [List.count_cons_of_ne (Ne.symm hij)]
    -- The step was that of another walk, which does not touch the part of this one.
    have hleaves : part i (Walk.advance ⟨s.scene r, v⟩).user = part i (s.scene r).user :=
      Walk.advance_leaves (htwins.left.allRules (hapart.rules i hi))
        (by rw [htwins.walk, hprune]; exact hapart.others i hi j hj (Ne.symm hij))
    exact ⟨htwins'.left, hstay.right, hstay.walk, hleaves.trans hstay.part_eq⟩

/-! ## Any order of turns -/

theorem Abreast.stepAll (hrules : scene.registry.AllRules Rule.IsPure)
    (hapart : Apart part walks w scene.registry) (h : Abreast part walks w r scene past s)
    (hturns : turns ⊆ walks) :
    Abreast part walks w r scene (turns.reverse ++ past) (s.stepAll turns) := by
  induction turns generalizing past s with
  | nil => exact h
  | cons j turns ih =>
    obtain ⟨hj, hturns⟩ := List.cons_subset.1 hturns
    rw [List.reverse_cons, List.append_assoc]
    exact ih (h.step hrules hapart hj).2 hturns

theorem Abreast.takenBy (hrules : scene.registry.AllRules Rule.IsPure)
    (hapart : Apart part walks w scene.registry) (h : Abreast part walks w r scene past s)
    (hturns : turns ⊆ walks) (i : Nat) :
    s.takenBy i turns = (List.range' (past.count i) (turns.count i)).map fun k =>
      (Walk.step (Walk.advance^[k] ⟨scene, w i⟩)).result := by
  induction turns generalizing past s with
  | nil => rfl
  | cons j turns ih =>
    obtain ⟨hj, hturns⟩ := List.cons_subset.1 hturns
    obtain ⟨hresult, hnext⟩ := h.step hrules hapart hj
    rw [Session.takenBy, ih hnext hturns]
    by_cases hji : j = i
    · subst hji
      rw [if_pos rfl, List.count_cons_self, List.count_cons_self, List.range'_succ, hresult]
      rfl
    · rw [if_neg hji, List.count_cons_of_ne hji, List.count_cons_of_ne hji]

/-- All that is looked up in a row of turns is what the walks look up alone in as many steps. -/
theorem Abreast.noticed (hrules : scene.registry.AllRules Rule.IsPure)
    (hapart : Apart part walks w scene.registry) (h : Abreast part walks w r scene past s)
    (hturns : turns ⊆ walks) :
    ∃ vs new, logged (s.stepEntries turns) = new.map .unknownKind ∧
      (s.registry r).Noticed vs new ((s.stepAll turns).registry r) ∧
      ∀ v, v ∈ vs ↔ ∃ i k, past.count i ≤ k ∧ k < past.count i + turns.count i ∧
        Walk.lookup ⟨scene, w i⟩ k = some v := by
  induction turns generalizing past s with
  | nil =>
    refine ⟨[], [], rfl, Registry.noticed_nil _, fun v => ?_⟩
    constructor
    · rintro ⟨⟩
    · rintro ⟨i, k, hle, hlt, -⟩
      exact absurd hlt (Nat.not_lt.2 hle)
  | cons j turns ih =>
    obtain ⟨hj, hturns⟩ := List.cons_subset.1 hturns
    obtain ⟨new, hlogged, hnoticed⟩ := h.noticed_step hapart hj
    obtain ⟨vs, new', hlogged', hnoticed', hvs⟩ := ih (h.step hrules hapart hj).2 hturns
    refine ⟨_, new ++ new', ?_, hnoticed.trans hnoticed', fun v => ?_⟩
    · rw [stepEntries, logged_append, hlogged, hlogged', List.map_append]
    rw [List.mem_append, Option.mem_toList, hvs]
    constructor
    · rintro (hv | ⟨i, k, hle, hlt, hv⟩)
      · exact ⟨j, past.count j, Nat.le_refl _, by rw [List.count_cons_self]; omega, hv⟩
      · rw [List.count_cons] at hle hlt
        exact ⟨i, k, by omega, by rw [List.count_cons]; omega, hv⟩
    · rintro ⟨i, k, hle, hlt, hv⟩
      -- The first of the steps of `j` is this one; all others come later.
      by_cases hij : i = j
      · subst hij
        rw [List.count_cons_self] at hlt
        rcases Nat.eq_or_lt_of_le hle with rfl | hgt
        · exact .inl hv
        · exact .inr ⟨i, k, by rw [List.count_cons_self]; exact hgt,
            by rw [List.count_cons_self]; omega, hv⟩
      · rw [List.count_cons_of_ne (Ne.symm hij)] at hlt
        have hpast : (j :: past).count i = past.count i := List.count_cons_of_ne (Ne.symm hij)
        exact .inr ⟨i, k, hpast ▸ hle, hpast ▸ hlt, hv⟩

/-- When all walks are done, all was looked up that any of them ever looks up alone. -/
theorem noticed_of_allDone (hr : r < s.registries.size)
    (hrules : (s.registry r).AllRules Rule.IsPure)
    (hw : ∀ i ∈ walks, s.cursor i = .walk r (w i)) (hapart : Apart part walks w (s.registry r))
    (hturns : turns ⊆ walks) (hdone : (s.stepAll turns).AllDone walks) :
    ∃ vs new, logged (s.stepEntries turns) = new.map .unknownKind ∧
      (s.registry r).Noticed vs new ((s.stepAll turns).registry r) ∧
      ∀ v, v ∈ vs ↔ ∃ i ∈ walks, ∃ k, Walk.lookup ⟨s.scene r, w i⟩ k = some v := by
  have hstart : Abreast part walks w r (s.scene r) [] s := abreast_nil hr hw
  obtain ⟨vs, new, hlogged, hnoticed, hvs⟩ := hstart.noticed hrules hapart hturns
  refine ⟨vs, new, hlogged, hnoticed, fun v => ?_⟩
  rw [hvs]
  constructor
  · rintro ⟨i, k, -, hlt, hv⟩
    have hi : 0 < turns.count i := by simp at hlt; omega
    exact ⟨i, hturns (List.count_pos_iff.1 hi), k, hv⟩
  · rintro ⟨i, hi, k, hv⟩
    obtain ⟨v', hcursor, htwins⟩ := (hstart.stepAll hrules hapart hturns).twins i hi
    have hisDone := hdone i hi
    rw [hcursor] at hisDone
    have hfringe : (Walk.advance^[turns.count i] ⟨s.scene r, w i⟩).walk.fringe = [] := by
      have hwalk := htwins.walk
      rw [List.append_nil, List.count_reverse] at hwalk
      rw [← hwalk]
      exact List.isEmpty_iff.1 hisDone
    refine ⟨i, k, Nat.zero_le k, ?_, hv⟩
    rw [List.count_nil, Nat.zero_add]
    apply Classical.byContradiction
    intro hk
    rw [Walk.lookup_of_done hfringe (Nat.not_lt.1 hk)] at hv
    cases hv

/-- Walks that share a registry with pure rules do not notice each other. In any order of turns each
gives, step by step, what it gives when no other walk steps. When all are done, the unknown kinds
are the same for every order, and what was logged is the same but for its order: each kind that came
to be unknown, once. -/
theorem walks_of_turns (s : Session σ) {r : Nat} (hr : r < s.registries.size)
    (hrules : (s.registry r).AllRules Rule.IsPure) (walks : List Nat) (w : Nat → Walk σ)
    (hw : ∀ i ∈ walks, s.cursor i = .walk r (w i)) {part : Nat → σ → τ}
    (hapart : Apart part walks w (s.registry r)) :
    (∀ turns ⊆ walks, ∀ i ∈ walks,
      s.takenBy i turns = s.takenBy i (List.replicate (turns.count i) i) ∧
      s.takenBy i turns = (List.range (turns.count i)).map fun k =>
        (Walk.step (Walk.advance^[k] ⟨s.scene r, w i⟩)).result) ∧
    ∀ turns ⊆ walks, ∀ turns' ⊆ walks,
      (s.stepAll turns).AllDone walks → (s.stepAll turns').AllDone walks →
      ((s.stepAll turns).registry r).unknownKinds = ((s.stepAll turns').registry r).unknownKinds ∧
      (logged (s.stepEntries turns)).Perm (logged (s.stepEntries turns')) ∧
      ∃ new : List String, new.Nodup ∧ logged (s.stepEntries turns) = new.map .unknownKind ∧
        ∀ k, k ∈ new ↔
          k ∉ (s.registry r).unknown ∧ k ∈ ((s.stepAll turns).registry r).unknown := by
  constructor
  · intro turns hturns i hi
    have hstart : Abreast part walks w r (s.scene r) [] s := abreast_nil hr hw
    have halone : List.replicate (turns.count i) i ⊆ walks := by
      intro j hj
      rw [List.eq_of_mem_replicate hj]
      exact hi
    rw [hstart.takenBy hrules hapart hturns, hstart.takenBy hrules hapart halone,
      List.count_replicate_self, List.count_nil, List.range_eq_range']
    exact ⟨rfl, rfl⟩
  · intro turns hturns turns' hturns' hdone hdone'
    obtain ⟨vs, new, hlogged, hnoticed, hvs⟩ :=
      noticed_of_allDone hr hrules hw hapart hturns hdone
    obtain ⟨vs', new', hlogged', hnoticed', hvs'⟩ :=
      noticed_of_allDone hr hrules hw hapart hturns' hdone'
    have hnew : new.Perm new' := hnoticed.perm hnoticed' fun v => (hvs v).trans (hvs' v).symm
    refine ⟨hnoticed.unknownKinds_eq hnoticed' hnew, ?_, new, hnoticed.nodup, hlogged, ?_⟩
    · rw [hlogged, hlogged']
      exact hnew.map _
    · intro k
      rw [hnoticed.eq, List.mem_append, List.mem_reverse]
      constructor
      · intro hk
        exact ⟨((hnoticed.mem_iff k).1 hk).1, .inl hk⟩
      · rintro ⟨hk, hk' | hk'⟩
        · exact hk'
        · exact absurd hk' hk

end Session

namespace Sample

/-- Holds at its second call. The caller's state is the number of calls so far. -/
def secondCall : Predicate Nat := fun _ n => ⟨.ok (n == 1), n + 1, []⟩

/-- The first walk has a test that counts its calls, the second has none. -/
def twoWalks : Nat → Walk Nat
  | 0 => ⟨[pairTree], .live secondCall⟩
  | _ => ⟨[tornHalf], .absent⟩

/-- The number of calls belongs to the first walk. -/
def callsOf : Nat → Nat → Nat
  | 0, n => n
  | _, _ => 0

theorem pairs_leaves {τ : Type} (part : Nat → τ) : pairs.AllRules (Rule.Leaves part) := by
  refine Registry.allRules_of_mem fun e he v u => ?_
  obtain ⟨kind, -, rfl⟩ := List.mem_map.1 he
  exact congrArg part (Act.ofExcept_state _ u)

theorem twoWalks_apart : Session.Apart callsOf [0, 1] twoWalks pairs := by
  refine ⟨fun i hi p truth hp v u u' hu => ?_, fun i hi j hj hne p truth hp v u => ?_,
    fun i _ => pairs_leaves (callsOf i)⟩
  · match i, hp with
    | 0, rfl =>
      obtain rfl : u = u' := hu
      exact ⟨rfl, rfl⟩
  · match j, hp with
    | 0, rfl =>
      obtain ⟨n, rfl⟩ := Nat.exists_eq_succ_of_ne_zero hne.symm
      rfl

end Sample

namespace Session

/-- Two walks meet the two kinds without a rule in either order. -/
theorem walks_of_turns_pairs :
    let s : Session Nat :=
      { registries := .ofList [Sample.pairs]
        cursors := #[.walk 0 (Sample.twoWalks 0), .walk 0 (Sample.twoWalks 1)]
        user := 0 }
    let turns := [0, 0, 0, 0, 1, 1, 1]
    let turns' := [1, 0, 1, 0, 1, 0, 0]
    s.takenBy 0 turns' = s.takenBy 0 [0, 0, 0, 0] ∧
      s.takenBy 0 [0, 0, 0, 0] =
        [Sample.pairTree, Sample.folded, Sample.halfPair, Sample.name].map (.ok ∘ some) ∧
      ((s.stepAll turns).registry 0).unknownKinds = ((s.stepAll turns').registry 0).unknownKinds ∧
      logged (s.stepEntries turns) = [.unknownKind "Name", .unknownKind "Torn"] ∧
      logged (s.stepEntries turns') = [.unknownKind "Torn", .unknownKind "Name"] ∧
      (logged (s.stepEntries turns)).Perm (logged (s.stepEntries turns')) := by
  intro s turns turns'
  have hpure : (s.registry 0).AllRules Rule.IsPure :=
    Sample.pairs_isPure
  have hcursor : ∀ i ∈ [0, 1], s.cursor i = .walk 0 (Sample.twoWalks i) := by
    simp only [List.forall_mem_cons]
    exact ⟨rfl, rfl, by rintro _ ⟨⟩⟩
  have hdone : (s.stepAll turns).AllDone [0, 1] := by decide +kernel
  have hdone' : (s.stepAll turns').AllDone [0, 1] := by decide +kernel
  obtain ⟨htaken, hend⟩ :=
    walks_of_turns s (r := 0) (by decide) hpure [0, 1] Sample.twoWalks hcursor
      Sample.twoWalks_apart
  obtain ⟨hkinds, hperm, -⟩ := hend turns (by decide) turns' (by decide) hdone hdone'
  refine ⟨(htaken turns' (by decide) 0 (by decide)).1, ?_, hkinds, ?_, ?_, hperm⟩
  · exact (htaken [0, 0, 0, 0] (by decide) 0 (by decide)).2.trans rfl
  · decide +kernel
  · decide +kernel

end Session

end RuleWalk
