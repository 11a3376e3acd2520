import RuleWalk.Proofs.Lists
import RuleWalk.Proofs.Scene
import RuleWalk.Rule.Fields
import RuleWalk.Sample.Trees
import RuleWalk.Toolkit

/-!
# Pure rules and tests

Rules and tests that only look at their argument are pure. `Sample.pairs` is a small registry of
such rules.
-/

namespace RuleWalk

variable {σ : Type}

theorem Act.ofExcept_isPure {ω ρ α : Type} (r : Except Fault α) :
    (Act.ofExcept r : Act ω ρ α).IsPure := fun s s' => by
  rw [Act.ofExcept_result, Act.ofExcept_result]

/-- A rule that is a function of the node is pure, also where the function fails. -/
theorem Rule.ofFunction_isPure (label : String) (f : Value → Except Fault Offer) :
    (Rule.ofFunction label f : Rule σ).IsPure := fun v => Act.ofExcept_isPure (f v)

/-- A rule that reads single fields, named by texts, never fails. -/
theorem FieldSpec.rule_neverFails (names : List String) :
    (FieldSpec.rule (names.map fun n => .one (.str n)) : Rule σ).NeverFails := by
  have hslots (v : Value) :
      ∃ slots, allSlots v (names.map fun n => .one (.str n)) = .ok slots := by
    induction names with
    | nil => exact ⟨[], rfl⟩
    | cons n names ih =>
      obtain ⟨w, hw⟩ := v.getField_text n
      obtain ⟨slots, hslots⟩ := ih
      exact ⟨w :: slots, by simp [allSlots, FieldSpec.slots, hw, hslots, Except.map]⟩
  intro v u
  obtain ⟨slots, hv⟩ := hslots v
  exact ⟨slots, by simp [FieldSpec.rule, Rule.ofFunction, hv, Except.map]⟩

/-- A rule by fields gives what it reads and touches nothing. -/
theorem Scene.slotsOf_of_fields {v : Value} {s : Scene σ} {kind : String} {specs : List FieldSpec}
    (hkind : s.registry.kindOf v = .ok (some kind))
    (hrule : s.registry.rule? kind = some (FieldSpec.rule specs)) :
    slotsOf v s = ⟨FieldSpec.allSlots v specs, s, [.call (.rule kind) v []]⟩ := by
  rw [slotsOf, hkind]
  have hexpand : (FieldSpec.rule specs : Rule σ).expand v =
      Act.ofExcept ((FieldSpec.allSlots v specs).map fun slots => ⟨slots, none⟩) := rfl
  simp only [hrule, hexpand]
  cases FieldSpec.allSlots v specs <;> rfl

theorem Toolkit.hasKind_isPure (kinds : List Value) : (hasKind kinds : Predicate σ).IsPure :=
  fun _ => Act.ofExcept_isPure _

theorem Toolkit.hasKind_neverFails (kinds : List Value) :
    (hasKind kinds : Predicate σ).NeverFails := by
  intro v u
  obtain ⟨kind, hkind⟩ := v.kind?_text "type"
  exact ⟨_, by rw [hasKind, Act.ofExcept_result, hkind]; rfl⟩

/-- Each rule of a registry that is given by its table is one of the table. -/
theorem Registry.allRules_of_mem {P : Rule σ → Prop} {r : Registry σ}
    (h : ∀ e ∈ r.rules, P e.2) : r.AllRules P := by
  intro kind rule hrule
  exact h (kind, rule) (mem_of_lookup hrule)

/-- The rules read fields, for each kind those of the table. -/
def Registry.IsByFields (r : Registry σ) (table : List (String × List FieldSpec)) : Prop :=
  ∀ kind, r.rule? kind = (table.lookup kind).map FieldSpec.rule

/-- A registry that is made from a table of fields. -/
theorem Registry.isByFields_of_rules {r : Registry σ} {table : List (String × List FieldSpec)}
    (h : r.rules = table.map fun e => (e.1, FieldSpec.rule e.2)) : r.IsByFields table := by
  intro kind
  rw [Registry.rule?, h]
  exact lookup_map_snd FieldSpec.rule kind table

namespace Sample

/-- Pairs, open and folded, have a left and a right part. -/
def pairs : Registry σ where
  rules := ["Pair", "Fold"].map fun kind =>
    (kind, FieldSpec.rule (["left", "right"].map fun n => .one (.str n)))

theorem pairs_isPure : (pairs : Registry σ).AllRules Rule.IsPure := by
  refine Registry.allRules_of_mem fun e he => ?_
  obtain ⟨kind, -, rfl⟩ := List.mem_map.mp he
  exact Rule.ofFunction_isPure _ _

theorem pairs_neverFails : (pairs : Registry σ).AllRules Rule.NeverFails := by
  refine Registry.allRules_of_mem fun e he => ?_
  obtain ⟨kind, -, rfl⟩ := List.mem_map.mp he
  exact FieldSpec.rule_neverFails _

theorem pairs_slotsOf (v : Value) (u : σ) :
    ∃ slots, (Scene.slotsOf v ⟨pairs, u⟩).result = .ok slots :=
  Scene.slotsOf_neverFails ⟨"type", rfl⟩ pairs_neverFails v

/-- Pairs whose rule counts its calls and fails after `k` of them. -/
def flakyPairs (k : Nat) : Registry Nat where
  rules :=
    [("Pair",
      { expand v n :=
          { result :=
              if n = k then .error (.raised .value "flaky")
              else (FieldSpec.allSlots v [.one (.str "left"), .one (.str "right")]).map fun slots =>
                ⟨slots, none⟩
            state := n + 1
            entries := [] } }),
      ("Fold", FieldSpec.rule [.one (.str "left"), .one (.str "right")])]

def name : Value := node 3 "Name" []

/-- A folded pair of two names. -/
def folded : Value := node 1 "Fold" [("left", name), ("right", name)]

/-- A pair without a left part. -/
def halfPair : Value := node 2 "Pair" [("right", name)]

/-- A pair with half a pair on its left. -/
def lopsided : Value := node 7 "Pair" [("left", halfPair), ("right", name)]

def pairTree : Value := node 0 "Pair" [("left", folded), ("right", halfPair)]

/-- Pairs beside torn pairs, whose rule only fails. -/
def failingPairs (e : Fault) : Registry σ where
  rules := ("Torn", Rule.ofFunction "torn" fun _ => .error e) :: pairs.rules

theorem failingPairs_isPure (e : Fault) : (failingPairs e : Registry σ).AllRules Rule.IsPure := by
  refine Registry.allRules_of_mem fun e he => ?_
  obtain rfl | he := List.mem_cons.mp he
  · exact Rule.ofFunction_isPure _ _
  · obtain ⟨kind, -, rfl⟩ := List.mem_map.mp he
    exact Rule.ofFunction_isPure _ _

def tornPairs (signal : Signal) : Registry σ := failingPairs (.raised signal "torn")

theorem tornPairs_isPure (signal : Signal) :
    (tornPairs signal : Registry σ).AllRules Rule.IsPure := failingPairs_isPure _

/-- An attribute node without a kind, whose field hides the operation that lists its fields. -/
def veiled : Value := .node ⟨8, none⟩ (.str "") [("fields", .int 1)]

/-- A fault without a text: the key that is missing has none. -/
def mute : Fault := .missingKey veiled

/-- A torn pair. It has a part, but its rule does not find it. -/
def torn : Value := node 4 "Torn" [("left", name)]

def tornHalf : Value := node 5 "Pair" [("left", torn), ("right", name)]

def tornTree : Value := node 6 "Pair" [("left", folded), ("right", tornHalf)]

end Sample

end RuleWalk
