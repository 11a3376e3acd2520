import RuleWalk.Proofs.Value.Convert
import RuleWalk.Proofs.Walk.Preorder

/-!
# A walk over converted values

A walk over a plain value and a walk over its conversion go side by side, when the rules read fields
by name. At every step the two fringes hold twins, place by place, so the steps give twins or fail
in the same way. This is said of steps and not of whole walks, since a walk goes on after a failure.

Two things would tell a mapping from the attribute node made from it. One is a name that attribute
nodes use themselves, which `FieldSpec.IsLegible` excludes. The other is a tagged mapping where a
rule looks for a list: the mapping can be iterated over, the node cannot. That is excluded by
`Scene.HasProperLists`, and only for the nodes that the walk visits.
-/

namespace RuleWalk

variable {σ : Type} {field : String}

namespace FieldSpec

/-- The name of the field is a text. It is not the name of an operation of attribute nodes, and it
is `type` only where that holds the kind. -/
def IsLegible (field : String) (spec : FieldSpec) : Prop :=
  ∃ name : String, (spec = .one (.str name) ∨ spec = .many (.str name)) ∧
    name ∉ Value.methodNames ∧ (name = "type" → field = "type")

/-- Fields that agree one by one agree together, if the relation goes on over appended lists. -/
theorem allSlots_agree_of_slots {v w : Value} {R : List Value → List Value → Prop} (hnil : R [] [])
    (happend : ∀ {xs ys xs' ys'}, R xs ys → R xs' ys' → R (xs ++ xs') (ys ++ ys'))
    {specs : List FieldSpec} (h : ∀ spec ∈ specs, Value.Agree R (spec.slots v) (spec.slots w)) :
    Value.Agree R (allSlots v specs) (allSlots w specs) := by
  induction specs with
  | nil => exact .ok hnil
  | cons spec specs ih =>
    have hfirst := h spec List.mem_cons_self
    have hrest := ih fun spec hmem => h spec (List.mem_cons_of_mem _ hmem)
    rw [allSlots, allSlots]
    generalize spec.slots v = a, spec.slots w = b at hfirst ⊢
    generalize allSlots v specs = as, allSlots w specs = bs at hrest ⊢
    cases hfirst with
    | error he => exact .error he
    | ok hxs =>
      cases hrest with
      | error he => exact .error he
      | ok hys => exact .ok (happend hxs hys)

/-- Legible fields of a value and its twin give twins. -/
theorem allSlots_agree {v w : Value} {kind : String} (h : Value.Twin field v w)
    (hkind : v.kind? (.str field) = .ok (some kind)) {specs : List FieldSpec}
    (hlegible : ∀ spec ∈ specs, spec.IsLegible field)
    (hlists : ∀ name o entries, .many (.str name) ∈ specs →
      v.getField (.str name) = .ok (.dict o entries) →
      (Value.dict o entries).kind? (.str field) = .ok none) :
    Value.Agree (List.Forall₂ (Value.Twin field)) (allSlots v specs) (allSlots w specs) := by
  refine allSlots_agree_of_slots (R := List.Forall₂ (Value.Twin field)) .nil
    (fun hxs hys => List.rel_append hxs hys) fun spec hmem => ?_
  obtain ⟨name, hspec, hmethod, htype⟩ := hlegible spec hmem
  have hname : name = field ∨ name ∉ Value.methodNames ∧ name ≠ "type" := by
    by_cases hne : name = "type"
    · exact .inl (hne.trans (htype hne).symm)
    · exact .inr ⟨hmethod, hne⟩
  obtain rfl | rfl := hspec
  · obtain ⟨x, y, hx, hy, hxy⟩ := h.getField hkind hname
    rw [slots, slots, hx, hy]
    exact .ok (.cons hxy .nil)
  · exact h.getList hkind hname fun o entries => hlists name o entries hmem

end FieldSpec

/-- Every field of the table is legible. -/
def IsLegible (field : String) (table : List (String × List FieldSpec)) : Prop :=
  ∀ e ∈ table, ∀ spec ∈ e.2, spec.IsLegible field

namespace Scene

variable {s scene : Scene σ} {table : List (String × List FieldSpec)} {v w : Value}

/-- No tagged mapping stands where the rule of the node, by the table, looks for a list. -/
def HasProperLists (s : Scene σ) (table : List (String × List FieldSpec)) (v : Value) : Prop :=
  ∀ kind specs name o entries, s.registry.kindOf v = .ok (some kind) →
    table.lookup kind = some specs → .many (.str name) ∈ specs →
    v.getField (.str name) = .ok (.dict o entries) →
    s.registry.kindOf (.dict o entries) = .ok none

theorem kindOf_twin {registry : Registry σ} (hfield : registry.kindField = .str field)
    (h : Value.Twin field v w) : registry.kindOf w = registry.kindOf v := by
  rw [Registry.kindOf, Registry.kindOf, hfield, h.kind?_eq]

/-- A scene offers twins for twins, and is left in the same state. -/
theorem slotsOf_agree (halike : s.Alike scene) (hfield : scene.registry.kindField = .str field)
    (htable : scene.registry.IsByFields table) (hlegible : IsLegible field table)
    (h : Value.Twin field v w) (hlists : scene.HasProperLists table v) :
    Value.Agree (List.Forall₂ (Value.Twin field)) (slotsOf v s).result (slotsOf w s).result ∧
      (slotsOf w s).state = (slotsOf v s).state := by
  obtain ⟨kind, hkind⟩ := Registry.HasTextField.kindOf ⟨field, hfield⟩ v
  have hv := (halike.kindOf v).trans hkind
  have hw := (halike.kindOf w).trans ((kindOf_twin hfield h).trans hkind)
  cases kind with
  | none =>
    rw [slotsOf_of_no_kind hv, slotsOf_of_no_kind hw]
    exact ⟨.ok .nil, rfl⟩
  | some kind =>
    have hrule := (halike.rule? kind).trans (htable kind)
    cases hspecs : table.lookup kind with
    | none =>
      rw [hspecs] at hrule
      rw [slotsOf_of_no_rule hv hrule, slotsOf_of_no_rule hw hrule]
      split <;> exact ⟨.ok .nil, rfl⟩
    | some specs =>
      rw [hspecs] at hrule
      rw [slotsOf_of_fields hv hrule, slotsOf_of_fields hw hrule]
      have hmem : (kind, specs) ∈ table := mem_of_lookup hspecs
      have hkindv : v.kind? (.str field) = .ok (some kind) := hfield ▸ hkind
      refine ⟨FieldSpec.allSlots_agree h hkindv (hlegible _ hmem)
        fun name o entries hmany hfound => ?_, rfl⟩
      have hnone := hlists kind specs name o entries hkind hspecs hmany hfound
      rwa [Registry.kindOf, hfield] at hnone

end Scene

namespace Walk

theorem forall₂_present {xs ys : List Value} (h : List.Forall₂ (Value.Twin field) xs ys) :
    List.Forall₂ (Value.Twin field) (Scene.present xs) (Scene.present ys) :=
  List.rel_filter (fun v w (htwin : Value.Twin field v w) => by simp [htwin.isNull_eq]) h

/-- A walk takes this node at some step, if it goes on after every failure. -/
def Visits (s : Stage σ) (v : Value) : Prop :=
  ∃ k rest, (advance^[k] s).walk.fringe = v :: rest

/-- A walk visits only nodes that lie ahead of it. -/
theorem Follows.mem_of_visits {prune : Hook (Predicate σ)} {scene : Scene σ} {l : List Value}
    {s : Stage σ} (h : Follows prune scene l s) (hprune : prune.All Predicate.IsPure)
    (hrules : scene.registry.AllRules Rule.IsPure) {v : Value} (hv : Visits s v) : v ∈ l := by
  obtain ⟨k, rest, hfringe⟩ := hv
  have hk := h.iterate hprune hrules k
  cases hl : l.drop k with
  | nil =>
    rw [hl] at hk
    exact absurd (hfringe.symm.trans hk.fringe_nil) (List.cons_ne_nil _ _)
  | cons w l' =>
    rw [hl] at hk
    obtain ⟨rest', hcons, -⟩ := hk.fringe_cons
    obtain ⟨rfl, -⟩ := List.cons.inj (hfringe.symm.trans hcons)
    exact List.mem_of_mem_drop (hl ▸ List.mem_cons_self)

/-- Answers to a step over a value and over its conversion: both walks are done, or the nodes are
twins of one kind, or both expansions failed with the same kind and the same detail, which make up
the message, for the same cause. -/
inductive Echo (registry : Registry σ) (field : String) :
    Except Fault (Option Value) → Except Fault (Option Value) → Prop
  | done : Echo registry field (.ok none) (.ok none)
  | node {v w : Value} (twin : Value.Twin field v w)
      (kind : registry.kindOf w = registry.kindOf v) :
      Echo registry field (.ok (some v)) (.ok (some w))
  | failed {v w : Value} {kind : Option String} {detail : String} {cause : Option Fault}
      (twin : Value.Twin field v w) (kindv : registry.kindOf v = .ok kind)
      (kindw : registry.kindOf w = .ok kind) :
      Echo registry field (.error (.expansion v kind detail cause))
        (.error (.expansion w kind detail cause))

/-- Two walks in one scene whose fringes hold twins, place by place. -/
structure Paired (field : String) (scene : Scene σ) (s t : Stage σ) : Prop where
  alike : s.toScene.Alike scene
  same : t.toScene = s.toScene
  unpruned : s.walk.prune = .absent ∧ t.walk.prune = .absent
  fringe : List.Forall₂ (Value.Twin field) s.walk.fringe t.walk.fringe

namespace Paired

variable {scene : Scene σ} {table : List (String × List FieldSpec)} {s t : Stage σ}

/-- One step of each: the answers echo each other, and the walks stay paired. -/
theorem step (h : Paired field scene s t) (hfield : scene.registry.kindField = .str field)
    (htable : scene.registry.IsByFields table) (hlegible : IsLegible field table)
    (hlists : ∀ v rest, s.walk.fringe = v :: rest → scene.HasProperLists table v) :
    Echo scene.registry field (Walk.step s).result (Walk.step t).result ∧
      Paired field scene (advance s) (advance t) := by
  have hfringe := h.fringe
  rcases hs : s.walk.fringe with _ | ⟨v, rest⟩ <;> rcases ht : t.walk.fringe with _ | ⟨w, rest'⟩ <;>
    rw [hs, ht] at hfringe
  · rw [advance, advance, step_nil hs, step_nil ht]
    exact ⟨.done, h⟩
  · cases hfringe
  · cases hfringe
  · obtain ⟨htwin, hrest⟩ := List.forall₂_cons.mp hfringe
    obtain ⟨hslots, hstate⟩ :=
      Scene.slotsOf_agree h.alike hfield htable hlegible htwin (hlists v rest hs)
    have halike := (Scene.slotsOf_alike v s.toScene).trans h.alike
    have hkinds := Scene.kindOf_twin hfield htwin
    obtain ⟨kind, hkind⟩ := Registry.HasTextField.kindOf ⟨field, hfield⟩ v
    rw [advance, advance, step_cons hs, step_cons ht, h.unpruned.1, h.unpruned.2, found, found,
      expand_absent, expand_absent, h.same, hstate]
    generalize (Scene.slotsOf v s.toScene).result = a at hslots ⊢
    generalize (Scene.slotsOf w s.toScene).result = b at hslots ⊢
    cases hslots with
    | ok hxs =>
      exact ⟨.node htwin hkinds, halike, rfl, ⟨rfl, rfl⟩,
        List.rel_append (forall₂_present hxs) hrest⟩
    | @error e he =>
      have hfault (x : Value) (hx : scene.registry.kindOf x = .ok kind) :
          stepFault (Scene.slotsOf v s.toScene).state.registry x e =
            .expansion x kind e.wording (some e) := by
        rw [stepFault_of_kindOf ((halike.kindOf x).trans hx), he]
        rfl
      dsimp only
      rw [hfault v hkind, hfault w (hkinds.trans hkind)]
      exact ⟨.failed htwin hkind (hkinds.trans hkind), halike, rfl, ⟨rfl, rfl⟩, hrest⟩

theorem iterate (h : Paired field scene s t) (hfield : scene.registry.kindField = .str field)
    (htable : scene.registry.IsByFields table) (hlegible : IsLegible field table)
    (hlists : ∀ v, Visits s v → scene.HasProperLists table v) (k : Nat) :
    Paired field scene (advance^[k] s) (advance^[k] t) := by
  induction k with
  | zero => exact h
  | succ k ih =>
    rw [Function.iterate_succ_apply', Function.iterate_succ_apply']
    exact (ih.step hfield htable hlegible fun v rest hv => hlists v ⟨k, rest, hv⟩).2

end Paired

/-- A walk over a plain value and a walk over its conversion, under rules by fields, give the same
answers step by step: twins of one kind, or failures with the same kind and message, or the end. The
walks go on after every failure. The conversion can be made if no entry has a reserved name. -/
theorem step_iterate_convert (scene : Scene σ) (field : String)
    (hfield : scene.registry.kindField = .str field) (table : List (String × List FieldSpec))
    (htable : scene.registry.IsByFields table) (hlegible : IsLegible field table) (root : Value)
    (hplain : root.isPlain = true) {kind : String}
    (hroot : scene.registry.kindOf root = .ok (some kind))
    (hlists : ∀ v, Visits ⟨scene, ⟨[root], .absent⟩⟩ v → scene.HasProperLists table v) (n : Nat) :
    (Value.avoidReserved (.str field) [root] = true →
      root.convertUnder (.str field) n = .ok (root.convert (.str field) n)) ∧
    ∃ w w', start scene.registry .absent root = .ok w ∧
      start scene.registry .absent (root.convert (.str field) n).1 = .ok w' ∧
      ∀ k, Echo scene.registry field (step (advance^[k] ⟨scene, w⟩)).result
        (step (advance^[k] ⟨scene, w'⟩)).result := by
  have htwin : Value.Twin field root (root.convert (.str field) n).1 := ⟨hplain, n, rfl⟩
  refine ⟨fun hnames => Value.convertUnder_of_avoidReserved hnames n, _, _, start_eq hroot,
    start_eq ((Scene.kindOf_twin hfield htwin).trans hroot), fun k => ?_⟩
  have hstart : Paired field scene ⟨scene, ⟨[root], .absent⟩⟩
      ⟨scene, ⟨[(root.convert (.str field) n).1], .absent⟩⟩ :=
    ⟨.refl scene, rfl, ⟨rfl, rfl⟩, .cons htwin .nil⟩
  have hk := hstart.iterate hfield htable hlegible hlists k
  exact (hk.step hfield htable hlegible fun v rest hv => hlists v ⟨k, rest, hv⟩).1

end Walk

namespace Sample

/-- Rows hold a list of cells, pairs a left and a right part. -/
def rowTable : List (String × List FieldSpec) :=
  [("Row", [.many (.str "cells")]), ("Pair", [.one (.str "left"), .one (.str "right")])]

/-- Only cells are looked for in a list. -/
theorem rowTable_many {kind name : String} {specs : List FieldSpec}
    (hspecs : rowTable.lookup kind = some specs) (hmany : .many (.str name) ∈ specs) :
    name = "cells" := by
  have hmem : (kind, specs) ∈ rowTable := mem_of_lookup hspecs
  simp only [rowTable, List.mem_cons, List.not_mem_nil, or_false, Prod.mk.injEq] at hmem
  obtain ⟨-, rfl⟩ | ⟨-, rfl⟩ := hmem
  · simpa using hmany
  · simp at hmany

def rows : Registry σ where
  rules := rowTable.map fun e => (e.1, FieldSpec.rule e.2)

/-- A pair with a mapping that has no kind. -/
def placedPair : Value :=
  node 2 "Pair" [("left", name), ("right", .dict ⟨4, none⟩ [("line", .int 1)])]

/-- A row whose cells are no list. -/
def brokenRow : Value := node 5 "Row" [("cells", .int 7)]

/-- A row of letters. -/
def letterRow : Value := node 6 "Row" [("cells", .str "ab")]

def rowTree : Value :=
  node 0 "Row" [("cells", .list ⟨1, none⟩ [placedPair, .null, brokenRow, letterRow])]

end Sample

namespace Walk

/-- The walks agree also after the row that has no list, and on what has no kind. -/
theorem step_iterate_convert_rowTree :
    Sample.rowTree.isPlain = true ∧
      Sample.rowTree.convertUnder (.str "type") 7 = .ok (Sample.rowTree.convert (.str "type") 7) ∧
      ∃ w w', start (σ := Unit) Sample.rows .absent Sample.rowTree = .ok w ∧
        start (σ := Unit) Sample.rows .absent (Sample.rowTree.convert (.str "type") 7).1 = .ok w' ∧
        ∀ k, Echo (σ := Unit) Sample.rows "type" (step (advance^[k] ⟨⟨Sample.rows, ()⟩, w⟩)).result
          (step (advance^[k] ⟨⟨Sample.rows, ()⟩, w'⟩)).result := by
  have hplain : Sample.rowTree.isPlain = true := by decide
  have hrules : (Sample.rows : Registry Unit).AllRules Rule.IsPure := by
    refine Registry.allRules_of_mem fun e he => ?_
    obtain ⟨row, -, rfl⟩ := List.mem_map.mp he
    exact Rule.ofFunction_isPure _ _
  have hfollows := @Follows.start Unit .absent ⟨Sample.rows, ()⟩ Sample.rowTree trivial hrules
    { below :=
        .cons Sample.placedPair
          (.cons Sample.name .nil (.cons (.dict ⟨4, none⟩ [("line", .int 1)]) .nil .nil))
          (.cons Sample.brokenRow .nil (.cons Sample.letterRow
            (.cons (.str "a") .nil (.cons (.str "b") .nil .nil)) .nil))
      roots_below := rfl
      unfolds_below := ⟨rfl, ⟨rfl, trivial, rfl, trivial, trivial⟩, rfl, trivial, rfl,
        ⟨rfl, trivial, rfl, trivial, trivial⟩, trivial⟩ }
  have hnames : Value.avoidReserved (.str "type") [Sample.rowTree] = true := by decide +kernel
  refine ⟨hplain, (step_iterate_convert ⟨Sample.rows, ()⟩ "type" rfl Sample.rowTable
    (Registry.isByFields_of_rules rfl) ?_ Sample.rowTree hplain rfl ?_ 7).imp_left (· hnames)⟩
  · simp [IsLegible, Sample.rowTable, FieldSpec.IsLegible, Value.methodNames, Value.classMethod]
  · intro v hv kind specs name o entries hkind hspecs hmany hfound
    have hmem := hfollows.mem_of_visits trivial hrules hv
    obtain rfl := Sample.rowTable_many hspecs hmany
    simp only [Unfolding.preorder, Forest.preorder, List.cons_append, List.nil_append,
      List.mem_cons, List.not_mem_nil, or_false] at hmem
    obtain rfl | rfl | rfl | rfl | rfl | rfl | rfl | rfl := hmem <;> cases hfound

end Walk

end RuleWalk
