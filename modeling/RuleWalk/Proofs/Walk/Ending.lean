import RuleWalk.Proofs.Value.Parts
import RuleWalk.Proofs.Walk.Failing
import RuleWalk.Proofs.Walk.Once

/-!
# Walks by fields end

What a rule by fields finds at a node is a part of the node, a part of a part, or a leaf: a
character of a text, a key of a mapping, an operation. Values are finite, so under such rules every
value has a finite unfolding, whatever its shape and however often its parts are shared. A node
whose fields cannot be read has no children there, and the step that takes it fails with a fault
that is announced; so a walk that goes on after every failure ends with the last node of the
unfolding.

Fields are those that a node was given, its kind and its operations. What every object has besides,
under names of its own such as `__class__` or `__doc__`, is no field here: such attributes lead back
to where they came from, and a value that is read by them is not finite.
-/

namespace RuleWalk

/-! ## What is read -/

namespace Value

variable {v w name : Value} {e : Fault}

theorem mem_parts_of_lookup {a : String} (h : v.entries.lookup a = some w) : w ∈ v.parts := by
  have hmem {es : List (String × Value)} (hes : es.lookup a = some w) : w ∈ es.map Prod.snd :=
    List.mem_map.2 ⟨(a, w), mem_of_lookup hes, rfl⟩
  cases v with
  | dict o entries => exact hmem h
  | node o kind fields => exact hmem h
  | _ => cases h

/-- Iterating gives parts, or texts. -/
theorem mem_parts_of_iterate {items : List Value} (h : v.iterate = .ok items) (hw : w ∈ items) :
    w ∈ v.parts ∨ ∃ s, w = .str s := by
  cases v with
  | list o items | tuple o items =>
    cases h
    exact .inl hw
  | str s =>
    cases h
    obtain ⟨c, -, rfl⟩ := List.mem_map.1 hw
    exact .inr ⟨c.toString, rfl⟩
  | dict o entries =>
    cases h
    obtain ⟨entry, -, rfl⟩ := List.mem_map.1 hw
    exact .inr ⟨entry.1, rfl⟩
  | _ => cases h

theorem checkKey_announced (h : checkKey v = .error e) : e.escape? = none := by
  induction v using induction_parts with
  | whole v ih =>
    cases v with
    | list o items | dict o entries =>
      cases h
      rfl
    | tuple o items =>
      rw [checkKey] at h
      induction items with
      | nil => cases h
      | cons item items ihitems =>
        rw [checkKeys] at h
        cases hitem : checkKey item with
        | error e' =>
          rw [hitem] at h
          cases h
          exact ih item List.mem_cons_self hitem
        | ok u =>
          rw [hitem] at h
          exact ihitems (fun w hw => ih w (List.mem_cons_of_mem item hw)) h
    | _ => cases h

theorem getField_announced (h : v.getField name = .error e) : e.escape? = none := by
  have hkey (hmap : (checkKey name).map (fun _ => null) = .error e) : e.escape? = none := by
    cases hcheck : checkKey name with
    | ok u =>
      rw [hcheck] at hmap
      cases hmap
    | error e' =>
      rw [hcheck] at hmap
      cases hmap
      exact checkKey_announced hcheck
  cases name with
  | str s =>
    obtain ⟨w, hw⟩ := v.getField_text s
    cases hw.symm.trans h
  | _ =>
    cases v with
    | dict o entries => exact hkey h
    | _ =>
      cases h
      rfl

theorem getList_announced (h : v.getList name = .error e) : e.escape? = none := by
  cases hfield : v.getField name with
  | error e' =>
    rw [getList, hfield] at h
    cases h
    exact getField_announced hfield
  | ok w =>
    rw [getList, hfield] at h
    cases w <;> cases h <;> rfl

end Value

theorem FieldSpec.slots_announced {v : Value} {spec : FieldSpec} {e : Fault}
    (h : spec.slots v = .error e) : e.escape? = none := by
  cases spec with
  | one name =>
    cases hfield : v.getField name with
    | ok w =>
      rw [slots, hfield] at h
      cases h
    | error e' =>
      rw [slots, hfield] at h
      cases h
      exact Value.getField_announced hfield
  | many name => exact Value.getList_announced h

theorem FieldSpec.allSlots_announced {v : Value} {specs : List FieldSpec} {e : Fault}
    (h : allSlots v specs = .error e) : e.escape? = none := by
  induction specs with
  | nil => cases h
  | cons spec specs ih =>
    rw [allSlots] at h
    cases hspec : spec.slots v with
    | error e' =>
      rw [hspec] at h
      cases h
      exact slots_announced hspec
    | ok vs =>
      rw [hspec] at h
      cases hrest : allSlots v specs with
      | error e' =>
        rw [hrest] at h
        cases h
        exact ih hrest
      | ok ws =>
        rw [hrest] at h
        cases h

/-- The rule reads fields. -/
def Rule.IsByFields {σ : Type} (rule : Rule σ) : Prop := ∃ specs, rule = FieldSpec.rule specs

/-- Where every rule reads fields, a table says which. -/
theorem Registry.AllRules.exists_table {σ : Type} {r : Registry σ}
    (h : r.AllRules Rule.IsByFields) : ∃ table, r.IsByFields table := by
  have hspecs (rule : Rule σ) :
      ∃ specs, rule.IsByFields → rule = FieldSpec.rule specs := by
    by_cases hrule : rule.IsByFields
    · obtain ⟨specs, hrule⟩ := hrule
      exact ⟨specs, fun _ => hrule⟩
    · exact ⟨[], fun h => absurd h hrule⟩
  choose specsOf hspecsOf using hspecs
  refine ⟨r.rules.map fun e => (e.1, specsOf e.2), fun kind => ?_⟩
  rw [lookup_map_snd, Option.map_map]
  cases hrule : r.rules.lookup kind with
  | none => exact hrule
  | some rule =>
    exact hrule.trans (congrArg some (hspecsOf rule (h kind rule hrule)))

/-! ## Finite unfoldings -/

/-- Values that have unfoldings are the roots of a forest. -/
theorem exists_forest {kids : Value → List Value} {vs : List Value}
    (h : ∀ v ∈ vs, Nonempty (Unfolding kids v)) : ∃ f : Forest, f.roots = vs ∧ f.Unfolds kids := by
  induction vs with
  | nil => exact ⟨.nil, rfl, trivial⟩
  | cons v vs ih =>
    obtain ⟨t⟩ := h v List.mem_cons_self
    obtain ⟨f, hroots, hf⟩ := ih fun w hw => h w (List.mem_cons_of_mem v hw)
    exact ⟨.cons v t.below f, congrArg (v :: ·) hroots, t.roots_below, t.unfolds_below, hf⟩

/-- A value unfolds if its children do. -/
theorem Unfolding.nonempty_of_kids {kids : Value → List Value} {v : Value}
    (h : ∀ w ∈ kids v, Nonempty (Unfolding kids w)) : Nonempty (Unfolding kids v) := by
  obtain ⟨f, hroots, hf⟩ := exists_forest h
  exact ⟨⟨f, hroots, hf⟩⟩

namespace Scene

variable {σ : Type} {scene : Scene σ} {table : List (String × List FieldSpec)} {v w : Value}

/-- A value without entries has no kind, and so no children. -/
theorem kids_of_entries_nil (hfields : scene.registry.IsByFields table) (h : v.entries = []) :
    scene.kids v = [] := by
  obtain hnil | ⟨kind, specs, slots, hkind, -, -, -⟩ := kids_cases hfields v
  · exact hnil
  · obtain ⟨field, hfield⟩ := Registry.hasTextField_of_kindOf hkind
    rw [Registry.kindOf, hfield] at hkind
    cases v with
    | dict o entries =>
      cases h
      cases hkind
    | node o kind fields => cases h
    | _ => cases hkind

/-- A child is a part, or a part of a part, or it has no entries itself. -/
theorem mem_kids_cases (hfields : scene.registry.IsByFields table) (h : w ∈ scene.kids v) :
    w ∈ v.parts ∨ (∃ u ∈ v.parts, w ∈ u.parts) ∨ w.entries = [] := by
  cases reads_of_mem_kids hfields h with
  | whole hkind hspecs hname hfield hnull =>
    obtain ⟨a, rfl, hlookup⟩ | rfl | ⟨m, rfl⟩ := Value.getField_cases hfield
    · exact .inl (Value.mem_parts_of_lookup hlookup)
    · exact absurd rfl hnull
    · exact .inr (.inr rfl)
  | item hkind hspecs hname hfield hitems hmem hnull =>
    obtain ⟨a, rfl, hlookup⟩ | rfl | ⟨m, rfl⟩ := Value.getField_cases hfield
    · obtain hpart | ⟨s, rfl⟩ := Value.mem_parts_of_iterate hitems hmem
      · exact .inr (.inl ⟨_, Value.mem_parts_of_lookup hlookup, hpart⟩)
      · exact .inr (.inr rfl)
    · cases hitems
    · cases hitems

/-- Under rules by fields every value has a finite unfolding. -/
theorem nonempty_unfolding (hfields : scene.registry.IsByFields table) (v : Value) :
    Nonempty (Unfolding scene.kids v) := by
  -- A child may be a part of a part, so the parts of the value take part in the induction.
  suffices h : Nonempty (Unfolding scene.kids v) ∧
      ∀ w ∈ v.parts, Nonempty (Unfolding scene.kids w) from h.1
  induction v using Value.induction_parts with
  | whole v ih =>
    refine ⟨Unfolding.nonempty_of_kids fun w hw => ?_, fun w hw => (ih w hw).1⟩
    obtain hpart | ⟨u, hu, hpart⟩ | hentries := mem_kids_cases hfields hw
    · exact (ih w hpart).1
    · exact (ih u hu).2 w hpart
    · exact ⟨⟨.nil, (kids_of_entries_nil hfields hentries).symm, trivial⟩⟩

theorem slotsOf_announced (hfield : scene.registry.HasTextField)
    (hfields : scene.registry.IsByFields table) {e : Fault}
    (h : (slotsOf v scene).result = .error e) : e.escape? = none := by
  obtain ⟨kind, rule, hkind, hrule, -⟩ := (slotsOf_error_iff hfield).1 h
  rw [hfields, Option.map_eq_some_iff] at hrule
  obtain ⟨specs, hspecs, rfl⟩ := hrule
  have hrule := hfields kind
  rw [hspecs] at hrule
  rw [slotsOf_of_fields hkind hrule] at h
  exact FieldSpec.allSlots_announced h

end Scene

theorem Registry.IsByFields.isPure {σ : Type} {r : Registry σ}
    {table : List (String × List FieldSpec)} (h : r.IsByFields table) :
    r.AllRules Rule.IsPure := by
  intro kind rule hrule
  rw [h, Option.map_eq_some_iff] at hrule
  obtain ⟨specs, -, rfl⟩ := hrule
  exact Rule.ofFunction_isPure _ _

namespace Walk

variable {σ : Type} {scene : Scene σ}

/-- Without a test, `k` steps of a walk leave what comes after the first `k` nodes. -/
theorem Follows.iterate_absent {root : Value} (hrules : scene.registry.AllRules Rule.IsPure)
    (t : Unfolding scene.kids root) (k : Nat) :
    Follows .absent scene (t.preorder.drop k) (Walk.advance^[k] ⟨scene, ⟨[root], .absent⟩⟩) := by
  have habsent : (Hook.absent : Hook (Predicate σ)).All Predicate.IsPure := trivial
  have hstart : Follows .absent scene t.preorder ⟨scene, ⟨[root], .absent⟩⟩ :=
    @Follows.start σ .absent scene root trivial hrules t
  exact hstart.iterate habsent hrules k

/-- A step under rules by fields takes the first node that lies ahead. It gives the node, or it
fails with the fault of that node. -/
theorem Follows.step_of_fields {table : List (String × List FieldSpec)} {v : Value} {l : List Value}
    {s : Stage σ} {kind : Option String} (hfields : scene.registry.IsByFields table)
    (hkind : scene.registry.kindOf v = .ok kind) (hfield : scene.registry.HasTextField)
    (h : Follows .absent scene (v :: l) s) :
    (step s).result =
      match (Scene.slotsOf v scene).result with
      | .ok _ => .ok (some v)
      | .error e => .error (.expansion v kind e.wording (some e)) := by
  obtain ⟨rest, hfringe, -⟩ := h.fringe_cons
  have hslots : (expand s.walk.prune v s.toScene).result = (Scene.slotsOf v scene).result := by
    rw [h.prune_eq, expand_absent, Scene.slotsOf_result_congr h.alike hfields.isPure]
  cases hresult : (Scene.slotsOf v scene).result with
  | ok slots => rw [step_cons hfringe, hslots, hresult]
  | error e =>
    have hannounced := Scene.slotsOf_announced hfield hfields hresult
    have hfault := step_of_fails hfringe ((h.alike.kindOf v).trans hkind) (hslots.trans hresult)
    rw [hfault.1, hannounced]
    rfl

/-- Under rules by fields every walk ends, if it goes on after every failure. Each step until then
takes the next node of the finite unfolding of the root: it gives the node, or it fails with the
fault of the node. -/
theorem isDone_of_fields (scene : Scene σ) (hrules : scene.registry.AllRules Rule.IsByFields)
    (root : Value) {kind : String} (hroot : scene.registry.kindOf root = .ok (some kind)) :
    ∃ (w : Walk σ) (t : Unfolding scene.kids root),
      start scene.registry .absent root = .ok w ∧ ∀ k,
        ((advance^[k] ⟨scene, w⟩).walk.isDone = true ↔ t.preorder.length ≤ k) ∧
        ∀ v, t.preorder[k]? = some v →
          (step (advance^[k] ⟨scene, w⟩)).result = .ok (some v) ∨
            ∃ kind e detail, scene.registry.kindOf v = .ok kind ∧ e.text = .ok detail ∧
              (step (advance^[k] ⟨scene, w⟩)).result =
                .error (.expansion v kind detail (some e)) := by
  obtain ⟨table, hfields⟩ := hrules.exists_table
  obtain ⟨t⟩ := scene.nonempty_unfolding hfields root
  have hfield := Registry.hasTextField_of_kindOf hroot
  refine ⟨⟨[root], .absent⟩, t, start_eq hroot, fun k => ?_⟩
  have hk := Follows.iterate_absent hfields.isPure t k
  constructor
  · rw [hk.isDone_iff, List.drop_eq_nil_iff]
  · intro v hv
    obtain ⟨hlt, rfl⟩ := List.getElem?_eq_some_iff.1 hv
    rw [List.drop_eq_getElem_cons hlt] at hk
    obtain ⟨kind, hkind⟩ := hfield.kindOf t.preorder[k]
    rw [hk.step_of_fields hfields hkind hfield]
    cases hslots : (Scene.slotsOf t.preorder[k] scene).result with
    | ok slots => exact .inl rfl
    | error e =>
      have hannounced := Scene.slotsOf_announced hfield hfields hslots
      exact .inr ⟨kind, e, e.wording, hkind, Fault.text_eq_of_escape? hannounced, rfl⟩

/-- The walk over rows goes on after the row that has no list, and ends after the letters. -/
theorem isDone_of_fields_rowTree :
    (Sample.rows : Registry Unit).AllRules Rule.IsByFields ∧
      ∃ w, start (σ := Unit) Sample.rows .absent Sample.rowTree = .ok w ∧ ∃ n, ∀ k,
        (advance^[k] ⟨⟨Sample.rows, ()⟩, w⟩).walk.isDone = true ↔ n ≤ k := by
  have hrules : (Sample.rows : Registry Unit).AllRules Rule.IsByFields := by
    refine Registry.allRules_of_mem fun e he => ?_
    obtain ⟨row, -, rfl⟩ := List.mem_map.mp he
    exact ⟨row.2, rfl⟩
  obtain ⟨w, t, hstart, hwalk⟩ := isDone_of_fields ⟨Sample.rows, ()⟩ hrules Sample.rowTree rfl
  exact ⟨hrules, w, hstart, t.preorder.length, fun k => (hwalk k).1⟩

end Walk

end RuleWalk
