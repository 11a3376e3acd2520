import RuleWalk.Proofs.Act
import RuleWalk.Registry

/-!
# What a scene offers

Looking for the slots of a node can change the caller's state and add to the unknown kinds, but it
changes neither the rules nor the kind field. Where the rules are pure, two scenes that agree on
these two offer the same slots.
-/

namespace RuleWalk

namespace Value

/-- A field named by a text can always be read. -/
theorem getField_text (v : Value) (field : String) : ∃ w, v.getField (.str field) = .ok w := by
  cases v <;> exact ⟨_, rfl⟩

/-- Under a text, the kind of a value can always be looked up. -/
theorem kind?_text (v : Value) (field : String) : ∃ kind, v.kind? (.str field) = .ok kind := by
  obtain ⟨w, hw⟩ := v.getField_text field
  cases v <;> simp only [kind?, hw] <;> cases w <;> simp

/-- Only a text can be the field that holds a kind. -/
theorem eq_text_of_kind? {v field : Value} {kind : String} (h : v.kind? field = .ok (some kind)) :
    ∃ s, field = .str s := by
  have hread (s : String) (hs : v.getField field = .ok (.str s)) : ∃ t, field = .str t := by
    cases field with
    | str t => exact ⟨t, rfl⟩
    -- No other value names a field: what is read there is null, or a fault.
    | _ =>
      cases v <;> simp [getField, Except.map] at hs
      split at hs <;> simp at hs
  unfold kind? at h
  split at h
  · simp at h
  · split at h
    · next s hs => exact hread s hs
    · simp at h
    · simp at h

end Value

namespace Registry

variable {σ : Type}

/-- Every rule satisfies `P`. -/
def AllRules (P : Rule σ → Prop) (r : Registry σ) : Prop :=
  ∀ kind rule, r.rule? kind = some rule → P rule

/-- The kind field is a text. -/
def HasTextField (r : Registry σ) : Prop := ∃ field, r.kindField = .str field

/-- Where one value has a kind, all values can be asked for theirs. -/
theorem hasTextField_of_kindOf {r : Registry σ} {v : Value} {kind : String}
    (h : r.kindOf v = .ok (some kind)) : r.HasTextField := Value.eq_text_of_kind? h

theorem HasTextField.kindOf {r : Registry σ} (h : r.HasTextField) (v : Value) :
    ∃ kind, r.kindOf v = .ok kind := by
  obtain ⟨field, hfield⟩ := h
  rw [Registry.kindOf, hfield]
  exact v.kind?_text field

end Registry

namespace Scene

variable {σ : Type}

/-- The same rules under the same kind field. -/
structure Alike (s t : Scene σ) : Prop where
  kindField : s.registry.kindField = t.registry.kindField
  rules : s.registry.rules = t.registry.rules

namespace Alike

variable {s t r : Scene σ}

theorem refl (s : Scene σ) : s.Alike s := ⟨rfl, rfl⟩

theorem trans (h : s.Alike t) (h' : t.Alike r) : s.Alike r :=
  ⟨h.kindField.trans h'.kindField, h.rules.trans h'.rules⟩

theorem kindOf (h : s.Alike t) (v : Value) : s.registry.kindOf v = t.registry.kindOf v := by
  rw [Registry.kindOf, Registry.kindOf, h.kindField]

theorem rule? (h : s.Alike t) (kind : String) :
    s.registry.rule? kind = t.registry.rule? kind := by
  rw [Registry.rule?, Registry.rule?, h.rules]

theorem hasTextField (h : s.Alike t) (ht : t.registry.HasTextField) :
    s.registry.HasTextField := by
  obtain ⟨field, hfield⟩ := ht
  exact ⟨field, h.kindField.trans hfield⟩

end Alike

/-- The slots as one looks them up: the kind, its rule, and what the rule offers. -/
theorem slotsOf_result (v : Value) (s : Scene σ) :
    (slotsOf v s).result =
      match s.registry.kindOf v with
      | .error e => .error e
      | .ok none => .ok []
      | .ok (some kind) =>
        match s.registry.rule? kind with
        | some rule => (rule.expand v s.user).result.bind Offer.collect
        | none => .ok [] := by
  unfold slotsOf
  rcases s.registry.kindOf v with e | _ | kind
  · rfl
  · rfl
  · cases hrule : s.registry.rule? kind with
    | none =>
      simp only [hrule]
      split <;> rfl
    | some rule => simp [hrule, Act.bind_result, consult]

theorem slotsOf_of_no_kind {v : Value} {s : Scene σ} (hkind : s.registry.kindOf v = .ok none) :
    slotsOf v s = ⟨.ok [], s, []⟩ := by
  rw [slotsOf, hkind]

/-- A kind without a rule is remembered, and put on record when it is new. -/
theorem slotsOf_of_no_rule {v : Value} {s : Scene σ} {kind : String}
    (hkind : s.registry.kindOf v = .ok (some kind)) (hrule : s.registry.rule? kind = none) :
    slotsOf v s =
      if s.registry.unknown.contains kind then ⟨.ok [], s, []⟩
      else
        ⟨.ok [], { s with registry := { s.registry with unknown := kind :: s.registry.unknown } },
          [.log (.unknownKind kind)]⟩ := by
  rw [slotsOf, hkind]
  simp only [hrule]

/-- Neither the rules nor the kind field change. -/
theorem slotsOf_alike (v : Value) (s : Scene σ) : (slotsOf v s).state.Alike s := by
  unfold slotsOf
  split
  · exact .refl s
  · exact .refl s
  · split
    · refine Act.bind_keeps (P := fun t : Scene σ => t.Alike s) ⟨rfl, rfl⟩ fun o => ?_
      rw [Act.ofExcept_state]
      exact ⟨rfl, rfl⟩
    · split
      · exact .refl s
      · exact ⟨rfl, rfl⟩

/-- Only the call of the rule, or a new kind, is put on record. -/
theorem slotsOf_hides {κ : Type} {view : Entry → Option κ}
    (hview : ∀ e, e.isInquiry = true → view e = none) (v : Value) :
    Act.Hides view (slotsOf v : Act Entry (Scene σ) (List Value)) := by
  intro s
  unfold slotsOf
  split
  · rfl
  · rfl
  · split
    · refine Act.Hides.bind (fun s => ?_) (fun o => Act.hides_ofExcept _) s
      exact List.filterMap_cons_none (hview _ rfl)
    · split
      · rfl
      · exact List.filterMap_cons_none (hview _ rfl)

/-- Scenes that are alike offer the same slots, if the rules are pure. -/
theorem slotsOf_result_congr {s t : Scene σ} (h : s.Alike t)
    (hrules : t.registry.AllRules Rule.IsPure) (v : Value) :
    (slotsOf v s).result = (slotsOf v t).result := by
  rw [slotsOf_result, slotsOf_result, h.kindOf]
  rcases t.registry.kindOf v with e | _ | kind
  · rfl
  · rfl
  · simp only [h.rule?]
    cases hrule : t.registry.rule? kind with
    | none => rfl
    | some rule => simp only [hrules kind rule hrule v s.user t.user]

/-- Under a text as kind field, only a rule can fail. -/
theorem slotsOf_neverFails {s : Scene σ} (hfield : s.registry.HasTextField)
    (hrules : s.registry.AllRules Rule.NeverFails) (v : Value) :
    ∃ slots, (slotsOf v s).result = .ok slots := by
  rw [slotsOf_result]
  obtain ⟨_ | kind, hkind⟩ := hfield.kindOf v
  · exact ⟨[], by rw [hkind]⟩
  · rw [hkind]
    cases hrule : s.registry.rule? kind with
    | none => exact ⟨[], by simp only [hrule]⟩
    | some rule =>
      obtain ⟨slots, hslots⟩ := hrules kind rule hrule v s.user
      exact ⟨slots, by simp only [hrule, hslots]; rfl⟩

/-- The children that a scene shows: the slots that are not empty, and none where the slots cannot
be found. -/
def kids (s : Scene σ) (v : Value) : List Value :=
  match (slotsOf v s).result with
  | .ok slots => present slots
  | .error _ => []

theorem null_notMem_present (slots : List Value) : Value.null ∉ present slots := by
  simp [present, Value.isNull]

end Scene

end RuleWalk
