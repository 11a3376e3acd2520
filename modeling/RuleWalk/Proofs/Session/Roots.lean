import RuleWalk.Proofs.Rules
import RuleWalk.Proofs.Session.Interleaving
import RuleWalk.Proofs.Session.Refusal
import RuleWalk.Proofs.Value.Convert
import RuleWalk.Proofs.Value.Sharing
import RuleWalk.Proofs.Value.Text

/-!
# Roots

A walk begins at a value that carries a kind and at no other, and so does a run of a plan. The fault
by which any other value is refused shows that value, so its text is needed. Where the refused value
shows one that keeps the text from being made, itself or deep inside, or shows values too deep
inside each other, the refusal ends with another fault.
-/

namespace RuleWalk

namespace Value

/-! ## Kinds -/

/-- Under `field` the value holds a text that is not empty. -/
def Carries (field : String) (v : Value) : Prop :=
  ∃ kind, v.entries.lookup field = some (.str kind) ∧ kind ≠ ""

/-- What an entry holds is read under its name. -/
theorem getField_of_lookup {v w : Value} {field : String} (h : v.entries.lookup field = some w) :
    v.getField (.str field) = .ok w := by
  cases v with
  | dict o entries =>
    have hlookup : entries.lookup field = some w := h
    rw [getField, hlookup]
    rfl
  | node o kind fields =>
    rw [entries, List.lookup_cons] at h
    by_cases htype : field = "type"
    · subst htype
      cases h
      rfl
    · rw [beq_false_of_ne htype] at h
      have hlookup : fields.lookup field = some w := h
      simp only [getField, attr?, if_neg htype, hlookup, Option.getD_some]
  | _ => cases h

theorem getField_of_kind? {v : Value} {field kind : String}
    (h : v.kind? (.str field) = .ok (some kind)) :
    v.getField (.str field) = .ok (.str kind) ∧ kind.isEmpty = false := by
  obtain ⟨w, hw⟩ := v.getField_text field
  cases v with
  | null => cases h
  | _ =>
    simp only [kind?, hw] at h
    cases w with
    | str s => cases hs : s.isEmpty <;> simp_all
    | _ => cases h

theorem carries_iff {v : Value} {field : String} :
    v.Carries field ↔ ∃ kind, v.kind? (.str field) = .ok (some kind) := by
  constructor
  · rintro ⟨kind, hlookup, hkind⟩
    have hnull : v ≠ null := by
      rintro rfl
      cases hlookup
    exact ⟨kind, kind?_of_getField hnull (by simpa using hkind) (getField_of_lookup hlookup)⟩
  · rintro ⟨kind, hkind⟩
    obtain ⟨hread, hempty⟩ := getField_of_kind? hkind
    obtain ⟨a, ha, hlookup⟩ | hnull | ⟨m, hm⟩ := getField_cases hread
    · cases ha
      exact ⟨kind, hlookup, by simpa using hempty⟩
    · cases hnull
    · cases hm

end Value

variable {σ α : Type}

/-! ## Beginnings -/

/-- What comes of a beginning at `v`, if kinds stand under `field`. A value that carries a kind is
accepted. Any other is refused with a fault that holds it, together with the field, and whose text
shows the beginning of its text. But if values stand too deep in it, or an obstacle does, then its
text cannot be made, and the fault says that. -/
structure Receives (field : String) (v : Value) (r : Except Fault α) : Prop where
  accepted : (∃ a, r = .ok a) ↔ v.Carries field
  refused : ¬ v.Carries field →
    (∀ n w, v.ShowsAt n w → n < Value.depthLimit ∧ w.obstacle? = none) →
    r = .error (.notANode v (.str field)) ∧ ∃ t, v.text = .ok t ∧
      (Fault.notANode v (.str field)).text =
        .ok ("Expected an AST node with a string " ++ Text.quote field ++ " field, got " ++
          v.typeName ++ ": " ++ Text.clip 80 t)
  obstructed : ¬ v.Carries field →
    (¬ ∀ n w, v.ShowsAt n w → n < Value.depthLimit ∧ w.obstacle? = none) →
    ∃ n w e, v.ShowsAt n w ∧ r = .error e ∧
      (n = Value.depthLimit ∧ e = Value.depthFault ∨
        n < Value.depthLimit ∧ w.obstacle? = some e)

theorem Value.text_str (s : String) : (str s).text = .ok (Text.quote s) := rfl

theorem Walk.rootFault_of_error {v : Value} {field : String} {e : Fault} (h : v.text = .error e) :
    rootFault (.str field) v = e := by
  rw [rootFault, Fault.announced, Fault.text, Value.text_str, h]
  rfl

theorem Fault.text_notANode {v : Value} (field : String) {t : String} (h : v.text = .ok t) :
    (notANode v (.str field)).text =
      .ok ("Expected an AST node with a string " ++ Text.quote field ++ " field, got " ++
        v.typeName ++ ": " ++ Text.clip 80 t) := by
  rw [text, Value.text_str, h]
  rfl

theorem receives {field : String} {v : Value} {r : Except Fault α}
    (hsome : ∀ kind, v.kind? (.str field) = .ok (some kind) → ∃ a, r = .ok a)
    (hnone : v.kind? (.str field) = .ok none → r = .error (Walk.rootFault (.str field) v)) :
    Receives field v r := by
  have hfault (hv : ¬ v.Carries field) : r = .error (Walk.rootFault (.str field) v) := by
    obtain ⟨_ | kind, hkind⟩ := v.kind?_text field
    · exact hnone hkind
    · exact absurd (Value.carries_iff.2 ⟨kind, hkind⟩) hv
  constructor
  · constructor
    · rintro ⟨a, ha⟩
      by_contra hv
      cases ha.symm.trans (hfault hv)
    · intro hv
      obtain ⟨kind, hkind⟩ := Value.carries_iff.1 hv
      exact hsome kind hkind
  · intro hv hshows
    have htext := Value.hasText_iff.2 hshows
    rw [hfault hv, Walk.rootFault_of_hasText ⟨_, Value.text_str field⟩ htext]
    obtain ⟨t, ht⟩ := htext
    exact ⟨rfl, t, ht, Fault.text_notANode field ht⟩
  · intro hv hshows
    rw [hfault hv]
    cases htext : v.text with
    | ok t => exact absurd (Value.hasText_iff.1 ⟨t, htext⟩) hshows
    | error e =>
      obtain ⟨n, w, hw, hplace⟩ := Value.textWithin_error htext
      exact ⟨n, w, e, hw, by rw [Walk.rootFault_of_error htext], hplace⟩

/-- An accepted configuration has a test to prune by, or none. -/
theorem Config.prune_of_check {c : Config σ} (h : c.check = .ok ()) :
    ∃ prune, c.prune = .ok prune := by
  obtain ⟨-, -, -, -, -, hhooks⟩ := (check_eq_ok_iff c).1 h
  rw [Config.prune]
  cases hfilter : c.filter with
  | given f => exact ⟨_, rfl⟩
  | foreign v =>
    cases hprune : v.attr (.str "prune_filter") with
    | ok w => exact ⟨.ofValue w, by simp [hprune, Except.map]⟩
    | error e =>
      -- The test that cannot be read for the walk could not be read for the check either.
      rw [hookProblems, filterHooks, hfilter] at hhooks
      cases hkeep : v.attr (.str "include_filter") <;>
        cases hdrop : v.attr (.str "exclude_filter") <;>
        simp [hkeep, hdrop, hprune, bind, Except.bind, Except.map, pure, Except.pure] at hhooks

theorem Run.start_of_prune {c : Config σ} {prune : Hook (Predicate σ)}
    (hprune : c.prune = .ok prune) (scene : Scene σ) (root : Value) :
    start c scene root = (Walk.start scene.registry prune root).map fun walk =>
      { toScene := scene, walk } := by
  rw [start, hprune]
  cases h : Walk.start scene.registry prune root <;> simp only [bind, Except.bind, h] <;> rfl

namespace Walk

variable {registry : Registry σ} {field : String} {prune : Hook (Predicate σ)} {v : Value}

theorem start_of_no_kind (hfield : registry.kindField = .str field)
    (hkind : v.kind? (.str field) = .ok none) :
    start registry prune v = .error (rootFault (.str field) v) := by
  rw [start, Registry.kindOf, hfield, hkind]

theorem start_receives (hfield : registry.kindField = .str field) (prune : Hook (Predicate σ))
    (v : Value) : Receives field v (start registry prune v) :=
  receives (fun _ hkind => ⟨_, start_eq (hfield ▸ hkind)⟩) (start_of_no_kind hfield)

end Walk

namespace Session

theorem execute_receives {s : Session σ} {p : Nat} {field : String}
    (hfield : (s.registry (s.plan p).registry).kindField = .str field)
    (hcheck : (s.plan p).config.check = .ok ()) (v : Value) :
    Receives field v (execute p v s).result := by
  obtain ⟨prune, hprune⟩ := Config.prune_of_check hcheck
  have hstart := Run.start_of_prune hprune (s.scene (s.plan p).registry) v
  replace hfield : (s.scene (s.plan p).registry).registry.kindField = .str field := hfield
  refine receives (fun kind hkind => ?_) fun hkind => ?_
  · rw [Walk.start_eq (hfield ▸ hkind)] at hstart
    rw [execute_of_ok hstart]
    exact ⟨_, rfl⟩
  · rw [Walk.start_of_no_kind hfield hkind] at hstart
    rw [execute_of_error hstart]

end Session

end RuleWalk
