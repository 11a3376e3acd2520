import RuleWalk.Fault.Message
import RuleWalk.Proofs.Value.Text
import RuleWalk.Walk

/-!
# Faults that escape

A walk turns the fault of an expansion into one that names the node and holds the text of its cause.
Two sorts of faults escape that: an interruption passes as it is, and where a cause has no text, the
fault met in asking for it takes its place. Neither is a failed expansion, so a plan lets both pass.
-/

namespace RuleWalk

namespace Fault

/-- The children of a node could not be found. -/
def isExpansion : Fault → Bool
  | expansion .. => true
  | _ => false

/-- A fault that plans and lazy sequences let pass as it is: no failed expansion, and no stop. -/
structure Passes (e : Fault) : Prop where
  isExpansion : e.isExpansion = false
  leaving : e.leaving = e

theorem passes_of_obstacle? {v : Value} {e : Fault} (h : v.obstacle? = some e) : e.Passes := by
  cases v with
  | node o kind fields =>
    obtain ⟨x, -, rfl⟩ := Option.map_eq_some_iff.1 h
    exact ⟨rfl, rfl⟩
  | int n =>
    rw [Value.obstacle?] at h
    split at h
    · cases h
    · cases h
      exact ⟨rfl, rfl⟩
  | _ => cases h

theorem passes_of_textWithin {v : Value} {room : Nat} {e : Fault}
    (h : v.textWithin room = .error e) : e.Passes := by
  obtain ⟨n, w, -, ⟨-, rfl⟩ | ⟨-, hobstacle⟩⟩ := Value.textWithin_error h
  · exact ⟨rfl, rfl⟩
  · exact passes_of_obstacle? hobstacle

theorem passes_raised {signal : Signal} (h : signal ≠ .stop) (t : String) :
    (raised signal t).Passes := by
  refine ⟨rfl, ?_⟩
  cases signal with
  | stop => exact absurd rfl h
  | _ => rfl

/-- What takes the place of the text of a fault passes as it is. -/
theorem passes_of_text {e e' : Fault} (h : e.text = .error e') : e'.Passes := by
  cases e with
  | wordless signal obstacle t =>
    cases h
    exact passes_raised obstacle.property t
  | missingKey key => exact passes_of_textWithin h
  | badKind kind =>
    cases hkind : kind.text with
    | ok shown => simp [text, hkind, bind, Except.bind, pure, Except.pure] at h
    | error e =>
      simp only [text, hkind, bind, Except.bind, Except.error.injEq] at h
      exact h ▸ passes_of_textWithin hkind
  | notANode value field =>
    cases hfield : field.text with
    | error e =>
      simp only [text, hfield, bind, Except.bind, Except.error.injEq] at h
      exact h ▸ passes_of_textWithin hfield
    | ok t =>
      cases hvalue : value.text with
      | ok shown => simp [text, hfield, hvalue, bind, Except.bind, pure, Except.pure] at h
      | error e =>
        simp only [text, hfield, hvalue, bind, Except.bind, Except.error.injEq] at h
        exact h ▸ passes_of_textWithin hvalue
  | raised signal t => cases signal <;> cases h
  | badIndex container t =>
    by_cases hstring : container = "string"
    · subst hstring
      cases h
    · rw [text] at h
      · cases h
      · exact hstring
  | _ => cases h

/-- What leaves a walk when an expansion ends with the fault, unless it is announced: an
interruption, or the fault that takes the place of its text. -/
def escape? (e : Fault) : Option Fault :=
  if e.isOrdinary then
    match e.text with
    | .ok _ => none
    | .error e' => some e'
  else some e

/-- The text of a fault that has one. -/
def wording (e : Fault) : String := e.text.toOption.getD ""

@[simp] theorem wording_expansion (v : Value) (kind : Option String) (detail : String)
    (cause : Option Fault) :
    (expansion v kind detail cause).wording = expansionText kind detail := rfl

theorem escape?_eq_none_iff {e : Fault} :
    e.escape? = none ↔ e.isOrdinary = true ∧ ∃ t, e.text = .ok t := by
  rw [escape?]
  cases e.isOrdinary <;> cases e.text <;> simp

theorem text_eq_of_escape? {e : Fault} (h : e.escape? = none) : e.text = .ok e.wording := by
  obtain ⟨-, t, ht⟩ := escape?_eq_none_iff.1 h
  rw [wording, ht]
  rfl

theorem passes_of_not_isOrdinary {e : Fault} (h : e.isOrdinary = false) : e.Passes := by
  cases e with
  | raised signal t => exact passes_raised (by rintro rfl; cases h) t
  | wordless signal obstacle t =>
    refine ⟨rfl, ?_⟩
    cases signal with
    | stop => cases h
    | _ => rfl
  | _ => cases h

/-- What escapes passes as it is. -/
theorem passes_of_escape? {e e' : Fault} (h : e.escape? = some e') : e'.Passes := by
  rw [escape?] at h
  split at h
  · split at h
    · cases h
    · next htext =>
      cases h
      exact passes_of_text htext
  · next hordinary =>
    cases h
    exact passes_of_not_isOrdinary (by simpa using hordinary)

end Fault

namespace Walk

variable {σ : Type}

/-- What escapes when a walk expands a node, if anything does. -/
def escape? (prune : Hook (Predicate σ)) (scene : Scene σ) (v : Value) : Option Fault :=
  match (expand prune v scene).result with
  | .ok _ => none
  | .error e => e.escape?

/-- Where the kind of the node can be read, a step fails with what escapes, or else with the failed
expansion. -/
theorem stepFault_of_kindOf {registry : Registry σ} {v : Value}
    {kind : Option String} (hkind : registry.kindOf v = .ok kind) (e : Fault) :
    stepFault registry v e = e.escape?.getD (.expansion v kind e.wording (some e)) := by
  rw [stepFault, Fault.escape?, Fault.wording]
  cases e.isOrdinary with
  | false => rfl
  | true =>
    simp only [if_true, hkind]
    cases e.text <;> rfl

end Walk

end RuleWalk
