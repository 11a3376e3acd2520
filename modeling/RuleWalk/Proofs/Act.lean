import RuleWalk.Hook
import RuleWalk.Rule.Basic

/-!
# Activities part by part

The result, the state and the entries of a composed activity, each from the parts. An activity is
pure when its result does not depend on the state; what it does to the state, and what it puts on
record, is not looked at.
-/

namespace RuleWalk

/-- The outcome when `es` was put on record before. -/
def Outcome.after {ω ρ α : Type} (es : List ω) (o : Outcome ω ρ α) : Outcome ω ρ α :=
  { o with entries := es ++ o.entries }

namespace Outcome

variable {ω ρ α : Type}

@[simp] theorem after_result (es : List ω) (o : Outcome ω ρ α) :
    (o.after es).result = o.result := rfl

@[simp] theorem after_state (es : List ω) (o : Outcome ω ρ α) : (o.after es).state = o.state := rfl

@[simp] theorem after_after (es es' : List ω) (o : Outcome ω ρ α) :
    (o.after es').after es = o.after (es ++ es') := by
  simp [after]

end Outcome

namespace Act

variable {ω ρ τ α β : Type}

/-- The result does not depend on the state. -/
def IsPure (m : Act ω ρ α) : Prop := ∀ s s', (m s).result = (m s').result

/-- There is always a result. -/
def NeverFails (m : Act ω ρ α) : Prop := ∀ s, ∃ a, (m s).result = .ok a

/-- A sequence of two activities, told by how the first one ended. -/
theorem bind_apply (m : Act ω ρ α) (f : α → Act ω ρ β) (s : ρ) :
    (m >>= f) s =
      match (m s).result with
      | .ok a => (f a (m s).state).after (m s).entries
      | .error e => ⟨.error e, (m s).state, (m s).entries⟩ := by
  rcases h : m s with ⟨_ | a, s', es⟩
  · exact bind_apply_error h
  · exact bind_apply_ok h

/-- The form in which proofs go through a sequence, one finished part after the other. -/
theorem bind_of_ok {m : Act ω ρ α} {s s' : ρ} {a : α} {es : List ω}
    (h : m s = ⟨.ok a, s', es⟩) (f : α → Act ω ρ β) : (m >>= f) s = (f a s').after es :=
  bind_apply_ok h

theorem get_bind (f : ρ → Act ω ρ β) (s : ρ) : ((get : Act ω ρ ρ) >>= f) s = f s s := by
  rw [bind_apply]; rfl

theorem modify_bind (g : ρ → ρ) (f : Unit → Act ω ρ β) (s : ρ) :
    ((modify g : Act ω ρ Unit) >>= f) s = f () (g s) := by
  rw [bind_apply]; rfl

theorem note_bind (e : ω) (f : Unit → Act ω ρ β) (s : ρ) :
    ((note e : Act ω ρ Unit) >>= f) s = (f () s).after [e] := by
  rw [bind_apply]; rfl

/-- An attempt always goes on, with the result that a failed part left. -/
theorem attempt_bind (m : Act ω ρ α) (f : Except Fault α → Act ω ρ β) (s : ρ) :
    (attempt m >>= f) s = (f (m s).result (m s).state).after (m s).entries := by
  rw [bind_apply]; rfl

theorem ofExcept_ok_bind (a : α) (f : α → Act ω ρ β) (s : ρ) :
    ((ofExcept (.ok a) : Act ω ρ α) >>= f) s = f a s := by
  rw [bind_apply]; rfl

theorem ofExcept_error_bind (e : Fault) (f : α → Act ω ρ β) (s : ρ) :
    ((ofExcept (.error e) : Act ω ρ α) >>= f) s = ⟨.error e, s, []⟩ := by
  rw [bind_apply]; rfl

theorem bind_result (m : Act ω ρ α) (f : α → Act ω ρ β) (s : ρ) :
    ((m >>= f) s).result = (m s).result.bind fun a => (f a (m s).state).result := by
  rw [bind_apply]
  cases (m s).result <;> rfl

theorem bind_state (m : Act ω ρ α) (f : α → Act ω ρ β) (s : ρ) :
    ((m >>= f) s).state =
      match (m s).result with
      | .ok a => (f a (m s).state).state
      | .error _ => (m s).state := by
  rw [bind_apply]
  cases (m s).result <;> rfl

@[simp] theorem ofExcept_result (r : Except Fault α) (s : ρ) :
    (ofExcept r s : Outcome ω ρ α).result = r := by
  cases r <;> rfl

@[simp] theorem ofExcept_state (r : Except Fault α) (s : ρ) :
    (ofExcept r s : Outcome ω ρ α).state = s := by
  cases r <;> rfl

@[simp] theorem zoom_result (view : ρ → τ) (update : ρ → τ → ρ) (m : Act ω τ α) (s : ρ) :
    (zoom view update m s).result = (m (view s)).result := rfl

@[simp] theorem zoom_state (view : ρ → τ) (update : ρ → τ → ρ) (m : Act ω τ α) (s : ρ) :
    (zoom view update m s).state = update s (m (view s)).state := rfl

@[simp] theorem consult_result (role : Role) (v : Value) (m : Act Remark ρ α) (s : ρ) :
    (consult role v m s).result = (m s).result := rfl

/-- What the first part does beforehand, the whole does beforehand. -/
theorem bind_after {m : Act ω ρ α} {s s' : ρ} {es : List ω} (h : m s = (m s').after es)
    (f : α → Act ω ρ β) : (m >>= f) s = ((m >>= f) s').after es := by
  rw [bind_apply, bind_apply, h, Outcome.after_result, Outcome.after_state]
  cases (m s').result with
  | error e => rfl
  | ok a => simp [Outcome.after]

theorem iterate_after {body : β → Act ω ρ (Turn β α)} {b : β} {s s' : ρ} {es : List ω}
    (h : body b s = (body b s').after es) (fuel : Nat) :
    iterate body (fuel + 1) b s = (iterate body (fuel + 1) b s').after es := by
  rw [iterate_succ]
  exact bind_after h _

/-- A sequence of pure activities is pure, whatever the first one does to the state. -/
theorem IsPure.bind {m : Act ω ρ α} {f : α → Act ω ρ β} (hm : m.IsPure) (hf : ∀ a, (f a).IsPure) :
    (m >>= f).IsPure := by
  intro s s'
  rw [bind_result, bind_result, hm s s']
  cases (m s').result with
  | error e => rfl
  | ok a => exact hf a _ _

/-- Nothing of what is put on record shows under `view`. -/
def Hides {κ : Type} (view : ω → Option κ) (m : Act ω ρ α) : Prop :=
  ∀ s, (m s).entries.filterMap view = []

section Hides

variable {κ : Type} {view : ω → Option κ}

theorem hides_pure (a : α) : Hides view (Pure.pure a : Act ω ρ α) := fun _ => rfl

theorem hides_fail (e : Fault) : Hides view (fail e : Act ω ρ α) := fun _ => rfl

theorem hides_modify (f : ρ → ρ) : Hides view (modify f : Act ω ρ Unit) := fun _ => rfl

theorem hides_ofExcept (r : Except Fault α) : Hides view (ofExcept r : Act ω ρ α) := by
  intro s
  cases r <;> rfl

theorem Hides.bind {m : Act ω ρ α} {f : α → Act ω ρ β} (hm : Hides view m)
    (hf : ∀ a, Hides view (f a)) : Hides view (m >>= f) := by
  intro s
  have hfirst := hm s
  rw [bind_apply]
  cases (m s).result with
  | error e => exact hfirst
  | ok a =>
    have hsecond := hf a (m s).state
    simp only [Outcome.after, List.filterMap_append, hfirst, hsecond, List.append_nil]

theorem Hides.zoom {m : Act ω τ α} (hm : Hides view m) (look : ρ → τ) (update : ρ → τ → ρ) :
    Hides view (zoom look update m) := fun s => hm (look s)

end Hides

/-- A property of states that every part keeps is kept by the whole. -/
theorem bind_keeps {P : ρ → Prop} {m : Act ω ρ α} {f : α → Act ω ρ β} {s : ρ}
    (hm : P (m s).state) (hf : ∀ a, P (f a (m s).state).state) : P ((m >>= f) s).state := by
  rw [bind_state]
  split
  · exact hf _
  · exact hm

end Act

/-- The entry is made while a node is looked at: a rule or a test is asked, or its kind is new. -/
def Entry.isInquiry : Entry → Bool
  | .call .prune _ _ | .call (.rule _) _ _ | .call .drop _ _ | .call .keep _ _ => true
  | .log (.unknownKind _) => true
  | _ => false

variable {σ : Type}

/-- A call is hidden from whoever does not see entries of its role. -/
theorem Hook.call_hides {φ α κ : Type} {view : Entry → Option κ} {role : Role} {subject : Value}
    (hview : ∀ remarks, view (.call role subject remarks) = none) (use : φ → Act Remark σ α)
    (h : Hook φ) : Act.Hides view (h.call role subject use) := by
  intro s
  cases h with
  | live f truth => exact List.filterMap_cons_none (hview _)
  | _ => rfl

/-- Nothing hangs there, or a function that satisfies `P`. -/
def Hook.All {φ : Type} (P : φ → Prop) : Hook φ → Prop
  | absent => True
  | inert _ => False
  | live f _ => P f

theorem Hook.All.mono {φ : Type} {P Q : φ → Prop} {h : Hook φ} (hall : h.All P)
    (hPQ : ∀ f, P f → Q f) : h.All Q := by
  cases h with
  | absent => trivial
  | inert v => exact hall
  | live f truth => exact hPQ f hall

/-- What the test says of a value does not depend on the caller's state. -/
def Predicate.IsPure (p : Predicate σ) : Prop := ∀ v, Act.IsPure (p v)

/-- The test has an answer for every value, in every state. -/
def Predicate.NeverFails (p : Predicate σ) : Prop := ∀ v, Act.NeverFails (p v)

/-- What the rule offers for a node does not depend on the caller's state. The same containers come
back each time, with the same serial numbers: what is said by identity relies on it. -/
def Rule.IsPure (r : Rule σ) : Prop := ∀ v, (r.expand v).IsPure

/-- Every offer is made, and made to its end. -/
def Rule.NeverFails (r : Rule σ) : Prop :=
  ∀ v u, ∃ slots, (r.expand v u).result = .ok ⟨slots, none⟩

/-- Whether the test that hangs there holds of a value, when the caller's state is `u`. -/
def Hook.holds (h : Hook (Predicate σ)) (u : σ) (v : Value) : Bool :=
  match h with
  | live p _ => match (p v u).result with
    | .ok b => b
    | .error _ => false
  | _ => false

/-- What is heeded is a function of the same sort, or nothing. -/
theorem Hook.All.heeded {φ : Type} {P : φ → Prop} {h : Hook φ} (hall : h.All P) :
    h.heeded.All P := by
  unfold Hook.heeded
  split
  · exact hall
  · trivial

theorem Hook.All.wrapped {φ : Type} {P : φ → Prop} {h : Hook φ} (hall : h.All P) :
    h.wrapped.All P := by
  cases h <;> exact hall

/-- A function that is heeded counts as true. -/
theorem Hook.eq_of_heeded {φ : Type} {h : Hook φ} {f : φ} {truth : Bool}
    (heeded : h.heeded = live f truth) : h = live f ∧ truth = true := by
  unfold Hook.heeded at heeded
  split at heeded
  · next hset =>
    subst heeded
    obtain rfl : truth = true := hset
    exact ⟨rfl, rfl⟩
  · cases heeded

/-- No plain value is heeded where none hangs. -/
theorem Hook.isSound_heeded {φ : Type} {h : Hook φ} (hsound : h.isSound = true) :
    h.heeded.isSound = true := by
  unfold Hook.heeded
  split
  · exact hsound
  · rfl

theorem Hook.isPresent_heeded {φ : Type} (h : Hook φ) : h.heeded.isPresent = h.isSet := by
  unfold Hook.heeded
  split
  · next hset =>
    rw [hset]
    cases h with
    | absent => cases hset
    | _ => rfl
  · next hset => exact (Bool.eq_false_iff.2 hset).symm

theorem Hook.heeded_holds (h : Hook (Predicate σ)) (u : σ) (v : Value) :
    h.heeded.holds u v = (h.isSet && h.holds u v) := by
  rw [heeded]
  cases h.isSet <;> rfl

theorem Hook.holds_of_ok {p : Predicate σ} {truth : Bool} {u : σ} {v : Value} {b : Bool}
    (h : (p v u).result = .ok b) : (Hook.live p truth).holds u v = b := by
  simp only [holds, h]

end RuleWalk
