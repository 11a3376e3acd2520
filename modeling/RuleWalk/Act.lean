import RuleWalk.Fault.Message

/-!
# Activities

An activity acts on a state, puts entries on record, and ends with a result or a fault. A fault
keeps the state and the entries that led to it. Loops are bounded by fuel and run in constant stack;
`iterate_succ` gives them by recursion.

A caller's rule, test or callback is an activity on the caller's own state. It sees and changes
nothing else: in particular it does not call back into the plan, walk or registry that called it.
-/

namespace RuleWalk

/-- How an activity ended, the state it left and what it put on record. -/
@[ext] structure Outcome (ω ρ α : Type) where
  result : Except Fault α
  state : ρ
  entries : List ω

/-- An activity on states `ρ` that puts entries `ω` on record. -/
def Act (ω ρ α : Type) : Type := ρ → Outcome ω ρ α

namespace Act

variable {ω ρ τ α β : Type}

def pure (a : α) : Act ω ρ α := fun s => ⟨.ok a, s, []⟩

def bind (m : Act ω ρ α) (f : α → Act ω ρ β) : Act ω ρ β := fun s =>
  match m s with
  | ⟨.ok a, s', es⟩ =>
    match f a s' with
    | ⟨r, s'', es'⟩ => ⟨r, s'', es ++ es'⟩
  | ⟨.error e, s', es⟩ => ⟨.error e, s', es⟩

instance : Monad (Act ω ρ) where
  pure := Act.pure
  bind := Act.bind

/-- Ends with a fault. -/
def fail (e : Fault) : Act ω ρ α := fun s => ⟨.error e, s, []⟩

def ofExcept : Except Fault α → Act ω ρ α
  | .ok a => pure a
  | .error e => fail e

/-- The current state. -/
def get : Act ω ρ ρ := fun s => ⟨.ok s, s, []⟩

def set (s : ρ) : Act ω ρ Unit := fun _ => ⟨.ok (), s, []⟩

def modify (f : ρ → ρ) : Act ω ρ Unit := fun s => ⟨.ok (), f s, []⟩

/-- Puts one entry on record. -/
def note (e : ω) : Act ω ρ Unit := fun s => ⟨.ok (), s, [e]⟩

/-- Turns a fault into a result. -/
def attempt (m : Act ω ρ α) : Act ω ρ (Except Fault α) := fun s =>
  match m s with
  | ⟨r, s', es⟩ => ⟨.ok r, s', es⟩

/-- Acts on a part of the state. -/
def zoom (view : ρ → τ) (update : ρ → τ → ρ) (m : Act ω τ α) : Act ω ρ α := fun s =>
  match m (view s) with
  | ⟨r, t, es⟩ => ⟨r, update s t, es⟩

/-- After one turn of a loop: go on from a new value, or end. -/
inductive Turn (β α : Type) where
  | again (b : β)
  | done (a : α)

/-- Loop with the entries so far in reverse. -/
def loop (body : β → Act ω ρ (Turn β α)) : Nat → β → ρ → List ω → Outcome ω ρ (Turn β α)
  | 0, b, s, acc => ⟨.ok (.again b), s, acc.reverse⟩
  | fuel + 1, b, s, acc =>
    match body b s with
    | ⟨.ok (.again b'), s', es⟩ => loop body fuel b' s' (es.reverse ++ acc)
    | ⟨.ok (.done a), s', es⟩ => ⟨.ok (.done a), s', (es.reverse ++ acc).reverse⟩
    | ⟨.error e, s', es⟩ => ⟨.error e, s', (es.reverse ++ acc).reverse⟩

/-- Repeats `body` from `b` until it ends, at most `fuel` times. -/
def iterate (body : β → Act ω ρ (Turn β α)) (fuel : Nat) (b : β) : Act ω ρ (Turn β α) :=
  fun s => loop body fuel b s []

/-- Runs over a list from left to right. -/
def each (f : α → Act ω ρ Unit) : List α → Act ω ρ Unit
  | [] => pure ()
  | a :: as => bind (f a) fun _ => each f as

@[simp] theorem pure_apply (a : α) (s : ρ) : (Pure.pure a : Act ω ρ α) s = ⟨.ok a, s, []⟩ := rfl

@[simp] theorem fail_apply (e : Fault) (s : ρ) : (fail e : Act ω ρ α) s = ⟨.error e, s, []⟩ := rfl

theorem bind_apply_ok {m : Act ω ρ α} {f : α → Act ω ρ β} {s s' : ρ} {a : α} {es : List ω}
    (h : m s = ⟨.ok a, s', es⟩) :
    (m >>= f) s = ⟨(f a s').result, (f a s').state, es ++ (f a s').entries⟩ := by
  simp [Bind.bind, bind, h]

theorem bind_apply_error {m : Act ω ρ α} {f : α → Act ω ρ β} {s s' : ρ} {e : Fault} {es : List ω}
    (h : m s = ⟨.error e, s', es⟩) : (m >>= f) s = ⟨.error e, s', es⟩ := by
  simp [Bind.bind, bind, h]

theorem loop_eq (body : β → Act ω ρ (Turn β α)) (fuel : Nat) (b : β) (s : ρ) (acc : List ω) :
    loop body fuel b s acc =
      { iterate body fuel b s with entries := acc.reverse ++ (iterate body fuel b s).entries } := by
  induction fuel generalizing b s acc with
  | zero => simp [loop, iterate]
  | succ fuel ih =>
    simp only [loop, iterate]
    split
    · rw [ih, ih _ _ (_ ++ [])]
      simp [iterate]
    · simp
    · simp

@[simp] theorem iterate_zero (body : β → Act ω ρ (Turn β α)) (b : β) :
    iterate body 0 b = Pure.pure (.again b) := rfl

/-- A loop is its first turn followed by the rest. -/
theorem iterate_succ (body : β → Act ω ρ (Turn β α)) (fuel : Nat) (b : β) :
    iterate body (fuel + 1) b = (body b >>= fun
      | .again b' => iterate body fuel b'
      | .done a => Pure.pure (.done a)) := by
  funext s
  simp only [iterate, loop, Bind.bind, bind]
  split
  · next h => rw [loop_eq, h]; simp [iterate]
  · next h => simp [h]
  · next h => simp [h]

end Act

end RuleWalk
