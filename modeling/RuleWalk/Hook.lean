import RuleWalk.Journal

/-!
# Hooks

A place where a caller can hang a function: nothing hangs there, a function, or some value that
cannot be called. A function is a value too and counts as true or false, as its maker likes; most
count as true. Some places ask whether anything hangs there, and some whether it counts as true.
-/

namespace RuleWalk

inductive Hook (φ : Type) where
  | absent
  | inert (v : Value)
  | live (f : φ) (truth : Bool := true)

namespace Hook

variable {φ σ α : Type}

/-- A plain value on a hook; null is nothing. -/
def ofValue : Value → Hook φ
  | .null => absent
  | v => inert v

/-- Something hangs there. -/
def isPresent : Hook φ → Bool
  | absent => false
  | _ => true

/-- Something hangs there that counts as true. -/
def isSet : Hook φ → Bool
  | absent => false
  | inert v => v.truthy
  | live _ truth => truth

/-- Nothing hangs there, or a function. -/
def isSound : Hook φ → Bool
  | inert _ => false
  | _ => true

/-- Calls what hangs there; only a function can be called. -/
def call (role : Role) (subject : Value) (use : φ → Act Remark σ α) : Hook φ → Act Entry σ α
  | absent => Act.fail (.notCallable Value.null.typeName)
  | inert v => Act.fail (.notCallable v.typeName)
  | live f _ => Act.consult role subject (use f)

/-- What hangs there, if it counts as true. -/
def heeded (h : Hook φ) : Hook φ := if h.isSet then h else absent

/-- A function that hangs there, inside another one that counts as true. -/
def wrapped : Hook φ → Hook φ
  | live f _ => live f
  | h => h

end Hook

/-- A test of values by a caller whose own state is `σ`. -/
abbrev Predicate (σ : Type) := Value → Act Remark σ Bool

/-- Told of a failed expansion. -/
abbrev Reporter (σ : Type) := Value → Fault → Act Remark σ Unit

/-- Told how many nodes were produced. -/
abbrev Ticker (σ : Type) := Nat → Act Remark σ Unit

end RuleWalk
