import RuleWalk.Journal

/-!
# Rules

A rule says what the children of a node are. It offers slots one after the other; a slot is a child
or null. An offer can break off with a fault after some slots, and then all of it is lost.
-/

namespace RuleWalk

/-- The slots offered for a node, and the fault that cut the offer off, if any. -/
structure Offer where
  slots : List Value
  fault : Option Fault := none

namespace Offer

def collect : Offer → Except Fault (List Value)
  | ⟨slots, none⟩ => .ok slots
  | ⟨_, some e⟩ => .error e

/-- The items of a value are its slots. -/
def ofValue (v : Value) : Offer :=
  match v.iterate with
  | .ok slots => ⟨slots, none⟩
  | .error e => ⟨[], some e⟩

@[simp] theorem collect_mk_none (slots : List Value) : collect ⟨slots, none⟩ = .ok slots := rfl

@[simp] theorem collect_mk_some (slots : List Value) (e : Fault) :
    collect ⟨slots, some e⟩ = .error e := rfl

end Offer

/-- A rule of a caller whose own state is `σ`. Some rules have no signature to look at. -/
structure Rule (σ : Type) where
  label : String := "<rule>"
  signature : Option Signature := some .unary
  expand : Value → Act Remark σ Offer

namespace Rule

variable {σ : Type}

/-- A rule that only looks at the node. -/
def ofFunction (label : String) (f : Value → Except Fault Offer) : Rule σ where
  label
  expand v := .ofExcept (f v)

/-- Whether the rule can be called with the node alone. -/
def accepts (r : Rule σ) : Bool :=
  match r.signature with
  | some s => s.acceptsOne
  | none => true

end Rule

/-- What is offered for registration: a rule, or something that cannot be called. -/
inductive Candidate (σ : Type) where
  | rule (r : Rule σ)
  | inert (typeName : String)

/-- The rule, if it can serve for `kind`. -/
def Candidate.check {σ : Type} (kind : String) : Candidate σ → Except Fault (Rule σ)
  | inert typeName => .error (.inertRule kind typeName)
  | rule r =>
    match r.signature with
    | some s => if s.acceptsOne then .ok r else .error (.badSignature kind r.label s)
    | none => .ok r

end RuleWalk
