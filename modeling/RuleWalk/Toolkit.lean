import RuleWalk.Hook
import RuleWalk.Rule.Fields
import RuleWalk.Value.Order

/-!
# Ready-made rules and tests

Rules, tests and callbacks from simple parts. Those that depend on how often they were called count
their calls in a cell of `Counters`; each of them has a cell of its own.
-/

namespace RuleWalk

/-- Cells that count calls. -/
structure Counters where
  cells : Array Nat := #[]

namespace Counters

/-- A new cell and its number. -/
def fresh (c : Counters) : Nat × Counters := (c.cells.size, ⟨c.cells.push 0⟩)

/-- Counts a call and gives its number, from one on. -/
def bump (cell : Nat) : Act Remark Counters Nat := fun c =>
  let n := c.cells[cell]?.getD 0 + 1
  ⟨.ok n, ⟨c.cells.setIfInBounds cell n⟩, []⟩

end Counters

namespace Toolkit

/-- A failure to announce: a signal, or a failed expansion of the value at hand. -/
inductive Complaint where
  | signal (s : Signal) (text : String)
  | expansion (text : String)

def Complaint.fault (subject : Value) : Complaint → Fault
  | signal s text => .raised s text
  | expansion text => .expansion subject (some "Inner") text none

/-- A rule that offers the items of what `f` gives. -/
def ruleOf {σ : Type} (f : Value → Except Fault Value) : Rule σ :=
  .ofFunction "<rule>" fun v => (f v).map Offer.ofValue

/-- The same items for every node. -/
def constant {σ : Type} (v : Value) : Rule σ := ruleOf fun _ => .ok v

/-- The items stored under `name`. -/
def itemRule {σ : Type} (name : Value) : Rule σ := ruleOf fun v => v.item name

/-- The items of an attribute. -/
def attrRule {σ : Type} (name : Value) : Rule σ := ruleOf fun v => v.attr name

def raising {σ : Type} (c : Complaint) : Rule σ := ruleOf fun v => .error (c.fault v)

/-- The node itself, `k` times. -/
def repeated {σ : Type} (k : Nat) : Rule σ :=
  .ofFunction "<rule>" fun v => .ok ⟨List.replicate k v, none⟩

/-- One item after the other, and then perhaps a failure. -/
def sequence {σ : Type} (items : List Value) (ending : Option Complaint) : Rule σ :=
  .ofFunction "<rule>" fun v => .ok ⟨items, ending.map fun c => (c.fault v).leaving⟩

/-- The items of the node, as a rule that has no signature to look at. -/
def ownItems {σ : Type} : Rule σ :=
  { (ruleOf fun v => .ok v) with signature := none }

/-- Fails on the calls with the given numbers. -/
def failingAt (cell : Nat) (calls : List Value) (inner : Rule Counters) : Rule Counters where
  expand v := do
    let n ← Counters.bump cell
    if calls.any (Value.eq (.int n)) then Act.fail (.raised .value "flaky") else inner.expand v

/-- The same rule with another signature. -/
def withSignature {σ : Type} (signature : Signature) (inner : Rule σ) : Rule σ :=
  { label := "<rule>", signature := some signature, expand := inner.expand }

/-- A test by a value that counts as true or false. -/
def testOf {σ : Type} (f : Value → Except Fault Value) : Predicate σ := fun v =>
  Act.ofExcept ((f v).map Value.truthy)

/-- The kind is one of the given. -/
def hasKind {σ : Type} (kinds : List Value) : Predicate σ := fun v =>
  Act.ofExcept ((v.kind? (.str "type")).map fun
    | some k => kinds.any (Value.eq (.str k))
    | none => kinds.any Value.isNull)

/-- A field is the given text. -/
def fieldIs {σ : Type} (name text : Value) : Predicate σ := fun v =>
  Act.ofExcept ((v.getField name).map fun
    | .str s => text.eq (.str s)
    | _ => false)

/-- True on the calls with the given numbers. -/
def onCalls (cell : Nat) (calls : List Value) : Predicate Counters := fun _ => do
  let n ← Counters.bump cell
  return calls.any (Value.eq (.int n))

def negation {σ : Type} (p : Predicate σ) : Predicate σ := fun v => do
  return !(← p v)

def choice {σ : Type} (p q r : Predicate σ) : Predicate σ := fun v => do
  if ← p v then q v else r v

/-- Remarks that it was called, then tests. -/
def traced {σ : Type} (tag : Value) (p : Predicate σ) : Predicate σ := fun v => do
  Act.note ⟨tag, v⟩
  p v

/-- Fails from the call number `first` on. -/
def failingFrom (cell : Nat) (first : Value) (c : Option Complaint) (subject : Value) :
    Act Remark Counters Unit := do
  let n ← Counters.bump cell
  match c with
  | none => return ()
  | some c =>
    if ← Act.ofExcept (first.test .atMost (.int n)) then Act.fail (c.fault subject) else return ()

end Toolkit

end RuleWalk
