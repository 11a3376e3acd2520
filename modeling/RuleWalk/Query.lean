import RuleWalk.Plan

/-!
# Queries

Walks with options: all nodes, those that pass a test, those of some kinds, the leaves, and a
statistic of the tree. Options that are not given have no effect.
-/

namespace RuleWalk

/-- An option beyond the usual ones, by what it does to the configuration. -/
inductive Override (σ : Type) where
  | filter (f : Setting (Filter σ))
  | limit (l : Setting Value)
  | policy (p : Setting Policy)
  | progress (h : Hook (Ticker σ))
  | interval (v : Value)
  | checker (v : Value)
  /-- Hides something that no traversal uses. -/
  | idle
  | unknown (name : String)

structure Options (σ : Type) where
  kinds : Value := .null
  keep : Hook (Predicate σ) := .absent
  drop : Hook (Predicate σ) := .absent
  prune : Hook (Predicate σ) := .absent
  limit : Value := .null
  report : Hook (Reporter σ) := .absent
  skipErrors : Bool := false
  extra : List (Override σ) := []

namespace Options

variable {σ : Type}

/-- The configuration with one more option, unless there is no such option. -/
def apply (c : Config σ) : Override σ → Except Fault (Config σ)
  | .filter f => .ok { c with filter := f }
  | .limit l => .ok { c with limit := l }
  | .policy p => .ok { c with policy := p }
  | .progress h => .ok { c with progress := h }
  | .interval v => .ok { c with interval := v }
  | .checker v => .ok { c with checker := some v }
  | .idle => .ok c
  | .unknown name => .error (.unknownOption name)

/-- The configuration that the options ask for. -/
def config (o : Options σ) : Except Fault (Config σ) := do
  let kinds ← Kinds.ofValue o.kinds
  let c : Config σ :=
    { filter := .given { kinds, keep := o.keep, drop := o.drop, prune := o.prune }
      limit := .given o.limit
      policy := .given (if o.skipErrors then .skip else .raise)
      report := o.report }
  o.extra.foldlM apply c

/-- The options to find the nodes that pass a test. -/
def finding (o : Options σ) (test : Hook (Predicate σ)) : Options σ := { o with keep := test }

/-- The options of a query that keeps a record of failed expansions: a function that is to be told
of them hangs inside the one that keeps the record. -/
def watching (o : Options σ) : Options σ := { o with report := o.report.wrapped }

/-- The options to find the nodes of the given kinds. -/
def findingKinds (o : Options σ) (kinds : List Value) : Options σ :=
  { o with kinds := .tuple ⟨0, none⟩ kinds }

end Options

/-- What a statistic counts. -/
structure Census where
  total : Nat := 0
  leaves : Nat := 0
  nonNodes : Nat := 0
  kinds : List (String × Nat) := []

namespace Census

/-- One more of a kind. -/
def countKind (kind : String) : List (String × Nat) → List (String × Nat)
  | [] => [(kind, 1)]
  | (k, n) :: rest => if k = kind then (k, n + 1) :: rest else (k, n) :: countKind kind rest

def add (c : Census) (kind : Option String) (leaf : Bool) : Census :=
  { total := c.total + 1
    leaves := if leaf then c.leaves + 1 else c.leaves
    nonNodes := if kind.isNone then c.nonNodes + 1 else c.nonNodes
    kinds := match kind with
      | some k => countKind k c.kinds
      | none => c.kinds }

def internal (c : Census) : Nat := c.total - c.leaves

/-- The counted kinds that have no rule, in order. -/
def unknownKinds {σ : Type} (c : Census) (r : Registry σ) : List String :=
  sortTexts ((c.kinds.map Prod.fst).filter fun k => !r.has k)

end Census

namespace Run

variable {σ : Type}

/-- A node whose expansion failed counts as a leaf; its rule is not asked again. -/
def isLeaf (v : Value) : Act Entry (Run σ) Bool := do
  let s ← Act.get
  if s.tally.hasFailed v then return true else onScene (Scene.isLeaf v)

def countTurn (c : Config σ) (fuel : Nat) (n : Nat) : Act Entry (Run σ) (Act.Turn Nat Nat) := do
  match ← next c fuel with
  | .node _ => return .again (n + 1)
  | _ => return .done n

/-- How many nodes a run yields. -/
def count (c : Config σ) (fuel : Nat) : Act Entry (Run σ) Nat := do
  match ← Act.iterate (countTurn c fuel) fuel 0 with
  | .done n => return n
  | .again n => return n

def leafTurn (c : Config σ) (fuel : Nat) (_ : Unit) :
    Act Entry (Run σ) (Act.Turn Unit Delivery) := do
  match ← next c fuel with
  | .node v => if ← isLeaf v then return .done (.node v) else return .again ()
  | d => return .done d

/-- The next leaf of a run. A fault in the test for leaves ends the run as well. -/
def nextLeaf (c : Config σ) (fuel : Nat) : Act Entry (Run σ) Delivery := fun s =>
  match Act.iterate (leafTurn c fuel) fuel () s with
  | ⟨.ok (.done d), s', es⟩ => ⟨.ok d, s', es⟩
  | ⟨.ok (.again ()), s', es⟩ => ⟨.ok .pending, s', es⟩
  | ⟨.error e, s', es⟩ => ⟨.error e.leaving, { s' with live := false }, es⟩

def censusTurn (c : Config σ) (fuel : Nat) (n : Census) :
    Act Entry (Run σ) (Act.Turn Census Census) := do
  match ← next c fuel with
  | .node v =>
    let s ← Act.get
    let kind ← Act.ofExcept (s.registry.kindOf v)
    let leaf ← isLeaf v
    return .again (n.add kind leaf)
  | _ => return .done n

/-- The statistic of what a run yields. -/
def census (c : Config σ) (fuel : Nat) : Act Entry (Run σ) Census := do
  match ← Act.iterate (censusTurn c fuel) fuel {} with
  | .done n => return n
  | .again n => return n

end Run

end RuleWalk
