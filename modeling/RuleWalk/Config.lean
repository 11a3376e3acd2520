import RuleWalk.Hook
import RuleWalk.Value.Order

/-!
# Configurations

What a traversal yields, when it stops, and what it does about failures. Settings are taken as the
caller gives them, so a part of a configuration can be foreign: some value that was put in its
place. `Config.problems` says what is wrong with a configuration.
-/

namespace RuleWalk

/-- What to do when an expansion fails. -/
inductive Policy where
  | raise
  | skip
deriving DecidableEq, Repr, Inhabited

def Policy.text : Policy → String
  | raise => "raise"
  | skip => "skip"

/-- A part of a configuration, or a value in its place. -/
inductive Setting (α : Type) where
  | given (a : α)
  | foreign (v : Value)

/-- The kinds to yield: all, those in a set, or those found in some value. -/
inductive Kinds where
  | all
  | oneOf (members : List Value)
  | within (v : Value)

namespace Kinds

/-- Kinds as they are given. -/
def raw : Value → Kinds
  | .null => all
  | v => within v

/-- One text names one kind; anything else is a collection of kinds. -/
def ofValue : Value → Except Fault Kinds
  | .null => .ok all
  | .str s => .ok (oneOf [.str s])
  | v =>
    match v.iterate with
    | .ok vs => (Value.distinct [] vs).map oneOf
    | .error e => .error e

/-- The kinds one by one, unless all are meant. -/
def members : Kinds → Except Fault (Option (List Value))
  | all => .ok none
  | oneOf vs => .ok (some vs)
  | within v => v.iterate.map some

def contains (kind : Value) : Kinds → Except Fault Bool
  | all => .ok true
  | oneOf vs => kind.checkKey.map fun _ => vs.any kind.eq
  | within v => kind.member v

end Kinds

/-- Which nodes are yielded, and whose children are left out. -/
structure Filter (σ : Type) where
  kinds : Kinds := .all
  keep : Hook (Predicate σ) := .absent
  drop : Hook (Predicate σ) := .absent
  prune : Hook (Predicate σ) := .absent

namespace Filter

variable {σ : Type}

/-- Whether a node is dropped. -/
def drops (f : Filter σ) (v : Value) : Act Entry σ Bool :=
  if f.drop.isSet then f.drop.call .drop v (fun p => p v) else pure false

/-- Whether a node is kept. -/
def keeps (f : Filter σ) (v : Value) : Act Entry σ Bool :=
  if f.keep.isSet then f.keep.call .keep v (fun p => p v) else pure true

/-- A node is yielded unless it is dropped, has another kind, or is not kept. -/
def admits (f : Filter σ) (v kind : Value) : Act Entry σ Bool := do
  if ← f.drops v then return false
  else if ← Act.ofExcept (f.kinds.contains kind) then f.keeps v
  else return false

/-- Whether the children of a node are left out. -/
def prunes (f : Filter σ) (v : Value) : Act Entry σ Bool :=
  if f.prune.isSet then f.prune.call .prune v (fun p => p v) else pure false

end Filter

/-- Everything about a traversal but its root and its registry. A limit is a value, null meaning
none. A `checker` is a value that hides the check of the configuration. -/
structure Config (σ : Type) where
  filter : Setting (Filter σ) := .given {}
  limit : Setting Value := .given .null
  policy : Setting Policy := .given .raise
  report : Hook (Reporter σ) := .absent
  progress : Hook (Ticker σ) := .absent
  interval : Value := .int 100
  checker : Option Value := none

/-- Whether one more node may be yielded after `count`. -/
def Limit.allows (limit count : Value) : Except Fault Bool :=
  match limit with
  | .null => .ok true
  | m => count.test .less m

namespace Config

variable {σ : Type}

/-- The configuration that yields the given kinds. -/
def ofKinds (kinds : List Value) : Except Fault (Config σ) :=
  (Value.distinct [] kinds).map fun vs => { filter := .given { kinds := .oneOf vs } }

/-- The configuration that stops after `limit` nodes. -/
def shallow (limit : Value) : Config σ := { limit := .given limit }

/-- The limit as a value. -/
def limitValue (c : Config σ) : Except Fault Value :=
  match c.limit with
  | .given m => .ok m
  | .foreign v => v.attr (.str "max_nodes")

/-- The kinds to yield. -/
def kinds (c : Config σ) : Except Fault Kinds :=
  match c.filter with
  | .given f => .ok f.kinds
  | .foreign v => (v.attr (.str "kinds")).map Kinds.raw

/-- The hooks of the filter by the names they go by in problems. -/
def filterHooks (c : Config σ) : List (String × Except Fault (Hook (Predicate σ))) :=
  match c.filter with
  | .given f =>
    [("include_filter", .ok f.keep), ("exclude_filter", .ok f.drop), ("prune_filter", .ok f.prune)]
  | .foreign v =>
    ["include_filter", "exclude_filter", "prune_filter"].map fun name =>
      (name, (v.attr (.str name)).map Hook.ofValue)

def admits (c : Config σ) (v kind : Value) : Act Entry σ Bool :=
  match c.filter with
  | .given f => f.admits v kind
  | .foreign w => .fail (w.callFault "should_include")

/-- The test by which a walk leaves children out. -/
def prune (c : Config σ) : Except Fault (Hook (Predicate σ)) :=
  match c.filter with
  | .given f => .ok f.prune.heeded
  | .foreign w => (w.attr (.str "prune_filter")).map Hook.ofValue

def allows (c : Config σ) (count : Nat) : Except Fault Bool :=
  match c.limit with
  | .given m => Limit.allows m (.int count)
  | .foreign w => .error (w.callFault "check_node_limit")

/-- Whether `count` is a whole multiple of the interval. -/
def isTick (c : Config σ) (count : Nat) : Bool :=
  match c.interval.quantity? with
  | some (.fraction num den) => (count * den : Int) % num == 0
  | _ => false

/-- A kind is a text that is not empty. -/
def isKind : Value → Bool
  | .str s => !s.isEmpty
  | _ => false

def limitProblems (c : Config σ) : Except Fault (List Problem) := do
  match ← c.limitValue with
  | .null => return []
  | m => return if ← m.test .less (.int 0) then [.negativeLimit] else []

def intervalProblems (c : Config σ) : Except Fault (List Problem) := do
  return if ← c.interval.test .atMost (.int 0) then [.intervalNotPositive] else []

def policyProblems (c : Config σ) : Except Fault (List Problem) :=
  match c.policy with
  | .given _ => .ok []
  | .foreign v => v.text.map fun t => [.badPolicy t]

def kindProblems (c : Config σ) : Except Fault (List Problem) := do
  match ← (← c.kinds).members with
  | none => return []
  | some vs =>
    match vs.filter fun v => !isKind v with
    | [] => return []
    | bad => return [.badKinds (← (Value.list ⟨0, none⟩ bad).text)]

def hookProblems (c : Config σ) : Except Fault (List Problem) := do
  let filters ← c.filterHooks.mapM fun e => do
    return if (← e.2).isSound then [] else [Problem.notCallable e.1]
  return filters.flatten ++ if c.report.isSound then [] else [.notCallable "on_error"]

/-- All that is wrong with a configuration. The callback for progress is not looked at. -/
def problems (c : Config σ) : Except Fault (List Problem) := do
  let limit ← c.limitProblems
  let interval ← c.intervalProblems
  let policy ← c.policyProblems
  let kinds ← c.kindProblems
  let hooks ← c.hookProblems
  return limit ++ interval ++ policy ++ kinds ++ hooks

/-- Refuses a configuration that has problems. -/
def check (c : Config σ) : Except Fault Unit :=
  match c.checker with
  | some v => .error (.notCallable v.typeName)
  | none =>
    match c.problems with
    | .error e => .error e
    | .ok [] => .ok ()
    | .ok ps => .error (.badConfig ps)

end Config

end RuleWalk
