import RuleWalk.Config
import RuleWalk.Walk

/-!
# Plans

A plan walks a tree as a configuration says. Its runs are lazy: each request goes on with the walk
until a node is yielded. A run ends when the walk is done, when the limit is reached, or when a
fault leaves it, and then it has ended for good.

The count of yielded nodes and the record of failed expansions belong to the plan, not to the run.
-/

namespace RuleWalk

/-- A failed expansion. -/
structure Incident where
  node : Value
  kind : Option String
  message : String

/-- The expansion of a node failed, and `detail` is the text of the cause. -/
def Incident.of (node : Value) (kind : Option String) (detail : String) : Incident :=
  ⟨node, kind, Fault.expansionText kind detail⟩

/-- How many nodes were yielded, and the failed expansions, the last first. -/
structure Tally where
  processed : Nat := 0
  incidents : List Incident := []

/-- Whether the expansion of this very node failed. -/
def Tally.hasFailed (t : Tally) (v : Value) : Bool :=
  t.incidents.any fun i =>
    match i.node.serial?, v.serial? with
    | some a, some b => a == b
    | _, _ => false

/-- A run: a walk in its scene, with the tally of its plan. -/
structure Run (σ : Type) extends Stage σ where
  tally : Tally := {}
  live : Bool := true

/-- What a request gives: a node, the end, or nothing yet because the fuel ran out. -/
inductive Delivery where
  | node (v : Value)
  | stop
  | pending

/-- What becomes of one node of the walk. -/
inductive Beat where
  | yielded (v : Value)
  | passed
  | ended

namespace Run

variable {σ α : Type}

def onStage (m : Act Entry (Stage σ) α) : Act Entry (Run σ) α :=
  Act.zoom Run.toStage (fun s t => { s with toStage := t }) m

def onScene (m : Act Entry (Scene σ) α) : Act Entry (Run σ) α :=
  Act.zoom (fun s => s.toScene) (fun s t => { s with toScene := t }) m

def onUser (m : Act Entry σ α) : Act Entry (Run σ) α :=
  Act.zoom (fun s => s.user) (fun s u => { s with user := u }) m

def onTally (f : Tally → Tally) : Act Entry (Run σ) Unit :=
  Act.modify fun s => { s with tally := f s.tally }

/-- A kind as a value. -/
def kindValue : Option String → Value
  | some k => .str k
  | none => .null

/-- Records a failed expansion and tells the caller. -/
def recordFailure (c : Config σ) (i : Incident) (e : Fault) : Act Entry (Run σ) Unit := do
  onTally fun t => { t with incidents := i :: t.incidents }
  if c.report.isSet then onUser (c.report.call (.report e) i.node fun f => f i.node e)
  else return ()

/-- Tells the caller how many nodes there are, at every whole interval. -/
def reportProgress (c : Config σ) (count : Nat) : Act Entry (Run σ) Unit :=
  if c.progress.isSet && c.isTick count then
    onUser (c.progress.call .progress (.int count) fun f => f count)
  else pure ()

/-- Yields a node if the configuration admits it. -/
def offer (c : Config σ) (v : Value) : Act Entry (Run σ) Beat := do
  let s ← Act.get
  let kind ← Act.ofExcept (s.registry.kindOf v)
  if ← onUser (c.admits v (kindValue kind)) then
    let count := s.tally.processed + 1
    onTally fun t => { t with processed := count }
    reportProgress c count
    return .yielded v
  else return .passed

/-- After a failed step: the policy decides whether the fault ends the run or the node stays as a
leaf. -/
def recover (c : Config σ) : Fault → Act Entry (Run σ) Beat
  | e@(.expansion v kind detail _) => do
    recordFailure c (.of v kind detail) e
    match c.policy with
    | .given .raise => Act.fail e
    | _ =>
      Act.log (.skipping (Fault.expansionText kind detail))
      offer c v
  | e => Act.fail e

/-- Goes on with the walk by one node. -/
def beat (c : Config σ) : Act Entry (Run σ) Beat := do
  let s ← Act.get
  if ← Act.ofExcept (c.allows s.tally.processed) then
    match ← Act.attempt (onStage Walk.step) with
    | .ok none => return .ended
    | .ok (some v) => offer c v
    | .error e => recover c e
  else if s.walk.isDone then return .ended
  else
    Act.log (.limitReached s.tally.processed)
    return .ended

def turn (c : Config σ) (_ : Unit) : Act Entry (Run σ) (Act.Turn Unit (Option Value)) := do
  match ← beat c with
  | .yielded v => return .done (some v)
  | .passed => return .again ()
  | .ended => return .done none

/-- The next node of a run, found with at most `fuel` beats. -/
def next (c : Config σ) (fuel : Nat) : Act Entry (Run σ) Delivery := fun s =>
  if s.live then
    match Act.iterate (turn c) fuel () s with
    | ⟨.ok (.done (some v)), s', es⟩ => ⟨.ok (.node v), s', es⟩
    | ⟨.ok (.done none), s', es⟩ => ⟨.ok .stop, { s' with live := false }, es⟩
    | ⟨.ok (.again ()), s', es⟩ => ⟨.ok .pending, s', es⟩
    | ⟨.error e, s', es⟩ => ⟨.error e.leaving, { s' with live := false }, es⟩
  else ⟨.ok .stop, s, []⟩

/-- A run from `root` under a configuration that was checked. -/
def start (c : Config σ) (scene : Scene σ) (root : Value) : Except Fault (Run σ) := do
  let prune ← c.prune
  let walk ← Walk.start scene.registry prune root
  return { toScene := scene, walk }

end Run

/-- The next node of a walk. -/
def Walk.next {σ : Type} : Act Entry (Stage σ) Delivery := do
  match ← Walk.step with
  | some v => return .node v
  | none => return .stop

/-- Why a sequence was not asked for more. -/
inductive Ending where
  | stop
  | limit
  | fault (e : Fault)
  | pending

/-- What was drawn from a lazy sequence. -/
structure Drained where
  items : List Value
  ending : Ending

/-- One more request, unless `limit` items were drawn. -/
def Drained.turn {ρ : Type} (next : Act Entry ρ Delivery) (limit : Option Nat)
    (acc : List Value × Nat) : Act Entry ρ (Act.Turn (List Value × Nat) Drained) :=
  if limit == some acc.2 then pure (.done ⟨acc.1.reverse, .limit⟩)
  else do
    match ← Act.attempt next with
    | .ok (.node v) => return .again (v :: acc.1, acc.2 + 1)
    | .ok .stop => return .done ⟨acc.1.reverse, .stop⟩
    | .ok .pending => return .done ⟨acc.1.reverse, .pending⟩
    | .error e => return .done ⟨acc.1.reverse, .fault e⟩

/-- Draws items until the sequence ends, fails, or has given `limit` of them. -/
def drain {ρ : Type} (next : Act Entry ρ Delivery) (limit : Option Nat) (fuel : Nat) :
    Act Entry ρ Drained := do
  match ← Act.iterate (Drained.turn next limit) fuel ([], 0) with
  | .done d => return d
  | .again acc => return ⟨acc.1.reverse, .pending⟩

/-- What a plan says about itself. -/
structure Summary where
  registryKinds : Nat
  kindField : Value
  kinds : Option (List Value)
  hasKeep : Bool
  hasDrop : Bool
  hasPrune : Bool
  limit : Value
  policy : Policy
  processed : Nat
  incidents : Nat

/-- The summary of a checked configuration with a registry and a tally. -/
def Summary.of {σ : Type} (c : Config σ) (registry : Registry σ) (t : Tally) :
    Except Fault Summary := do
  let kinds ← match ← (← c.kinds).members with
    | none => pure none
    | some vs => (Value.sort vs).map some
  let hooks ← c.filterHooks.mapM fun e => e.2
  let limit ← c.limitValue
  let has (i : Nat) := (hooks[i]?.map Hook.isPresent).getD false
  return {
    registryKinds := registry.size
    kindField := registry.kindField
    kinds
    hasKeep := has 0
    hasDrop := has 1
    hasPrune := has 2
    limit
    policy := match c.policy with
      | .given p => p
      | .foreign _ => .raise
    processed := t.processed
    incidents := t.incidents.length }

end RuleWalk
