import RuleWalk.Hook
import RuleWalk.Registry

/-!
# Walks

A walk visits a tree in pre-order, from left to right, one node per step. The nodes still to visit
wait on the fringe, the next one first. A step takes that node off and puts its children in its
place. If its children cannot be found the step fails, the node is gone from the fringe, and the
walk can go on with the next step. A prune test that is given is asked, whether it counts as true or
not.
-/

namespace RuleWalk

structure Walk (σ : Type) where
  fringe : List Value
  prune : Hook (Predicate σ) := .absent

/-- A walk in its scene. -/
structure Stage (σ : Type) extends Scene σ where
  walk : Walk σ

namespace Walk

variable {σ α : Type}

def isDone (w : Walk σ) : Bool := w.fringe.isEmpty

/-- How many nodes wait. -/
def pending (w : Walk σ) : Nat := w.fringe.length

def text (w : Walk σ) : String :=
  if w.isDone then "Traversal(done)" else "Traversal(pending=" ++ toString w.pending ++ ")"

/-- Why a value cannot be the root of a walk. -/
def rootFault (kindField root : Value) : Fault := (Fault.notANode root kindField).announced

/-- The walk from `root`, which must have a kind. -/
def start (registry : Registry σ) (prune : Hook (Predicate σ)) (root : Value) :
    Except Fault (Walk σ) :=
  match registry.kindOf root with
  | .error e => .error e
  | .ok none => .error (rootFault registry.kindField root)
  | .ok (some _) => .ok ⟨[root], prune⟩

/-- Whether the children of a node are left out. -/
def pruned (prune : Hook (Predicate σ)) (v : Value) : Act Entry (Scene σ) Bool :=
  if prune.isPresent then
    Act.zoom Scene.user (fun s u => { s with user := u }) (prune.call .prune v fun p => p v)
  else pure false

/-- The slots that a walk finds at a node. -/
def expand (prune : Hook (Predicate σ)) (v : Value) : Act Entry (Scene σ) (List Value) := do
  if ← pruned prune v then return [] else Scene.slotsOf v

/-- The fault of a step whose expansion failed. It is announced with the kind of the node and the
text of the cause, and finding either may fail. -/
def stepFault (registry : Registry σ) (v : Value) (e : Fault) : Fault :=
  if e.isOrdinary then
    match registry.kindOf v with
    | .error e' => e'
    | .ok kind =>
      match e.text with
      | .error e' => e'
      | .ok detail => .expansion v kind detail (some e)
  else e

/-- Takes the next node, or nothing when the walk is done. -/
def step : Act Entry (Stage σ) (Option Value) := fun s =>
  match s.walk.fringe with
  | [] => ⟨.ok none, s, []⟩
  | v :: rest =>
    match expand s.walk.prune v s.toScene with
    | ⟨.ok slots, scene, es⟩ =>
      ⟨.ok (some v),
        { toScene := scene, walk := { s.walk with fringe := Scene.present slots ++ rest } }, es⟩
    | ⟨.error e, scene, es⟩ =>
      ⟨.error (stepFault scene.registry v e),
        { toScene := scene, walk := { s.walk with fringe := rest } }, es⟩

end Walk

end RuleWalk
