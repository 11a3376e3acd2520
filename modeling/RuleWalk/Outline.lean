import RuleWalk.Page
import RuleWalk.Walk
import Std.Data.HashMap

/-!
# Outlines

Prints each node of a walk on a line of its own, indented by its level. The level of a node is one
more than that of the node among whose children it was found.
-/

namespace RuleWalk.Outline

variable {σ : Type}

/-- A walk under way and the levels of the containers met so far. -/
structure Progress (σ : Type) where
  walk : Walk σ
  levels : Std.HashMap Nat Nat

/-- The level of a value; one that is no container has none of its own. -/
def levelOf (levels : Std.HashMap Nat Nat) (v : Value) : Except Fault Nat :=
  match v.serial? with
  | none => .ok 0
  | some n =>
    match levels[n]? with
    | some l => .ok l
    | none => .error (.missingKey (.int n))

/-- Gives all of `vs` the level `l`. -/
def place (l : Nat) (levels : Std.HashMap Nat Nat) (vs : List Value) : Std.HashMap Nat Nat :=
  vs.foldl (fun levels v =>
    match v.serial? with
    | some n => levels.insert n l
    | none => levels) levels

/-- The name shown beside a kind: that of a mapping, if it counts as true. -/
def nameOf : Value → Except Fault Value
  | .dict _ entries =>
    match entries.lookup "name" with
    | some v => .ok (if v.truthy then v else .str "")
    | none => .ok (.str "")
  | v => .error (v.callFault "get")

/-- The line of a node. -/
def line (level : Nat) (v : Value) : Except Fault String := do
  let name ← nameOf v
  let kind ← (← v.item (.str "type")).plain
  let shown ← name.plain
  return Text.trimEnd (String.ofList (List.replicate (2 * level) ' ') ++ kind ++ " " ++ shown)

/-- One step of a walk that is held apart from its scene. -/
def stepFrom (w : Walk σ) : Act Entry (Scene σ) (Option Value × Walk σ) := fun s =>
  match Walk.step { toScene := s, walk := w } with
  | ⟨r, t, es⟩ => ⟨r.map fun v => (v, t.walk), t.toScene, es⟩

/-- Prints one more node. -/
def turn (p : Progress σ) : Act Entry (Page (Scene σ)) (Act.Turn (Progress σ) Unit) := do
  match ← Page.onUnder (stepFrom p.walk) with
  | (none, _) => return .done ()
  | (some v, walk) =>
    let level ← Act.ofExcept (levelOf p.levels v)
    let children ← Page.onUnder (Scene.childrenOf v)
    Page.print (← Act.ofExcept (line level v))
    return .again { walk, levels := place (level + 1) p.levels children }

/-- Prints the outline of a tree. -/
def draw (root : Value) (fuel : Nat) : Act Entry (Page (Scene σ)) Unit := do
  let s ← Act.get
  let walk ← Act.ofExcept (Walk.start s.under.registry .absent root)
  let _ ← Act.iterate turn fuel { walk, levels := place 0 {} [root] }
  return ()

end RuleWalk.Outline
