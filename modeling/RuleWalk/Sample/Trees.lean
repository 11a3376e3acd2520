import RuleWalk.Value.Access

/-!
# Synthetic trees

A wide and a deep tree of any size, and a count of the nodes of a tree that looks at every field of
every mapping instead of asking rules. It calls itself for each tagged mapping, so that a tree may
be too deep for it.
-/

namespace RuleWalk.Sample

def node (n : Nat) (kind : String) (fields : List (String × Value)) : Value :=
  .dict ⟨n, none⟩ (("type", .str kind) :: fields)

/-- The statement number `i`: a call of a function with one literal. It takes five serial numbers
from `n` on. -/
def statement (n i : Nat) : Value :=
  node n "ExpressionStatement"
    [("expression", node (n + 1) "CallExpression"
      [("callee", node (n + 2) "Identifier" [("name", .str ("f" ++ toString i))]),
       ("arguments", .list ⟨n + 3, none⟩ [node (n + 4) "Literal" [("value", .int i)]])])]

/-- A program of `size` call statements. -/
def wide (size : Nat) : Value :=
  node 0 "Program" [("body", .list ⟨1, none⟩ ((List.range size).map fun i => statement (5 * i + 2) i))]

/-- `depth` negations around `v`. -/
def negations (n : Nat) : Nat → Value → Value
  | 0, v => v
  | depth + 1, v =>
    negations (n + 1) depth (node n "UnaryExpression" [("operator", .str "!"), ("argument", v)])

/-- A program whose one statement is a chain of `depth` negations. -/
def deep (depth : Nat) : Value :=
  node 0 "Program"
    [("body", .list ⟨1, none⟩
      [node 2 "ExpressionStatement"
        [("expression", negations 4 depth (node 3 "Identifier" [("name", .str "x")]))]])]

/-- Whether a mapping has a tag at all. -/
def isTagged (entries : List (String × Value)) : Bool := (entries.lookup "type").isSome

/-- One call of the count, which counts one and goes on below, if there is room for it. -/
def countCall (room : Nat) (below : Nat → Except Fault Nat) : Except Fault Nat :=
  match room with
  | 0 => .error (.tooDeep .calls)
  | room + 1 => (below room).map (1 + ·)

mutual

/-- The tagged mappings at or right below a value, each with all below it. -/
def countBelow : Value → Nat → Except Fault Nat
  | .dict _ entries, room =>
    if isTagged entries then countCall room (countEntries entries) else .ok 0
  | .list _ items, room => countItems items room
  | _, _ => .ok 0

/-- The tagged mappings among list items. -/
def countItems : List Value → Nat → Except Fault Nat
  | [], _ => .ok 0
  | v :: vs, room => do
    let n ← match v with
      | .dict _ entries =>
        if isTagged entries then countCall room (countEntries entries) else .ok 0
      | _ => .ok 0
    return n + (← countItems vs room)

def countEntries : List (String × Value) → Nat → Except Fault Nat
  | [], _ => .ok 0
  | (_, v) :: es, room => do
    let n ← countBelow v room
    return n + (← countEntries es room)

end

/-- Counts a mapping and all tagged mappings below it, with no more than `room` calls inside each
other. -/
def countNodes (room : Nat) : Value → Except Fault Nat
  | .dict _ entries => countCall room (countEntries entries)
  | v => countCall room fun _ => .error (v.callFault "values")

end RuleWalk.Sample
