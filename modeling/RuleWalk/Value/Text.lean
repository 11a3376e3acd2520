import RuleWalk.Number.Shortest
import RuleWalk.Text.Quoted
import RuleWalk.Value.Access

/-!
# The text of a value

Scalars, lists, tuples and mappings are written as literals. An attribute node is written with its
kind and the sorted names of its fields, for which it is asked: a field that hides that operation
makes the whole text fail. When the names joined give no text, nothing divides them from the kind.

A whole number is written with no more digits than it is read with, and a text is only looked for
down to some depth. How much of that depth is used up already when a text is asked for is left
open: it is counted from there.
-/

namespace RuleWalk

/-- Texts in the order of their code points. -/
def sortTexts (xs : List String) : List String := xs.mergeSort fun a b => decide (a ≤ b)

namespace Value

/-- How many values may stand inside each other for the text of the outermost to be found. -/
def depthLimit : Nat := 1000

/-- The text of a whole number, if it has no more digits than are written. -/
def intText (n : Int) : Except Fault String :=
  if (Nat.toDigits 10 n.natAbs).length ≤ digitLimit then .ok (toString n)
  else .error (.tooManyDigits digitLimit none)

mutual

/-- The text of a value with at most `room` values inside each other. -/
def textWithin : Value → Nat → Except Fault String
  | _, 0 => .error (.tooDeep .texts)
  | null, _ + 1 => .ok "None"
  | bool b, _ + 1 => .ok (if b then "True" else "False")
  | int n, _ + 1 => intText n
  | float x, _ + 1 => .ok x.text
  | str s, _ + 1 => .ok (Text.quote s)
  | list _ items, room + 1 => do
    let ts ← itemTexts items room
    return "[" ++ String.intercalate ", " ts ++ "]"
  | tuple _ items, room + 1 => do
    match ← itemTexts items room with
    | [t] => return "(" ++ t ++ ",)"
    | ts => return "(" ++ String.intercalate ", " ts ++ ")"
  | dict _ entries, room + 1 => do
    let ts ← entryTexts entries room
    return "\x7b" ++ String.intercalate ", " ts ++ "\x7d"
  | v@(node _ kind _), room + 1 => do
    let names := String.intercalate ", " (sortTexts ((← v.fields).map Prod.fst))
    let t ← textWithin kind room
    return "EstreeNode(" ++ t ++ (if names.isEmpty then "" else ", " ++ names) ++ ")"
  | method owner name, room + 1 => do
    let t ← if name = classMethod then .ok "<class 'estreelib.core.node.EstreeNode'>"
      else textWithin owner room
    return "<bound method EstreeNode." ++ name ++ " of " ++ t ++ ">"

def itemTexts : List Value → Nat → Except Fault (List String)
  | [], _ => .ok []
  | v :: vs, room => do
    let t ← textWithin v room
    let ts ← itemTexts vs room
    return t :: ts

def entryTexts : List (String × Value) → Nat → Except Fault (List String)
  | [], _ => .ok []
  | (k, v) :: es, room => do
    let t ← textWithin v room
    let ts ← entryTexts es room
    return (Text.quote k ++ ": " ++ t) :: ts

end

def text (v : Value) : Except Fault String := v.textWithin depthLimit

/-- The text of a value in running text: a text stands for itself. -/
def plain : Value → Except Fault String
  | str s => .ok s
  | v => v.text

/-- The text of a value where it cannot fail, nothing otherwise. -/
def textOr (v : Value) : String :=
  match v.text with
  | .ok t => t
  | .error _ => ""

end Value

end RuleWalk
