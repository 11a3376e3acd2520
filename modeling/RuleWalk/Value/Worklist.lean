import RuleWalk.Value.Convert

/-!
# The list of work

The conversion to attribute nodes can be done without recursion and without frames. A list or a
mapping with a tag is first replaced by a new container with nothing in it but, for a mapping, its
tag. The container goes to its place in a store and onto a list of work, and whatever holds it holds
its place. Then the container that was put on the list last is taken off and filled, which may put
more on the list, until none is left.

Filling sets one attribute after the other, and that fails for some names. This is where the list of
work is needed: it says which failure is met first, and what a mapping is turned into that has a new
set of attributes among its entries. Elsewhere `convert` gives the same.
-/

namespace RuleWalk

/-- What a container holds: a value that is kept, or a new container by its place. -/
inductive Ref where
  | kept (v : Value)
  | made (place : Nat)

/-- A new container, with the path of what it is made from. -/
inductive Cell where
  | items (path : Option String) (refs : List Ref)
  | attributes (path : Option String) (refs : List (String × Ref))

def Ref.entries? : Ref → Option (List (String × Ref))
  | kept v => v.entries?.map fun es => es.map fun e => (e.1, kept e.2)
  | made _ => none

namespace Cell

/-- One more item of a list, or an attribute that is set. -/
def add : Option String → String → Ref → Cell → Except Fault Cell
  | none, _, r, items path refs => .ok (items path (refs ++ [r]))
  | some name, typeName, r, attributes path refs =>
    (Value.setAttribute name typeName r.entries? r refs).map (attributes path)
  | _, _, _, c => .ok c

/-- The container that a value is replaced by, unless it is kept. -/
def blank? (field : Value) : Value → Option Cell
  | .list o _ => some (items o.path [])
  | .dict o entries =>
    (Value.tag? field entries).map fun tag => attributes o.path [("type", .kept tag)]
  | _ => none

end Cell

namespace Value

/-- What is to be put into the container for a value, and under which name. -/
def children : Value → List (Option String × Value)
  | list _ items => items.map fun v => (none, v)
  | dict _ entries => entries.map fun e => (some e.1, e.2)
  | _ => []

/-- The type of what a value is converted to. -/
def convertedType (v field : Value) : String :=
  match v with
  | dict _ entries => if (tag? field entries).isSome then "EstreeNode" else v.typeName
  | _ => v.typeName

/-- What the entries of a mapping hold. -/
def held (entries : List (String × Value)) : List Value := entries.map Prod.snd

theorem sizeOf_held_le (entries : List (String × Value)) :
    sizeOf (held entries) ≤ sizeOf entries := by
  induction entries with
  | nil => exact Nat.le_refl _
  | cons e es ih =>
    obtain ⟨k, v⟩ := e
    rw [held] at ih ⊢
    simp only [List.map_cons, List.cons.sizeOf_spec, Prod.mk.sizeOf_spec]
    omega

theorem sizeOf_append (vs ws : List Value) : sizeOf (vs ++ ws) + 1 = sizeOf vs + sizeOf ws := by
  induction vs with
  | nil => simp only [List.nil_append, List.nil.sizeOf_spec]; omega
  | cons v vs ih => simp only [List.cons_append, List.cons.sizeOf_spec]; omega

/-- Whether no mapping that is converted, among the values and inside them, has an entry under a
reserved name. -/
def avoidReserved (field : Value) : List Value → Bool
  | [] => true
  | list _ items :: rest => avoidReserved field (items ++ rest)
  | dict _ entries :: rest =>
    match tag? field entries with
    | some _ =>
      entries.all (fun e => !reservedNames.contains e.1) &&
        avoidReserved field (held entries ++ rest)
    | none => avoidReserved field rest
  | _ :: rest => avoidReserved field rest
termination_by vs => sizeOf vs
decreasing_by
  · have happend := sizeOf_append items rest
    simp only [List.cons.sizeOf_spec, list.sizeOf_spec]
    omega
  · have happend := sizeOf_append (held entries) rest
    have hheld := sizeOf_held_le entries
    simp only [List.cons.sizeOf_spec, dict.sizeOf_spec]
    omega
  all_goals
    simp only [List.cons.sizeOf_spec]
    omega

end Value

/-- The new containers by their places, and those that are not filled yet, with what they are made
from, the last first. -/
structure Worklist where
  cells : List Cell := []
  pending : List (Nat × Value) := []

namespace Worklist

/-- Takes up a value: a new container is put on the list of work. -/
def take (field v : Value) (w : Worklist) : Ref × Worklist :=
  match Cell.blank? field v with
  | some cell => (.made w.cells.length, ⟨w.cells ++ [cell], (w.cells.length, v) :: w.pending⟩)
  | none => (.kept v, w)

/-- Takes up a child and puts what stands for it into the container at a place. -/
def put (field : Value) (place : Nat) (c : Option String × Value) (w : Worklist) :
    Except Fault Worklist :=
  let taken := take field c.2 w
  match taken.2.cells[place]? with
  | some cell =>
    (cell.add c.1 (c.2.convertedType field) taken.1).map fun cell =>
      { taken.2 with cells := taken.2.cells.set place cell }
  | none => .ok taken.2

/-- Puts one child after the other into the container at a place. -/
def fill (field : Value) (place : Nat) :
    List (Option String × Value) → Worklist → Except Fault Worklist
  | [], w => .ok w
  | c :: rest, w => put field place c w >>= fill field place rest

/-- Fills the container that was put on the list last. -/
def advance (field : Value) (w : Worklist) : Except Fault Worklist :=
  match w.pending with
  | [] => .ok w
  | (place, source) :: pending => fill field place source.children { w with pending }

/-- What stands for a value, with the work that it makes. -/
def start (field v : Value) : Ref × Worklist := take field v {}

/-- What becomes of the work in a number of steps. -/
def run (field : Value) : Nat → Worklist → Except Fault Worklist
  | 0, w => .ok w
  | steps + 1, w => advance field w >>= run field steps

/-- The value that a reference stands for. A new container has the serial number `n` more than its
place; containers inside each other are followed to the depth `fuel`. -/
def read (cells : List Cell) (n : Nat) : Nat → Ref → Value
  | _, .kept v => v
  | 0, .made _ => .null
  | fuel + 1, .made place =>
    match cells[place]? with
    | some (.items path refs) => .list ⟨n + place, path⟩ (refs.map (read cells n fuel))
    | some (.attributes path refs) =>
      .ofAttributes ⟨n + place, path⟩ (refs.map fun e => (e.1, read cells n fuel e.2))
    | none => .null

/-- The conversion of a value by a list of work, in as many steps as it makes containers. -/
def convert (field v : Value) (n : Nat) : Except Fault (Value × Nat) := do
  let first := start field v
  let w ← run field (v.convert field 0).2 first.2
  return (read w.cells n w.cells.length first.1, n + w.cells.length)

end Worklist

/-- The conversion of a value, unless it has to look for a tag under what cannot be a key, or to set
an attribute that cannot be set. -/
def Value.convertUnder (v field : Value) (n : Nat) : Except Fault (Value × Nat) :=
  match checkKey field with
  | .ok () =>
    if avoidReserved field [v] then .ok (v.convert field n) else Worklist.convert field v n
  | .error e => if v.showsMapping then .error e else .ok (v.convert field n)

end RuleWalk
