import RuleWalk.Rule.Basic

/-!
# Rules by fields

The usual rule names the fields that hold children, from left to right. A field marked `many` holds
a list whose items are the slots; any other field is itself one slot.
-/

namespace RuleWalk

inductive FieldSpec where
  | one (name : Value)
  | many (name : Value)

namespace FieldSpec

def text : FieldSpec → String
  | one name => name.textOr
  | many name => "many(" ++ name.textOr ++ ")"

/-- The slots that one field gives. -/
def slots (node : Value) : FieldSpec → Except Fault (List Value)
  | one name => (node.getField name).map fun v => [v]
  | many name => node.getList name

/-- The slots that a list of fields gives. -/
def allSlots (node : Value) : List FieldSpec → Except Fault (List Value)
  | [] => .ok []
  | f :: fs =>
    match f.slots node with
    | .error e => .error e
    | .ok vs => (allSlots node fs).map (vs ++ ·)

/-- How a rule by fields is written. -/
def label (fs : List FieldSpec) : String := "fields(" ++ String.intercalate ", " (fs.map text) ++ ")"

/-- The rule that gives the slots of the named fields. -/
def rule {σ : Type} (fs : List FieldSpec) : Rule σ :=
  .ofFunction (label fs) fun v => (allSlots v fs).map fun slots => ⟨slots, none⟩

end FieldSpec

end RuleWalk
