import RuleWalk.Rule.Signature
import RuleWalk.Text.Mistake
import RuleWalk.Value.Basic

/-!
# Faults

Every way in which an activity can fail, by its cause. The wording is in `RuleWalk.Fault.Message`.
Not every fault has one: where the text of a fault is asked for and cannot be found, the fault met
on the way takes its place.
-/

namespace RuleWalk

/-- The sort of failure that a caller's function announces. -/
inductive Signal where
  | value
  | key
  | type
  | runtime
  | attr
  | index
  | stop
  | interrupt
deriving DecidableEq, Repr, Inhabited

/-- The sort of failure that is met in asking for the text of another one. A stop is left out: from
a bare walk it could not be told from the end of the walk. So is a failed expansion, which a plan
would take for one of its own. -/
abbrev Obstacle := { signal : Signal // signal ≠ .stop }

/-- The two order tests. -/
inductive Relation where
  | less
  | atMost
deriving DecidableEq, Repr, Inhabited

def Relation.symbol : Relation → String
  | less => "<"
  | atMost => "<="

/-- What can go too deep: calls inside each other, or values inside each other whose text is made. -/
inductive Nesting where
  | calls
  | texts
deriving DecidableEq, Repr, Inhabited

/-- What is wrong with a configuration. -/
inductive Problem where
  | negativeLimit
  | intervalNotPositive
  | badPolicy (shown : String)
  | badKinds (shown : String)
  | notCallable (setting : String)
deriving DecidableEq, Repr, Inhabited

/-- Cause of a failure. -/
inductive Fault where
  /-- A caller's function failed of its own accord. -/
  | raised (signal : Signal) (text : String)
  /-- A caller's function failed with a failure that has no text: who asks for it meets another
  failure instead. -/
  | wordless (signal : Signal) (obstacle : Obstacle) (text : String)
  /-- The children of a node could not be found. -/
  | expansion (node : Value) (kind : Option String) (detail : String) (cause : Option Fault)
  /-- A walk was started at a value without a kind. -/
  | notANode (value kindField : Value)
  | badKind (kind : Value)
  | inertRule (kind typeName : String)
  | badSignature (kind rule : String) (signature : Signature)
  | badConfig (problems : List Problem)
  | unknownOption (name : String)
  | repeatedArgument (callee name : String)
  | missingKey (key : Value)
  | unhashable (typeName : String)
  | notIterable (typeName : String)
  | notCallable (typeName : String)
  | notSubscriptable (typeName : String)
  /-- A membership test on something that has no members. -/
  | notContainer (typeName : String)
  /-- A membership test of something other than a text in a text. -/
  | notText (typeName : String)
  | noAttribute (typeName name : String)
  | badAttributeName (typeName : String)
  /-- The class of an attribute node cannot be replaced by something else. -/
  | badClass (typeName : String)
  /-- The attributes of an attribute node can only be replaced by those of a mapping. -/
  | badAttributes (typeName : String)
  | fixedAttribute (typeName name : String)
  | badIndex (container typeName : String)
  | outOfRange (container : String)
  /-- A whole number that is too large for a position in anything. -/
  | noPosition
  | notOrdered (relation : Relation) (left right : String)
  /-- A lazy sequence was stopped from inside. -/
  | stoppedInside
  | malformed (mistake : Mistake)
  /-- A whole number has more digits than are read or written; when it is read, how many. -/
  | tooManyDigits (limit : Nat) (count : Option Nat)
  /-- There is no room left for what nests. -/
  | tooDeep (nesting : Nesting)
deriving Inhabited

namespace Fault

/-- Faults that a walk turns into expansion faults; an interrupt passes through. -/
def isOrdinary : Fault → Bool
  | raised .interrupt _ => false
  | wordless .interrupt _ _ => false
  | _ => true

/-- A lazy sequence cannot end by a stop of someone else's. -/
def leaving : Fault → Fault
  | raised .stop _ => stoppedInside
  | wordless .stop _ _ => stoppedInside
  | f => f

end Fault

end RuleWalk
