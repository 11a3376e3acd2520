import RuleWalk.Text.Blank
import RuleWalk.Value.Text

/-!
# The wording of faults

The text of a fault may itself fail: that of a missing key is the text of the key, and a caller's
function can fail with a failure that has none.
-/

namespace RuleWalk

/-- What was going on when there was no room left. -/
def Nesting.activity : Nesting → String
  | calls => "calling a Python object"
  | texts => "getting the repr of an object"

def Problem.message : Problem → String
  | negativeLimit => "max_nodes cannot be negative"
  | intervalNotPositive => "progress_interval must be positive"
  | badPolicy shown => "error_policy must be an ErrorPolicy, got " ++ shown
  | badKinds shown => "kinds must be non-empty strings: " ++ shown
  | notCallable setting => setting ++ " must be callable"

namespace Fault

/-- How much of a rejected root is shown. -/
def shownWidth : Nat := 80

/-- A kind as it stands in a message. -/
def kindText : Option String → String
  | some k => Text.quote k
  | none => "None"

/-- The text of a failed expansion. -/
def expansionText (kind : Option String) (detail : String) : String :=
  "Child rule for " ++ kindText kind ++ " failed: " ++ detail

def text : Fault → Except Fault String
  | raised .key text => .ok (Text.quote text)
  | raised _ text => .ok text
  | wordless _ obstacle text => .error (.raised obstacle.val text)
  | expansion _ kind detail _ => .ok (expansionText kind detail)
  | notANode value kindField => do
    let field ← kindField.text
    let shown ← value.text
    return "Expected an AST node with a string " ++ field ++ " field, got " ++ value.typeName ++
      ": " ++ Text.clip shownWidth shown
  | badKind kind => do
    return "Node kind must be a non-empty string, got " ++ (← kind.text)
  | inertRule kind typeName =>
    .ok ("Child rule for " ++ Text.quote kind ++ " must be callable, got " ++ typeName)
  | badSignature kind rule signature =>
    .ok ("Child rule for " ++ Text.quote kind ++
      " must accept exactly one positional argument (the node): " ++ rule ++ signature.text)
  | badConfig problems =>
    .ok ("Invalid configuration: " ++ String.intercalate "; " (problems.map Problem.message))
  | unknownOption name => .ok ("Unknown traversal option: " ++ Text.quote name)
  | repeatedArgument callee name =>
    .ok (callee ++ "() got multiple values for argument " ++ Text.quote name)
  | missingKey key => key.text
  | unhashable t => .ok ("unhashable type: '" ++ t ++ "'")
  | notIterable t => .ok ("'" ++ t ++ "' object is not iterable")
  | notCallable t => .ok ("'" ++ t ++ "' object is not callable")
  | notSubscriptable t => .ok ("'" ++ t ++ "' object is not subscriptable")
  | notContainer t => .ok ("argument of type '" ++ t ++ "' is not iterable")
  | notText t => .ok ("'in <string>' requires string as left operand, not " ++ t)
  | noAttribute t name => .ok ("'" ++ t ++ "' object has no attribute '" ++ name ++ "'")
  | badAttributeName t => .ok ("attribute name must be string, not '" ++ t ++ "'")
  | badClass t => .ok ("__class__ must be set to a class, not '" ++ t ++ "' object")
  | badAttributes t => .ok ("__dict__ must be set to a dictionary, not a '" ++ t ++ "'")
  | fixedAttribute t name =>
    .ok ("attribute '" ++ name ++ "' of '" ++ t ++ "' objects is not writable")
  | badIndex "string" t => .ok ("string indices must be integers, not '" ++ t ++ "'")
  | badIndex c t => .ok (c ++ " indices must be integers or slices, not " ++ t)
  | outOfRange c => .ok (c ++ " index out of range")
  | noPosition => .ok "cannot fit 'int' into an index-sized integer"
  | notOrdered r a b =>
    .ok ("'" ++ r.symbol ++ "' not supported between instances of '" ++ a ++ "' and '" ++ b ++ "'")
  | stoppedInside => .ok "generator raised StopIteration"
  | malformed m => .ok m.message
  | tooManyDigits limit count =>
    .ok ("Exceeds the limit (" ++ toString limit ++ " digits) for integer string conversion" ++
      (match count with
        | some n => ": value has " ++ toString n ++ " digits"
        | none => "") ++ "; use sys.set_int_max_str_digits() to increase the limit")
  | tooDeep nesting => .ok ("maximum recursion depth exceeded while " ++ nesting.activity)

/-- What is met when a fault is announced together with its text: the fault, or the one that takes
the place of its text. -/
def announced (e : Fault) : Fault :=
  match e.text with
  | .ok _ => e
  | .error e' => e'

end Fault

end RuleWalk
