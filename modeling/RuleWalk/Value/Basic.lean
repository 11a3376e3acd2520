import RuleWalk.Number.Double

/-!
# Values

What trees are made of: scalars, lists, tuples, string-keyed mappings and attribute nodes. A value
is never changed. A container carries an `Origin`, whose serial number is its identity: two
occurrences with one serial are the same container.
-/

namespace RuleWalk

/-- Identity of a container, and the path by which reports name it. -/
structure Origin where
  serial : Nat
  path : Option String := none
deriving DecidableEq, Repr, Inhabited

/-- A value. An attribute node holds its kind tag apart from its other fields; a method is what
reading one of the two operations of an attribute node gives, and knows whose it is. -/
inductive Value where
  | null
  | bool (b : Bool)
  | int (n : Int)
  | float (x : Double)
  | str (s : String)
  | list (origin : Origin) (items : List Value)
  | tuple (origin : Origin) (items : List Value)
  | dict (origin : Origin) (entries : List (String × Value))
  | node (origin : Origin) (kind : Value) (fields : List (String × Value))
  | method (owner : Value) (name : String)
deriving Inhabited, Repr

namespace Value

/-- The most digits that a whole number is read or written with. -/
def digitLimit : Nat := 4300

def typeName : Value → String
  | null => "NoneType"
  | bool _ => "bool"
  | int _ => "int"
  | float _ => "float"
  | str _ => "str"
  | list _ _ => "list"
  | tuple _ _ => "tuple"
  | dict _ _ => "dict"
  | node _ _ _ => "EstreeNode"
  | method _ _ => "method"

/-- Zero, the empty text, the empty container and `null` are false. -/
def truthy : Value → Bool
  | null => false
  | bool b => b
  | int n => n != 0
  | float x => !x.isZero
  | str s => !s.isEmpty
  | list _ items => !items.isEmpty
  | tuple _ items => !items.isEmpty
  | dict _ entries => !entries.isEmpty
  | node _ _ _ => true
  | method _ _ => true

def isNull : Value → Bool
  | null => true
  | _ => false

/-- Identity of a container; scalars have none. -/
def serial? : Value → Option Nat
  | list o _ => some o.serial
  | tuple o _ => some o.serial
  | dict o _ => some o.serial
  | node o _ _ => some o.serial
  | _ => none

def origin? : Value → Option Origin
  | list o _ => some o
  | tuple o _ => some o
  | dict o _ => some o
  | node o _ _ => some o
  | _ => none

/-- What a number stands for; a truth value counts as zero or one. -/
def quantity? : Value → Option Quantity
  | bool b => some (.fraction (if b then 1 else 0) 1)
  | int n => some (.fraction n 1)
  | float x => some x.quantity
  | _ => none

@[simp] theorem isNull_iff {v : Value} : v.isNull = true ↔ v = null := by
  cases v <;> simp [isNull]

@[simp] theorem truthy_null : null.truthy = false := rfl

end Value

end RuleWalk
