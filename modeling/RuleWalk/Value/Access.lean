import RuleWalk.Fault.Basic

/-!
# Reading values

Fields, items, iteration and kinds. A mapping and an attribute node are read alike: a missing field
is absent, never a fault.
-/

namespace RuleWalk.Value

mutual

/-- A mapping or list cannot be a key, nor can a tuple that holds one. -/
def checkKey : Value → Except Fault Unit
  | list _ _ => .error (.unhashable "list")
  | dict _ _ => .error (.unhashable "dict")
  | tuple _ items => checkKeys items
  | _ => .ok ()

def checkKeys : List Value → Except Fault Unit
  | [] => .ok ()
  | v :: vs =>
    match checkKey v with
    | .ok () => checkKeys vs
    | .error e => .error e

end

/-- The operation that belongs to all attribute nodes together and not to each. -/
def classMethod : String := "from_dict"

/-- Names of the operations of an attribute node. -/
def methodNames : List String := ["fields", classMethod]

/-- Attribute of a value: an attribute node has its kind, its fields, and its operations unless a
field of the same name hides them. No other value has any: what every object has besides, under
names such as `__class__` and `__doc__` or as numbers and texts have it, is not looked at. -/
def attr? (v : Value) (name : String) : Option Value :=
  match v with
  | node _ kind fields =>
    if name = "type" then some kind
    else
      match fields.lookup name with
      | some w => some w
      | none => if methodNames.contains name then some (method v name) else none
  | _ => none

def attr (v : Value) (name : Value) : Except Fault Value :=
  match name with
  | str s =>
    match v.attr? s with
    | some w => .ok w
    | none => .error (.noAttribute v.typeName s)
  | _ => .error (.badAttributeName name.typeName)

/-- The fault of calling an operation that no value has: it is missing, or it is no function. -/
def callFault (v : Value) (name : String) : Fault :=
  match v.attr? name with
  | some w => .notCallable w.typeName
  | none => .noAttribute v.typeName name

/-- Field of a mapping or attribute node, or `fallback` if there is none. -/
def getField (v name : Value) (fallback : Value := null) : Except Fault Value :=
  match v, name with
  | dict _ entries, str s => .ok ((entries.lookup s).getD fallback)
  | dict _ _, _ => (checkKey name).map fun _ => fallback
  | _, str s => .ok ((v.attr? s).getD fallback)
  | _, _ => .error (.badAttributeName name.typeName)

/-- What iterating over a value gives: the characters of a text, the keys of a mapping. -/
def iterate : Value → Except Fault (List Value)
  | str s => .ok (s.toList.map fun c => str c.toString)
  | list _ items => .ok items
  | tuple _ items => .ok items
  | dict _ entries => .ok (entries.map fun e => str e.1)
  | v => .error (.notIterable v.typeName)

/-- A list-valued field; a missing or null one is empty. -/
def getList (v name : Value) : Except Fault (List Value) :=
  match v.getField name with
  | .error e => .error e
  | .ok null => .ok []
  | .ok w => w.iterate

/-- The kind tag under `field`: a text that is not empty. -/
def kind? (v field : Value) : Except Fault (Option String) :=
  match v with
  | null => .ok none
  | _ =>
    match v.getField field with
    | .ok (str s) => .ok (if s.isEmpty then none else some s)
    | .ok _ => .ok none
    | .error e => .error e

def isNode (v field : Value) : Except Fault Bool := (v.kind? field).map Option.isSome

/-- Whole numbers, a truth value being zero or one. -/
def index? : Value → Option Int
  | bool b => some (if b then 1 else 0)
  | int n => some n
  | _ => none

/-- Positions go from `-indexReach` up to but not including `indexReach`. -/
def indexReach : Int := 9223372036854775808

/-- Element at a position; a negative one counts from the end. -/
def atIndex (items : List Value) (i : Int) : Option Value :=
  if 0 ≤ i then items[i.toNat]? else if -i ≤ items.length then items[(items.length + i).toNat]? else none

/-- Element of a sequence that is called `container` in faults. -/
def sequenceItem (container : String) (items : List Value) (key : Value) : Except Fault Value :=
  match key.index? with
  | none => .error (.badIndex container key.typeName)
  | some i =>
    if i < -indexReach ∨ indexReach ≤ i then .error .noPosition
    else
      match atIndex items i with
      | some w => .ok w
      | none => .error (.outOfRange container)

/-- The value stored in `v` under `key`. -/
def item (v key : Value) : Except Fault Value :=
  match v with
  | dict _ entries =>
    match checkKey key with
    | .error e => .error e
    | .ok () =>
      match key with
      | str s =>
        match entries.lookup s with
        | some w => .ok w
        | none => .error (.missingKey key)
      | _ => .error (.missingKey key)
  | list _ items => sequenceItem "list" items key
  | tuple _ items => sequenceItem "tuple" items key
  | str s => sequenceItem "string" (s.toList.map fun c => str c.toString) key
  | _ => .error (.notSubscriptable v.typeName)

/-- The fields of an attribute node without its kind. -/
def fields (v : Value) : Except Fault (List (String × Value)) :=
  match v with
  | node _ _ fs =>
    match fs.lookup "fields" with
    | some w => .error (.notCallable w.typeName)
    | none => .ok fs
  | _ => .error (.noAttribute v.typeName "fields")

/-- Names that are no fields: setting them does something else. -/
def reservedNames : List String := ["__class__", "__dict__", "__weakref__"]

/-- Puts an attribute in its place if it is there, and behind the others if it is not. -/
def assign {α : Type} (name : String) (a : α) : List (String × α) → List (String × α)
  | [] => [(name, a)]
  | e :: es => if e.1 = name then (name, a) :: es else e :: assign name a es

/-- Sets an attribute to something of the type `typeName`. Under one of the reserved names a mapping
gives all attributes at once, `entries?`; nothing else can be set under them. -/
def setAttribute {α : Type} (name typeName : String) (entries? : Option (List (String × α))) (a : α)
    (set : List (String × α)) : Except Fault (List (String × α)) :=
  if name = "__class__" then .error (.badClass typeName)
  else if name = "__dict__" then
    match entries? with
    | some es => .ok es
    | none => .error (.badAttributes typeName)
  else if name = "__weakref__" then .error (.fixedAttribute "EstreeNode" name)
  else .ok (assign name a set)

def entries? : Value → Option (List (String × Value))
  | dict _ es => some es
  | _ => none

/-- The attribute node of a set of attributes. -/
def ofAttributes (origin : Origin) (set : List (String × Value)) : Value :=
  node origin ((set.lookup "type").getD null) (set.filter fun e => e.1 != "type")

/-- A new attribute node. The two names its maker already uses cannot be given again. -/
def makeNode (origin : Origin) (kind : Value) (fs : List (String × Value)) : Except Fault Value :=
  match (fs.map Prod.fst).find? fun n => n == "self" || n == "type" with
  | some n => .error (.repeatedArgument "EstreeNode.__init__" n)
  | none =>
    (fs.foldlM (fun set e => setAttribute e.1 e.2.typeName e.2.entries? e.2 set)
      [("type", kind)]).map (ofAttributes origin)

@[simp] theorem kind?_null (field : Value) : null.kind? field = .ok none := rfl

end RuleWalk.Value
