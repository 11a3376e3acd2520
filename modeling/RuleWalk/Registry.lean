import RuleWalk.Fault.Message
import RuleWalk.Rule.Catalogue
import RuleWalk.Value.Order

/-!
# Registries

A registry holds one rule per kind and the field under which nodes carry their kind. A kind without
a rule has no children; the registry remembers the kinds it met like that.
-/

namespace RuleWalk

structure Registry (σ : Type) where
  kindField : Value := .str "type"
  rules : List (String × Rule σ) := []
  unknown : List String := []

namespace Registry

variable {σ : Type}

def rule? (r : Registry σ) (kind : String) : Option (Rule σ) := r.rules.lookup kind

def has (r : Registry σ) (kind : String) : Bool := (r.rule? kind).isSome

def size (r : Registry σ) : Nat := r.rules.length

/-- The registered kinds in order. -/
def kinds (r : Registry σ) : List String := sortTexts (r.rules.map Prod.fst)

/-- The kinds met without a rule, in order. -/
def unknownKinds (r : Registry σ) : List String := sortTexts r.unknown

/-- Puts a rule in the place of the one its kind has, or at the end. -/
def insertRule (kind : String) (rule : Rule σ) : List (String × Rule σ) → List (String × Rule σ)
  | [] => [(kind, rule)]
  | e :: es => if e.1 = kind then (kind, rule) :: es else e :: insertRule kind rule es

def put (r : Registry σ) (kind : String) (rule : Rule σ) : Registry σ :=
  { r with
    rules := insertRule kind rule r.rules
    unknown := r.unknown.filter fun k => k != kind }

def erase (r : Registry σ) (kind : String) : Registry σ :=
  { r with rules := r.rules.filter fun e => e.1 != kind }

/-- Why a value is no kind: it is not a text, or it is empty. -/
def kindFault (kind : Value) : Fault := (Fault.badKind kind).announced

/-- Registers a rule; the last one for a kind stays. -/
def register (kind : Value) (candidate : Candidate σ) : Act Entry (Registry σ) Unit := fun r =>
  match kind with
  | .str k =>
    if k.isEmpty then ⟨.error (kindFault kind), r, []⟩
    else
      match candidate.check k with
      | .error e => ⟨.error e, r, []⟩
      | .ok rule => ⟨.ok (), r.put k rule, if r.has k then [.log (.overriding k)] else []⟩
  | _ => ⟨.error (kindFault kind), r, []⟩

/-- Whether `kind` has a rule; a value that cannot be a key is refused. -/
def contains (r : Registry σ) (kind : Value) : Except Fault Bool :=
  kind.checkKey.map fun _ =>
    match kind with
    | .str k => r.has k
    | _ => false

/-- The rule of `kind`, if it has one. -/
def getRule (r : Registry σ) (kind : Value) : Except Fault (Option (Rule σ)) :=
  kind.checkKey.map fun _ =>
    match kind with
    | .str k => r.rule? k
    | _ => none

/-- Removes the rule of `kind`. -/
def unregister (kind : Value) : Act Entry (Registry σ) Unit := fun r =>
  match kind.checkKey with
  | .error e => ⟨.error e, r, []⟩
  | .ok () =>
    match kind with
    | .str k =>
      if r.has k then ⟨.ok (), r.erase k, [.log (.removed k)]⟩
      else ⟨.error (.missingKey kind), r, []⟩
    | _ => ⟨.error (.missingKey kind), r, []⟩

/-- Registers a whole table. -/
def fill (table : List (Value × Candidate σ)) : Act Entry (Registry σ) Unit :=
  Act.each (fun e => register e.1 e.2) table

/-- A table with one candidate per kind: a later one takes the place of an earlier one. -/
def tableOf : List (Value × Candidate σ) → List (Value × Candidate σ) →
    Except Fault (List (Value × Candidate σ))
  | done, [] => .ok done
  | done, (k, c) :: rest =>
    match k.checkKey with
    | .error e => .error e
    | .ok () =>
      if done.any fun e => e.1.eq k then
        tableOf (done.map fun e => if e.1.eq k then (e.1, c) else e) rest
      else tableOf (done ++ [(k, c)]) rest

/-- The registry of the whole catalogue. -/
def standard (kindField : Value) : Registry σ := { kindField, rules := Catalogue.rules σ }

def empty (kindField : Value) : Registry σ := { kindField }

/-- A registry of its own with the same rules. -/
def copy (r : Registry σ) : Outcome Entry (Registry σ) Unit :=
  fill (r.rules.map fun e => (.str e.1, .rule e.2)) (empty r.kindField)

def kindOf (r : Registry σ) (v : Value) : Except Fault (Option String) := v.kind? r.kindField

def text (r : Registry σ) : Except Fault String := do
  return "ChildRuleRegistry(kinds=" ++ toString r.size ++ ", kind_field=" ++ (← r.kindField.text) ++ ")"

end Registry

/-- A registry in use: the registry and the state of the caller's own functions. -/
structure Scene (σ : Type) where
  registry : Registry σ
  user : σ

namespace Scene

variable {σ α : Type}

/-- Calls one of the caller's functions. -/
def consult (role : Role) (subject : Value) (m : Act Remark σ α) : Act Entry (Scene σ) α :=
  Act.zoom Scene.user (fun s u => { s with user := u }) (Act.consult role subject m)

/-- Acts on the registry alone. -/
def onRegistry (m : Act Entry (Registry σ) α) : Act Entry (Scene σ) α :=
  Act.zoom Scene.registry (fun s r => { s with registry := r }) m

/-- The slots of a node: what the rule of its kind offers. A value without a kind has none, nor has
a kind without a rule, which is remembered and logged when it is first met. -/
def slotsOf (v : Value) : Act Entry (Scene σ) (List Value) := fun s =>
  match s.registry.kindOf v with
  | .error e => ⟨.error e, s, []⟩
  | .ok none => ⟨.ok [], s, []⟩
  | .ok (some kind) =>
    match s.registry.rule? kind with
    | some rule => (consult (.rule kind) v (rule.expand v) >>= fun o => Act.ofExcept o.collect) s
    | none =>
      if s.registry.unknown.contains kind then ⟨.ok [], s, []⟩
      else
        ⟨.ok [], { s with registry := { s.registry with unknown := kind :: s.registry.unknown } },
          [.log (.unknownKind kind)]⟩

/-- The slots that are not empty. -/
def present (slots : List Value) : List Value := slots.filter fun v => !v.isNull

def childrenOf (v : Value) : Act Entry (Scene σ) (List Value) := do
  return present (← slotsOf v)

def isLeaf (v : Value) : Act Entry (Scene σ) Bool := do
  return (← childrenOf v).isEmpty

end Scene

end RuleWalk
