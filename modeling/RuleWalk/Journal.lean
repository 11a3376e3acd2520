import RuleWalk.Act

/-!
# What is put on record

The journal of an activity holds its log records and the calls of the caller's functions, in the
order in which they happen. A caller's function can leave remarks of its own.
-/

namespace RuleWalk

inductive Level where
  | debug
  | info
  | warning
deriving DecidableEq, Repr, Inhabited

/-- The part of the library that logs. -/
inductive Source where
  | registry
  | plan
deriving DecidableEq, Repr, Inhabited

/-- Log records, by their occasion. -/
inductive Record where
  | overriding (kind : String)
  | removed (kind : String)
  | unknownKind (kind : String)
  | limitReached (count : Nat)
  | skipping (message : String)
deriving DecidableEq, Repr, Inhabited

namespace Record

def level : Record → Level
  | overriding _ | removed _ | unknownKind _ => .debug
  | limitReached _ => .info
  | skipping _ => .warning

def source : Record → Source
  | overriding _ | removed _ | unknownKind _ => .registry
  | limitReached _ | skipping _ => .plan

def message : Record → String
  | overriding kind => "Overriding child rule for " ++ kind
  | removed kind => "Removed child rule for " ++ kind
  | unknownKind kind => "No child rule for " ++ kind ++ "; treating as leaf"
  | limitReached count => "Traversal stopped after " ++ toString count ++ " nodes (max_nodes reached)"
  | skipping message => "Skipping children after rule failure: " ++ message

end Record

/-- What one of the caller's functions is called for. -/
inductive Role where
  | prune
  | rule (kind : String)
  | report (fault : Fault)
  | drop
  | keep
  | progress

/-- A remark that a caller's function makes about its argument. -/
structure Remark where
  tag : Value
  subject : Value

inductive Entry where
  | log (record : Record)
  | call (role : Role) (subject : Value) (remarks : List Remark)

namespace Act

variable {ρ σ α : Type}

def log (r : Record) : Act Entry ρ Unit := note (.log r)

/-- Calls one of the caller's functions and records the call. -/
def consult (role : Role) (subject : Value) (m : Act Remark σ α) : Act Entry σ α := fun s =>
  match m s with
  | ⟨r, s', remarks⟩ => ⟨r, s', [.call role subject remarks]⟩

end Act

end RuleWalk
