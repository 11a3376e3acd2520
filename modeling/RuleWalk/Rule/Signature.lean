/-!
# Signatures

The parameters of a callable in the order of their declaration, how such a list is written, and
whether it can be called with one positional argument.
-/

namespace RuleWalk

/-- How a parameter takes its argument. -/
inductive Passing where
  | positionOnly
  | position
  | rest
  | nameOnly
  | restNamed
deriving DecidableEq, Repr, Inhabited

/-- A parameter; `default` is the text of what it is bound to when no argument is given for it, which
is taken to have one. -/
structure Parameter where
  name : String
  passing : Passing
  default : Option String := none
deriving DecidableEq, Repr, Inhabited

structure Signature where
  parameters : List Parameter
deriving DecidableEq, Repr, Inhabited

/-- The signature of a callable whose one parameter is the node. -/
def Signature.unary : Signature := ⟨[⟨"node", .position, none⟩]⟩

namespace Parameter

/-- Need not be given. -/
def optional (p : Parameter) : Bool := p.default.isSome

/-- Takes one argument by its position. -/
def isPositional (p : Parameter) : Bool := p.passing == .positionOnly || p.passing == .position

def text (p : Parameter) : String :=
  (match p.passing with
    | .rest => "*"
    | .restNamed => "**"
    | _ => "") ++ p.name ++
  match p.default with
  | some t => "=" ++ t
  | none => ""

end Parameter

namespace Signature

/-- Binds the parameters, left to right, to `given` positional arguments: each positional parameter
takes one argument while there are any and is otherwise optional, `rest` takes all that are left,
and whatever is named must be optional. -/
def binds : List Parameter → Nat → Bool
  | [], given => given == 0
  | p :: ps, given =>
    match p.passing with
    | .positionOnly | .position =>
      match given with
      | 0 => p.optional && binds ps 0
      | given + 1 => binds ps given
    | .rest => binds ps 0
    | .nameOnly => p.optional && binds ps given
    | .restNamed => binds ps given

/-- Whether the callable can be called with exactly one positional argument. -/
def acceptsOne (s : Signature) : Bool := binds s.parameters 1

/-- Parameters as written, with `/` after the last that goes by position only and `*` before the
first that goes by name only unless a rest parameter stands there. -/
def pieces : Bool → Bool → List Parameter → List String
  | slash, _, [] => if slash then ["/"] else []
  | slash, star, p :: ps =>
    match p.passing with
    | .positionOnly => p.text :: pieces true star ps
    | .position => (if slash then ["/"] else []) ++ p.text :: pieces false star ps
    | .rest => (if slash then ["/"] else []) ++ p.text :: pieces false true ps
    | .nameOnly =>
      (if slash then ["/"] else []) ++ (if star then [] else ["*"]) ++ p.text :: pieces false true ps
    | .restNamed => (if slash then ["/"] else []) ++ p.text :: pieces false star ps

def text (s : Signature) : String :=
  "(" ++ String.intercalate ", " (pieces false false s.parameters) ++ ")"

end Signature

end RuleWalk
