import RuleWalk.Sample.Demo

/-!
# The command line

Reads the JSON file named by the first argument, or takes the built-in tree, and prints the
demonstration.
-/

open RuleWalk

/-- More steps than any tree in memory has nodes. -/
def RuleWalk.Sample.stepLimit : Nat := 1000000000000000

def main (args : List String) : IO UInt32 := do
  let text ← match args with
    | [] => pure none
    | path :: _ => some <$> IO.FS.readFile path
  let session : Session Unit := { user := () }
  let outcome := Sample.demoOfText text Sample.stepLimit { under := session }
  IO.print outcome.state.output
  match outcome.result with
  | .ok () => return 0
  | .error e =>
    IO.eprintln (e.text.toOption.getD "<exception str() failed>")
    return 1
