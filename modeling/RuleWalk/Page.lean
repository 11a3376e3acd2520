import RuleWalk.Act
import RuleWalk.Text.Blank

/-!
# Printed pages

An activity that prints: the lines printed so far, the last first, beside its state.
-/

namespace RuleWalk

structure Page (ρ : Type) where
  under : ρ
  printed : List String := []

namespace Page

variable {ω ρ α : Type}

def onUnder (m : Act ω ρ α) : Act ω (Page ρ) α :=
  Act.zoom Page.under (fun s t => { s with under := t }) m

def print (line : String) : Act ω (Page ρ) Unit :=
  Act.modify fun s => { s with printed := line :: s.printed }

/-- All that was printed. -/
def output (s : Page ρ) : String := String.join (s.printed.reverse.map fun l => l ++ "\n")

end Page

end RuleWalk
