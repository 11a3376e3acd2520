import RuleWalk.Value.Basic

/-!
# Parts

The parts of a value are the values that stand right in it. Values are finite, so what passes from
the parts to the whole holds of every value.
-/

namespace RuleWalk.Value

/-- The items of a sequence, what the entries of a mapping hold, and the kind and the fields of an
attribute node. -/
def parts : Value → List Value
  | list _ items | tuple _ items => items
  | dict _ entries => entries.map Prod.snd
  | node _ kind fields => kind :: fields.map Prod.snd
  | _ => []

theorem sizeOf_lt_of_mem_entries {w : Value} {entries : List (String × Value)}
    (h : w ∈ entries.map Prod.snd) : sizeOf w < sizeOf entries := by
  obtain ⟨⟨name, w⟩, hmem, rfl⟩ := List.mem_map.1 h
  have hentry := List.sizeOf_lt_of_mem hmem
  rw [Prod.mk.sizeOf_spec] at hentry
  dsimp only
  omega

theorem sizeOf_lt_of_mem_parts {v w : Value} (h : w ∈ v.parts) : sizeOf w < sizeOf v := by
  cases v with
  | list o items | tuple o items =>
    have hitem : sizeOf w < sizeOf items := List.sizeOf_lt_of_mem h
    simp
    omega
  | dict o entries =>
    have hentry := sizeOf_lt_of_mem_entries h
    simp
    omega
  | node o kind fields =>
    rcases List.mem_cons.1 h with rfl | h
    · simp
      omega
    · have hentry := sizeOf_lt_of_mem_entries h
      simp
      omega
  | _ => cases h

/-- What holds of a value whenever it holds of its parts holds of every value. -/
@[elab_as_elim]
theorem induction_parts {motive : Value → Prop} (v : Value)
    (whole : ∀ v, (∀ w ∈ v.parts, motive w) → motive v) : motive v :=
  (measure sizeOf).wf.induction v fun v ih =>
    whole v fun w hw => ih w (sizeOf_lt_of_mem_parts hw)

end RuleWalk.Value
