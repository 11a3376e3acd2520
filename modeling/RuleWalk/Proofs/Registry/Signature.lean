import RuleWalk.Proofs.Registry.Table

/-!
# Rules that can be called with the node

A registry takes a rule only if it can be called with the node alone. This is found out by binding
the parameters one after the other. Where they stand in the order in which parameters are declared,
it comes to a condition on the parameters as a whole: for any number of arguments, there is room for
all of them, and no parameter that gets none needs one.
-/

namespace RuleWalk

/-- Parameters are declared in this order, by how they take their arguments. -/
def Passing.rank : Passing → Nat
  | positionOnly => 0
  | position => 1
  | rest => 2
  | nameOnly => 3
  | restNamed => 4

theorem Parameter.isPositional_iff {p : Parameter} :
    p.isPositional = true ↔ p.passing.rank < Passing.rest.rank := by
  rw [isPositional]
  cases p.passing <;> decide

theorem Parameter.passing_ne_of_isPositional {p : Parameter} (h : p.isPositional = true) :
    p.passing ≠ .rest ∧ p.passing ≠ .nameOnly := by
  rw [isPositional] at h
  constructor <;> intro hp <;> simp [hp] at h

namespace Signature

/-- No parameter stands behind one that has to be declared after it. -/
def IsOrdered (s : Signature) : Prop :=
  s.parameters.Pairwise fun p q => p.passing.rank ≤ q.passing.rank

instance (s : Signature) : Decidable s.IsOrdered := inferInstanceAs (Decidable (List.Pairwise _ _))

/-- The node can be bound and nothing is missing: there is a parameter for it, each positional
parameter after the first is optional, and so is each parameter that goes by name. -/
structure TakesNode (s : Signature) : Prop where
  room : (∃ p ∈ s.parameters, p.passing = .rest) ∨ ∃ p ∈ s.parameters, p.isPositional = true
  positional : ∀ p ∈ (s.parameters.filter Parameter.isPositional).tail, p.optional = true
  named : ∀ p ∈ s.parameters, p.passing = .nameOnly → p.optional = true

variable {p : Parameter} {ps : List Parameter} {n : Nat}

/-- There is room for `n` positional arguments, and whatever is left without one is optional. -/
def Fits (ps : List Parameter) (n : Nat) : Prop :=
  ((∃ p ∈ ps, p.passing = .rest) ∨ n ≤ (ps.filter Parameter.isPositional).length) ∧
    (∀ p ∈ (ps.filter Parameter.isPositional).drop n, p.optional = true) ∧
    ∀ p ∈ ps, p.passing = .nameOnly → p.optional = true

/-- A positional parameter takes an argument while there are any. -/
theorem fits_cons_succ (hp : p.isPositional = true) : Fits (p :: ps) (n + 1) ↔ Fits ps n := by
  obtain ⟨hrest, hname⟩ := Parameter.passing_ne_of_isPositional hp
  simp [Fits, List.filter_cons_of_pos hp, hrest, hname]

theorem fits_cons_zero (hp : p.isPositional = true) :
    Fits (p :: ps) 0 ↔ p.optional = true ∧ Fits ps 0 := by
  obtain ⟨-, hname⟩ := Parameter.passing_ne_of_isPositional hp
  simp [Fits, List.filter_cons_of_pos hp, hname, and_assoc]

/-- A rest parameter takes all arguments, and in order there is no positional one behind it. -/
theorem fits_cons_rest (hp : p.passing = .rest)
    (h : ∀ q ∈ ps, p.passing.rank ≤ q.passing.rank) : Fits (p :: ps) n ↔ Fits ps 0 := by
  have hps : ps.filter Parameter.isPositional = [] := by
    rw [List.filter_eq_nil_iff]
    intro q hq hpositional
    rw [Parameter.isPositional_iff, ← hp] at hpositional
    exact Nat.not_lt.2 (h q hq) hpositional
  have hcons : (p :: ps).filter Parameter.isPositional = [] := by
    rw [List.filter_cons_of_neg (by simp [Parameter.isPositional, hp]), hps]
  simp [Fits, hcons, hps, hp]

theorem fits_cons_nameOnly (hp : p.passing = .nameOnly) :
    Fits (p :: ps) n ↔ p.optional = true ∧ Fits ps n := by
  have hcons : (p :: ps).filter Parameter.isPositional = ps.filter Parameter.isPositional :=
    List.filter_cons_of_neg (by simp [Parameter.isPositional, hp])
  simp [Fits, hcons, hp, and_left_comm]

theorem fits_cons_restNamed (hp : p.passing = .restNamed) : Fits (p :: ps) n ↔ Fits ps n := by
  have hcons : (p :: ps).filter Parameter.isPositional = ps.filter Parameter.isPositional :=
    List.filter_cons_of_neg (by simp [Parameter.isPositional, hp])
  simp [Fits, hcons, hp]

/-- Binding parameters one after the other succeeds where the arguments fit. -/
theorem binds_iff_fits (h : ps.Pairwise fun p q => p.passing.rank ≤ q.passing.rank) (n : Nat) :
    binds ps n = true ↔ Fits ps n := by
  induction ps generalizing n with
  | nil => simp [binds, Fits]
  | cons p ps ih =>
    obtain ⟨hp, hps⟩ := List.pairwise_cons.1 h
    have ih := ih hps
    cases hpassing : p.passing with
    | positionOnly | position =>
      have hpositional : p.isPositional = true := by simp [Parameter.isPositional, hpassing]
      cases n with
      | zero => simp [binds, hpassing, ih, fits_cons_zero hpositional]
      | succ n => simp [binds, hpassing, ih, fits_cons_succ hpositional]
    | rest => simp [binds, hpassing, ih, fits_cons_rest hpassing hp]
    | nameOnly => simp [binds, hpassing, ih, fits_cons_nameOnly hpassing]
    | restNamed => simp [binds, hpassing, ih, fits_cons_restNamed hpassing]

/-- Of one argument: it has a place, and it is the first positional parameter that may need it. -/
theorem acceptsOne_iff_takesNode {s : Signature} (h : s.IsOrdered) :
    s.acceptsOne = true ↔ s.TakesNode := by
  have hroom : 1 ≤ (s.parameters.filter Parameter.isPositional).length ↔
      ∃ p ∈ s.parameters, p.isPositional = true := by
    rw [Nat.succ_le_iff, List.length_pos_iff_exists_mem]
    simp only [List.mem_filter]
  rw [acceptsOne, binds_iff_fits h, Fits, hroom, List.drop_one]
  exact ⟨fun ⟨hplace, hpositional, hnamed⟩ => ⟨hplace, hpositional, hnamed⟩,
    fun ⟨hplace, hpositional, hnamed⟩ => ⟨hplace, hpositional, hnamed⟩⟩

end Signature

namespace Registry

variable {σ : Type}

/-- What is found unfit is refused for that reason, and nothing happens to the registry. -/
theorem register_of_unfit {k : String} (hk : k ≠ "") {candidate : Candidate σ} {e : Fault}
    (h : candidate.check k = .error e) (r : Registry σ) :
    register (.str k) candidate r = ⟨.error e, r, []⟩ := by
  simp [register, hk, h]

end Registry

end RuleWalk
