import RuleWalk.Proofs.Lists
import RuleWalk.Registries

/-!
# Registries by value

The registries of a store, each read with its rules, are an array of registries. To add a registry
to the store is to add it to the array, and to put one into the store is to put it into the array at
its place and nowhere else: the tables are separate, so that a table which is written belongs to one
registry and is not the catalogue.
-/

namespace RuleWalk.Registries

variable {σ : Type} {s : Registries σ} {i j : Nat}

/-- The registries, each with its rules. -/
def view (s : Registries σ) : Array (Registry σ) := s.cells.map s.deref

@[simp] theorem size_view (s : Registries σ) : s.view.size = s.size := Array.size_map

theorem view_empty : ({} : Registries σ).view = #[] := Array.map_empty

theorem get_eq (s : Registries σ) (i : Nat) : s.get i = s.view[i]?.getD {} := by
  rw [get, view, Array.getElem?_map]

theorem getElem?_view (hi : i < s.size) : s.view[i]? = some (s.get i) := by
  have hi' : i < s.view.size := by rwa [size_view]
  rw [get_eq, Array.getElem?_eq_getElem hi', Option.getD_some]

/-! ## Adding a registry -/

@[simp] theorem size_push (s : Registries σ) (r : Registry σ) : (s.push r).size = s.size + 1 :=
  Array.size_push _

/-- The new table is no registry's that was there before. -/
theorem deref_push (r : Registry σ) {c : RegistryCell} (hc : s.cells[i]? = some c) :
    (s.push r).deref c = s.deref c := by
  have hne : c.table ≠ s.tables.size := Nat.ne_of_lt (s.separate.inside hc).2
  simp only [deref, push, Array.getElem?_push, if_neg hne]

theorem view_push (s : Registries σ) (r : Registry σ) : (s.push r).view = s.view.push r := by
  have hnew : (s.push r).deref ⟨r.kindField, s.tables.size, r.unknown⟩ = r := by
    simp [deref, push]
  have hold : s.cells.map (s.push r).deref = s.cells.map s.deref := by
    apply Array.map_congr_left
    intro c hc
    obtain ⟨i, hi⟩ := Array.mem_iff_getElem?.1 hc
    exact deref_push r hi
  have hcells : (s.push r).cells = s.cells.push ⟨r.kindField, s.tables.size, r.unknown⟩ := rfl
  rw [view, view, hcells, Array.map_push, hnew, hold]

theorem get_push_self (s : Registries σ) (r : Registry σ) : (s.push r).get s.size = r := by
  rw [get_eq, view_push, ← size_view, Array.getElem?_push_size, Option.getD_some]

/-! ## Putting a registry -/

theorem set_of_size_le (r : Registry σ) (hi : s.size ≤ i) : s.set i r = s := by
  have hnone : s.cells[i]? = none := Array.getElem?_eq_none hi
  unfold set
  split
  · rfl
  · next hc =>
    rw [hnone] at hc
    cases hc

theorem cells_set {c : RegistryCell} (r : Registry σ) (hc : s.cells[i]? = some c) :
    (s.set i r).cells =
      s.cells.setIfInBounds i { c with kindField := r.kindField, unknown := r.unknown } := by
  unfold set
  split
  · next hnone =>
    rw [hnone] at hc
    cases hc
  · next hc' => rw [Option.some.inj (hc.symm.trans hc')]

theorem tables_set {c : RegistryCell} (r : Registry σ) (hc : s.cells[i]? = some c) :
    (s.set i r).tables = s.tables.setIfInBounds c.table r.rules := by
  unfold set
  split
  · next hnone =>
    rw [hnone] at hc
    cases hc
  · next hc' => rw [Option.some.inj (hc.symm.trans hc')]

/-- The table that is written is the one of the registry that is put. -/
theorem deref_set_self {c : RegistryCell} (r : Registry σ) (hc : s.cells[i]? = some c) :
    (s.set i r).deref { c with kindField := r.kindField, unknown := r.unknown } = r := by
  have hlt := (s.separate.inside hc).2
  rw [deref, tables_set r hc]
  simp [hlt]

/-- No other registry refers to it. -/
theorem deref_set_ne {c : RegistryCell} (r : Registry σ) (hij : i ≠ j)
    (hj : s.cells[j]? = some c) : (s.set i r).deref c = s.deref c := by
  cases hi : s.cells[i]? with
  | none => rw [set_of_size_le r (Array.getElem?_eq_none_iff.1 hi)]
  | some d =>
    have hne : d.table ≠ c.table := fun h => hij (s.separate.apart hi hj h)
    simp only [deref, tables_set r hi, Array.getElem?_setIfInBounds_ne hne]

theorem view_set (s : Registries σ) (i : Nat) (r : Registry σ) :
    (s.set i r).view = s.view.setIfInBounds i r := by
  cases hi : s.cells[i]? with
  | none =>
    have hsize : s.size ≤ i := Array.getElem?_eq_none_iff.1 hi
    rw [set_of_size_le r hsize, Array.setIfInBounds_eq_of_size_le (by rwa [size_view])]
  | some c =>
    have hlt : i < s.cells.size := (Array.getElem?_eq_some_iff.1 hi).1
    apply Array.ext_getElem?
    intro j
    rw [view, Array.getElem?_map, cells_set r hi]
    by_cases hij : i = j
    · subst hij
      rw [Array.getElem?_setIfInBounds_self_of_lt hlt, Option.map_some, deref_set_self r hi,
        Array.getElem?_setIfInBounds_self_of_lt (by rwa [size_view])]
    · rw [Array.getElem?_setIfInBounds_ne hij, Array.getElem?_setIfInBounds_ne hij, view,
        Array.getElem?_map]
      cases hj : s.cells[j]? with
      | none => rfl
      | some d => rw [Option.map_some, Option.map_some, deref_set_ne r hij hj]

@[simp] theorem size_set (s : Registries σ) (i : Nat) (r : Registry σ) :
    (s.set i r).size = s.size := by
  rw [← size_view, view_set, Array.size_setIfInBounds, size_view]

theorem get_set_self (r : Registry σ) (hi : i < s.size) : (s.set i r).get i = r := by
  rw [get_eq, view_set, Array.getElem?_setIfInBounds_self_of_lt (by rwa [size_view]),
    Option.getD_some]

theorem get_set_ne (r : Registry σ) (hij : i ≠ j) : (s.set i r).get j = s.get j := by
  rw [get_eq, get_eq, view_set, Array.getElem?_setIfInBounds_ne hij]

/-- A registry that is put back where it was found changes nothing. -/
theorem set_get (s : Registries σ) (i : Nat) : s.set i (s.get i) = s := by
  cases hi : s.cells[i]? with
  | none => exact set_of_size_le _ (Array.getElem?_eq_none_iff.1 hi)
  | some c =>
    have hget : s.get i = s.deref c := by rw [get, hi, Option.map_some, Option.getD_some]
    have htables : (s.set i (s.get i)).tables = s.tables := by
      rw [tables_set _ hi, hget]
      exact setIfInBounds_getD s.tables c.table []
    have hcells : (s.set i (s.get i)).cells = s.cells := by
      have hback := setIfInBounds_getD s.cells i c
      rw [hi] at hback
      rw [cells_set _ hi, hget]
      exact hback
    generalize s.set i (s.get i) = s' at htables hcells
    cases s'
    cases s
    cases htables
    cases hcells
    rfl

/-! ## The catalogue -/

/-- The catalogue is the one table that is never written. -/
theorem catalogue_eq (s : Registries σ) : s.catalogue = Catalogue.rules σ := by
  rw [catalogue, s.separate.catalogue, Option.getD_some]

theorem standard_eq (s : Registries σ) (kindField : Value) :
    s.standard kindField = .standard kindField := by
  rw [standard, catalogue_eq]
  rfl

end RuleWalk.Registries
