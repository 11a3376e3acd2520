import Mathlib.Data.List.Flatten
import Mathlib.Data.List.Forall2
import Mathlib.Data.List.Perm.Subperm

/-!
# Lists, tables and arrays

General facts that the library does not have: about tables, which are lists of named entries, about
lists that are related place by place, and about what is put back where it was found.
-/

namespace RuleWalk

variable {α β : Type}

/-! ## Tables -/

theorem mem_of_lookup {l : List (String × α)} {k : String} {a : α} (h : l.lookup k = some a) :
    (k, a) ∈ l := by
  obtain ⟨l₁, l₂, rfl, -⟩ := List.lookup_eq_some_iff.1 h
  exact List.mem_append_right l₁ List.mem_cons_self

/-- Where no key stands twice, an entry is what is found under its key. -/
theorem lookup_of_mem {l : List (String × α)} (hnodup : (l.map Prod.fst).Nodup) {e : String × α}
    (he : e ∈ l) : l.lookup e.1 = some e.2 := by
  induction l with
  | nil => cases he
  | cons d l ih =>
    rw [List.map_cons, List.nodup_cons] at hnodup
    rw [List.lookup_cons]
    rcases List.mem_cons.mp he with rfl | he
    · simp
    · have hne : e.1 ≠ d.1 := fun h => hnodup.1 (h ▸ List.mem_map_of_mem he)
      rw [beq_false_of_ne hne]
      exact ih hnodup.2 he

/-- The look-up of a key goes by the keys alone. -/
theorem lookup_map_snd (g : α → β) (k : String) (l : List (String × α)) :
    (l.map fun e => (e.1, g e.2)).lookup k = (l.lookup k).map g := by
  induction l with
  | nil => rfl
  | cons e l ih =>
    rw [List.map_cons, List.lookup_cons, List.lookup_cons]
    cases k == e.1 with
    | true => rfl
    | false => exact ih

/-- Entries that go pairwise by the same name have the same names. -/
theorem map_fst_eq_of_forall₂ {R : String × α → String × β → Prop} {es : List (String × α)}
    {es' : List (String × β)} (hname : ∀ e e', R e e' → e'.1 = e.1) (h : List.Forall₂ R es es') :
    es'.map Prod.fst = es.map Prod.fst := by
  induction h with
  | nil => rfl
  | cons he _ ih => rw [List.map_cons, List.map_cons, hname _ _ he, ih]

/-! ## Lists -/

section Related

variable {R : α → β → Prop} {l l₁ l₂ : List α} {m : List β}

theorem exists_of_forall₂ (h : List.Forall₂ R l m) {a : α} (ha : a ∈ l) : ∃ b ∈ m, R a b := by
  induction h with
  | nil => cases ha
  | @cons a' b _ _ hab _ ih =>
    rcases List.mem_cons.mp ha with rfl | ha
    · exact ⟨b, List.mem_cons_self, hab⟩
    · obtain ⟨b', hb', hab'⟩ := ih ha
      exact ⟨b', List.mem_cons_of_mem _ hb', hab'⟩

theorem forall₂_append_left (h : List.Forall₂ R (l₁ ++ l₂) m) :
    ∃ m₁ m₂, List.Forall₂ R l₁ m₁ ∧ List.Forall₂ R l₂ m₂ ∧ m = m₁ ++ m₂ := by
  have htake := List.forall₂_take l₁.length h
  have hdrop := List.forall₂_drop l₁.length h
  rw [List.take_left] at htake
  rw [List.drop_left] at hdrop
  exact ⟨_, _, htake, hdrop, (List.take_append_drop l₁.length m).symm⟩

end Related

theorem getElem?_of_drop {l s : List α} {i : Nat} {a : α} (h : l.drop i = a :: s) :
    l[i]? = some a ∧ l.drop (i + 1) = s := by
  constructor
  · rw [← List.head?_drop, h]
    rfl
  · rw [← List.tail_drop, h]
    rfl

theorem subperm_flatMap {l₁ l₂ : List α} (h : l₁.Subperm l₂) (f : α → List β) :
    (l₁.flatMap f).Subperm (l₂.flatMap f) := by
  obtain ⟨l, hperm, hsub⟩ := h
  exact (hperm.symm.flatMap_right f).subperm.trans (hsub.flatMap f).subperm

/-! ## Arrays -/

theorem setIfInBounds_getD (a : Array α) (i : Nat) (d : α) :
    a.setIfInBounds i (a[i]?.getD d) = a := by
  by_cases hi : i < a.size
  · rw [Array.getElem?_eq_getElem hi, Option.getD_some, Array.setIfInBounds, dif_pos hi,
      Array.set_getElem_self]
  · exact Array.setIfInBounds_eq_of_size_le (Nat.not_lt.1 hi)

end RuleWalk
