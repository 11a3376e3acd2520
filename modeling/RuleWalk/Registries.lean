import RuleWalk.Registry

/-!
# The registries of a session

A registry does not hold its rules itself: it refers to a table, and what is done to the rules is
done to the table. The tables stand in a store, the first of them being the catalogue. Two
registries could refer to one table, or a registry to the catalogue, and then a change to the one
would be a change to the other. `Separate` says that they do not: it is part of what a store is, so
that each operation on a store has to keep it.
-/

namespace RuleWalk

/-- Rules by their kinds. -/
abbrev RuleTable (σ : Type) := List (String × Rule σ)

/-- A registry with its rules by reference. -/
structure RegistryCell where
  kindField : Value
  table : Nat
  unknown : List String

/-- The first table is the catalogue and no registry refers to it, and no two registries refer to
the same table. -/
structure Separate {σ : Type} (tables : Array (RuleTable σ)) (cells : Array RegistryCell) :
    Prop where
  catalogue : tables[0]? = some (Catalogue.rules σ)
  inside : ∀ {i : Nat} {c : RegistryCell}, cells[i]? = some c → 0 < c.table ∧ c.table < tables.size
  apart : ∀ {i j : Nat} {c d : RegistryCell}, cells[i]? = some c → cells[j]? = some d →
    c.table = d.table → i = j

theorem Separate.empty {σ : Type} : Separate #[Catalogue.rules σ] #[] where
  catalogue := rfl
  inside := by simp
  apart := by simp

structure Registries (σ : Type) where
  tables : Array (RuleTable σ) := #[Catalogue.rules σ]
  cells : Array RegistryCell := #[]
  separate : Separate tables cells := by exact Separate.empty

namespace Registries

variable {σ : Type}

def size (s : Registries σ) : Nat := s.cells.size

/-- The catalogue as it stands in the store. -/
def catalogue (s : Registries σ) : RuleTable σ := s.tables[0]?.getD []

/-- The registry that a cell stands for. -/
def deref (s : Registries σ) (c : RegistryCell) : Registry σ :=
  { kindField := c.kindField, rules := s.tables[c.table]?.getD [], unknown := c.unknown }

def get (s : Registries σ) (r : Nat) : Registry σ := (s.cells[r]?.map s.deref).getD {}

/-- One more registry, with a table of its own. -/
def push (s : Registries σ) (r : Registry σ) : Registries σ where
  tables := s.tables.push r.rules
  cells := s.cells.push ⟨r.kindField, s.tables.size, r.unknown⟩
  separate :=
    { catalogue := by
        have hpos : 0 < s.tables.size := Array.getElem?_eq_some_iff.1 s.separate.catalogue |>.1
        rw [Array.getElem?_push, if_neg (Nat.ne_of_lt hpos), s.separate.catalogue]
      inside := by
        intro i c hc
        have hpos : 0 < s.tables.size := Array.getElem?_eq_some_iff.1 s.separate.catalogue |>.1
        rw [Array.size_push]
        rw [Array.getElem?_push] at hc
        split at hc
        · cases hc
          exact ⟨hpos, Nat.lt_succ_self _⟩
        · obtain ⟨hne, hlt⟩ := s.separate.inside hc
          exact ⟨hne, Nat.lt_succ_of_lt hlt⟩
      apart := by
        intro i j c d hc hd htable
        rw [Array.getElem?_push] at hc hd
        split at hc <;> split at hd
        · omega
        · cases hc
          exact absurd htable.symm (Nat.ne_of_lt (s.separate.inside hd).2)
        · cases hd
          exact absurd htable (Nat.ne_of_lt (s.separate.inside hc).2)
        · exact s.separate.apart hc hd htable }

/-- What a registry has become is put where the registry stands, its rules into the table that it
refers to. -/
def set (s : Registries σ) (i : Nat) (r : Registry σ) : Registries σ :=
  match hc : s.cells[i]? with
  | none => s
  | some c =>
    { tables := s.tables.setIfInBounds c.table r.rules
      cells := s.cells.setIfInBounds i { c with kindField := r.kindField, unknown := r.unknown }
      separate :=
        { catalogue := by
            have hpos := (s.separate.inside hc).1
            rw [Array.getElem?_setIfInBounds_ne (Nat.ne_of_gt hpos), s.separate.catalogue]
          inside := by
            intro j d hd
            have hinside := s.separate.inside hc
            rw [Array.size_setIfInBounds]
            rw [Array.getElem?_setIfInBounds] at hd
            split at hd
            · split at hd
              · cases hd
                exact hinside
              · cases hd
            · exact s.separate.inside hd
          apart := by
            have hold {j : Nat} {d : RegistryCell} (hd : (s.cells.setIfInBounds i
                { c with kindField := r.kindField, unknown := r.unknown })[j]? = some d) :
                ∃ d', s.cells[j]? = some d' ∧ d'.table = d.table := by
              rw [Array.getElem?_setIfInBounds] at hd
              split at hd
              · next hij =>
                split at hd
                · cases hd
                  exact ⟨c, hij ▸ hc, rfl⟩
                · cases hd
              · exact ⟨d, hd, rfl⟩
            intro j k d e hd he htable
            obtain ⟨d', hd', hdt⟩ := hold hd
            obtain ⟨e', he', het⟩ := hold he
            exact s.separate.apart hd' he' (by rw [hdt, het, htable]) } }

/-- A registry with all the rules of the catalogue, in a table that is not put anywhere yet. -/
def standard (s : Registries σ) (kindField : Value) : Registry σ :=
  { kindField, rules := s.catalogue }

def ofList (rs : List (Registry σ)) : Registries σ := rs.foldl push {}

end Registries

end RuleWalk
