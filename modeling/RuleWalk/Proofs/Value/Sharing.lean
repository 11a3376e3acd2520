import RuleWalk.Proofs.Lists
import RuleWalk.Proofs.Rules
import RuleWalk.Proofs.Unfolding

/-!
# Containers and what fields read of them

In a value without sharing no container stands in two places: the serial numbers of its containers
are all different. A rule by fields that names no field twice reads from different places, so what
it finds at a node, with all that is in it, still is without sharing. A field may be read as a whole
and item by item at once: then the list itself is found, and its items, but nothing is found below
the list, since a list has no kind.
-/

namespace RuleWalk

namespace Value

mutual

/-- The serial numbers of a value and of all containers in it. -/
def serials : Value → List Nat
  | list o items => o.serial :: itemSerials items
  | tuple o items => o.serial :: itemSerials items
  | dict o entries => o.serial :: entrySerials entries
  | node o kind fields => o.serial :: (serials kind ++ entrySerials fields)
  | _ => []

def itemSerials : List Value → List Nat
  | [] => []
  | v :: vs => serials v ++ itemSerials vs

def entrySerials : List (String × Value) → List Nat
  | [] => []
  | (_, v) :: es => serials v ++ entrySerials es

end

theorem itemSerials_eq (items : List Value) : itemSerials items = items.flatMap serials := by
  induction items with
  | nil => rfl
  | cons v vs ih => rw [itemSerials, ih, List.flatMap_cons]

theorem entrySerials_eq (es : List (String × Value)) :
    entrySerials es = es.flatMap fun e => e.2.serials := by
  induction es with
  | nil => rfl
  | cons e es ih => rw [entrySerials, ih, List.flatMap_cons]

/-- What fields are read from: the entries of a mapping, or the kind and the fields of an attribute
node. -/
def entries : Value → List (String × Value)
  | dict _ es => es
  | node _ kind fields => ("type", kind) :: fields
  | _ => []

/-- The containers that a walk can find from a value on, the value included. -/
def holdings (v : Value) : List Nat := v.serial?.toList ++ v.entries.flatMap fun e => e.2.serials

theorem holdings_sublist (v : Value) : v.holdings.Sublist v.serials := by
  cases v with
  | list o items => simp [holdings, serials, serial?, entries]
  | tuple o items => simp [holdings, serials, serial?, entries]
  | dict o es => simp [holdings, serials, serial?, entries, entrySerials_eq]
  | node o kind fields => simp [holdings, serials, serial?, entries, entrySerials_eq]
  | _ => exact List.Sublist.refl _

@[simp] theorem holdings_str (s : String) : (str s).holdings = [] := rfl

/-- A field that can be read is an entry, or nothing that holds a container. -/
theorem getField_cases {v name w : Value} (h : v.getField name = .ok w) :
    (∃ a, name = .str a ∧ v.entries.lookup a = some w) ∨ w = null ∨ ∃ a, w = method v a := by
  cases v with
  | dict o es =>
    cases name with
    | str a =>
      cases h
      cases hlookup : es.lookup a with
      | some w => exact .inl ⟨a, rfl, hlookup⟩
      | none => exact .inr (.inl rfl)
    | _ =>
      simp only [getField, Except.map] at h
      split at h <;> cases h
      exact .inr (.inl rfl)
  | node o kind fields =>
    cases name with
    | str a =>
      cases h
      by_cases htype : a = "type"
      · subst htype
        exact .inl ⟨"type", rfl, rfl⟩
      · have hlookup : (node o kind fields).entries.lookup a = fields.lookup a := by
          have hne : (a == "type") = false := beq_eq_false_iff_ne.2 htype
          simp only [entries, List.lookup_cons, hne]
        cases hfield : fields.lookup a with
        | some w => exact .inl ⟨a, rfl, by rw [hlookup, hfield]; simp [attr?, htype, hfield]⟩
        | none =>
          simp only [attr?, htype, hfield, if_false]
          split
          · exact .inr (.inr ⟨a, rfl⟩)
          · exact .inr (.inl rfl)
    | _ => cases h
  | _ =>
    cases name with
    | str a => cases h; exact .inr (.inl rfl)
    | _ => cases h

theorem getList_of_ne_null {v name w : Value} (h : v.getField name = .ok w) (hnull : w ≠ null) :
    v.getList name = w.iterate := by
  rw [getList, h]
  cases w with
  | null => exact absurd rfl hnull
  | _ => rfl

/-- The containers that can be found from the items of a list on. -/
def itemHoldings : Value → List Nat
  | list _ items => items.flatMap holdings
  | tuple _ items => items.flatMap holdings
  | _ => []

/-- A list and its items hold no more together than the list does. -/
theorem holdings_append_itemHoldings (v : Value) :
    (v.holdings ++ v.itemHoldings).Sublist v.serials := by
  have hitems (items : List Value) : (items.flatMap holdings).Sublist (itemSerials items) := by
    rw [itemSerials_eq]
    exact List.Sublist.flatMap_right items fun w _ => w.holdings_sublist
  cases v with
  | list o items => exact (hitems items).cons_cons o.serial
  | tuple o items => exact (hitems items).cons_cons o.serial
  | dict o es => simpa [itemHoldings] using (dict o es).holdings_sublist
  | node o kind fields => simpa [itemHoldings] using (node o kind fields).holdings_sublist
  | _ => exact List.Sublist.refl _

/-- The items that come from iterating over an entry. -/
theorem flatMap_holdings_of_iterate {v : Value} {items : List Value} (h : v.iterate = .ok items) :
    items.flatMap holdings = v.itemHoldings := by
  cases v with
  | str s =>
    cases h
    simp [itemHoldings]
  | list o items => cases h; rfl
  | tuple o items => cases h; rfl
  | dict o es =>
    cases h
    simp [itemHoldings, List.flatMap_map]
  | _ => cases h

end Value

namespace FieldSpec

/-- The containers that can be found from what a field gives on, by the entries it is read from. -/
def share (entries : List (String × Value)) : FieldSpec → List Nat
  | one (.str a) => (entries.lookup a).elim [] Value.holdings
  | many (.str a) => (entries.lookup a).elim [] Value.itemHoldings
  | _ => []

theorem flatMap_holdings_of_slots {v : Value} {spec : FieldSpec} {vs : List Value}
    (h : spec.slots v = .ok vs) : (vs.flatMap Value.holdings).Sublist (spec.share v.entries) := by
  cases spec with
  | one name =>
    rw [slots] at h
    cases hget : v.getField name with
    | error e => rw [hget] at h; cases h
    | ok w =>
      rw [hget] at h
      cases h
      obtain ⟨a, rfl, hlookup⟩ | rfl | ⟨m, rfl⟩ := Value.getField_cases hget
      · simp [share, hlookup]
      · exact List.nil_sublist _
      · exact List.nil_sublist _
  | many name =>
    rw [slots] at h
    cases hget : v.getField name with
    | error e => rw [Value.getList, hget] at h; cases h
    | ok w =>
      have hitems : vs.flatMap Value.holdings = w.itemHoldings := by
        by_cases hnull : w = .null
        · subst hnull
          rw [Value.getList, hget] at h
          cases h
          rfl
        · rw [Value.getList_of_ne_null hget hnull] at h
          exact Value.flatMap_holdings_of_iterate h
      rw [hitems]
      obtain ⟨a, rfl, hlookup⟩ | rfl | ⟨m, rfl⟩ := Value.getField_cases hget
      · simp [share, hlookup]
      · exact List.nil_sublist _
      · exact List.nil_sublist _

theorem flatMap_holdings_of_allSlots {v : Value} {specs : List FieldSpec} {slots : List Value}
    (h : allSlots v specs = .ok slots) :
    (slots.flatMap Value.holdings).Sublist (specs.flatMap (share v.entries)) := by
  induction specs generalizing slots with
  | nil =>
    cases h
    exact List.Sublist.refl _
  | cons spec specs ih =>
    rw [allSlots] at h
    cases hspec : spec.slots v with
    | error e => rw [hspec] at h; cases h
    | ok vs =>
      rw [hspec] at h
      cases hrest : allSlots v specs with
      | error e => rw [hrest] at h; cases h
      | ok ws =>
        rw [hrest] at h
        cases h
        rw [List.flatMap_append, List.flatMap_cons]
        exact (flatMap_holdings_of_slots hspec).append (ih hrest)

/-- The field has this text as its name. -/
def isNamed (a : String) : FieldSpec → Bool
  | one (.str b) | many (.str b) => b == a
  | _ => false

theorem share_cons_of_not_named {a : String} {spec : FieldSpec} (h : spec.isNamed a = false)
    (w : Value) (es : List (String × Value)) : spec.share ((a, w) :: es) = spec.share es := by
  rcases spec with name | name <;> cases name with
  | str b =>
    have hne : (b == a) = false := h
    simp only [share, List.lookup_cons, hne]
  | _ => rfl

theorem eq_of_isNamed {a : String} {spec : FieldSpec} (h : spec.isNamed a = true) :
    spec = one (.str a) ∨ spec = many (.str a) := by
  rcases spec with name | name <;> cases name with
  | str b =>
    obtain rfl : b = a := beq_iff_eq.1 h
    simp
  | _ => cases h

/-- The field is named by a text. -/
def hasTextName : FieldSpec → Bool
  | one (.str _) | many (.str _) => true
  | _ => false

theorem exists_isNamed {spec : FieldSpec} (h : spec.hasTextName = true) :
    ∃ a, spec.isNamed a = true := by
  rcases spec with name | name <;> cases name with
  | str a => exact ⟨a, beq_self_eq_true a⟩
  | _ => cases h

/-- Fields with different specifications hold no more together than all entries. -/
theorem flatMap_share_subperm {specs : List FieldSpec} (hnodup : specs.Nodup)
    (es : List (String × Value)) :
    (specs.flatMap (share es)).Subperm (es.flatMap fun e => e.2.serials) := by
  -- The first entry is read by at most two of the fields, and the others do not see it.
  induction es generalizing specs with
  | nil =>
    have hnil : specs.flatMap (share []) = [] := by
      rw [List.flatMap_eq_nil_iff]
      intro spec _
      rcases spec with name | name <;> cases name <;> rfl
    rw [hnil]
    exact List.nil_subperm
  | cons e es ih =>
    obtain ⟨a, w⟩ := e
    have hnamed :
        ((specs.filter (isNamed a)).flatMap (share ((a, w) :: es))).Subperm w.serials := by
      have hsub : specs.filter (isNamed a) ⊆ [one (.str a), many (.str a)] := by
        intro spec hspec
        obtain rfl | rfl := eq_of_isNamed (List.mem_filter.1 hspec).2 <;> simp
      refine (subperm_flatMap (List.subperm_of_subset (hnodup.filter _) hsub) _).trans ?_
      have hboth : [one (.str a), many (.str a)].flatMap (share ((a, w) :: es)) =
          w.holdings ++ w.itemHoldings := by
        simp [share]
      rw [hboth]
      exact w.holdings_append_itemHoldings.subperm
    have hothers : ((specs.filter fun spec => !isNamed a spec).flatMap
        (share ((a, w) :: es))).Subperm (es.flatMap fun e => e.2.serials) := by
      have hsame : (specs.filter fun spec => !isNamed a spec).flatMap (share ((a, w) :: es)) =
          (specs.filter fun spec => !isNamed a spec).flatMap (share es) := by
        apply List.flatMap_congr
        intro spec hspec
        have hspec' := (List.mem_filter.1 hspec).2
        exact share_cons_of_not_named (by simpa using hspec') w es
      rw [hsame]
      exact ih (hnodup.filter _)
    have hsplit := (List.filter_append_perm (isNamed a) specs).flatMap_right (share ((a, w) :: es))
    rw [List.flatMap_append] at hsplit
    exact hsplit.symm.subperm.trans (hnamed.append hothers)

end FieldSpec

/-! ## Trees -/

/-- Where each node and what its children hold is no more than the node holds, the nodes of a forest
have no more than its roots hold. -/
theorem Forest.Unfolds.flatMap_subperm {kids : Value → List Value} {own held : Value → List Nat}
    (h : ∀ v, (own v ++ (kids v).flatMap held).Subperm (held v)) {f : Forest}
    (hf : f.Unfolds kids) : (f.preorder.flatMap own).Subperm (f.roots.flatMap held) := by
  induction f with
  | nil => exact List.Subperm.refl _
  | cons v c s ihc ihs =>
    obtain ⟨hroots, hc, hs⟩ := hf
    have hbelow := ihc hc
    rw [hroots] at hbelow
    have hfirst := ((List.Subperm.refl (own v)).append hbelow).trans (h v)
    simp only [preorder, roots, List.flatMap_cons, List.flatMap_append, ← List.append_assoc]
    exact hfirst.append (ihs hs)

theorem Unfolding.flatMap_subperm {kids : Value → List Value} {own held : Value → List Nat}
    (h : ∀ v, (own v ++ (kids v).flatMap held).Subperm (held v)) {root : Value}
    (t : Unfolding kids root) : (t.preorder.flatMap own).Subperm (held root) := by
  have hbelow := t.unfolds_below.flatMap_subperm h
  rw [t.roots_below] at hbelow
  exact ((List.Subperm.refl (own root)).append hbelow).trans (h root)

namespace Scene

variable {σ : Type} {scene : Scene σ} {table : List (String × List FieldSpec)} {v w : Value}

/-- A node has no children unless its kind has fields, all of which can be read. -/
theorem kids_cases (hfields : scene.registry.IsByFields table) (v : Value) :
    scene.kids v = [] ∨ ∃ kind specs slots, scene.registry.kindOf v = .ok (some kind) ∧
      table.lookup kind = some specs ∧ FieldSpec.allSlots v specs = .ok slots ∧
      scene.kids v = present slots := by
  rw [kids]
  rcases hkind : scene.registry.kindOf v with e | _ | kind
  · rw [slotsOf_result, hkind]
    exact .inl rfl
  · rw [slotsOf_of_no_kind hkind]
    exact .inl rfl
  · have hrule := hfields kind
    cases hspecs : table.lookup kind with
    | none =>
      rw [hspecs] at hrule
      rw [slotsOf_result, hkind]
      simp only [hrule]
      exact .inl rfl
    | some specs =>
      rw [hspecs] at hrule
      rw [slotsOf_of_fields hkind hrule]
      cases hslots : FieldSpec.allSlots v specs with
      | error e => exact .inl rfl
      | ok slots => exact .inr ⟨kind, specs, slots, rfl, hspecs, hslots, rfl⟩

/-- What is found at a node, with all that is in it, is no more than the node holds. -/
theorem kids_subperm (hfields : scene.registry.IsByFields table)
    (hnodup : ∀ e ∈ table, e.2.Nodup) (v : Value) :
    (v.serial?.toList ++ (scene.kids v).flatMap Value.holdings).Subperm v.holdings := by
  refine (List.Subperm.refl _).append ?_
  obtain hnil | ⟨kind, specs, slots, -, hspecs, hslots, hkids⟩ := kids_cases hfields v
  · rw [hnil]
    exact List.nil_subperm
  · have hmem : (kind, specs) ∈ table := mem_of_lookup hspecs
    have hpresent : ((present slots).flatMap Value.holdings).Sublist
        (slots.flatMap Value.holdings) := List.filter_sublist.flatMap _
    have hread := hpresent.trans (FieldSpec.flatMap_holdings_of_allSlots hslots)
    rw [hkids]
    exact hread.subperm.trans (FieldSpec.flatMap_share_subperm (hnodup _ hmem) v.entries)

end Scene

end RuleWalk
