import Mathlib.Logic.Relation
import RuleWalk.Proofs.Rules
import RuleWalk.Proofs.Value.Convert

/-!
# What a conversion is

`IsConversion` says what has become of a value, with no word about the order in which the work is
done: a mapping with a kind is an attribute node now, a list is a list of conversions, and all else
is what it was. It does not say which containers the new ones are, so two conversions of one value
can differ in that. They differ in nothing else, and `faceless` is what they have in common.

Three names are no attributes. What is set under `__class__` or `__weakref__` is refused, and so is
what is set under `__dict__`, unless it is a mapping without a tag: then its entries take the place
of all attributes that were set before. A value that `Avoids` these names is converted as it is
meant to be.
-/

namespace RuleWalk.Value

variable {field : String}

/-! ## Keys -/

mutual

/-- No mapping in a value, with lists and mappings around it, has a key twice. -/
def hasDistinctKeys : Value → Bool
  | list _ items => haveDistinctKeys items
  | dict _ entries => decide (entries.map Prod.fst).Nodup && entriesHaveDistinctKeys entries
  | _ => true

def haveDistinctKeys : List Value → Bool
  | [] => true
  | v :: vs => v.hasDistinctKeys && haveDistinctKeys vs

def entriesHaveDistinctKeys : List (String × Value) → Bool
  | [] => true
  | (_, v) :: es => v.hasDistinctKeys && entriesHaveDistinctKeys es

end

theorem haveDistinctKeys_iff {items : List Value} :
    haveDistinctKeys items = true ↔ ∀ v ∈ items, v.hasDistinctKeys = true := by
  induction items with
  | nil => simp [haveDistinctKeys]
  | cons v vs ih => simp [haveDistinctKeys, ih]

theorem entriesHaveDistinctKeys_iff {entries : List (String × Value)} :
    entriesHaveDistinctKeys entries = true ↔ ∀ e ∈ entries, e.2.hasDistinctKeys = true := by
  induction entries with
  | nil => simp [entriesHaveDistinctKeys]
  | cons e es ih => simp [entriesHaveDistinctKeys, ih]

theorem hasDistinctKeys_dict_iff {o : Origin} {entries : List (String × Value)} :
    (dict o entries).hasDistinctKeys = true ↔
      (entries.map Prod.fst).Nodup ∧ ∀ e ∈ entries, e.2.hasDistinctKeys = true := by
  rw [hasDistinctKeys, Bool.and_eq_true, decide_eq_true_iff, entriesHaveDistinctKeys_iff]

/-! ## What is set -/

/-- What is converted with a value: the items of a list, and what a mapping with a tag holds. -/
def inner (field : String) : Value → List Value
  | list _ items => items
  | dict _ entries => if (tag? (.str field) entries).isSome then held entries else []
  | _ => []

/-- The second value is converted when the first one is. -/
def Meets (field : String) : Value → Value → Prop :=
  Relation.ReflTransGen fun v w => w ∈ v.inner field

/-- The conversion of a value sets this attribute: the entry belongs to a mapping with a tag that is
converted. -/
def Sets (field : String) (v : Value) (e : String × Value) : Prop :=
  ∃ o entries, Meets field v (dict o entries) ∧ (tag? (.str field) entries).isSome = true ∧
    e ∈ entries

/-- No reserved name is among the attributes that are set. -/
def Avoids (field : String) (v : Value) : Prop := ∀ e, Sets field v e → e.1 ∉ reservedNames

/-- The fault of setting an attribute, if it cannot be set. -/
def hindrance? (field : String) (e : String × Value) : Option Fault :=
  if e.1 = "__class__" then some (.badClass (e.2.convertedType (.str field)))
  else if e.1 = "__dict__" then
    match e.2 with
    | dict _ entries =>
      (tag? (.str field) entries).map fun _ => .badAttributes (e.2.convertedType (.str field))
    | v => some (.badAttributes (v.convertedType (.str field)))
  else if e.1 = "__weakref__" then some (.fixedAttribute "EstreeNode" e.1)
  else none

/-- The fault stands in the way of a conversion. -/
def Hinders (field : String) (v : Value) (fault : Fault) : Prop :=
  ∃ e, Sets field v e ∧ hindrance? field e = some fault

theorem Meets.refl (v : Value) : Meets field v v := Relation.ReflTransGen.refl

theorem Meets.inner {v u w : Value} (h : Meets field v u) (hw : w ∈ u.inner field) :
    Meets field v w := Relation.ReflTransGen.tail h hw

theorem Sets.of_inner {v w : Value} {e : String × Value} (hw : w ∈ v.inner field)
    (h : Sets field w e) : Sets field v e := by
  obtain ⟨o, entries, hmeets, htag, he⟩ := h
  exact ⟨o, entries, Relation.ReflTransGen.head hw hmeets, htag, he⟩

/-- What is set is set at the value itself, or further inside. -/
theorem sets_iff {v : Value} {e : String × Value} :
    Sets field v e ↔
      (∃ o entries, v = dict o entries ∧ (tag? (.str field) entries).isSome = true ∧ e ∈ entries) ∨
        ∃ w ∈ v.inner field, Sets field w e := by
  constructor
  · rintro ⟨o, entries, hmeets, htag, he⟩
    obtain rfl | ⟨w, hw, hmeets⟩ := Relation.ReflTransGen.cases_head hmeets
    · exact .inl ⟨o, entries, rfl, htag, he⟩
    · exact .inr ⟨w, hw, o, entries, hmeets, htag, he⟩
  · rintro (⟨o, entries, rfl, htag, he⟩ | ⟨w, hw, h⟩)
    · exact ⟨o, entries, .refl _, htag, he⟩
    · exact h.of_inner hw

theorem Avoids.inner {v w : Value} (h : Avoids field v) (hw : w ∈ v.inner field) :
    Avoids field w := fun e he => h e (he.of_inner hw)

/-- The reserved names are avoided at the value itself, and further inside. -/
theorem avoids_iff {v : Value} :
    Avoids field v ↔
      (∀ o entries, v = dict o entries → (tag? (.str field) entries).isSome = true →
        ∀ e ∈ entries, e.1 ∉ reservedNames) ∧ ∀ w ∈ v.inner field, Avoids field w := by
  constructor
  · rintro h
    refine ⟨?_, fun w hw => h.inner hw⟩
    rintro o entries rfl htag e he
    exact h e ⟨o, entries, .refl _, htag, he⟩
  · rintro ⟨hown, hinner⟩ e he
    obtain ⟨o, entries, rfl, htag, he⟩ | ⟨w, hw, he⟩ := sets_iff.1 he
    · exact hown o entries rfl htag e he
    · exact hinner w hw e he

/-- Where the reserved names are avoided, nothing stands in the way. -/
theorem Avoids.not_hinders {v : Value} (h : Avoids field v) (fault : Fault) :
    ¬ Hinders field v fault := by
  rintro ⟨e, he, hfault⟩
  obtain ⟨hclass, hdict, hweak⟩ : e.1 ≠ "__class__" ∧ e.1 ≠ "__dict__" ∧ e.1 ≠ "__weakref__" := by
    simpa [reservedNames] using h e he
  rw [hindrance?, if_neg hclass, if_neg hdict, if_neg hweak] at hfault
  cases hfault

theorem notMem_reservedNames {e : String × Value} (h : hindrance? field e = none)
    (hdict : e.1 ≠ "__dict__") : e.1 ∉ reservedNames := by
  rw [hindrance?, if_neg hdict] at h
  split at h
  · cases h
  · next hclass =>
    split at h
    · cases h
    · next hweak => simp [reservedNames, hclass, hdict, hweak]

/-- The test for reserved names looks at all that is set. -/
theorem avoidReserved_iff {vs : List Value} :
    avoidReserved (.str field) vs = true ↔ ∀ v ∈ vs, Avoids field v := by
  fun_induction avoidReserved (.str field) vs with
  | case1 => simp
  | case2 o items rest ih =>
    have hlist : Avoids field (list o items) ↔ ∀ v ∈ items, Avoids field v := by
      simp [avoids_iff (v := list o items), Value.inner]
    rw [ih, List.forall_mem_cons, hlist, List.forall_mem_append]
  | case3 o entries rest tag htag ih =>
    have hdict : Avoids field (dict o entries) ↔
        (∀ e ∈ entries, e.1 ∉ reservedNames) ∧ ∀ v ∈ held entries, Avoids field v := by
      simp [avoids_iff (v := dict o entries), Value.inner, htag]
    rw [Bool.and_eq_true, ih, List.forall_mem_cons, hdict, List.forall_mem_append, and_assoc]
    simp
  | case4 o entries rest htag ih =>
    have hkept : Avoids field (dict o entries) := by
      simp [avoids_iff (v := dict o entries), Value.inner, htag]
    rw [ih, List.forall_mem_cons, and_iff_right hkept]
  | case5 v rest hlist hdict ih =>
    have hkept : Avoids field v := by
      refine avoids_iff.2 ⟨fun o entries hv => (hdict o entries hv).elim, fun w hw => ?_⟩
      cases v with
      | list o items => exact (hlist o items rfl).elim
      | dict o entries => exact (hdict o entries rfl).elim
      | _ => cases hw
    rw [ih, List.forall_mem_cons, and_iff_right hkept]

/-! ## Conversions -/

/-- Sets one attribute after the other. -/
def assignAll {α : Type} (es set : List (String × α)) : List (String × α) :=
  es.foldl (fun set e => assign e.1 e.2 set) set

section Assign

variable {α β : Type}

theorem map_assign (f : α → β) (name : String) (a : α) (set : List (String × α)) :
    (assign name a set).map (fun e => (e.1, f e.2)) =
      assign name (f a) (set.map fun e => (e.1, f e.2)) := by
  induction set with
  | nil => rfl
  | cons e es ih =>
    rw [assign, List.map_cons, assign]
    split
    · rw [List.map_cons]
    · rw [List.map_cons, ih]

theorem map_assignAll (f : α → β) (es set : List (String × α)) :
    (assignAll es set).map (fun e => (e.1, f e.2)) =
      assignAll (es.map fun e => (e.1, f e.2)) (set.map fun e => (e.1, f e.2)) := by
  induction es generalizing set with
  | nil => rfl
  | cons e es ih =>
    have hfirst := ih (assign e.1 e.2 set)
    rw [map_assign] at hfirst
    exact hfirst

theorem assign_of_notMem {name : String} {a : α} {set : List (String × α)}
    (h : name ∉ set.map Prod.fst) : assign name a set = set ++ [(name, a)] := by
  induction set with
  | nil => rfl
  | cons e es ih =>
    rw [List.map_cons, List.mem_cons, not_or] at h
    rw [assign, if_neg (Ne.symm h.1), ih h.2, List.cons_append]

/-- Where no attribute is set twice, `type` stays in front and the others follow in their order. -/
theorem assignAll_eq {es : List (String × α)} (hnodup : (es.map Prod.fst).Nodup) (t : α)
    {set : List (String × α)} (hset : ∀ e ∈ es, e.1 ∉ set.map Prod.fst) :
    assignAll es (("type", t) :: set) =
      ("type", (es.lookup "type").getD t) :: (set ++ es.filter fun e => e.1 != "type") := by
  induction es generalizing t set with
  | nil => simp [assignAll]
  | cons e es ih =>
    obtain ⟨name, a⟩ := e
    obtain ⟨hfirst, hrest⟩ : name ∉ es.map Prod.fst ∧ (es.map Prod.fst).Nodup :=
      List.nodup_cons.mp hnodup
    have hother : ∀ d ∈ es, name ≠ d.1 := fun d hd heq => hfirst (heq ▸ List.mem_map_of_mem hd)
    have hes : ∀ d ∈ es, d.1 ∉ set.map Prod.fst := fun d hd => hset d (List.mem_cons_of_mem _ hd)
    show assignAll es (assign name a (("type", t) :: set)) = _
    rw [assign]
    by_cases hname : name = "type"
    · subst hname
      have hnone : es.lookup "type" = none := by
        rw [List.lookup_eq_none_iff]
        exact fun d hd => bne_iff_ne.mpr (hother d hd)
      rw [if_pos rfl, ih hrest a hes, hnone, List.lookup_cons]
      simp
    · have hlast : ∀ d ∈ es, d.1 ∉ (set ++ [(name, a)]).map Prod.fst := by
        intro d hd
        rw [List.map_append, List.mem_append, not_or]
        exact ⟨hes d hd, fun hmem => hother d hd (List.mem_singleton.mp hmem).symm⟩
      rw [if_neg (Ne.symm hname), assign_of_notMem (hset (name, a) List.mem_cons_self),
        ih hrest t hlast, List.lookup_cons, beq_false_of_ne (Ne.symm hname)]
      simp [hname]

/-- Attributes that are set on a tag, none of them twice, make the node of that tag. -/
theorem ofAttributes_assignAll {es : List (String × Value)} (hnodup : (es.map Prod.fst).Nodup)
    (o : Origin) (tag : Value) :
    ofAttributes o (assignAll es [("type", tag)]) = assemble o tag es := by
  rw [assignAll_eq hnodup tag (by simp), ofAttributes, assemble, List.lookup_cons]
  simp [List.filter_filter]

end Assign

/-- The value `w` is made from `v` by conversion. -/
inductive IsConversion (field : String) : Value → Value → Prop
  /-- A list becomes a new list, item by item. -/
  | list {o o' : Origin} {items items' : List Value}
      (hitems : List.Forall₂ (IsConversion field) items items') :
      IsConversion field (list o items) (list o' items')
  /-- A mapping with a kind and without reserved keys becomes an attribute node. Under each key it
  has an attribute, which holds the conversion of what the mapping holds; its fields are the keys
  other than `type`, in their order; and where `type` is no key, it is the kind. -/
  | node {o o' : Origin} {entries fields : List (String × Value)} {kind : Value} {tag : String}
      (held : String → Value)
      (htag : (dict o entries).kind? (.str field) = .ok (some tag))
      (hheld : ∀ e ∈ entries, (node o' kind fields).attr? e.1 = some (held e.1))
      (hentries : ∀ e ∈ entries, IsConversion field e.2 (held e.1))
      (hfields : fields.map Prod.fst = (entries.map Prod.fst).filter fun name => name != "type")
      (htype : entries.lookup "type" = none → kind = .str tag)
      (hnames : ∀ e ∈ entries, e.1 ∉ reservedNames) :
      IsConversion field (dict o entries) (node o' kind fields)
  /-- A mapping with a kind and with a mapping without one under `__dict__` becomes the attribute
  node of that mapping, on which the conversions of what comes behind it are set. -/
  | replaced {o o' inside : Origin} {before after set : List (String × Value)} {tag : String}
      (held : String → Value)
      (htag : (dict o (before ++ ("__dict__", dict inside set) :: after)).kind? (.str field) =
        .ok (some tag))
      (hset : (dict inside set).kind? (.str field) = .ok none)
      (hafter : ∀ e ∈ after, IsConversion field e.2 (held e.1)) :
      IsConversion field (dict o (before ++ ("__dict__", dict inside set) :: after))
        (ofAttributes o' (assignAll (after.map fun e => (e.1, held e.1)) set))
  /-- Anything else is kept. -/
  | kept {v : Value} (hlist : ∀ o items, v ≠ list o items)
      (hdict : ∀ o entries, v = dict o entries → v.kind? (.str field) = .ok none) :
      IsConversion field v v

mutual

/-- The value, without the identities of its lists and attribute nodes. -/
def faceless : Value → Value
  | list o items => list { o with serial := 0 } (facelessItems items)
  | node o kind fields => node { o with serial := 0 } kind.faceless (facelessEntries fields)
  | v => v

def facelessItems : List Value → List Value
  | [] => []
  | v :: vs => v.faceless :: facelessItems vs

def facelessEntries : List (String × Value) → List (String × Value)
  | [] => []
  | (k, v) :: es => (k, v.faceless) :: facelessEntries es

end

theorem facelessEntries_eq (entries : List (String × Value)) :
    facelessEntries entries = entries.map fun e => (e.1, e.2.faceless) := by
  induction entries with
  | nil => rw [facelessEntries, List.map_nil]
  | cons e es ih => rw [facelessEntries, ih, List.map_cons]

theorem faceless_assemble (o : Origin) (tag : Value) (entries : List (String × Value)) :
    (assemble o tag entries).faceless =
      assemble { o with serial := 0 } tag.faceless (facelessEntries entries) := by
  have hkind : ((entries.lookup "type").getD tag).faceless =
      ((entries.lookup "type").map faceless).getD tag.faceless := by
    cases entries.lookup "type" <;> rfl
  rw [assemble, assemble, faceless, facelessEntries_eq, facelessEntries_eq, lookup_map_snd, hkind,
    List.filter_map]
  rfl

/-- The value `w` is a conversion of `v`. Where the reserved names are avoided, it is the recursive
one but for the identities. -/
structure Converts (field : String) (v w : Value) : Prop where
  isConversion : IsConversion field v w
  faceless_eq : Avoids field v → ∀ n, w.faceless = (converted (.str field) v n).1.faceless

/-- Entries of the same name, the second converted from the first. -/
def EntryConverts (field : String) (e e' : String × Value) : Prop :=
  e'.1 = e.1 ∧ Converts field e.2 e'.2

namespace Converts

variable {o o' : Origin} {items items' : List Value} {entries entries' : List (String × Value)}

theorem facelessItems_eq (h : List.Forall₂ (Converts field) items items')
    (havoids : ∀ v ∈ items, Avoids field v) (n : Nat) :
    facelessItems items' = facelessItems (convertedItems (.str field) items n).1 := by
  induction h generalizing n with
  | nil => rfl
  | cons hv _ ih =>
    obtain ⟨hfirst, hrest⟩ := List.forall_mem_cons.1 havoids
    rw [convertedItems, facelessItems, facelessItems, hv.faceless_eq hfirst n, ih hrest]

theorem facelessEntries_eq (h : List.Forall₂ (EntryConverts field) entries entries')
    (havoids : ∀ v ∈ held entries, Avoids field v) (n : Nat) :
    facelessEntries entries' = facelessEntries (convertedEntries (.str field) entries n).1 := by
  induction h generalizing n with
  | nil => rfl
  | @cons e e' es es' he _ ih =>
    obtain ⟨k, v⟩ := e
    obtain ⟨k', w⟩ := e'
    obtain ⟨rfl, hv⟩ := he
    obtain ⟨hfirst, hrest⟩ := List.forall_mem_cons.1 havoids
    rw [convertedEntries, facelessEntries, facelessEntries, hv.faceless_eq hfirst n, ih hrest]

theorem list (h : List.Forall₂ (Converts field) items items') (hpath : o'.path = o.path) :
    Converts field (.list o items) (.list o' items') := by
  constructor
  · exact .list (h.imp fun _ _ hv => hv.isConversion)
  · intro havoids n
    have hitems : ∀ v ∈ items, Avoids field v := fun v hv => havoids.inner hv
    rw [converted, faceless, faceless, facelessItems_eq h hitems (n + 1), hpath]

/-- What is found under a key is the conversion of what was found there. -/
theorem lookup (h : List.Forall₂ (EntryConverts field) entries entries') (name : String) :
    Option.Rel (Converts field) (entries.lookup name) (entries'.lookup name) := by
  induction h with
  | nil => exact .none
  | cons he _ ih =>
    rw [List.lookup_cons, List.lookup_cons, he.1]
    split
    · exact .some he.2
    · exact ih

theorem exists_lookup (h : List.Forall₂ (EntryConverts field) entries entries')
    (hnodup : (entries.map Prod.fst).Nodup) {e : String × Value} (he : e ∈ entries) :
    ∃ w, entries'.lookup e.1 = some w ∧ Converts field e.2 w := by
  have hrel := lookup h e.1
  rw [lookup_of_mem hnodup he] at hrel
  generalize entries'.lookup e.1 = found at hrel
  cases hrel with
  | some hw => exact ⟨_, rfl, hw⟩

/-- A mapping with a tag becomes the attribute node of its converted entries. -/
theorem assemble {tag : Value} (htag : tag? (.str field) entries = some tag)
    (hnodup : (entries.map Prod.fst).Nodup) (hnames : ∀ e ∈ entries, e.1 ∉ reservedNames)
    (h : List.Forall₂ (EntryConverts field) entries entries') (hpath : o'.path = o.path) :
    Converts field (dict o entries) (.assemble o' tag entries') := by
  constructor
  · obtain ⟨s, -, -, rfl⟩ := lookup_of_tag? htag
    have hkind : (dict o entries).kind? (.str field) = .ok (some s) := by rw [kind?_dict, htag]
    refine .node (fun name => (entries'.lookup name).getD .null) hkind ?_ ?_ ?_ ?_ hnames
    · intro e he
      obtain ⟨w, hw, -⟩ := exists_lookup h hnodup he
      have hmethod : e.1 ∈ methodNames → (entries'.lookup e.1).isSome := fun _ => by simp [hw]
      have hattr := attr?_assemble o' (.str s) entries' hmethod
      refine hattr.trans ?_
      split
      · next htype => rw [← htype, hw]; rfl
      · rw [hw]; rfl
    · intro e he
      obtain ⟨w, hw, hconverts⟩ := exists_lookup h hnodup he
      rw [hw]
      exact hconverts.isConversion
    · rw [← map_fst_eq_of_forall₂ (fun _ _ he => he.1) h, List.filter_map]
      rfl
    · intro hnone
      have hrel := lookup h "type"
      rw [hnone] at hrel
      generalize entries'.lookup "type" = found at hrel
      cases hrel
      rfl
  · intro havoids n
    have hheld : ∀ v ∈ held entries, Avoids field v := fun v hv =>
      havoids.inner (by rw [Value.inner, htag]; exact hv)
    rw [converted, htag, faceless_assemble, facelessEntries_eq h hheld (n + 1)]
    dsimp only
    rw [faceless_assemble, hpath]

/-- A mapping without a tag, under `__dict__`, takes the place of what was set before it. -/
theorem replaced {inside : Origin} {before set : List (String × Value)} {tag : Value}
    (htag : tag? (.str field) (before ++ ("__dict__", dict inside set) :: entries) = some tag)
    (hset : tag? (.str field) set = none) (hnodup : (entries.map Prod.fst).Nodup)
    (h : List.Forall₂ (EntryConverts field) entries entries') :
    Converts field (dict o (before ++ ("__dict__", dict inside set) :: entries))
      (.ofAttributes o' (assignAll entries' set)) := by
  have hnames : entries'.map Prod.fst = entries.map Prod.fst :=
    map_fst_eq_of_forall₂ (fun _ _ he => he.1) h
  constructor
  · obtain ⟨s, -, -, rfl⟩ := lookup_of_tag? htag
    let held (name : String) : Value := (entries'.lookup name).getD .null
    have hentries : entries' = entries.map fun e => (e.1, held e.1) :=
      calc entries' = (entries'.map Prod.fst).map fun name => (name, held name) := by
            rw [List.map_map]
            refine (List.map_id entries').symm.trans (List.map_congr_left fun e he => ?_)
            simp [held, lookup_of_mem (hnames ▸ hnodup) he]
        _ = entries.map fun e => (e.1, held e.1) := by
            rw [hnames, List.map_map]
            rfl
    rw [hentries]
    refine .replaced held (by rw [kind?_dict, htag]) (by rw [kind?_dict, hset]) fun e he => ?_
    obtain ⟨w, hw, hconverts⟩ := exists_lookup h hnodup he
    rw [show held e.1 = w from congrArg (Option.getD · .null) hw]
    exact hconverts.isConversion
  · intro havoids
    have hsets : Sets field (dict o (before ++ ("__dict__", dict inside set) :: entries))
        ("__dict__", dict inside set) := ⟨o, _, .refl _, by rw [htag]; rfl, by simp⟩
    exact absurd (havoids _ hsets) (by simp [reservedNames])

/-- What is neither a list nor a mapping with a tag is kept. -/
theorem kept {v : Value} (hlist : ∀ o items, v ≠ .list o items)
    (hdict : ∀ o entries, v = dict o entries → tag? (.str field) entries = none) :
    Converts field v v := by
  constructor
  · refine .kept hlist ?_
    rintro o entries rfl
    rw [kind?_dict, hdict o entries rfl]
  · intro _ n
    cases v with
    | list o items => exact absurd rfl (hlist o items)
    | dict o entries => rw [converted, hdict o entries rfl]
    | _ => rfl

end Converts

mutual

/-- The recursive conversion is a conversion, where the reserved names are avoided. -/
theorem converts_converted : ∀ {v : Value}, v.hasDistinctKeys = true → Avoids field v → ∀ n,
    Converts field v (converted (.str field) v n).1
  | .list o items, hv, havoids, n => by
    rw [hasDistinctKeys] at hv
    rw [converted]
    exact .list (forall₂_converted hv (fun v hv => havoids.inner hv) (n + 1)) rfl
  | .dict o entries, hv, havoids, n => by
    obtain ⟨hnodup, hentries⟩ := hasDistinctKeys_dict_iff.mp hv
    rw [converted]
    cases htag : tag? (.str field) entries with
    | none =>
      refine .kept (by rintro _ _ ⟨⟩) ?_
      rintro _ _ ⟨⟩
      exact htag
    | some tag =>
      have hsome : (tag? (.str field) entries).isSome = true := by rw [htag]; rfl
      have hnames : ∀ e ∈ entries, e.1 ∉ reservedNames := fun e he =>
        havoids e ⟨o, entries, .refl _, hsome, he⟩
      have hheld : ∀ v ∈ held entries, Avoids field v := fun v hv =>
        havoids.inner (by rw [Value.inner, if_pos hsome]; exact hv)
      exact .assemble htag hnodup hnames (forall₂_convertedEntries
        (entriesHaveDistinctKeys_iff.mpr hentries) hheld (n + 1)) rfl
  | .null, _, _, n | .bool _, _, _, n | .int _, _, _, n | .float _, _, _, n | .str _, _, _, n
  | .tuple _ _, _, _, n | .node _ _ _, _, _, n | .method _ _, _, _, n =>
    .kept (by rintro _ _ ⟨⟩) (by rintro _ _ ⟨⟩)

theorem forall₂_converted : ∀ {items : List Value}, haveDistinctKeys items = true →
    (∀ v ∈ items, Avoids field v) → ∀ n,
    List.Forall₂ (Converts field) items (convertedItems (.str field) items n).1
  | [], _, _, n => .nil
  | v :: vs, h, havoids, n => by
    rw [haveDistinctKeys, Bool.and_eq_true] at h
    obtain ⟨hfirst, hrest⟩ := List.forall_mem_cons.1 havoids
    exact .cons (converts_converted h.1 hfirst n) (forall₂_converted h.2 hrest _)

theorem forall₂_convertedEntries : ∀ {entries : List (String × Value)},
    entriesHaveDistinctKeys entries = true → (∀ v ∈ held entries, Avoids field v) → ∀ n,
    List.Forall₂ (EntryConverts field) entries (convertedEntries (.str field) entries n).1
  | [], _, _, n => .nil
  | (k, v) :: es, h, havoids, n => by
    rw [entriesHaveDistinctKeys, Bool.and_eq_true] at h
    obtain ⟨hfirst, hrest⟩ := List.forall_mem_cons.1 havoids
    exact .cons ⟨rfl, converts_converted h.1 hfirst n⟩ (forall₂_convertedEntries h.2 hrest _)

end

end RuleWalk.Value
