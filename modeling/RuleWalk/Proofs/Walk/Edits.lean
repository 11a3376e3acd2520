import Mathlib.Logic.Relation
import RuleWalk.Proofs.Walk.Ending

/-!
# Edits that a walk does not notice

A walk by fields sees of a mapping its kind and what the fields of that kind hold, and of a list the
items that are not null. So it does not notice a null field that is added or removed, a field that
its rule does not read, or a hole in a list that is read item by item, wherever in the tree that is.

An edit is one such change; any number of them, in both directions, leads from one tree to another.
What the two trees show at corresponding nodes corresponds again, child by child, so their
unfoldings have the same shape and the walks over them go in step.
-/

namespace RuleWalk

namespace Value

/-! ## Edits -/

/-- The fields that are read at a value, by its kind. -/
def specs (field : String) (table : List (String × List FieldSpec)) (v : Value) : List FieldSpec :=
  match v.kind? (.str field) with
  | .ok (some kind) => (table.lookup kind).getD []
  | _ => []

/-- The name is neither that of the kind nor that of a field that is read at the value. -/
def Ignores (field : String) (table : List (String × List FieldSpec)) (v : Value) (name : String) :
    Prop :=
  name ≠ field ∧ ∀ spec ∈ v.specs field table, spec.isNamed name = false

/-- One edit somewhere in a value. Only the edits that `allowed` relates are made, each told by the
mapping or the list before and after it. The copies say that identity does not matter. -/
inductive Edit (field : String) (table : List (String × List FieldSpec))
    (allowed : Value → Value → Prop) : Value → Value → Prop
  /-- A field is added that holds null or is not read. -/
  | add {o : Origin} {before after : List (String × Value)} {name : String} {w : Value}
      (hnew : (before ++ after).lookup name = none)
      (hw : w = null ∨ (dict o (before ++ after)).Ignores field table name)
      (hallowed : allowed (dict o (before ++ after)) (dict o (before ++ (name, w) :: after))) :
      Edit field table allowed (dict o (before ++ after)) (dict o (before ++ (name, w) :: after))
  /-- A list gets a hole. -/
  | hole {o : Origin} {before after : List Value}
      (hallowed : allowed (list o (before ++ after)) (list o (before ++ null :: after))) :
      Edit field table allowed (list o (before ++ after)) (list o (before ++ null :: after))
  /-- There is an edit in what a field holds. -/
  | inside {o : Origin} {before after : List (String × Value)} {name : String} {w w' : Value}
      (h : Edit field table allowed w w') :
      Edit field table allowed (dict o (before ++ (name, w) :: after))
        (dict o (before ++ (name, w') :: after))
  /-- There is an edit in an item of a list. -/
  | item {o : Origin} {before after : List Value} {w w' : Value}
      (h : Edit field table allowed w w') :
      Edit field table allowed (list o (before ++ w :: after)) (list o (before ++ w' :: after))
  | copyDict {o o' : Origin} {entries : List (String × Value)} :
      Edit field table allowed (dict o entries) (dict o' entries)
  | copyList {o o' : Origin} {items : List Value} :
      Edit field table allowed (list o items) (list o' items)

/-- Edits lead from the one value to the other. An edit can be taken back, so a field is removed
where it can be added, and it is changed where it can be removed and added again. -/
def Edits (field : String) (table : List (String × List FieldSpec))
    (allowed : Value → Value → Prop) : Value → Value → Prop :=
  Relation.EqvGen (Edit field table allowed)

/-- The value can be read as a list: it is one, or null. -/
def IsListOrNull (v : Value) : Prop := v = null ∨ ∃ o items, v = list o items

end Value

/-- A field that is read item by item holds a list, or null, or is missing. -/
def FieldSpec.ReadsList (v : Value) : FieldSpec → Prop
  | one _ => True
  | many name => ∀ w, v.getField name = .ok w → w.IsListOrNull

namespace Value

/-- All fields that are read item by item at the value hold lists, or null, or are missing. -/
def HasLists (field : String) (table : List (String × List FieldSpec)) (v : Value) : Prop :=
  ∀ spec ∈ v.specs field table, spec.ReadsList v

variable {field : String} {table : List (String × List FieldSpec)} {allowed : Value → Value → Prop}
  {v v' w w' : Value}

namespace Edit

theorem edits (h : Edit field table allowed v w) : Edits field table allowed v w :=
  Relation.EqvGen.rel v w h

/-- Null is not edited, and nothing becomes null. -/
theorem isNull_eq (h : Edit field table allowed v w) : v.isNull = false ∧ w.isNull = false := by
  cases h <;> exact ⟨rfl, rfl⟩

/-- A list stays a list, and a mapping a mapping. -/
theorem isListOrNull_iff (h : Edit field table allowed v w) : v.IsListOrNull ↔ w.IsListOrNull := by
  cases h <;> simp [IsListOrNull]

end Edit

theorem Edits.symm (h : Edits field table allowed v w) : Edits field table allowed w v :=
  Relation.EqvGen.symm v w h

theorem Edits.trans (h : Edits field table allowed v v') (h' : Edits field table allowed v' w) :
    Edits field table allowed v w :=
  Relation.EqvGen.trans v v' w h h'

/-! ## Slots -/

/-- The slots that are not empty correspond, one by one. -/
def Matches (field : String) (table : List (String × List FieldSpec))
    (allowed : Value → Value → Prop) (xs ys : List Value) : Prop :=
  List.Forall₂ (Edits field table allowed) (Scene.present xs) (Scene.present ys)

theorem matches_refl (xs : List Value) : Matches field table allowed xs xs :=
  List.forall₂_same.2 fun v _ => .refl v

theorem Matches.symm {xs ys : List Value} (h : Matches field table allowed xs ys) :
    Matches field table allowed ys xs :=
  (h.imp fun _ _ hedits => hedits.symm).flip

theorem Matches.trans {xs ys zs : List Value} (h : Matches field table allowed xs ys)
    (h' : Matches field table allowed ys zs) : Matches field table allowed xs zs := by
  rw [Matches] at h h' ⊢
  generalize Scene.present xs = as, Scene.present ys = bs, Scene.present zs = cs at h h' ⊢
  induction h generalizing cs with
  | nil =>
    cases h'
    exact .nil
  | cons hab _ ih =>
    cases h' with
    | cons hbc hrest => exact .cons (hab.trans hbc) (ih _ hrest)

theorem Matches.append {xs ys xs' ys' : List Value} (h : Matches field table allowed xs ys)
    (h' : Matches field table allowed xs' ys') :
    Matches field table allowed (xs ++ xs') (ys ++ ys') := by
  rw [Matches, Scene.present, Scene.present, List.filter_append, List.filter_append]
  exact List.rel_append h h'

theorem Edit.matches_cons {xs ys : List Value} (h : Edit field table allowed v w)
    (hmatches : Matches field table allowed xs ys) :
    Matches field table allowed (v :: xs) (w :: ys) := by
  obtain ⟨hv, hw⟩ := h.isNull_eq
  have hfirst : Matches field table allowed [v] [w] := by
    simp only [Matches, Scene.present, hv, hw, List.filter_cons_of_pos, Bool.not_false]
    exact .cons h.edits .nil
  exact hfirst.append hmatches

/-- The items of a list that is edited correspond. -/
theorem Edit.matches_items {o o' : Origin} {items items' : List Value}
    (h : Edit field table allowed (list o items) (list o' items')) :
    Matches field table allowed items items' := by
  cases h with
  | hole =>
    -- The hole is not present, so what is behind it corresponds to itself.
    refine (matches_refl _).append ?_
    exact matches_refl _
  | item h => exact (matches_refl _).append (h.matches_cons (matches_refl _))
  | copyList => exact matches_refl _

namespace Agree

theorem symm {α : Type} {R : α → α → Prop} (hR : ∀ {a b}, R a b → R b a) {r r' : Except Fault α}
    (h : Agree R r r') : Agree R r' r := by
  cases h with
  | ok h => exact .ok (hR h)
  | error he => exact .error he

theorem trans {α : Type} {R : α → α → Prop} (hR : ∀ {a b c}, R a b → R b c → R a c)
    {r r' r'' : Except Fault α} (h : Agree R r r') (h' : Agree R r' r'') : Agree R r r'' := by
  cases h with
  | ok h =>
    cases h' with
    | ok h' => exact .ok (hR h h')
  | error he => exact h'

theorem refl {α : Type} {R : α → α → Prop} (hR : ∀ a, R a a) {r : Except Fault α}
    (h : ∀ e, r = .error e → e.escape? = none) : Agree R r r := by
  cases r with
  | ok a => exact .ok (hR a)
  | error e => exact .error (h e rfl)

end Agree

/-- What stands under the name `a` before and after an edit: the same, or the one edited into the
other. Where it is neither, the name is not looked at. -/
inductive Found (field : String) (table : List (String × List FieldSpec))
    (allowed : Value → Value → Prop) (specs : List FieldSpec) (a : String) : Value → Value → Prop
  | same (w : Value) : Found field table allowed specs a w w
  | edited {w w' : Value} (h : Edit field table allowed w w') :
      Found field table allowed specs a w w'
  | ignored {w w' : Value} (hfield : a ≠ field) (hspecs : ∀ spec ∈ specs, spec.isNamed a = false) :
      Found field table allowed specs a w w'

/-- The values have one kind, and what is read at them corresponds. -/
structure Parallel (field : String) (table : List (String × List FieldSpec))
    (allowed : Value → Value → Prop) (v v' : Value) : Prop where
  kind : v'.kind? (.str field) = v.kind? (.str field)
  lists : v.HasLists field table ↔ v'.HasLists field table
  slots : v.HasLists field table →
    Agree (Matches field table allowed) (FieldSpec.allSlots v (v.specs field table))
      (FieldSpec.allSlots v' (v.specs field table))

namespace Parallel

theorem specs_eq (h : Parallel field table allowed v v') :
    v'.specs field table = v.specs field table := by
  rw [specs, specs, h.kind]

theorem refl (v : Value) : Parallel field table allowed v v :=
  ⟨rfl, .rfl, fun _ => .refl matches_refl fun _ => FieldSpec.allSlots_announced⟩

theorem symm (h : Parallel field table allowed v v') : Parallel field table allowed v' v := by
  refine ⟨h.kind.symm, h.lists.symm, fun hlists => ?_⟩
  rw [h.specs_eq]
  exact (h.slots (h.lists.2 hlists)).symm Matches.symm

theorem trans (h : Parallel field table allowed v v') (h' : Parallel field table allowed v' w) :
    Parallel field table allowed v w := by
  refine ⟨h'.kind.trans h.kind, h.lists.trans h'.lists, fun hlists => ?_⟩
  have hslots := h'.slots (h.lists.1 hlists)
  rw [h.specs_eq] at hslots
  exact Agree.trans (R := Matches field table allowed) (fun hxs hys => hxs.trans hys)
    (h.slots hlists) hslots

end Parallel

section Entries

variable {o o' : Origin} {entries entries' : List (String × Value)} {specs : List FieldSpec}
  {spec : FieldSpec}
  (h : ∀ a, Found field table allowed specs a ((entries.lookup a).getD null)
    ((entries'.lookup a).getD null))

include h

theorem kind?_of_found :
    (dict o' entries').kind? (.str field) = (dict o entries).kind? (.str field) := by
  have hfound := h field
  simp only [kind?, getField]
  generalize (entries.lookup field).getD null = w at hfound ⊢
  generalize (entries'.lookup field).getD null = w' at hfound ⊢
  cases hfound with
  | same => rfl
  | edited hedit => cases hedit <;> rfl
  | ignored hfield => exact absurd rfl hfield

/-- Under the name of a field that is read stands the same, or there is an edit in it. -/
theorem getField_of_found (o o' : Origin) {name : Value} (hspec : spec ∈ specs)
    (hname : spec = .one name ∨ spec = .many name) :
    (dict o entries).getField name = (dict o' entries').getField name ∨
      ∃ w w', (dict o entries).getField name = .ok w ∧
        (dict o' entries').getField name = .ok w' ∧ Edit field table allowed w w' := by
  cases name with
  | str a =>
    have hfound := h a
    rw [getField, getField]
    generalize (entries.lookup a).getD null = w at hfound ⊢
    generalize (entries'.lookup a).getD null = w' at hfound ⊢
    cases hfound with
    | same => exact .inl rfl
    | edited hedit => exact .inr ⟨w, w', rfl, rfl, hedit⟩
    | ignored _ hspecs =>
      have hnamed : spec.isNamed a = true := by
        rcases hname with rfl | rfl <;> exact beq_self_eq_true a
      cases (hspecs spec hspec).symm.trans hnamed
  -- No entry has another name, so what is read does not depend on the entries.
  | _ => exact .inl rfl

theorem readsList_iff_of_found (hspec : spec ∈ specs) :
    spec.ReadsList (dict o entries) ↔ spec.ReadsList (dict o' entries') := by
  cases spec with
  | one name => rfl
  | many name =>
    rw [FieldSpec.ReadsList, FieldSpec.ReadsList]
    obtain heq | ⟨w, w', hw, hw', hedit⟩ := getField_of_found h o o' hspec (.inr rfl)
    · rw [heq]
    · simp only [hw, hw', Except.ok.injEq, forall_eq', hedit.isListOrNull_iff]

/-- What a field gives before and after an edit corresponds, if the field finds a list where it
looks for items. -/
theorem slots_of_found (hspec : spec ∈ specs) (hlist : spec.ReadsList (dict o entries)) :
    Agree (Matches field table allowed) (spec.slots (dict o entries))
      (spec.slots (dict o' entries')) := by
  have hsame (heq : spec.slots (dict o entries) = spec.slots (dict o' entries')) :
      Agree (Matches field table allowed) (spec.slots (dict o entries))
        (spec.slots (dict o' entries')) := by
    rw [← heq]
    exact .refl matches_refl fun _ => FieldSpec.slots_announced
  cases spec with
  | one name =>
    obtain heq | ⟨w, w', hw, hw', hedit⟩ := getField_of_found h o o' hspec (.inl rfl)
    · exact hsame (by rw [FieldSpec.slots, FieldSpec.slots, heq])
    · rw [FieldSpec.slots, FieldSpec.slots, hw, hw']
      exact .ok (hedit.matches_cons (matches_refl []))
  | many name =>
    obtain heq | ⟨w, w', hw, hw', hedit⟩ := getField_of_found h o o' hspec (.inr rfl)
    · exact hsame (by rw [FieldSpec.slots, FieldSpec.slots, getList, getList, heq])
    · have hlist' := hedit.isListOrNull_iff.1 (hlist w hw)
      obtain rfl | ⟨ow, items, rfl⟩ := hlist w hw
      · cases hedit.isNull_eq.1
      obtain rfl | ⟨ow', items', rfl⟩ := hlist'
      · cases hedit.isNull_eq.2
      rw [FieldSpec.slots, FieldSpec.slots, getList, getList, hw, hw']
      exact .ok hedit.matches_items

end Entries

theorem parallel_of_found {o o' : Origin} {entries entries' : List (String × Value)}
    (h : ∀ a, Found field table allowed ((dict o entries).specs field table) a
      ((entries.lookup a).getD null) ((entries'.lookup a).getD null)) :
    Parallel field table allowed (dict o entries) (dict o' entries') := by
  have hkind : (dict o' entries').kind? (.str field) = (dict o entries).kind? (.str field) :=
    kind?_of_found h
  have hspecs : (dict o' entries').specs field table = (dict o entries).specs field table := by
    rw [specs, specs, hkind]
  refine ⟨hkind, ?_, fun hlists => ?_⟩
  · rw [HasLists, HasLists, hspecs]
    exact forall₂_congr fun spec hspec => readsList_iff_of_found h hspec
  · exact FieldSpec.allSlots_agree_of_slots (matches_refl []) Matches.append
      fun spec hspec => slots_of_found h hspec (hlists spec hspec)

/-- A list has no kind, so nothing is read at it. -/
theorem parallel_list {o o' : Origin} {items items' : List Value} :
    Parallel field table allowed (list o items) (list o' items') := by
  have hspecs (o : Origin) (items : List Value) : (list o items).specs field table = [] := rfl
  refine ⟨rfl, ?_, fun _ => .ok (matches_refl [])⟩
  rw [HasLists, HasLists, hspecs, hspecs]
  simp

theorem Edit.parallel (h : Edit field table allowed v w) : Parallel field table allowed v w := by
  cases h with
  | @add o before after name w hnew hw =>
    refine parallel_of_found fun a => ?_
    by_cases ha : a = name
    · subst ha
      have hbefore : before.lookup a = none := by
        rw [List.lookup_append, Option.or_eq_none_iff] at hnew
        exact hnew.1
      rw [hnew, List.lookup_append, hbefore, Option.none_or, List.lookup_cons_self]
      rcases hw with rfl | ⟨hfield, hspecs⟩
      · exact .same null
      · exact .ignored hfield hspecs
    · rw [List.lookup_append, List.lookup_append, List.lookup_cons, beq_false_of_ne ha]
      exact .same _
  | @inside o before after name w w' h =>
    refine parallel_of_found fun a => ?_
    rw [List.lookup_append, List.lookup_append]
    cases before.lookup a with
    | some x => exact .same x
    | none =>
      rw [List.lookup_cons, List.lookup_cons]
      cases a == name with
      | true => exact .edited h
      | false => exact .same _
  | hole => exact parallel_list
  | item h => exact parallel_list
  | copyDict => exact parallel_of_found fun a => .same _
  | copyList => exact parallel_list

theorem Edits.parallel (h : Edits field table allowed v w) : Parallel field table allowed v w := by
  induction h with
  | rel v w h => exact h.parallel
  | refl v => exact .refl v
  | symm v w _ ih => exact ih.symm
  | trans v w u _ _ ih ih' => exact ih.trans ih'

end Value

/-! ## Unfoldings -/

/-- Where related nodes have related children, one by one, forests with related roots have one
shape, and their listings are related. -/
theorem Forest.Unfolds.paired {kids : Value → List Value} {R : Value → Value → Prop}
    {f f' : Forest} (hf : f.Unfolds kids) (hf' : f'.Unfolds kids)
    (hroots : List.Forall₂ R f.roots f'.roots)
    (h : ∀ v ∈ f.preorder, ∀ v', R v v' → List.Forall₂ R (kids v) (kids v')) :
    List.Forall₂ R f.preorder f'.preorder ∧ ∀ i, f.paths i = f'.paths i := by
  induction f generalizing f' with
  | nil =>
    cases f' with
    | nil => exact ⟨.nil, fun _ => rfl⟩
    | cons v' c' s' => cases hroots
  | cons v c s ihc ihs =>
    cases f' with
    | nil => cases hroots
    | cons v' c' s' =>
      obtain ⟨hv, hsiblings⟩ := List.forall₂_cons.1 hroots
      obtain ⟨hc, hcf, hsf⟩ := hf
      obtain ⟨hc', hcf', hsf'⟩ := hf'
      have hchildren : List.Forall₂ R c.roots c'.roots := by
        rw [hc, hc']
        exact h v List.mem_cons_self v' hv
      obtain ⟨hbelow, hpaths⟩ := ihc hcf hcf' hchildren fun u hu =>
        h u (List.mem_cons_of_mem v (List.mem_append_left _ hu))
      obtain ⟨hbeside, hpaths'⟩ := ihs hsf hsf' hsiblings fun u hu =>
        h u (List.mem_cons_of_mem v (List.mem_append_right _ hu))
      refine ⟨.cons hv (List.rel_append hbelow hbeside), fun i => ?_⟩
      rw [paths, paths, hpaths, hpaths']

namespace Unfolding

variable {kids : Value → List Value} {root root' v v' : Value}

theorem paired {R : Value → Value → Prop} (t : Unfolding kids root) (t' : Unfolding kids root')
    (hroot : R root root')
    (h : ∀ v ∈ t.preorder, ∀ v', R v v' → List.Forall₂ R (kids v) (kids v')) :
    List.Forall₂ R t.preorder t'.preorder ∧ t.paths = t'.paths := by
  have hroots : List.Forall₂ R t.below.roots t'.below.roots := by
    rw [t.roots_below, t'.roots_below]
    exact h root List.mem_cons_self root' hroot
  obtain ⟨hbelow, hpaths⟩ := t.unfolds_below.paired t'.unfolds_below hroots fun v hv =>
    h v (List.mem_cons_of_mem root hv)
  exact ⟨.cons hroot hbelow, congrArg ([] :: ·) (hpaths 0)⟩

/-- The path to a node of the listing stands at the same place in the list of paths. -/
theorem exists_path (t : Unfolding kids root) {k : Nat} (h : t.preorder[k]? = some v) :
    ∃ path, t.paths[k]? = some path ∧ follow kids root path = some v := by
  have hfollow : (t.paths.map (follow kids root))[k]? = some (some v) := by
    rw [t.map_follow, List.getElem?_map, h]
    rfl
  rw [List.getElem?_map] at hfollow
  exact Option.map_eq_some_iff.1 hfollow

/-- In unfoldings of one shape, one path leads to the nodes at one place of the listings. -/
theorem exists_common_path (t : Unfolding kids root) (t' : Unfolding kids root')
    (hpaths : t.paths = t'.paths) {k : Nat} (h : t.preorder[k]? = some v)
    (h' : t'.preorder[k]? = some v') :
    ∃ path, follow kids root path = some v ∧ follow kids root' path = some v' := by
  obtain ⟨path, hpath, hfollow⟩ := t.exists_path h
  obtain ⟨path', hpath', hfollow'⟩ := t'.exists_path h'
  rw [← hpaths, hpath] at hpath'
  cases hpath'
  exact ⟨path, hfollow, hfollow'⟩

end Unfolding

/-! ## Walks -/

namespace Scene

variable {σ : Type} {scene : Scene σ} {field : String} {table : List (String × List FieldSpec)}
  {v v' : Value}

theorem slotsOf_result_of_fields (hfield : scene.registry.kindField = .str field)
    (hfields : scene.registry.IsByFields table) (v : Value) :
    (slotsOf v scene).result = FieldSpec.allSlots v (v.specs field table) := by
  obtain ⟨kind, hkind⟩ := v.kind?_text field
  have hkindOf : scene.registry.kindOf v = .ok kind := by rw [Registry.kindOf, hfield, hkind]
  rw [Value.specs, hkind]
  cases kind with
  | none =>
    rw [slotsOf_of_no_kind hkindOf]
    rfl
  | some kind =>
    have hrule := hfields kind
    cases hspecs : table.lookup kind with
    | none =>
      rw [hspecs] at hrule
      rw [slotsOf_result, hkindOf]
      simp only [hrule, hspecs]
      rfl
    | some specs =>
      rw [hspecs] at hrule
      rw [slotsOf_of_fields hkindOf hrule]
      simp only [hspecs, Option.getD_some]

/-- What a scene offers before and after an edit corresponds. -/
theorem slotsOf_edits (hfield : scene.registry.kindField = .str field)
    (hfields : scene.registry.IsByFields table) (h : v.Edits field table allowed v')
    (hlists : v.HasLists field table) :
    Value.Agree (Value.Matches field table allowed) (slotsOf v scene).result
      (slotsOf v' scene).result := by
  have hparallel := h.parallel
  rw [slotsOf_result_of_fields hfield hfields, slotsOf_result_of_fields hfield hfields,
    hparallel.specs_eq]
  exact hparallel.slots hlists

theorem kids_edits (hfield : scene.registry.kindField = .str field)
    (hfields : scene.registry.IsByFields table) (h : v.Edits field table allowed v')
    (hlists : v.HasLists field table) :
    List.Forall₂ (Value.Edits field table allowed) (scene.kids v) (scene.kids v') := by
  have hslots := slotsOf_edits hfield hfields h hlists
  rw [kids, kids]
  generalize (slotsOf v scene).result = r, (slotsOf v' scene).result = r' at hslots ⊢
  cases hslots with
  | ok hmatches => exact hmatches
  | error => exact .nil

end Scene

/-- Fields with texts for names can be read, if they find lists where they look for items. -/
theorem FieldSpec.allSlots_of_text {v : Value} {specs : List FieldSpec}
    (hnames : ∀ spec ∈ specs, spec.hasTextName = true)
    (hlists : ∀ spec ∈ specs, spec.ReadsList v) :
    ∃ slots, allSlots v specs = .ok slots := by
  induction specs with
  | nil => exact ⟨[], rfl⟩
  | cons spec specs ih =>
    have hfirst : ∃ xs, spec.slots v = .ok xs := by
      have hlist := hlists spec List.mem_cons_self
      obtain ⟨a, ha⟩ := exists_isNamed (hnames spec List.mem_cons_self)
      obtain ⟨w, hw⟩ := v.getField_text a
      obtain rfl | rfl := eq_of_isNamed ha
      · exact ⟨[w], by rw [slots, hw]; rfl⟩
      · rw [slots, Value.getList, hw]
        obtain rfl | ⟨o, items, rfl⟩ := hlist w hw
        · exact ⟨[], rfl⟩
        · exact ⟨items, rfl⟩
    obtain ⟨xs, hxs⟩ := hfirst
    obtain ⟨ys, hys⟩ := ih (fun spec hmem => hnames spec (List.mem_cons_of_mem _ hmem))
      fun spec hmem => hlists spec (List.mem_cons_of_mem _ hmem)
    exact ⟨xs ++ ys, by rw [allSlots, hxs, hys]; rfl⟩

/-- What is read at a value stands in the table. -/
theorem Value.exists_of_mem_specs {field : String} {table : List (String × List FieldSpec)}
    {v : Value} {spec : FieldSpec} (h : spec ∈ v.specs field table) : ∃ e ∈ table, spec ∈ e.2 := by
  rw [specs] at h
  split at h
  · next kind _ =>
    cases hlookup : table.lookup kind with
    | none =>
      rw [hlookup] at h
      cases h
    | some specs =>
      rw [hlookup] at h
      exact ⟨(kind, specs), mem_of_lookup hlookup, h⟩
  · cases h

namespace Walk

variable {σ : Type} {scene : Scene σ} {field : String} {table : List (String × List FieldSpec)}

/-- What lies ahead at the start is visited. -/
theorem visits_of_mem_preorder {root v : Value} (hrules : scene.registry.AllRules Rule.IsPure)
    (t : Unfolding scene.kids root) (h : v ∈ t.preorder) :
    Visits ⟨scene, ⟨[root], .absent⟩⟩ v := by
  obtain ⟨k, hk⟩ := List.mem_iff_getElem?.1 h
  obtain ⟨hlt, rfl⟩ := List.getElem?_eq_some_iff.1 hk
  have hfollows := Follows.iterate_absent hrules t k
  rw [List.drop_eq_getElem_cons hlt] at hfollows
  obtain ⟨rest, hfringe, -⟩ := hfollows.fringe_cons
  exact ⟨k, rest, hfringe⟩

/-- Answers to a step before and after edits: nodes that correspond, or failures that have one cause
and its text. Only a field whose name is no text can bring about the latter. -/
inductive InStep (table : List (String × List FieldSpec)) (kind : Option String) (v v' : Value) :
    Except Fault (Option Value) → Except Fault (Option Value) → Prop
  | node : InStep table kind v v' (.ok (some v)) (.ok (some v'))
  | failed {cause : Fault} {detail : String} (htext : cause.text = .ok detail)
      (hname : ∃ e ∈ table, ∃ spec ∈ e.2, spec.hasTextName = false) :
      InStep table kind v v' (.error (.expansion v kind detail (some cause)))
        (.error (.expansion v' kind detail (some cause)))

theorem step_edits (hfield : scene.registry.kindField = .str field)
    (hfields : scene.registry.IsByFields table) {v v' : Value} {l l' : List Value} {s s' : Stage σ}
    (hs : Follows .absent scene (v :: l) s) (hs' : Follows .absent scene (v' :: l') s')
    (hedits : v.Edits field table allowed v') (hlists : v.HasLists field table) :
    ∃ kind, scene.registry.kindOf v = .ok kind ∧ scene.registry.kindOf v' = .ok kind ∧
      InStep table kind v v' (step s).result (step s').result := by
  have htext : scene.registry.HasTextField := ⟨field, hfield⟩
  obtain ⟨kind, hkind⟩ := htext.kindOf v
  have hkind' : scene.registry.kindOf v' = .ok kind := by
    rw [Registry.kindOf, hfield] at hkind ⊢
    exact hedits.parallel.kind.trans hkind
  refine ⟨kind, hkind, hkind', ?_⟩
  have hslots := Scene.slotsOf_edits hfield hfields hedits hlists
  have hfails (e : Fault) (he : (Scene.slotsOf v scene).result = .error e) :
      ∃ e ∈ table, ∃ spec ∈ e.2, spec.hasTextName = false := by
    by_contra hnames
    simp only [not_exists, not_and, Bool.not_eq_false] at hnames
    obtain ⟨slots, hok⟩ := FieldSpec.allSlots_of_text (fun spec hspec => by
      obtain ⟨e, he, hmem⟩ := Value.exists_of_mem_specs hspec
      exact hnames e he spec hmem) hlists
    rw [Scene.slotsOf_result_of_fields hfield hfields, hok] at he
    cases he
  rw [hs.step_of_fields hfields hkind htext, hs'.step_of_fields hfields hkind' htext]
  generalize (Scene.slotsOf v scene).result = r at hslots hfails ⊢
  generalize (Scene.slotsOf v' scene).result = r' at hslots ⊢
  cases hslots with
  | ok hmatches => exact .node
  | @error e he => exact .failed (Fault.text_eq_of_escape? he) (hfails e rfl)

/-- Edits do not change how a walk goes. If the fields that are read item by item hold lists, or
null, or are missing, at the nodes that the walk visits, then the walks over a tree and over an
edited one take the same number of steps. The nodes that they take at the same step stand at the
same place, correspond under the edits that were allowed, and have the same kind. -/
theorem step_iterate_edits (scene : Scene σ) (hfield : scene.registry.kindField = .str field)
    (hfields : scene.registry.IsByFields table) (allowed : Value → Value → Prop) {d d' : Value}
    (hedits : d.Edits field table allowed d') {kind : String}
    (hroot : scene.registry.kindOf d = .ok (some kind))
    (hlists : ∀ v, Visits ⟨scene, ⟨[d], .absent⟩⟩ v → v.HasLists field table) :
    ∃ (w w' : Walk σ) (n : Nat), start scene.registry .absent d = .ok w ∧
      start scene.registry .absent d' = .ok w' ∧ ∀ k,
        ((advance^[k] ⟨scene, w⟩).walk.isDone = true ↔ n ≤ k) ∧
        ((advance^[k] ⟨scene, w'⟩).walk.isDone = true ↔ n ≤ k) ∧
        (k < n → ∃ path v v' kind,
          follow scene.kids d path = some v ∧ follow scene.kids d' path = some v' ∧
          v.Edits field table allowed v' ∧
          scene.registry.kindOf v = .ok kind ∧ scene.registry.kindOf v' = .ok kind ∧
          InStep table kind v v' (step (advance^[k] ⟨scene, w⟩)).result
            (step (advance^[k] ⟨scene, w'⟩)).result) := by
  obtain ⟨t⟩ := scene.nonempty_unfolding hfields d
  obtain ⟨t'⟩ := scene.nonempty_unfolding hfields d'
  have hroot' : scene.registry.kindOf d' = .ok (some kind) := by
    rw [Registry.kindOf, hfield] at hroot ⊢
    exact hedits.parallel.kind.trans hroot
  have hlisted (v : Value) (hv : v ∈ t.preorder) : v.HasLists field table :=
    hlists v (visits_of_mem_preorder hfields.isPure t hv)
  obtain ⟨hpairs, hpaths⟩ := t.paired t' hedits fun v hv v' hvv' =>
    Scene.kids_edits hfield hfields hvv' (hlisted v hv)
  have hlength := hpairs.length_eq
  refine ⟨⟨[d], .absent⟩, ⟨[d'], .absent⟩, t.preorder.length, start_eq hroot, start_eq hroot',
    fun k => ?_⟩
  have hk := Follows.iterate_absent hfields.isPure t k
  have hk' := Follows.iterate_absent hfields.isPure t' k
  refine ⟨?_, ?_, fun hlt => ?_⟩
  · rw [hk.isDone_iff, List.drop_eq_nil_iff]
  · rw [hk'.isDone_iff, List.drop_eq_nil_iff, hlength]
  · have hlt' : k < t'.preorder.length := hlength ▸ hlt
    rw [List.drop_eq_getElem_cons hlt] at hk
    rw [List.drop_eq_getElem_cons hlt'] at hk'
    have hedits := hpairs.get hlt hlt'
    obtain ⟨path, hpath, hpath'⟩ := t.exists_common_path t' hpaths
      (List.getElem?_eq_getElem hlt) (List.getElem?_eq_getElem hlt')
    obtain ⟨kind, hkind, hkind', hinStep⟩ := step_edits hfield hfields hk hk' hedits
      (hlisted _ (List.getElem_mem hlt))
    exact ⟨path, _, _, kind, hpath, hpath', hedits, hkind, hkind', hinStep⟩

end Walk

namespace Sample

/-- Of mappings, only those that have a kind are edited. -/
def onlyNodes (v _ : Value) : Prop :=
  ∀ o entries, v = .dict o entries → ∃ kind, v.kind? (.str "type") = .ok (some kind)

/-- A row with a note and two cells. -/
def notedRow : Value :=
  node 0 "Row" [("note", .int 1), ("cells", .list ⟨1, none⟩ [placedPair, name])]

/-- The pair of the row with a null field in front. -/
def loosePair : Value :=
  .dict ⟨2, none⟩ [("mark", .null), ("type", .str "Pair"), ("left", name),
    ("right", .dict ⟨4, none⟩ [("line", .int 1)])]

/-- The row with another note, a hole between its cells, and a null field in its pair. -/
def editedRow : Value :=
  node 0 "Row" [("note", .str "new"), ("cells", .list ⟨1, none⟩ [loosePair, .null, name])]

theorem notedRow_edits : notedRow.Edits "type" rowTable onlyNodes editedRow := by
  let row (note : List (String × Value)) (items : List Value) : Value :=
    .dict ⟨0, none⟩ ([("type", .str "Row")] ++ (note ++ [("cells", .list ⟨1, none⟩ items)]))
  -- The note is removed, and another one is added.
  have hnote (w : Value) : (row [] [placedPair, name]).Edits "type" rowTable onlyNodes
      (row [("note", w)] [placedPair, name]) := by
    have hignores : (row [] [placedPair, name]).Ignores "type" rowTable "note" := by
      refine ⟨by decide, ?_⟩
      rintro spec (⟨⟩ | ⟨_, ⟨⟩⟩)
      rfl
    exact Value.Edit.edits (.add rfl (.inr hignores) fun _ _ _ => ⟨"Row", rfl⟩)
  have hcells {items items' : List Value}
      (h : Value.Edit "type" rowTable onlyNodes (.list ⟨1, none⟩ items) (.list ⟨1, none⟩ items')) :
      (row [("note", .str "new")] items).Edits "type" rowTable onlyNodes
        (row [("note", .str "new")] items') := by
    have hedit : Value.Edit "type" rowTable onlyNodes
        (.dict ⟨0, none⟩ ([("type", .str "Row"), ("note", .str "new")] ++
          [("cells", .list ⟨1, none⟩ items)]))
        (.dict ⟨0, none⟩ ([("type", .str "Row"), ("note", .str "new")] ++
          [("cells", .list ⟨1, none⟩ items')])) := .inside h
    exact hedit.edits
  have hhole : Value.Edit "type" rowTable onlyNodes (.list ⟨1, none⟩ ([placedPair] ++ [name]))
      (.list ⟨1, none⟩ ([placedPair] ++ .null :: [name])) := by
    apply Value.Edit.hole
    rintro o entries ⟨⟩
  have hmark : Value.Edit "type" rowTable onlyNodes placedPair loosePair :=
    @Value.Edit.add _ _ _ ⟨2, none⟩ [] _ "mark" .null rfl (.inl rfl) fun _ _ _ => ⟨"Pair", rfl⟩
  have hpair : Value.Edit "type" rowTable onlyNodes
      (.list ⟨1, none⟩ ([] ++ placedPair :: [.null, name]))
      (.list ⟨1, none⟩ ([] ++ loosePair :: [.null, name])) := .item hmark
  exact (hnote (.int 1)).symm.trans
    ((hnote (.str "new")).trans ((hcells hhole).trans (hcells hpair)))

end Sample

namespace Walk

/-- Both walks take the row, the pair with its two parts, and the name, and neither fails. -/
theorem step_iterate_edits_notedRow :
    Sample.notedRow.Edits "type" Sample.rowTable Sample.onlyNodes Sample.editedRow ∧
      ∃ (w w' : Walk Unit) (n : Nat), start Sample.rows .absent Sample.notedRow = .ok w ∧
        start Sample.rows .absent Sample.editedRow = .ok w' ∧ ∀ k,
          ((advance^[k] ⟨⟨Sample.rows, ()⟩, w⟩).walk.isDone = true ↔ n ≤ k) ∧
          ((advance^[k] ⟨⟨Sample.rows, ()⟩, w'⟩).walk.isDone = true ↔ n ≤ k) ∧
          (k < n → ∃ v v', v.Edits "type" Sample.rowTable Sample.onlyNodes v' ∧
            (step (advance^[k] ⟨⟨Sample.rows, ()⟩, w⟩)).result = .ok (some v) ∧
            (step (advance^[k] ⟨⟨Sample.rows, ()⟩, w'⟩)).result = .ok (some v')) := by
  let scene : Scene Unit := ⟨Sample.rows, ()⟩
  have hfields : scene.registry.IsByFields Sample.rowTable := Registry.isByFields_of_rules rfl
  let t : Unfolding scene.kids Sample.notedRow :=
    { below :=
        .cons Sample.placedPair
          (.cons Sample.name .nil (.cons (.dict ⟨4, none⟩ [("line", .int 1)]) .nil .nil))
          (.cons Sample.name .nil .nil)
      roots_below := rfl
      unfolds_below := ⟨rfl, ⟨rfl, trivial, rfl, trivial, trivial⟩, rfl, trivial, trivial⟩ }
  have hlists (v : Value) (hv : Visits ⟨scene, ⟨[Sample.notedRow], .absent⟩⟩ v) :
      v.HasLists "type" Sample.rowTable := by
    have hmem := (Follows.iterate_absent hfields.isPure t 0).mem_of_visits trivial hfields.isPure hv
    simp only [t, Unfolding.preorder, Forest.preorder, List.drop_zero, List.cons_append,
      List.nil_append, List.mem_cons, List.not_mem_nil, or_false] at hmem
    intro spec hspec
    obtain rfl | rfl | rfl | rfl | rfl := hmem
    · obtain rfl : spec = .many (.str "cells") := List.mem_singleton.1 hspec
      rintro w ⟨⟩
      exact .inr ⟨_, _, rfl⟩
    · obtain rfl | rfl : spec = .one (.str "left") ∨ spec = .one (.str "right") := by
        simpa using List.mem_cons.1 hspec
      · trivial
      · trivial
    all_goals exact absurd hspec List.not_mem_nil
  have hnames : ¬ ∃ e ∈ Sample.rowTable, ∃ spec ∈ e.2, spec.hasTextName = false := by
    simp [Sample.rowTable, FieldSpec.hasTextName]
  obtain ⟨w, w', n, hstart, hstart', hwalks⟩ :=
    step_iterate_edits scene rfl hfields Sample.onlyNodes Sample.notedRow_edits rfl hlists
  refine ⟨Sample.notedRow_edits, w, w', n, hstart, hstart', fun k => ?_⟩
  obtain ⟨hdone, hdone', htaken⟩ := hwalks k
  refine ⟨hdone, hdone', fun hk => ?_⟩
  obtain ⟨path, v, v', kind, -, -, hedits, -, -, hinStep⟩ := htaken hk
  generalize (step (advance^[k] ⟨scene, w⟩)).result = r at hinStep ⊢
  generalize (step (advance^[k] ⟨scene, w'⟩)).result = r' at hinStep ⊢
  cases hinStep with
  | node => exact ⟨v, v', hedits, rfl, rfl⟩
  | failed _ hname => exact absurd hname hnames

end Walk

end RuleWalk
