import RuleWalk.Proofs.Value.Parts
import RuleWalk.Proofs.Value.Sharing
import RuleWalk.Proofs.Value.Structure
import RuleWalk.Sample.Trees

/-!
# Trees that rules by fields cover

The nodes of a tree of tagged mappings can be counted without rules, by a look at every field of
every mapping. Rules look at the fields that they name. The two find the same nodes where each
tagged mapping is read once: such a tree is covered. What the rule of a covered mapping finds are
the tagged mappings right below it, in the order of the rule and not of the entries.
-/

namespace RuleWalk

/-! ## Tagged mappings -/

namespace Value

/-- A mapping that has a tag. -/
def isTagged : Value → Bool
  | dict _ entries => Sample.isTagged entries
  | _ => false

/-- The tagged mappings that stand in a field: the value itself, or those among the items of a
list. -/
def tagged : Value → List Value
  | list _ items => items.filter isTagged
  | v => if v.isTagged then [v] else []

/-- The second value is the first, or stands in it at any depth. -/
def Contains : Value → Value → Prop := Relation.ReflTransGen fun v w => w ∈ v.parts

variable {v w : Value} {o : Origin} {items : List Value} {entries : List (String × Value)}

theorem exists_dict_of_isTagged (h : v.isTagged = true) :
    ∃ o entries, v = dict o entries ∧ Sample.isTagged entries = true := by
  cases v with
  | dict o entries => exact ⟨o, entries, rfl, h⟩
  | _ => cases h

theorem tagged_of_isTagged (h : v.isTagged = true) : v.tagged = [v] := by
  obtain ⟨o, entries, rfl, -⟩ := exists_dict_of_isTagged h
  rw [tagged, if_pos h]
  rintro o items ⟨⟩

theorem isTagged_of_mem_tagged (h : w ∈ v.tagged) : w.isTagged = true := by
  unfold tagged at h
  split at h
  · exact (List.mem_filter.1 h).2
  · split at h
    · next hv => rwa [List.mem_singleton.1 h]
    · cases h

/-- What is tagged in a field stands in it. -/
theorem contains_of_mem_tagged (h : w ∈ v.tagged) : v.Contains w := by
  unfold tagged at h
  split at h
  · exact .single (List.mem_filter.1 h).1
  · split at h
    · rw [List.mem_singleton.1 h]
      exact .refl
    · cases h

theorem hasDistinctKeys_of_mem_tagged (hv : v.hasDistinctKeys = true) (h : w ∈ v.tagged) :
    w.hasDistinctKeys = true := by
  unfold tagged at h
  split at h
  · rw [hasDistinctKeys, haveDistinctKeys_iff] at hv
    exact hv w (List.mem_filter.1 h).1
  · split at h
    · rwa [List.mem_singleton.1 h]
    · cases h

/-- A field in which tagged mappings stand holds one, or a list with one. -/
theorem tagged_eq_nil_or (v : Value) :
    v.tagged = [] ∨ v.isTagged = true ∨
      ∃ o items, v = list o items ∧ ∃ w ∈ items, w.isTagged = true := by
  cases v with
  | list o items =>
    by_cases h : ∃ w ∈ items, w.isTagged = true
    · exact .inr (.inr ⟨o, items, rfl, h⟩)
    · left
      rw [tagged, List.filter_eq_nil_iff]
      exact fun w hw hw' => h ⟨w, hw, hw'⟩
  | dict o entries =>
    cases h : (dict o entries).isTagged with
    | true => exact .inr (.inl rfl)
    | false =>
      left
      rw [tagged, h]
      · rfl
      · rintro o items ⟨⟩
  | _ => exact .inl rfl

end Value

/-- Where the items are tagged or null, the present ones are the tagged ones. -/
theorem Scene.present_eq_filter {items : List Value}
    (h : ∀ v ∈ items, v.isTagged = true ∨ v = .null) :
    Scene.present items = items.filter Value.isTagged := by
  refine List.filter_congr fun v hv => ?_
  rcases h v hv with hv | rfl
  · rw [hv]
    obtain ⟨o, entries, rfl, -⟩ := Value.exists_dict_of_isTagged hv
    rfl
  · rfl

/-! ## Counting without rules -/

namespace Sample

/-- How many tagged mappings there are, and how many of them stand inside each other at most. -/
@[ext] structure Extent where
  nodes : Nat
  levels : Nat

namespace Extent

/-- The extent of what stands side by side. -/
def add (a b : Extent) : Extent := ⟨a.nodes + b.nodes, max a.levels b.levels⟩

/-- The extent with one mapping around. -/
def nest (e : Extent) : Extent := ⟨1 + e.nodes, 1 + e.levels⟩

theorem add_comm (a b : Extent) : a.add b = b.add a :=
  Extent.ext (Nat.add_comm _ _) (Nat.max_comm _ _)

theorem zero_add (a : Extent) : add ⟨0, 0⟩ a = a :=
  Extent.ext (Nat.zero_add _) (Nat.zero_max _)

/-- What is counted, if there is room for all levels. -/
def within (e : Extent) (room : Nat) : Except Fault Nat :=
  if e.levels ≤ room then .ok e.nodes else .error (.tooDeep .calls)

end Extent

/-- The count comes to all of the extent or fails for want of room. -/
def Counts (count : Nat → Except Fault Nat) (e : Extent) : Prop :=
  ∀ room, count room = e.within room

/-- One count after the other. -/
def added (f g : Nat → Except Fault Nat) (room : Nat) : Except Fault Nat := do
  let n ← f room
  return n + (← g room)

variable {f g h : Nat → Except Fault Nat} {a b e : Extent}

theorem added_assoc : added (added f g) h = added f (added g h) := by
  funext room
  simp only [added, bind, Except.bind, pure, Except.pure]
  rcases f room with e | n
  · rfl
  · rcases g room with e | m
    · rfl
    · rcases h room with e | k
      · rfl
      · simp only [Nat.add_assoc]

theorem zero_added : added (fun _ => .ok 0) f = f := by
  funext room
  simp only [added, bind, Except.bind, pure, Except.pure]
  cases f room with
  | error e => rfl
  | ok n => simp only [Nat.zero_add]

/-- A count comes to one number only. -/
theorem Counts.nodes_eq (ha : Counts f a) (hb : Counts f b) : a.nodes = b.nodes := by
  have hroom := (ha (max a.levels b.levels)).symm.trans (hb (max a.levels b.levels))
  rw [Extent.within, Extent.within, if_pos (Nat.le_max_left _ _),
    if_pos (Nat.le_max_right _ _)] at hroom
  exact Except.ok.inj hroom

theorem counts_zero : Counts (fun _ => .ok 0) ⟨0, 0⟩ := fun room => by
  rw [Extent.within, if_pos (Nat.zero_le room)]

/-- Side by side, both counts must find room. -/
theorem Counts.added (hf : Counts f a) (hg : Counts g b) : Counts (added f g) (a.add b) := by
  intro room
  rw [Sample.added, hf room, hg room, Extent.within, Extent.within, Extent.within, Extent.add]
  by_cases ha : a.levels ≤ room
  · by_cases hb : b.levels ≤ room
    · rw [if_pos ha, if_pos hb, if_pos (Nat.max_le.2 ⟨ha, hb⟩)]
      rfl
    · rw [if_pos ha, if_neg hb, if_neg fun h => hb (Nat.max_le.1 h).2]
      rfl
  · rw [if_neg ha, if_neg fun h => ha (Nat.max_le.1 h).1]
    rfl

/-- A call takes one level. -/
theorem Counts.call (hf : Counts f e) : Counts (fun room => countCall room f) e.nest := by
  intro room
  cases room with
  | zero =>
    have hlevels : ¬e.nest.levels ≤ 0 := by simp [Extent.nest]
    rw [Extent.within, if_neg hlevels]
    rfl
  | succ room =>
    have hlevels : e.nest.levels ≤ room + 1 ↔ e.levels ≤ room := by
      simp only [Extent.nest]
      omega
    change (f room).map (1 + ·) = _
    rw [hf room, Extent.within, Extent.within]
    simp only [hlevels]
    split <;> rfl

/-- Counts that come to an extent can be made in any order. -/
theorem Counts.added_comm (hf : Counts f a) (hg : Counts g b) :
    Sample.added f g = Sample.added g f := by
  funext room
  rw [hf.added hg room, hg.added hf room, Extent.add_comm]

/-! ### Counting items and entries -/

theorem countItems_nil : countItems [] = fun _ => .ok 0 := by
  funext room
  rw [countItems]

theorem countItems_cons (v : Value) (vs : List Value) :
    countItems (v :: vs) = added (countItems [v]) (countItems vs) := by
  funext room
  cases v with
  | dict o entries =>
    cases h : isTagged entries with
    | true =>
      simp only [added, countItems, h, if_true, bind, Except.bind, pure, Except.pure]
      cases countCall room (countEntries entries) <;> rfl
    | false => simp [added, countItems, h, bind, Except.bind, pure, Except.pure]
  | _ => simp [added, countItems, bind, Except.bind, pure, Except.pure]

theorem countItems_append (vs ws : List Value) :
    countItems (vs ++ ws) = added (countItems vs) (countItems ws) := by
  induction vs with
  | nil => rw [countItems_nil, List.nil_append, zero_added]
  | cons v vs ih =>
    rw [List.cons_append, countItems_cons, ih, countItems_cons v vs, added_assoc]

/-- What is not tagged does not count. -/
theorem countItems_of_not_tagged {v : Value} (h : v.isTagged = false) :
    countItems [v] = fun _ => .ok 0 := by
  funext room
  cases v with
  | dict o entries =>
    rw [Value.isTagged] at h
    simp [countItems, h, bind, Except.bind, pure, Except.pure]
  | _ => rfl

/-- A tagged mapping takes a call. -/
theorem countItems_of_tagged {o : Origin} {entries : List (String × Value)}
    (h : isTagged entries = true) :
    countItems [.dict o entries] = fun room => countCall room (countEntries entries) := by
  funext room
  simp only [countItems, h, if_true, bind, Except.bind, pure, Except.pure]
  cases countCall room (countEntries entries) <;> rfl

theorem countItems_filter (vs : List Value) :
    countItems (vs.filter Value.isTagged) = countItems vs := by
  induction vs with
  | nil => rfl
  | cons v vs ih =>
    rw [countItems_cons, List.filter_cons]
    split
    · rw [countItems_cons, ih]
    · next h => rw [ih, countItems_of_not_tagged (by simpa using h), zero_added]

theorem countBelow_eq (v : Value) : countBelow v = countItems v.tagged := by
  cases v with
  | list o items =>
    rw [Value.tagged, countItems_filter]
    funext room
    rw [countBelow]
  | dict o entries =>
    rw [Value.tagged]
    · funext room
      rw [countBelow, Value.isTagged]
      split
      · next h => rw [countItems_of_tagged h]
      · rw [countItems_nil]
    · rintro o items ⟨⟩
  | _ => rfl

/-- The entries of a mapping count as the tagged mappings that stand in them. -/
theorem countEntries_eq (entries : List (String × Value)) :
    countEntries entries = countItems (entries.flatMap fun e => e.2.tagged) := by
  induction entries with
  | nil => rfl
  | cons e es ih =>
    rw [List.flatMap_cons, countItems_append, ← ih, ← countBelow_eq]
    rfl

theorem countItems_singleton (v : Value) :
    countItems [v] = if v.isTagged then countBelow v else fun _ => .ok 0 := by
  split
  · next h => rw [countBelow_eq, Value.tagged_of_isTagged h]
  · next h => exact countItems_of_not_tagged (by simpa using h)

theorem exists_counts_items {vs : List Value} (h : ∀ v ∈ vs, ∃ e, Counts (countBelow v) e) :
    ∃ e, Counts (countItems vs) e := by
  induction vs with
  | nil => exact ⟨_, countItems_nil ▸ counts_zero⟩
  | cons v vs ih =>
    obtain ⟨⟨e, he⟩, hvs⟩ := List.forall_mem_cons.1 h
    obtain ⟨e', he'⟩ := ih hvs
    rw [countItems_cons, countItems_singleton]
    split
    · exact ⟨_, he.added he'⟩
    · exact ⟨_, counts_zero.added he'⟩

theorem exists_counts_entries {es : List (String × Value)}
    (h : ∀ v ∈ es.map Prod.snd, ∃ e, Counts (countBelow v) e) :
    ∃ e, Counts (countEntries es) e := by
  induction es with
  | nil => exact ⟨_, counts_zero⟩
  | cons entry es ih =>
    obtain ⟨⟨e, he⟩, hes⟩ := List.forall_mem_cons.1 h
    obtain ⟨e', he'⟩ := ih hes
    exact ⟨_, he.added he'⟩

/-- The count of any value comes to some extent. -/
theorem exists_counts (v : Value) : ∃ e, Counts (countBelow v) e := by
  refine v.induction_parts fun v ih => ?_
  cases v with
  | dict o entries =>
    obtain ⟨e, he⟩ : ∃ e, Counts (countEntries entries) e := exists_counts_entries ih
    cases h : isTagged entries with
    | false => exact ⟨_, fun room => by rw [countBelow, h, ← counts_zero room]; rfl⟩
    | true => exact ⟨_, fun room => by rw [countBelow, if_pos h, ← he.call room]⟩
  | list o items =>
    obtain ⟨e, he⟩ : ∃ e, Counts (countItems items) e := exists_counts_items ih
    exact ⟨e, fun room => by rw [countBelow, he room]⟩
  | _ => exact ⟨_, counts_zero⟩

/-- The count does not depend on the order. -/
theorem countItems_perm {vs ws : List Value} (h : vs.Perm ws) : countItems vs = countItems ws := by
  induction h with
  | nil => rfl
  | cons v _ ih => rw [countItems_cons, ih, ← countItems_cons]
  | swap v w vs =>
    obtain ⟨e, he⟩ := exists_counts_items (List.forall_mem_singleton.2 (exists_counts v))
    obtain ⟨e', he'⟩ := exists_counts_items (List.forall_mem_singleton.2 (exists_counts w))
    rw [countItems_cons w, countItems_cons v vs, countItems_cons v (w :: vs), countItems_cons w vs,
      ← added_assoc, ← added_assoc, he'.added_comm he]
  | trans _ _ ih ih' => exact ih.trans ih'

theorem counts_dict {o : Origin} {entries : List (String × Value)} (h : isTagged entries = true)
    (he : Counts (countItems (entries.flatMap fun e => e.2.tagged)) e) :
    Counts (countItems [.dict o entries]) e.nest := by
  rw [← countEntries_eq] at he
  rw [countItems_of_tagged h]
  exact he.call

end Sample

/-! ## Coverage -/

namespace FieldSpec

/-- Specifications read the fields of a mapping in such a way that each tagged mapping in them is
read once. A field that holds a tagged mapping is read by one of them, as a whole. A field that
holds a list with tagged mappings is read by one, item by item, and all other items are null. What
else is read is missing or null, or it is read item by item and has no item that is not null. -/
structure Covers (specs : List FieldSpec) (entries : List (String × Value)) : Prop where
  single : ∀ e ∈ entries, e.2.isTagged = true → specs.filter (isNamed e.1) = [one (.str e.1)]
  listed : ∀ e ∈ entries, ∀ o items, e.2 = .list o items → (∃ v ∈ items, v.isTagged = true) →
    specs.filter (isNamed e.1) = [many (.str e.1)] ∧ ∀ v ∈ items, v.isTagged = true ∨ v = .null
  other : ∀ spec ∈ specs, ∀ a, spec.isNamed a = true → ∀ v, entries.lookup a = some v →
    v.tagged = [] → v = .null ∨
      ∃ o items, spec = many (.str a) ∧ v = .list o items ∧ ∀ w ∈ items, w = .null

/-- The tagged mappings in the field that is named. -/
def gathers (entries : List (String × Value)) : FieldSpec → List Value
  | one (.str a) | many (.str a) => (entries.lookup a).elim [] Value.tagged
  | _ => []

variable {specs : List FieldSpec} {spec spec' : FieldSpec} {entries : List (String × Value)}
  {a : String}

theorem gathers_of_isNamed (h : spec.isNamed a = true) :
    spec.gathers entries = (entries.lookup a).elim [] Value.tagged := by
  obtain rfl | rfl := eq_of_isNamed h <;> rfl

theorem eq_of_filter_isNamed (h : specs.filter (isNamed a) = [spec']) (hspec : spec ∈ specs)
    (ha : spec.isNamed a = true) : spec = spec' := by
  have hmem : spec ∈ specs.filter (isNamed a) := List.mem_filter.2 ⟨hspec, ha⟩
  rw [h] at hmem
  exact List.mem_singleton.1 hmem

/-! ### Reading covered fields -/

theorem slots_of_null (ha : spec.isNamed a = true) (h : (entries.lookup a).getD .null = .null)
    (o : Origin) : ∃ vs, spec.slots (.dict o entries) = .ok vs ∧ Scene.present vs = [] := by
  obtain rfl | rfl := eq_of_isNamed ha
  · exact ⟨[.null], by simp [slots, Value.getField, h, Except.map], rfl⟩
  · exact ⟨[], by simp [slots, Value.getList, Value.getField, h], rfl⟩

theorem slots_of_items {o' : Origin} {items : List Value}
    (h : entries.lookup a = some (.list o' items)) (o : Origin) :
    (many (.str a)).slots (.dict o entries) = .ok items := by
  simp [slots, Value.getList, Value.getField, h, Value.iterate]

/-- Each field of a covered mapping can be read, and what is read are the tagged mappings in it. -/
theorem Covers.slots (h : Covers specs entries) (hspec : spec ∈ specs) (ha : spec.isNamed a = true)
    (o : Origin) :
    ∃ vs, spec.slots (.dict o entries) = .ok vs ∧ Scene.present vs = spec.gathers entries := by
  rw [gathers_of_isNamed ha]
  cases hlookup : entries.lookup a with
  | none => exact slots_of_null ha (by rw [hlookup]; rfl) o
  | some v =>
    have hmem : (a, v) ∈ entries := mem_of_lookup hlookup
    obtain htagged | hv | ⟨o', items, rfl, hitems⟩ := v.tagged_eq_nil_or
    · obtain rfl | ⟨o', items, rfl, rfl, hnull⟩ := h.other spec hspec a ha v hlookup htagged
      · exact slots_of_null ha (by rw [hlookup]; rfl) o
      · exact ⟨items, slots_of_items hlookup o,
          Scene.present_eq_filter fun w hw => .inr (hnull w hw)⟩
    · obtain rfl := eq_of_filter_isNamed (h.single _ hmem hv) hspec ha
      refine ⟨[v], by simp [FieldSpec.slots, Value.getField, hlookup, Except.map], ?_⟩
      rw [Option.elim_some, Value.tagged_of_isTagged hv, Scene.present_eq_filter (by simp [hv])]
      simp [hv]
    · obtain ⟨hread, hall⟩ := h.listed _ hmem o' items rfl hitems
      obtain rfl := eq_of_filter_isNamed hread hspec ha
      exact ⟨items, slots_of_items hlookup o, Scene.present_eq_filter hall⟩

/-- Fields that can be read one by one can be read together. -/
theorem allSlots_of_slots {v : Value} {g : FieldSpec → List Value}
    (h : ∀ spec ∈ specs, ∃ vs, spec.slots v = .ok vs ∧ Scene.present vs = g spec) :
    ∃ slots, allSlots v specs = .ok slots ∧ Scene.present slots = specs.flatMap g := by
  induction specs with
  | nil => exact ⟨[], rfl, rfl⟩
  | cons spec specs ih =>
    obtain ⟨vs, hvs, hg⟩ := h spec List.mem_cons_self
    obtain ⟨slots, hslots, hgs⟩ := ih fun spec' hspec' => h spec' (List.mem_cons_of_mem spec hspec')
    refine ⟨vs ++ slots, by simp [allSlots, hvs, hslots, Except.map], ?_⟩
    rw [List.flatMap_cons, ← hg, ← hgs]
    exact List.filter_append _ _

/-! ### Reading each field once -/

variable {w : Value} {es : List (String × Value)}

theorem gathers_cons_of_not_named (h : spec.isNamed a = false) :
    spec.gathers ((a, w) :: es) = spec.gathers es := by
  rcases spec with name | name <;> cases name with
  | str b =>
    have hne : (b == a) = false := h
    simp only [gathers, List.lookup_cons, hne]
  | _ => rfl

/-- The specifications with the name of the first entry gather what is tagged in it, once. -/
theorem flatMap_gathers_named
    (hread : w.tagged ≠ [] → ∃ spec, specs.filter (isNamed a) = [spec]) :
    (specs.filter (isNamed a)).flatMap (gathers ((a, w) :: es)) = w.tagged := by
  have hgathers {spec : FieldSpec} (h : spec ∈ specs.filter (isNamed a)) :
      spec.gathers ((a, w) :: es) = w.tagged := by
    rw [gathers_of_isNamed (List.mem_filter.1 h).2, List.lookup_cons_self, Option.elim_some]
  by_cases htagged : w.tagged = []
  · rw [htagged, List.flatMap_eq_nil_iff]
    exact fun spec hspec => (hgathers hspec).trans htagged
  · obtain ⟨spec, hspec⟩ := hread htagged
    have hself : spec ∈ specs.filter (isNamed a) := hspec ▸ List.mem_singleton_self spec
    rw [hspec, List.flatMap_singleton, hgathers hself]

/-- The others gather from the other entries. -/
theorem flatMap_gathers_unnamed :
    (specs.filter fun spec => !isNamed a spec).flatMap (gathers ((a, w) :: es)) =
      (specs.filter fun spec => !isNamed a spec).flatMap (gathers es) := by
  refine List.flatMap_congr fun spec hspec => gathers_cons_of_not_named ?_
  simpa using (List.mem_filter.1 hspec).2

theorem filter_isNamed_unnamed {b : String} (h : b ≠ a) :
    (specs.filter fun spec => !isNamed a spec).filter (isNamed b) = specs.filter (isNamed b) := by
  rw [List.filter_filter]
  refine List.filter_congr fun spec _ => ?_
  have hne : (b == a) = false := beq_false_of_ne h
  cases hspec : spec.isNamed b with
  | false => rfl
  | true => obtain rfl | rfl := eq_of_isNamed hspec <;> simp [isNamed, hne]

/-- If each field with tagged mappings is read once, all of them are gathered, in another order. -/
theorem flatMap_gathers_perm (hkeys : (entries.map Prod.fst).Nodup)
    (hread : ∀ e ∈ entries, e.2.tagged ≠ [] → ∃ spec, specs.filter (isNamed e.1) = [spec]) :
    (specs.flatMap (gathers entries)).Perm (entries.flatMap fun e => e.2.tagged) := by
  -- The first entry is read by the fields of its name, and the others do not see it.
  induction entries generalizing specs with
  | nil =>
    have hnil : specs.flatMap (gathers []) = [] := by
      rw [List.flatMap_eq_nil_iff]
      intro spec _
      rcases spec with name | name <;> cases name <;> rfl
    rw [hnil]
    exact .nil
  | cons e es ih =>
    obtain ⟨a, w⟩ := e
    obtain ⟨hnew, hkeys⟩ := List.nodup_cons.1 hkeys
    have hnamed : (specs.filter (isNamed a)).flatMap (gathers ((a, w) :: es)) = w.tagged :=
      flatMap_gathers_named (hread (a, w) List.mem_cons_self)
    have hothers : ((specs.filter fun spec => !isNamed a spec).flatMap
        (gathers ((a, w) :: es))).Perm (es.flatMap fun e => e.2.tagged) := by
      rw [flatMap_gathers_unnamed]
      refine ih hkeys fun e he htagged => ?_
      have hne : e.1 ≠ a := by
        rintro rfl
        exact hnew (List.mem_map.2 ⟨e, he, rfl⟩)
      rw [filter_isNamed_unnamed hne]
      exact hread e (List.mem_cons_of_mem _ he) htagged
    have hsplit := (List.filter_append_perm (isNamed a) specs).flatMap_right
      (gathers ((a, w) :: es))
    rw [List.flatMap_append, hnamed] at hsplit
    exact hsplit.symm.trans (hothers.append_left w.tagged)

theorem Covers.exists_spec (h : Covers specs entries) {e : String × Value} (he : e ∈ entries)
    (htagged : e.2.tagged ≠ []) : ∃ spec, specs.filter (isNamed e.1) = [spec] := by
  obtain hnil | hv | ⟨o, items, hlist, hitems⟩ := e.2.tagged_eq_nil_or
  · exact absurd hnil htagged
  · exact ⟨_, h.single e he hv⟩
  · exact ⟨_, (h.listed e he o items hlist hitems).1⟩

/-- A covered mapping can be read, and its children are the tagged mappings right below it. -/
theorem Covers.allSlots (h : Covers specs entries) (hkeys : (entries.map Prod.fst).Nodup)
    (hnames : ∀ spec ∈ specs, spec.hasTextName = true) (o : Origin) :
    ∃ slots, allSlots (.dict o entries) specs = .ok slots ∧
      (Scene.present slots).Perm (entries.flatMap fun e => e.2.tagged) := by
  obtain ⟨slots, hslots, hpresent⟩ := allSlots_of_slots fun spec hspec => by
    obtain ⟨a, ha⟩ := exists_isNamed (hnames spec hspec)
    exact h.slots hspec ha o
  refine ⟨slots, hslots, ?_⟩
  rw [hpresent]
  exact flatMap_gathers_perm hkeys fun e he => h.exists_spec he

end FieldSpec

/-- The catalogue names all fields by texts. -/
theorem Catalogue.hasTextName : ∀ e ∈ Catalogue.table, ∀ spec ∈ e.2, spec.hasTextName = true := by
  decide

/-! ## Covered trees -/

namespace Value

/-- No mapping in the value has a key twice, and the rules of a table cover each tagged mapping in
it: its kind is a text that is not empty, and its fields are covered by what the rule of the kind
reads. A kind without a rule reads nothing. -/
structure IsSuited (table : List (String × List FieldSpec)) (v : Value) : Prop where
  distinct : v.hasDistinctKeys = true
  mappings : ∀ o entries tag, v.Contains (dict o entries) → entries.lookup "type" = some tag →
    ∃ k, k ≠ "" ∧ tag = str k ∧ FieldSpec.Covers ((table.lookup k).getD []) entries

/-- The tree of a tagged mapping that the rules of a table cover. -/
structure IsCovered (table : List (String × List FieldSpec)) (root : Value) : Prop extends
    IsSuited table root where
  tagged : root.isTagged = true

variable {table : List (String × List FieldSpec)} {v w : Value} {o : Origin} {items : List Value}
  {entries : List (String × Value)}

/-- A covered tree is a mapping with a kind whose rule covers it. -/
theorem IsCovered.exists_kind (h : v.IsCovered table) :
    ∃ o entries k, v = dict o entries ∧ (entries.map Prod.fst).Nodup ∧ k ≠ "" ∧
      entries.lookup "type" = some (str k) ∧
      FieldSpec.Covers ((table.lookup k).getD []) entries := by
  obtain ⟨o, entries, rfl, htag⟩ := exists_dict_of_isTagged h.tagged
  obtain ⟨tag, htag⟩ := Option.isSome_iff_exists.1 htag
  obtain ⟨k, hk, rfl, hcovers⟩ := h.mappings o entries tag .refl htag
  exact ⟨o, entries, k, rfl, (hasDistinctKeys_dict_iff.1 h.distinct).1, hk, htag, hcovers⟩

/-- What is right below a covered tree is covered. -/
theorem IsCovered.of_mem_tagged (h : (dict o entries).IsCovered table)
    (hw : w ∈ entries.flatMap fun e => e.2.tagged) : w.IsCovered table := by
  obtain ⟨e, he, hw⟩ := List.mem_flatMap.1 hw
  have hcontains : (dict o entries).Contains w :=
    (contains_of_mem_tagged hw).head (List.mem_map_of_mem he)
  exact
    { distinct := hasDistinctKeys_of_mem_tagged ((hasDistinctKeys_dict_iff.1 h.distinct).2 e he) hw
      mappings := fun o' entries' tag hdict => h.mappings o' entries' tag (hcontains.trans hdict)
      tagged := isTagged_of_mem_tagged hw }

/-! ### Building covered trees -/

/-- A value is suited if its parts are, and if it is covered itself where it is tagged. -/
theorem isSuited_of_parts (hdistinct : v.hasDistinctKeys = true)
    (hown : ∀ o entries tag, v = dict o entries → entries.lookup "type" = some tag →
      ∃ k, k ≠ "" ∧ tag = str k ∧ FieldSpec.Covers ((table.lookup k).getD []) entries)
    (hparts : ∀ w ∈ v.parts, w.IsSuited table) : v.IsSuited table where
  distinct := hdistinct
  mappings := by
    intro o entries tag hcontains htag
    obtain hself | ⟨w, hw, hcontains⟩ := hcontains.cases_head
    · exact hown o entries tag hself htag
    · exact (hparts w hw).mappings o entries tag hcontains htag

theorem isSuited_str (s : String) : (str s).IsSuited table :=
  isSuited_of_parts rfl (by rintro _ _ _ ⟨⟩) (List.forall_mem_nil _)

theorem isSuited_int (n : Int) : (int n).IsSuited table :=
  isSuited_of_parts rfl (by rintro _ _ _ ⟨⟩) (List.forall_mem_nil _)

theorem isSuited_null : null.IsSuited table :=
  isSuited_of_parts rfl (by rintro _ _ _ ⟨⟩) (List.forall_mem_nil _)

theorem isSuited_list (o : Origin) (h : ∀ v ∈ items, v.IsSuited table) :
    (list o items).IsSuited table := by
  refine isSuited_of_parts ?_ (by rintro _ _ _ ⟨⟩) h
  rw [hasDistinctKeys, haveDistinctKeys_iff]
  exact fun v hv => (h v hv).distinct

end Value

namespace FieldSpec

/-- How specifications may read the field `a` when it holds a value: not at all if there is no
tagged mapping in it; in any way if it is null; as a whole if it is tagged; item by item if it is a
list of tagged mappings and nulls. -/
inductive Suits (specs : List FieldSpec) (a : String) : Value → Prop where
  | unread {v : Value} (htagged : v.tagged = []) (hread : specs.filter (isNamed a) = []) :
      Suits specs a v
  | null : Suits specs a .null
  | whole {v : Value} (htagged : v.isTagged = true)
      (hread : specs.filter (isNamed a) = [one (.str a)]) : Suits specs a v
  | items {o : Origin} {items : List Value} (hitems : ∀ v ∈ items, v.isTagged = true ∨ v = .null)
      (hread : specs.filter (isNamed a) = [many (.str a)]) : Suits specs a (.list o items)

/-- Fields that are suited one by one are covered. -/
theorem covers_of_suits {specs : List FieldSpec} {entries : List (String × Value)}
    (h : ∀ e ∈ entries, Suits specs e.1 e.2) : Covers specs entries where
  single := by
    intro e he htagged
    have hsuits := h e he
    generalize e.2 = v at hsuits htagged
    cases hsuits with
    | unread hnil hread =>
      rw [Value.tagged_of_isTagged htagged] at hnil
      cases hnil
    | null => cases htagged
    | whole _ hread => exact hread
    | items hitems hread => cases htagged
  listed := by
    intro e he o items hlist hsome
    have hsuits := h e he
    rw [hlist] at hsuits
    cases hsuits with
    | unread hnil hread =>
      obtain ⟨v, hv, htagged⟩ := hsome
      exact absurd htagged (List.filter_eq_nil_iff.1 hnil v hv)
    | whole htagged hread => cases htagged
    | items hitems hread => exact ⟨hread, hitems⟩
  other := by
    intro spec hspec a ha v hlookup hnil
    have hread : spec ∈ specs.filter (isNamed a) := List.mem_filter.2 ⟨hspec, ha⟩
    cases h (a, v) (mem_of_lookup hlookup) with
    | unread _ hunread =>
      rw [hunread] at hread
      cases hread
    | null => exact .inl rfl
    | whole htagged _ =>
      rw [Value.tagged_of_isTagged htagged] at hnil
      cases hnil
    | items hitems hmany =>
      refine .inr ⟨_, _, eq_of_filter_isNamed hmany hspec ha, rfl, fun w hw => ?_⟩
      exact (hitems w hw).resolve_left (List.filter_eq_nil_iff.1 hnil w hw)

end FieldSpec

/-! ## Synthetic trees -/

namespace Sample

variable {table : List (String × List FieldSpec)} {n i : Nat} {kind : String}
  {fields : List (String × Value)} {v : Value}

/-- A node is covered if its fields have distinct names and hold values that are suited, and the
rule of its kind reads them as they want to be read. -/
theorem isCovered_node (hkind : kind ≠ "") (hkeys : ("type" :: fields.map Prod.fst).Nodup)
    (htype : ((table.lookup kind).getD []).filter (FieldSpec.isNamed "type") = [])
    (hfields : ∀ e ∈ fields,
      FieldSpec.Suits ((table.lookup kind).getD []) e.1 e.2 ∧ e.2.IsSuited table) :
    (node n kind fields).IsCovered table where
  toIsSuited := by
    have hcovers : FieldSpec.Covers ((table.lookup kind).getD []) (("type", .str kind) :: fields) :=
      FieldSpec.covers_of_suits
        (List.forall_mem_cons.2 ⟨.unread rfl htype, fun e he => (hfields e he).1⟩)
    refine Value.isSuited_of_parts ?_ ?_ ?_
    · refine Value.hasDistinctKeys_dict_iff.2 ⟨hkeys, List.forall_mem_cons.2 ⟨rfl, ?_⟩⟩
      exact fun e he => (hfields e he).2.distinct
    · rintro o entries tag ⟨⟩ htag
      cases htag
      exact ⟨kind, hkind, rfl, hcovers⟩
    · refine List.forall_mem_map.2 (List.forall_mem_cons.2 ⟨Value.isSuited_str kind, ?_⟩)
      exact fun e he => (hfields e he).2
  tagged := rfl

/-- A kind without a rule covers one plain field. -/
theorem isCovered_plain {name : String} (hkind : kind ≠ "") (hname : name ≠ "type")
    (hrule : table.lookup kind = none) (hv : v.IsSuited table) (htagged : v.tagged = []) :
    (node n kind [(name, v)]).IsCovered table := by
  refine isCovered_node hkind (by simpa using hname.symm) ?_ (List.forall_mem_singleton.2 ⟨?_, hv⟩)
  · rw [hrule]
    rfl
  · rw [hrule]
    exact .unread htagged rfl

theorem isCovered_identifier (n : Nat) (name : String) :
    (node n "Identifier" [("name", .str name)]).IsCovered Catalogue.table :=
  isCovered_plain (by decide) (by decide) rfl (Value.isSuited_str name) rfl

theorem isCovered_literal (n : Nat) (value : Int) :
    (node n "Literal" [("value", .int value)]).IsCovered Catalogue.table :=
  isCovered_plain (by decide) (by decide) rfl (Value.isSuited_int value) rfl

/-- An expression makes a statement. -/
theorem isCovered_expressionStatement (n : Nat) (h : v.IsCovered Catalogue.table) :
    (node n "ExpressionStatement" [("expression", v)]).IsCovered Catalogue.table :=
  isCovered_node (by decide) (by simp) rfl
    (List.forall_mem_singleton.2 ⟨.whole h.tagged rfl, h.toIsSuited⟩)

/-- Statements make a program. -/
theorem isCovered_program {o : Origin} {statements : List Value} (n : Nat)
    (h : ∀ v ∈ statements, v.IsCovered Catalogue.table) :
    (node n "Program" [("body", .list o statements)]).IsCovered Catalogue.table := by
  refine isCovered_node (by decide) (by simp) rfl (List.forall_mem_singleton.2 ⟨?_, ?_⟩)
  · exact .items (fun v hv => .inl (h v hv).tagged) rfl
  · exact Value.isSuited_list o fun v hv => (h v hv).toIsSuited

theorem isCovered_statement (n i : Nat) : (statement n i).IsCovered Catalogue.table := by
  have hname := isCovered_identifier (n + 2) ("f" ++ toString i)
  have hvalue := isCovered_literal (n + 4) i
  refine isCovered_expressionStatement n (isCovered_node (by decide) (by simp) rfl ?_)
  refine List.forall_mem_cons.2 ⟨⟨.whole hname.tagged rfl, hname.toIsSuited⟩, ?_⟩
  refine List.forall_mem_singleton.2 ⟨.items ?_ rfl, Value.isSuited_list _ ?_⟩
  · exact List.forall_mem_singleton.2 (.inl hvalue.tagged)
  · exact List.forall_mem_singleton.2 hvalue.toIsSuited

theorem isCovered_wide (size : Nat) : (wide size).IsCovered Catalogue.table :=
  isCovered_program 0 (List.forall_mem_map.2 fun i _ => isCovered_statement (5 * i + 2) i)

theorem isCovered_negations (n depth : Nat) (h : v.IsCovered Catalogue.table) :
    (negations n depth v).IsCovered Catalogue.table := by
  induction depth generalizing n v with
  | zero => exact h
  | succ depth ih =>
    refine ih (n + 1) (isCovered_node (by decide) (by simp) rfl ?_)
    refine List.forall_mem_cons.2 ⟨⟨.unread rfl rfl, Value.isSuited_str "!"⟩, ?_⟩
    exact List.forall_mem_singleton.2 ⟨.whole h.tagged rfl, h.toIsSuited⟩

theorem isCovered_deep (depth : Nat) : (deep depth).IsCovered Catalogue.table := by
  have hchain := isCovered_negations 4 depth (isCovered_identifier 3 "x")
  exact isCovered_program 0 (List.forall_mem_singleton.2 (isCovered_expressionStatement 2 hchain))

/-! ### Their counts -/

theorem countNodes_of_tagged (h : v.isTagged = true) (room : Nat) :
    countNodes room v = countBelow v room := by
  obtain ⟨o, entries, rfl, htagged⟩ := Value.exists_dict_of_isTagged h
  rw [countNodes, countBelow, if_pos htagged]

theorem counts_plain (h : v.tagged = []) : Counts (countBelow v) ⟨0, 0⟩ := by
  rw [countBelow_eq, h, countItems_nil]
  exact counts_zero

/-- A node counts as what stands in its fields, with one call around it. -/
theorem counts_node {e : Extent} (n : Nat) (kind : String) (h : Counts (countEntries fields) e) :
    Counts (countBelow (node n kind fields)) e.nest := by
  have htagged : isTagged (("type", .str kind) :: fields) = true := rfl
  have htag : countEntries (("type", .str kind) :: fields) = countEntries fields := by
    rw [countEntries_eq, countEntries_eq]
    rfl
  intro room
  rw [node, countBelow, if_pos htagged, htag]
  exact h.call room

theorem counts_fields {a b : Extent} {es : List (String × Value)} (name : String)
    (hv : Counts (countBelow v) a) (hes : Counts (countEntries es) b) :
    Counts (countEntries ((name, v) :: es)) (a.add b) := hv.added hes

theorem counts_field {e : Extent} (name : String) (h : Counts (countBelow v) e) :
    Counts (countEntries [(name, v)]) e := by
  have hfields : Counts (countEntries [(name, v)]) (e.add ⟨0, 0⟩) :=
    counts_fields name h counts_zero
  rwa [Extent.add_comm, Extent.zero_add] at hfields

theorem counts_list {e : Extent} {items : List Value} (o : Origin)
    (h : Counts (countItems items) e) : Counts (countBelow (.list o items)) e := h

theorem counts_item {e : Extent} (htagged : v.isTagged = true) (h : Counts (countBelow v) e) :
    Counts (countItems [v]) e := by
  rwa [countItems_singleton, if_pos htagged]

theorem counts_items_of_forall {vs : List Value} {k d : Nat}
    (h : ∀ v ∈ vs, Counts (countItems [v]) ⟨k, d⟩) :
    Counts (countItems vs) ⟨k * vs.length, if vs = [] then 0 else d⟩ := by
  induction vs with
  | nil => exact counts_zero
  | cons v vs ih =>
    obtain ⟨hv, hvs⟩ := List.forall_mem_cons.1 h
    have hsum := hv.added (ih hvs)
    have hextent : Extent.add ⟨k, d⟩ ⟨k * vs.length, if vs = [] then 0 else d⟩ =
        ⟨k * (v :: vs).length, if v :: vs = [] then 0 else d⟩ := by
      refine Extent.ext ?_ ?_
      · rw [Extent.add, List.length_cons, Nat.mul_succ, Nat.add_comm]
      · cases vs <;> simp [Extent.add]
    rw [countItems_cons, ← hextent]
    exact hsum

theorem counts_statement (n i : Nat) : Counts (countItems [statement n i]) ⟨4, 3⟩ := by
  have hname := counts_node (n + 2) "Identifier"
    (counts_field "name" (counts_plain (v := .str ("f" ++ toString i)) rfl))
  have hvalue := counts_node (n + 4) "Literal"
    (counts_field "value" (counts_plain (v := .int i) rfl))
  have hlist := counts_field "arguments" (counts_list ⟨n + 3, none⟩ (counts_item rfl hvalue))
  have hcall := counts_node (n + 1) "CallExpression" (counts_fields "callee" hname hlist)
  exact counts_item rfl (counts_node n "ExpressionStatement" (counts_field "expression" hcall))

theorem counts_wide (size : Nat) :
    Counts (countBelow (wide size)) ⟨4 * size + 1, if size = 0 then 1 else 4⟩ := by
  have hstatements : ∀ v ∈ (List.range size).map fun i => statement (5 * i + 2) i,
      Counts (countItems [v]) ⟨4, 3⟩ :=
    List.forall_mem_map.2 fun i _ => counts_statement (5 * i + 2) i
  have hitems := counts_items_of_forall hstatements
  have hextent : Extent.nest ⟨4 * ((List.range size).map fun i => statement (5 * i + 2) i).length,
      if (List.range size).map (fun i => statement (5 * i + 2) i) = [] then 0 else 3⟩ =
      ⟨4 * size + 1, if size = 0 then 1 else 4⟩ := by
    refine Extent.ext ?_ ?_
    · simp [Extent.nest, Nat.add_comm]
    · cases size <;> simp [Extent.nest]
  rw [← hextent]
  exact counts_node 0 "Program" (counts_field "body" (counts_list _ hitems))

theorem counts_negations {e : Extent} (n depth : Nat) (h : Counts (countBelow v) e) :
    Counts (countBelow (negations n depth v)) ⟨depth + e.nodes, depth + e.levels⟩ := by
  induction depth generalizing n v e with
  | zero => simpa [negations] using h
  | succ depth ih =>
    have hfields := counts_fields "operator" (counts_plain (v := .str "!") rfl)
      (counts_field "argument" h)
    rw [Extent.zero_add] at hfields
    have hchain := ih (n + 1) (counts_node n "UnaryExpression" hfields)
    have hextent : (⟨depth + e.nest.nodes, depth + e.nest.levels⟩ : Extent) =
        ⟨depth + 1 + e.nodes, depth + 1 + e.levels⟩ :=
      Extent.ext (Nat.add_assoc _ _ _).symm (Nat.add_assoc _ _ _).symm
    rw [← hextent]
    exact hchain

theorem counts_deep (depth : Nat) : Counts (countBelow (deep depth)) ⟨depth + 3, depth + 3⟩ := by
  have hname := counts_node 3 "Identifier" (counts_field "name" (counts_plain (v := .str "x") rfl))
  have hchain := counts_field "expression" (counts_negations 4 depth hname)
  have hitem := counts_item rfl (counts_node 2 "ExpressionStatement" hchain)
  have hprogram := counts_node 0 "Program" (counts_field "body" (counts_list ⟨1, none⟩ hitem))
  have hextent : Extent.nest (Extent.nest ⟨depth + 1, depth + 1⟩) = ⟨depth + 3, depth + 3⟩ := by
    refine Extent.ext ?_ ?_ <;> simp only [Extent.nest] <;> omega
  rw [← hextent]
  exact hprogram

end Sample

end RuleWalk
