import Mathlib.Logic.Relation
import RuleWalk.Proofs.Value.Sharing
import RuleWalk.Proofs.Walk.Conversion
import RuleWalk.Proofs.Walk.Paths

/-!
# How often a walk gives a node

A walk gives a node once for each path that leads to it, in the order of the paths. A container that
stands in one place only can be read from one place only, so a walk over a value without sharing,
by rules that name no field twice, gives no container twice. It gives the containers that can be
reached by reading.

What can be read of an attribute node is what it was given, and its operations. The attributes that
every object has besides, such as `__dict__`, are left out: by way of `__dict__` a container that
stands in one field could be read from two places.
-/

namespace RuleWalk

/-! ## Reached nodes -/

namespace Forest

variable {kids : Value → List Value} {f : Forest} {v w : Value}

theorem mem_preorder_of_mem_roots (h : v ∈ f.roots) : v ∈ f.preorder := by
  induction f with
  | nil => cases h
  | cons u c s _ ihs =>
    rw [preorder, List.mem_cons, List.mem_append]
    rcases List.mem_cons.1 h with h | h
    · exact .inl h
    · exact .inr (.inr (ihs h))

/-- With a node, its children are listed. -/
theorem Unfolds.mem_preorder (hf : f.Unfolds kids) (hv : v ∈ f.preorder) (hw : w ∈ kids v) :
    w ∈ f.preorder := by
  induction f with
  | nil => cases hv
  | cons u c s ihc ihs =>
    obtain ⟨hroots, hc, hs⟩ := hf
    rw [preorder, List.mem_cons, List.mem_append] at hv ⊢
    rcases hv with rfl | hv | hv
    · exact .inr (.inl (mem_preorder_of_mem_roots (hroots ▸ hw)))
    · exact .inr (.inl (ihc hc hv))
    · exact .inr (.inr (ihs hs hv))

/-- A node that is listed is reached from a root. -/
theorem Unfolds.reached (hf : f.Unfolds kids) (hv : v ∈ f.preorder) :
    ∃ u ∈ f.roots, Relation.ReflTransGen (fun a b => b ∈ kids a) u v := by
  induction f with
  | nil => cases hv
  | cons u c s ihc ihs =>
    obtain ⟨hroots, hc, hs⟩ := hf
    rw [preorder, List.mem_cons, List.mem_append] at hv
    rcases hv with rfl | hv | hv
    · exact ⟨v, List.mem_cons_self, .refl⟩
    · obtain ⟨r, hr, hreach⟩ := ihc hc hv
      exact ⟨u, List.mem_cons_self, .head (hroots ▸ hr) hreach⟩
    · obtain ⟨r, hr, hreach⟩ := ihs hs hv
      exact ⟨r, List.mem_cons_of_mem u hr, hreach⟩

end Forest

/-- The listing has the nodes that are reached from the root. -/
theorem Unfolding.mem_preorder_iff {kids : Value → List Value} {root : Value}
    (t : Unfolding kids root) (v : Value) :
    v ∈ t.preorder ↔ Relation.ReflTransGen (fun a b => b ∈ kids a) root v := by
  constructor
  · intro hv
    rcases List.mem_cons.1 hv with rfl | hv
    · exact .refl
    · obtain ⟨u, hu, hreach⟩ := t.unfolds_below.reached hv
      exact .head (t.roots_below ▸ hu) hreach
  · intro hreach
    induction hreach with
    | refl => exact List.mem_cons_self
    | tail _ hw hv =>
      rcases List.mem_cons.1 hv with rfl | hv
      · exact List.mem_cons_of_mem _ (Forest.mem_preorder_of_mem_roots (t.roots_below ▸ hw))
      · exact List.mem_cons_of_mem _ (t.unfolds_below.mem_preorder hv hw)

/-! ## Reading -/

theorem FieldSpec.mem_allSlots {v w : Value} {specs : List FieldSpec} {slots : List Value}
    (h : allSlots v specs = .ok slots) :
    w ∈ slots ↔ ∃ spec ∈ specs, ∃ vs, spec.slots v = .ok vs ∧ w ∈ vs := by
  induction specs generalizing slots with
  | nil =>
    cases h
    simp
  | cons spec specs ih =>
    rw [allSlots] at h
    cases hspec : spec.slots v with
    | error e => rw [hspec] at h; cases h
    | ok vs =>
      rw [hspec] at h
      cases hrest : allSlots v specs with
      | error e => rw [hrest] at h; cases h
      | ok ws =>
        rw [hrest] at h
        cases h
        rw [List.mem_append, ih hrest]
        simp [hspec]

namespace Scene

variable {σ : Type} {scene : Scene σ} {table : List (String × List FieldSpec)} {v w : Value}

/-- A node is read by the fields of its kind: it gives what stands in a field, or the items of what
stands there. Null is nothing. -/
inductive Reads (scene : Scene σ) (table : List (String × List FieldSpec)) (v : Value) :
    Value → Prop where
  | whole {kind : String} {specs : List FieldSpec} {name w : Value}
      (hkind : scene.registry.kindOf v = .ok (some kind)) (hspecs : table.lookup kind = some specs)
      (hname : .one name ∈ specs) (hfield : v.getField name = .ok w) (hnull : w ≠ .null) :
      Reads scene table v w
  | item {kind : String} {specs : List FieldSpec} {name l w : Value} {items : List Value}
      (hkind : scene.registry.kindOf v = .ok (some kind)) (hspecs : table.lookup kind = some specs)
      (hname : .many name ∈ specs) (hfield : v.getField name = .ok l)
      (hitems : l.iterate = .ok items) (hmem : w ∈ items) (hnull : w ≠ .null) :
      Reads scene table v w

/-- Children are read. -/
theorem reads_of_mem_kids (hfields : scene.registry.IsByFields table) (h : w ∈ scene.kids v) :
    scene.Reads table v w := by
  obtain hnil | ⟨kind, specs, slots, hkind, hspecs, hslots, hkids⟩ := kids_cases hfields v
  · rw [hnil] at h
    cases h
  · have hnull : w ≠ .null := fun hw => null_notMem_present slots (hw ▸ hkids ▸ h)
    rw [hkids, present, List.mem_filter, FieldSpec.mem_allSlots hslots] at h
    obtain ⟨⟨spec, hspec, vs, hvs, hw⟩, -⟩ := h
    cases spec with
    | one name =>
      rw [FieldSpec.slots] at hvs
      cases hget : v.getField name with
      | error e => rw [hget] at hvs; cases hvs
      | ok u =>
        rw [hget] at hvs
        cases hvs
        cases List.mem_singleton.1 hw
        exact .whole hkind hspecs hspec hget hnull
    | many name =>
      rw [FieldSpec.slots] at hvs
      cases hget : v.getField name with
      | error e => rw [Value.getList, hget] at hvs; cases hvs
      | ok l =>
        by_cases hl : l = .null
        · rw [Value.getList, hget, hl] at hvs
          cases hvs
          cases hw
        · rw [Value.getList_of_ne_null hget hl] at hvs
          exact .item hkind hspecs hspec hget hvs hw hnull

/-- What is read at a node that can be expanded is a child of it. -/
theorem Reads.mem_kids (hfields : scene.registry.IsByFields table)
    (hexpands : ∃ slots, (slotsOf v scene).result = .ok slots) (h : scene.Reads table v w) :
    w ∈ scene.kids v := by
  obtain ⟨slots, hslots⟩ := hexpands
  have hkids : scene.kids v = present slots := by rw [kids, hslots]
  have hall {kind : String} {specs : List FieldSpec}
      (hkind : scene.registry.kindOf v = .ok (some kind))
      (hspecs : table.lookup kind = some specs) : FieldSpec.allSlots v specs = .ok slots := by
    have hrule := hfields kind
    rw [hspecs] at hrule
    rw [slotsOf_of_fields hkind hrule] at hslots
    exact hslots
  rw [hkids, present, List.mem_filter]
  cases h with
  | whole hkind hspecs hname hfield hnull =>
    refine ⟨(FieldSpec.mem_allSlots (hall hkind hspecs)).2 ⟨_, hname, [w], ?_, by simp⟩, ?_⟩
    · rw [FieldSpec.slots, hfield]
      rfl
    · simpa [← Value.isNull_iff] using hnull
  | @item kind specs name l _ items hkind hspecs hname hfield hitems hmem hnull =>
    have hl : l ≠ .null := by
      rintro rfl
      cases hitems
    refine ⟨(FieldSpec.mem_allSlots (hall hkind hspecs)).2 ⟨_, hname, items, ?_, hmem⟩, ?_⟩
    · rw [FieldSpec.slots, Value.getList_of_ne_null hfield hl, hitems]
    · simpa [← Value.isNull_iff] using hnull

end Scene

/-- The listing has what is reached by reading, where all nodes can be expanded. -/
theorem Unfolding.mem_preorder_iff_reads {σ : Type} {scene : Scene σ}
    {table : List (String × List FieldSpec)} (hfields : scene.registry.IsByFields table)
    {root : Value} (t : Unfolding scene.kids root)
    (hexpands : ∀ v ∈ t.preorder, ∃ slots, (Scene.slotsOf v scene).result = .ok slots)
    (v : Value) : v ∈ t.preorder ↔ Relation.ReflTransGen (scene.Reads table) root v := by
  constructor
  · intro hv
    exact Relation.ReflTransGen.mono (fun _ _ => Scene.reads_of_mem_kids hfields) _ _
      ((t.mem_preorder_iff v).1 hv)
  · intro hreach
    induction hreach with
    | refl => exact List.mem_cons_self
    | tail _ hreads hu =>
      have hkid := hreads.mem_kids hfields (hexpands _ hu)
      exact (t.mem_preorder_iff _).2 (((t.mem_preorder_iff _).1 hu).tail hkid)

/-- No container of a value without sharing is listed twice. -/
theorem Unfolding.nodup_serials {σ : Type} {scene : Scene σ}
    {table : List (String × List FieldSpec)} (hfields : scene.registry.IsByFields table)
    (hnodup : ∀ e ∈ table, e.2.Nodup) {root : Value} (hroot : root.serials.Nodup)
    (t : Unfolding scene.kids root) : (t.preorder.filterMap Value.serial?).Nodup := by
  have hsub := t.flatMap_subperm (Scene.kids_subperm hfields hnodup)
  rw [← List.filterMap_eq_flatMap_toList] at hsub
  obtain ⟨l, hperm, hl⟩ := hsub.trans root.holdings_sublist.subperm
  exact hperm.nodup_iff.1 (hroot.sublist hl)

/-- No rule of the catalogue names a field twice. -/
theorem Catalogue.table_nodup : ∀ e ∈ Catalogue.table, e.2.Nodup := by
  have htexts : ∀ e ∈ Catalogue.table, (e.2.map FieldSpec.text).Nodup := by decide +kernel
  exact fun e he => (htexts e he).of_map

namespace Walk

variable {σ : Type}

/-- A walk gives a node for each path of child positions that leads to one, in the order of the
paths, so it gives a node as often as there are paths to it. Over a value without sharing, by rules
that name no field twice, it gives no container twice, and it gives what can be reached by reading.
The rules need to be pure, and must not fail at the nodes of the tree. -/
theorem step_iterate_eq_paths (scene : Scene σ) (root : Value) {kind : String}
    (hroot : scene.registry.kindOf root = .ok (some kind))
    (hrules : scene.registry.AllRules Rule.IsPure) (t : Unfolding scene.kids root)
    (hexpands : ∀ v ∈ t.preorder, ∃ slots, (Scene.slotsOf v scene).result = .ok slots) :
    ∃ (w : Walk σ) (items : List Value) (paths : List (List Nat)),
      start scene.registry .absent root = .ok w ∧
      (∀ k, (step (advance^[k] ⟨scene, w⟩)).result = .ok items[k]?) ∧
      (∀ path, path ∈ paths ↔ (follow scene.kids root path).isSome) ∧
      paths.Pairwise (· < ·) ∧ paths.map (follow scene.kids root) = items.map some ∧
      (∀ q : Value → Bool, items.countP q =
        Set.ncard {path | ∃ v, follow scene.kids root path = some v ∧ q v = true}) ∧
      (∀ table, scene.registry.IsByFields table → (∀ e ∈ table, e.2.Nodup) →
        root.serials.Nodup →
        (items.filterMap Value.serial?).Nodup ∧
          (∀ v, v ∈ items ↔ Relation.ReflTransGen (scene.Reads table) root v) ∧
          ∀ v n, Relation.ReflTransGen (scene.Reads table) root v → v.serial? = some n →
            (items.filterMap Value.serial?).count n = 1) ∧
      (Registry.standard scene.registry.kindField : Registry σ).IsByFields Catalogue.table ∧
      ∀ e ∈ Catalogue.table, e.2.Nodup := by
  refine ⟨⟨[root], .absent⟩, t.preorder, t.paths, start_eq hroot, fun k => ?_, t.mem_paths_iff,
    t.pairwise_paths, t.map_follow, t.countP_preorder, fun table hfields hnodup hserials => ?_,
    Registry.isByFields_of_rules rfl, Catalogue.table_nodup⟩
  · have habsent : (Hook.absent : Hook (Predicate σ)).All Predicate.IsPure := trivial
    have hstart := @Follows.start σ .absent scene root trivial hrules t
    have hk := hstart.iterate habsent hrules k
    rw [hk.step_result_of_expands habsent hrules fun v hv => hexpands v (List.mem_of_mem_drop hv),
      List.head?_drop]
  · have honce := t.nodup_serials hfields hnodup hserials
    refine ⟨honce, t.mem_preorder_iff_reads hfields hexpands, fun v n hv hn => ?_⟩
    have hmem := (t.mem_preorder_iff_reads hfields hexpands v).2 hv
    exact List.count_eq_one_of_mem honce (List.mem_filterMap.2 ⟨v, hmem, hn⟩)

end Walk

/-- A row whose cells are a pair, a hole and a text. -/
def Sample.tidyRow : Value :=
  node 0 "Row" [("cells", .list ⟨1, none⟩ [placedPair, .null, letterRow])]

/-- The containers of a row are given once each. The list of its cells is read item by item and is
not given. -/
theorem Walk.step_iterate_eq_paths_tidyRow :
    Sample.tidyRow.serials.Nodup ∧
      ∃ (w : Walk Unit) (items : List Value),
        start Sample.rows .absent Sample.tidyRow = .ok w ∧
        (∀ k, (step (advance^[k] ⟨⟨Sample.rows, ()⟩, w⟩)).result = .ok items[k]?) ∧
        (items.filterMap Value.serial?).Nodup ∧
        (items.filterMap Value.serial?).count 3 = 1 := by
  let scene : Scene Unit := ⟨Sample.rows, ()⟩
  have hserials : Sample.tidyRow.serials.Nodup := by decide
  have hrules : (Sample.rows : Registry Unit).AllRules Rule.IsPure := by
    refine Registry.allRules_of_mem fun e he => ?_
    obtain ⟨row, -, rfl⟩ := List.mem_map.mp he
    exact Rule.ofFunction_isPure _ _
  let t : Unfolding scene.kids Sample.tidyRow :=
    { below :=
        .cons Sample.placedPair
          (.cons Sample.name .nil (.cons (.dict ⟨4, none⟩ [("line", .int 1)]) .nil .nil))
          (.cons Sample.letterRow
            (.cons (.str "a") .nil (.cons (.str "b") .nil .nil)) .nil)
      roots_below := rfl
      unfolds_below := ⟨rfl, ⟨rfl, trivial, rfl, trivial, trivial⟩, rfl,
        ⟨rfl, trivial, rfl, trivial, trivial⟩, trivial⟩ }
  have hexpands : ∀ v ∈ t.preorder, ∃ slots, (Scene.slotsOf v scene).result = .ok slots := by
    simp only [t, Unfolding.preorder, Forest.preorder, List.cons_append, List.nil_append,
      List.append_nil, List.mem_cons, List.not_mem_nil, or_false]
    rintro v (rfl | rfl | rfl | rfl | rfl | rfl | rfl) <;> exact ⟨_, rfl⟩
  obtain ⟨w, items, paths, hstart, hitems, -, -, -, -, htidy, -⟩ :=
    step_iterate_eq_paths scene Sample.tidyRow rfl hrules t hexpands
  obtain ⟨honce, -, hreached⟩ := htidy Sample.rowTable (Registry.isByFields_of_rules rfl)
    (by simp [Sample.rowTable]) hserials
  refine ⟨hserials, w, items, hstart, hitems, honce, hreached Sample.name 3 ?_ rfl⟩
  -- The name is the left part of a pair that is an item of the cells.
  have hrow : scene.registry.kindOf Sample.tidyRow = .ok (some "Row") := rfl
  have hpair : scene.registry.kindOf Sample.placedPair = .ok (some "Pair") := rfl
  have hcell : scene.Reads Sample.rowTable Sample.tidyRow Sample.placedPair :=
    .item hrow rfl List.mem_cons_self rfl rfl List.mem_cons_self (by rintro ⟨⟩)
  have hleft : scene.Reads Sample.rowTable Sample.placedPair Sample.name :=
    .whole hpair rfl List.mem_cons_self rfl (by rintro ⟨⟩)
  exact (Relation.ReflTransGen.single hcell).tail hleft

end RuleWalk
