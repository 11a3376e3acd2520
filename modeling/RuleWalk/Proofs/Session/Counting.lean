import RuleWalk.Proofs.Session.Census
import RuleWalk.Proofs.Session.Plain
import RuleWalk.Proofs.Value.Coverage
import RuleWalk.Proofs.Walk.Ending

/-!
# Three ways to count the nodes of a tree

The nodes of a tree can be counted by a look at every field of every mapping, by a walk that is
drawn to its end, and by a query. The first goes through the entries of a mapping as they stand, and
the others through the fields that the rule of its kind names. On a tree that the rules cover, all
three come to the same number: no rule fails there, and the unfolding of the tree has as many nodes
as there are tagged mappings. But the first calls itself for each of them and fails where the tree
is higher than there is room for calls, and the others do not.
-/

namespace RuleWalk

/-! ## Covered trees unfold -/

namespace Scene

variable {σ : Type} {scene : Scene σ} {table : List (String × List FieldSpec)} {v w root : Value}

/-- The scene finds kinds under their tags, and its rules read the fields of the table. -/
structure ReadsBy (scene : Scene σ) (table : List (String × List FieldSpec)) : Prop where
  kindField : scene.registry.kindField = .str "type"
  fields : scene.registry.IsByFields table
  names : ∀ e ∈ table, ∀ spec ∈ e.2, spec.hasTextName = true

namespace ReadsBy

theorem kindOf (h : scene.ReadsBy table) {o : Origin} {entries : List (String × Value)} {k : String}
    (hk : k ≠ "") (htag : entries.lookup "type" = some (.str k)) :
    scene.registry.kindOf (.dict o entries) = .ok (some k) := by
  simp [Registry.kindOf, h.kindField, Value.kind?, Value.getField, htag, hk]

theorem exists_kindOf (h : scene.ReadsBy table) (hv : v.IsCovered table) :
    ∃ k, scene.registry.kindOf v = .ok (some k) := by
  obtain ⟨o, entries, k, rfl, -, hk, htag, -⟩ := hv.exists_kind
  exact ⟨k, h.kindOf hk htag⟩

/-- The rule of a covered mapping does not fail, and finds the tagged mappings right below it. -/
theorem slotsOf (h : scene.ReadsBy table) {o : Origin} {entries : List (String × Value)}
    (hv : (Value.dict o entries).IsCovered table) :
    ∃ slots, (Scene.slotsOf (.dict o entries) scene).result = .ok slots ∧
      (present slots).Perm (entries.flatMap fun e => e.2.tagged) := by
  obtain ⟨_, _, k, heq, hkeys, hk, htag, hcovers⟩ := hv.exists_kind
  cases heq
  have hkind : scene.registry.kindOf (.dict o entries) = _ := h.kindOf hk htag
  have hrule := h.fields k
  cases hspecs : table.lookup k with
  | none =>
    rw [hspecs] at hrule hcovers
    obtain ⟨slots, hslots, hperm⟩ := hcovers.allSlots hkeys (List.forall_mem_nil _) o
    cases hslots
    refine ⟨[], ?_, hperm⟩
    rw [slotsOf_result, hkind]
    simp only [hrule, Option.map_none]
  | some specs =>
    rw [hspecs] at hrule hcovers
    obtain ⟨slots, hslots, hperm⟩ := hcovers.allSlots hkeys (h.names _ (mem_of_lookup hspecs)) o
    refine ⟨slots, ?_, hperm⟩
    rw [slotsOf_of_fields hkind hrule]
    exact hslots

theorem kids_perm (h : scene.ReadsBy table) {o : Origin} {entries : List (String × Value)}
    (hv : (Value.dict o entries).IsCovered table) :
    (scene.kids (.dict o entries)).Perm (entries.flatMap fun e => e.2.tagged) := by
  obtain ⟨slots, hslots, hperm⟩ := h.slotsOf hv
  rw [kids, hslots]
  exact hperm

theorem isCovered_of_mem_kids (h : scene.ReadsBy table) (hv : v.IsCovered table)
    (hw : w ∈ scene.kids v) : w.IsCovered table := by
  obtain ⟨o, entries, -, rfl, -⟩ := hv.exists_kind
  exact hv.of_mem_tagged ((h.kids_perm hv).mem_iff.1 hw)

/-- No rule fails at a node of a covered tree. -/
theorem slotsOf_of_mem_preorder (h : scene.ReadsBy table) (hroot : root.IsCovered table)
    (t : Unfolding scene.kids root) (hv : v ∈ t.preorder) :
    ∃ slots, (Scene.slotsOf v scene).result = .ok slots := by
  have hcovered : v.IsCovered table := by
    rw [t.mem_preorder_iff] at hv
    induction hv with
    | refl => exact hroot
    | tail _ hw ih => exact h.isCovered_of_mem_kids ih hw
  obtain ⟨o, entries, -, rfl, -⟩ := hcovered.exists_kind
  obtain ⟨slots, hslots, -⟩ := h.slotsOf hcovered
  exact ⟨slots, hslots⟩

/-- From the roots of a forest of covered trees on, as many mappings are counted as it has nodes, in
as many calls inside each other as it is high. -/
theorem counts_roots (h : scene.ReadsBy table) {f : Forest} (hf : f.Unfolds scene.kids)
    (hroots : ∀ v ∈ f.roots, v.IsCovered table) :
    Sample.Counts (Sample.countItems f.roots) ⟨f.preorder.length, f.height⟩ := by
  induction f with
  | nil => exact Sample.counts_zero
  | cons v c s ihc ihs =>
    obtain ⟨hc, hcf, hsf⟩ := hf
    have hv := hroots v List.mem_cons_self
    have hbelow := ihc hcf fun w hw => h.isCovered_of_mem_kids hv (hc ▸ hw)
    have hbeside := ihs hsf fun w hw => hroots w (List.mem_cons_of_mem v hw)
    obtain ⟨o, entries, rfl, htag⟩ := Value.exists_dict_of_isTagged hv.tagged
    -- The children stand in the order of the rule, which does not matter to their count.
    rw [hc, Sample.countItems_perm (h.kids_perm hv)] at hbelow
    have hboth := (Sample.counts_dict (o := o) htag hbelow).added hbeside
    have hextent : (Sample.Extent.nest ⟨c.preorder.length, c.height⟩).add
        ⟨s.preorder.length, s.height⟩ =
        ⟨(Forest.cons (.dict o entries) c s).preorder.length,
          (Forest.cons (.dict o entries) c s).height⟩ := by
      refine Sample.Extent.ext ?_ ?_
      · simp only [Sample.Extent.add, Sample.Extent.nest, Forest.preorder, List.length_cons,
          List.length_append]
        omega
      · simp only [Sample.Extent.add, Sample.Extent.nest, Forest.height, Nat.add_comm]
    rw [Forest.roots, Sample.countItems_cons, ← hextent]
    exact hboth

/-- The count without rules comes to the number of nodes of the unfolding, if there is room for its
height. -/
theorem counts_below (h : scene.ReadsBy table) (hroot : root.IsCovered table)
    (t : Unfolding scene.kids root) :
    Sample.Counts (Sample.countBelow root) ⟨t.preorder.length, t.height⟩ := by
  have hcounts := h.counts_roots t.unfolds_below fun v hv =>
    h.isCovered_of_mem_kids hroot (t.roots_below ▸ hv)
  obtain ⟨o, entries, rfl, htag⟩ := Value.exists_dict_of_isTagged hroot.tagged
  rw [t.roots_below, Sample.countItems_perm (h.kids_perm hroot)] at hcounts
  have hextent : Sample.Extent.nest ⟨t.below.preorder.length, t.below.height⟩ =
      ⟨t.preorder.length, t.height⟩ :=
    Sample.Extent.ext (Nat.add_comm _ _) (Nat.add_comm _ _)
  rw [Sample.countBelow_eq, Value.tagged_of_isTagged hroot.tagged, ← hextent]
  exact Sample.counts_dict htag hcounts

end ReadsBy

end Scene

/-! ## Walks that never fail -/

namespace Walk

variable {σ : Type} {scene : Scene σ} {l : List Value} {s : Stage σ}

/-- The nodes lie ahead of a walk without a test, and no rule fails at any of them. -/
structure Clear (scene : Scene σ) (l : List Value) (s : Stage σ) : Prop extends
    Follows .absent scene l s where
  expands : ∀ v ∈ l, ∃ slots, (Scene.slotsOf v scene).result = .ok slots

/-- Each request is answered with the next node, until there is none. -/
theorem Clear.next_answers (hrules : scene.registry.AllRules Rule.IsPure) (h : Clear scene l s) :
    Answers (Clear scene) (scan (fun _ => true) (fun _ => none) l) (next s) := by
  have habsent : (Hook.absent : Hook (Predicate σ)).All Predicate.IsPure := trivial
  have hstep : (step s).result = .ok l.head? :=
    h.step_result_of_expands habsent hrules fun v hv => by
      rw [expand_absent]
      exact h.expands v hv
  rw [next_apply, hstep]
  cases l with
  | nil => rfl
  | cons v l =>
    refine ⟨rfl, h.advance habsent hrules, fun w hw => ?_⟩
    exact h.expands w (List.mem_cons_of_mem v hw)

end Walk

/-- All of a covered tree lies ahead of a walk that starts at its root. -/
theorem Scene.ReadsBy.clear {σ : Type} {scene scene' : Scene σ}
    {table : List (String × List FieldSpec)} {root : Value} (h : scene.ReadsBy table)
    (hroot : root.IsCovered table) (t : Unfolding scene.kids root) (halike : scene'.Alike scene) :
    Walk.Clear scene t.preorder ⟨scene', ⟨[root], .absent⟩⟩ where
  alike := halike
  prune_eq := rfl
  ahead := by
    have hfound : (fun v => Walk.found .absent v scene) = scene.kids := by
      funext v
      rw [Walk.found, Walk.expand_absent]
      rfl
    rw [hfound]
    exact t.ahead
  expands := fun _ hv => h.slotsOf_of_mem_preorder hroot t hv

namespace Run

variable {σ : Type} {scene : Scene σ} {l : List Value} {s : Run σ}

/-- The nodes lie ahead of a run, which is alive while there are any. -/
structure Clear (scene : Scene σ) (l : List Value) (s : Run σ) : Prop where
  stage : Walk.Clear scene l s.toStage
  live : s.live = false → s.walk.fringe = []

/-- A run without options answers as its walk does. -/
theorem Clear.next_answers (hrules : scene.registry.AllRules Rule.IsPure)
    (hfield : scene.registry.HasTextField) (h : Clear scene l s) (fuel : Nat) :
    Answers (Clear scene) (scan (fun _ => true) (fun _ => none) l) (next {} (fuel + 1) s) := by
  have hanswer := h.stage.next_answers hrules
  obtain ⟨tally, live, hnext, hlive⟩ :=
    next_plain fuel (h.stage.alike.hasTextField hfield) h.live
  rw [hnext]
  cases l with
  | nil => exact hanswer
  | cons v l =>
    obtain ⟨hnode, hclear⟩ := hanswer
    refine ⟨hnode, hclear, fun hdead => ?_⟩
    have hlives : live = true := hlive.2 ⟨v, hnode⟩
    cases hlives.symm.trans hdead

theorem iterate_countTurn (hrules : scene.registry.AllRules Rule.IsPure)
    (hfield : scene.registry.HasTextField) (h : Clear scene l s) {g : Nat} (hg : l.length < g)
    (fuel n : Nat) :
    (Act.iterate (countTurn {} (fuel + 1)) g n s).result = .ok (.done (n + l.length)) := by
  -- On the requests: each leaves one node less ahead.
  induction g generalizing l s n with
  | zero => exact absurd hg (Nat.not_lt_zero _)
  | succ g ih =>
    have hanswer := h.next_answers hrules hfield fuel
    rw [Act.iterate_succ, Act.bind_apply, countTurn, Act.bind_apply]
    cases l with
    | nil =>
      have hstop : (next {} (fuel + 1) s).result = .ok .stop := hanswer
      simp only [hstop]
      rfl
    | cons v l =>
      obtain ⟨hnode, hclear⟩ := hanswer
      have hrest := ih hclear (Nat.lt_of_succ_lt_succ hg) (n + 1)
      rw [Nat.add_assoc, Nat.add_comm 1] at hrest
      simp only [hnode]
      exact hrest

/-- A run without options counts the nodes that lie ahead. -/
theorem count_of_clear (hrules : scene.registry.AllRules Rule.IsPure)
    (hfield : scene.registry.HasTextField) (h : Clear scene l s) {fuel : Nat}
    (hfuel : l.length < fuel) : (count {} fuel s).result = .ok l.length := by
  obtain ⟨k, rfl⟩ := Nat.exists_eq_succ_of_ne_zero (Nat.ne_of_gt (Nat.zero_lt_of_lt hfuel))
  have hturns := iterate_countTurn hrules hfield h hfuel k 0
  rw [count, Act.bind_apply, hturns, Nat.zero_add]
  rfl

end Run

/-- What is drawn where every item is wanted and none halts. -/
theorem harvest_all (l : List Value) :
    harvest (fun _ => true) (fun _ => none) none l = ⟨l, .stop⟩ := by
  induction l with
  | nil => rfl
  | cons v l ih =>
    rw [harvest]
    · simp [ih]
    · rintro ⟨⟩

/-! ## Sessions -/

namespace Session

variable {σ : Type} {s : Session σ} {registry : Option Nat} {scene : Scene σ} {root : Value}
  {l : List Value} {i r fuel : Nat}

/-- All nodes of a bare walk, drawn to the end. -/
def walkAll (registry : Option Nat) (root : Value) (fuel : Nat) :
    Act Entry (Session σ) Drained := do
  let i ← startWalk registry .absent root
  draw i none fuel

/-- The sequence `i` is a bare walk that the nodes lie ahead of. -/
def ClearWalk (i r : Nat) (scene : Scene σ) (l : List Value) (s : Session σ) : Prop :=
  r < s.registries.size ∧ ∃ w, s.cursor i = .walk r w ∧ Walk.Clear scene l ⟨s.scene r, w⟩

theorem ClearWalk.next_answers (hrules : scene.registry.AllRules Rule.IsPure)
    (h : ClearWalk i r scene l s) (fuel : Nat) :
    Answers (ClearWalk i r scene) (scan (fun _ => true) (fun _ => none) l) (next i fuel s) := by
  obtain ⟨hr, w, hcursor, hclear⟩ := h
  have hanswer := hclear.next_answers hrules
  rw [next_of_walk hcursor]
  cases l with
  | nil => exact hanswer
  | cons v l =>
    obtain ⟨hnode, hnext⟩ := hanswer
    rw [Walk.next_apply] at hnext
    refine ⟨hnode, by simpa [putScene, putCursor] using hr, _,
      cursor_putCursor _ (lt_of_cursor_walk hcursor), ?_⟩
    have hscene := scene_putScene (Walk.advance ⟨s.scene r, w⟩).toScene hr
    exact (congrArg (fun t => Walk.Clear scene l ⟨t, _⟩) hscene).mpr hnext

theorem draw_of_clearWalk (hrules : scene.registry.AllRules Rule.IsPure)
    (h : ClearWalk i r scene l s) (hfuel : l.length < fuel) :
    (draw i none fuel s).result = .ok ⟨l, .stop⟩ := by
  rw [draw, ← harvest_all l]
  exact drain_of_answers (fun _ _ hdue => hdue.next_answers hrules fuel) h hfuel

/-- A bare walk starts with the root. -/
theorem startWalk_eq {kind : String} (h : (s.registry r).kindOf root = .ok (some kind)) :
    startWalk (some r) .absent root s =
      ⟨.ok s.cursors.size,
        { s with cursors := s.cursors.push (.walk r ⟨[root], .absent⟩) }, []⟩ := by
  have hstart : Walk.start (s.registry r) .absent root = .ok ⟨[root], .absent⟩ := Walk.start_eq h
  have hwalk : startWalk (some r) .absent root s =
      (Act.ofExcept (Walk.start (s.registry r) .absent root) >>= fun w =>
        addCursor (.walk r w)) s := rfl
  rw [hwalk, hstart, Act.ofExcept_ok_bind]
  rfl

/-- The nodes of a covered tree are drawn from a walk in preorder. -/
theorem walkAll_of_readsBy {table : List (String × List FieldSpec)} (h : s.Offers registry scene)
    (hreads : scene.ReadsBy table) (hroot : root.IsCovered table) (t : Unfolding scene.kids root)
    (hfuel : t.preorder.length < fuel) :
    (walkAll registry root fuel s).result = .ok ⟨t.preorder, .stop⟩ := by
  obtain ⟨kind, hkind⟩ := hreads.exists_kindOf hroot
  have hstart := startWalk_eq (s := s.settled registry) ((h.alike.kindOf root).trans hkind)
  rw [← startWalk_settled] at hstart
  rw [walkAll, Act.bind_of_ok hstart, Outcome.after_result]
  refine draw_of_clearWalk hreads.fields.isPure ⟨h.registry_lt, ⟨[root], .absent⟩, ?_, ?_⟩ hfuel
  · simp [cursor]
  · exact hreads.clear hroot t h.alike

/-- The count of a covered tree is the number of nodes of its unfolding. -/
theorem count_of_readsBy {table : List (String × List FieldSpec)} (h : s.Offers registry scene)
    (hreads : scene.ReadsBy table) (hroot : root.IsCovered table) (t : Unfolding scene.kids root)
    (hfuel : t.preorder.length < fuel) :
    (count registry {} root fuel s).result = .ok t.preorder.length := by
  obtain ⟨kind, hkind⟩ := hreads.exists_kindOf hroot
  have hconfig : Options.config ({} : Options σ) = .ok {} := rfl
  have hmatches := runThrough_outset h rfl hkind hconfig fun c => Run.count c fuel
  rw [count, hmatches.result]
  refine Run.count_of_clear hreads.fields.isPure (Registry.hasTextField_of_kindOf hkind) ⟨?_, ?_⟩
    hfuel
  · exact hreads.clear hroot t h.alike
  · rintro ⟨⟩

/-! ## Agreement on the catalogue -/

/-- Calls that name the registry like this are answered by the rules of the catalogue. -/
def OffersCatalogue (s : Session σ) (registry : Option Nat) : Prop :=
  s.Offers registry ⟨.standard (.str "type"), s.user⟩

/-- A shared registry that is not there yet is made from the catalogue. -/
theorem offersCatalogue_of_unshared (h : s.shared = none) : s.OffersCatalogue none where
  alike := by
    rw [stageFor, settled, target, h]
    simp [scene, Session.registry, Registries.get_push_self, Registries.standard_eq,
      Scene.Alike.refl]
  registry_lt := by
    rw [settled, target, h]
    simp

/-- So is a registry that was just made with all its rules. -/
theorem offersCatalogue_standardRegistry (s : Session σ) :
    (standardRegistry (.str "type") s).state.OffersCatalogue (some s.registries.size) where
  alike := by
    simp [stageFor, settled, target, standardRegistry, addRegistry, scene, Session.registry,
      Registries.get_push_self, Registries.standard_eq, Scene.Alike.refl]
  registry_lt := by simp [settled, target, standardRegistry, addRegistry]

/-- All nodes of a bare walk with a registry of its own, made from the catalogue. -/
def walkAnew (root : Value) (fuel : Nat) : Act Entry (Session σ) Drained := do
  let r ← standardRegistry (.str "type")
  walkAll (some r) root fuel

/-- All ways to count the nodes of a tree come to `n`: the count without rules, if there is room for
`height` calls inside each other, the number of nodes that a walk with a new registry gives in any
session until it ends, and the answer to a query without options, where the rules are those of the
catalogue. The count without rules fails where there is less room, and the others need none. -/
structure Counted (σ : Type) (root : Value) (n height : Nat) : Prop where
  unruled : ∀ room, Sample.countNodes room root =
    if height ≤ room then .ok n else .error (.tooDeep .calls)
  walked : ∀ (s : Session σ) (fuel : Nat), n < fuel →
    ∃ items, (walkAnew root fuel s).result = .ok ⟨items, .stop⟩ ∧ items.length = n
  queried : ∀ (s : Session σ) (registry : Option Nat) (fuel : Nat), s.OffersCatalogue registry →
    n < fuel → (count registry {} root fuel s).result = .ok n

theorem readsBy_catalogue (u : σ) :
    (⟨.standard (.str "type"), u⟩ : Scene σ).ReadsBy Catalogue.table where
  kindField := rfl
  fields := Registry.isByFields_of_rules rfl
  names := Catalogue.hasTextName

/-- In every scene of the catalogue a covered tree unfolds into as many nodes as are counted. -/
theorem exists_unfolding (h : root.IsCovered Catalogue.table) {e : Sample.Extent}
    (he : Sample.Counts (Sample.countBelow root) e) (u : σ) :
    ∃ t : Unfolding (Scene.kids ⟨.standard (.str "type"), u⟩) root,
      t.preorder.length = e.nodes := by
  have hreads := readsBy_catalogue u
  obtain ⟨t⟩ := Scene.nonempty_unfolding hreads.fields root
  exact ⟨t, (hreads.counts_below h t).nodes_eq he⟩

/-- What is counted without rules is counted in all ways. -/
theorem counted_of_isCovered (h : root.IsCovered Catalogue.table) {e : Sample.Extent}
    (he : Sample.Counts (Sample.countBelow root) e) : Counted σ root e.nodes e.levels where
  unruled := by
    intro room
    rw [Sample.countNodes_of_tagged h.tagged]
    exact he room
  walked := by
    intro s fuel hfuel
    obtain ⟨t, ht⟩ := exists_unfolding h he s.user
    rw [← ht] at hfuel ⊢
    have hmake : standardRegistry (.str "type") s = ⟨.ok s.registries.size, _, []⟩ := rfl
    refine ⟨t.preorder, ?_, rfl⟩
    rw [walkAnew, Act.bind_of_ok hmake, Outcome.after_result]
    exact walkAll_of_readsBy (offersCatalogue_standardRegistry s) (readsBy_catalogue s.user) h t
      hfuel
  queried := by
    intro s registry fuel hoffers hfuel
    obtain ⟨t, ht⟩ := exists_unfolding h he s.user
    rw [← ht] at hfuel ⊢
    exact count_of_readsBy hoffers (readsBy_catalogue s.user) h t hfuel

/-- On every tree that the catalogue covers, a walk with a new registry and a query come to the
number of nodes of its unfolding, and so does the count without rules, if there is room for as many
calls as the unfolding is high; with less it fails. The wide and the deep trees are covered at every
size, and have `4 * n + 1` and `n + 3` nodes. The wide ones are four nodes high, and the deep ones
as high as they have nodes. -/
theorem counts_agree (σ : Type) :
    (∀ root : Value, root.IsCovered Catalogue.table →
        ∃ t : Unfolding (Scene.kids (⟨.standard (.str "type"), ()⟩ : Scene Unit)) root,
          Counted σ root t.preorder.length t.height) ∧
      ∀ n, ((Sample.wide n).IsCovered Catalogue.table ∧
          Counted σ (Sample.wide n) (4 * n + 1) (if n = 0 then 1 else 4)) ∧
        (Sample.deep n).IsCovered Catalogue.table ∧ Counted σ (Sample.deep n) (n + 3) (n + 3) := by
  refine ⟨fun root h => ?_, fun n => ⟨?_, ?_⟩⟩
  · have hreads := readsBy_catalogue ()
    obtain ⟨t⟩ := Scene.nonempty_unfolding hreads.fields root
    exact ⟨t, counted_of_isCovered h (hreads.counts_below h t)⟩
  · have hwide := Sample.isCovered_wide n
    exact ⟨hwide, counted_of_isCovered hwide (Sample.counts_wide n)⟩
  · have hdeep := Sample.isCovered_deep n
    exact ⟨hdeep, counted_of_isCovered hdeep (Sample.counts_deep n)⟩

end Session

namespace Sample

/-- A loop whose test stands before its body, around an array with a hole. -/
def loop : Value :=
  node 0 "DoWhileStatement"
    [("test", node 1 "Identifier" [("name", .str "x")]),
     ("body", node 2 "ExpressionStatement"
      [("expression", node 3 "ArrayExpression"
        [("elements", .list ⟨4, none⟩ [.null, node 5 "Literal" [("value", .int 1)]])])])]

theorem isCovered_loop : loop.IsCovered Catalogue.table := by
  have htest := isCovered_identifier 1 "x"
  have hitem := isCovered_literal 5 1
  have harray : (node 3 "ArrayExpression" [("elements", .list ⟨4, none⟩
      [.null, node 5 "Literal" [("value", .int 1)]])]).IsCovered Catalogue.table := by
    refine isCovered_node (by decide) (by decide) rfl (List.forall_mem_singleton.2 ⟨?_, ?_⟩)
    · refine .items (List.forall_mem_cons.2 ⟨.inr rfl, ?_⟩) rfl
      exact List.forall_mem_singleton.2 (.inl hitem.tagged)
    · refine Value.isSuited_list _ (List.forall_mem_cons.2 ⟨Value.isSuited_null, ?_⟩)
      exact List.forall_mem_singleton.2 hitem.toIsSuited
  have hbody := isCovered_expressionStatement 2 harray
  refine isCovered_node (by decide) (by decide) rfl ?_
  refine List.forall_mem_cons.2 ⟨⟨.whole htest.tagged rfl, htest.toIsSuited⟩, ?_⟩
  exact List.forall_mem_singleton.2 ⟨.whole hbody.tagged rfl, hbody.toIsSuited⟩

end Sample

namespace Session

/-- The loop has five nodes on four levels, in a session that has no registry yet. -/
theorem counts_agree_loop :
    let s : Session Unit := { user := () }
    Sample.loop.IsCovered Catalogue.table ∧ Sample.countNodes 4 Sample.loop = .ok 5 ∧
      (∃ items, (walkAnew Sample.loop 6 s).result = .ok ⟨items, .stop⟩ ∧ items.length = 5) ∧
      (count none {} Sample.loop 6 s).result = .ok 5 := by
  intro s
  obtain ⟨t, ht⟩ := (counts_agree Unit).1 Sample.loop Sample.isCovered_loop
  have hfive : Sample.countNodes 4 Sample.loop = .ok 5 := rfl
  have hroom := ht.unruled 4
  rw [hfive] at hroom
  split at hroom
  · have hnodes : 5 = t.preorder.length := Except.ok.inj hroom
    rw [← hnodes] at ht
    exact ⟨Sample.isCovered_loop, hfive, ht.walked s 6 (by decide),
      ht.queried s none 6 (offersCatalogue_of_unshared rfl) (by decide)⟩
  · cases hroom

/-- A thousand negations are covered, and a walk and a query count them; but where there is room for
a thousand calls inside each other, the count without rules fails. -/
theorem countNodes_deep :
    let s : Session Unit := { user := () }
    let root := Sample.deep 1000
    root.IsCovered Catalogue.table ∧
      Sample.countNodes 1000 root = .error (.tooDeep .calls) ∧
      (∃ items, (walkAnew root 1004 s).result = .ok ⟨items, .stop⟩ ∧ items.length = 1003) ∧
      (count none {} root 1004 s).result = .ok 1003 := by
  intro s root
  have hdeep := Sample.isCovered_deep 1000
  have hcounted : Counted Unit root 1003 1003 :=
    counted_of_isCovered hdeep (Sample.counts_deep 1000)
  exact ⟨hdeep, hcounted.unruled 1000, hcounted.walked s 1004 (by decide),
    hcounted.queried s none 1004 (offersCatalogue_of_unshared rfl) (by decide)⟩

end Session

end RuleWalk
