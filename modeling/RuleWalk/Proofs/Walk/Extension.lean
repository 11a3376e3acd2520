import RuleWalk.Proofs.Registry.Table
import RuleWalk.Proofs.Walk.Preorder

/-!
# A rule more

A kind without a rule has no children. A rule for it adds what is below the nodes of that kind and
nothing else, so the nodes of a walk before are among those of a walk after: they are the places
that have no node of the kind above them. When the rule is taken away again, the walk is the old
one.
-/

namespace RuleWalk

variable {σ : Type}

namespace Registry

variable {r : Registry σ} {k : String} {rule : Rule σ}

/-- Whether `k` is the kind of a value. -/
def isOfKind (r : Registry σ) (k : String) (v : Value) : Bool :=
  match r.kindOf v with
  | .ok kind => kind == some k
  | .error _ => false

/-- A walk from `root` gives the nodes in `items` one by one, and then the end for ever, whatever
the state of the caller's functions and whatever kinds were met before. -/
def Lists (r : Registry σ) (root : Value) (items : List Value) : Prop :=
  ∀ scene : Scene σ, scene.registry.kindField = r.kindField → scene.registry.rules = r.rules →
    ∃ w, Walk.start scene.registry .absent root = .ok w ∧
      ∀ n, (Walk.step (Walk.advance^[n] ⟨scene, w⟩)).result = .ok items[n]?

/-- Of a registry, its rules and its kind field make the walk. -/
theorem Lists.congr {r' : Registry σ} {root : Value} {items : List Value}
    (h : r.Lists root items) (hfield : r'.kindField = r.kindField) (hrules : r'.rules = r.rules) :
    r'.Lists root items := by
  intro scene hscene hscene'
  exact h scene (hscene.trans hfield) (hscene'.trans hrules)

/-- Pure rules list the unfolding by the children that they show, if none fails at its nodes. -/
theorem lists_preorder {root : Value} {kind : String} (hroot : r.kindOf root = .ok (some kind))
    (hrules : r.AllRules Rule.IsPure) {u : σ} {kids : Value → List Value}
    (hkids : ∀ v, Scene.kids ⟨r, u⟩ v = kids v) (t : Unfolding kids root)
    (hexpands : ∀ v ∈ t.preorder, ∃ slots, (Scene.slotsOf v ⟨r, u⟩).result = .ok slots) :
    r.Lists root t.preorder := by
  intro scene hfield hscene
  obtain rfl : Scene.kids ⟨r, u⟩ = kids := funext hkids
  have halike : scene.Alike ⟨r, u⟩ := ⟨hfield, hscene⟩
  have hprune : (.absent : Hook (Predicate σ)).All fun p => p.IsPure ∧ p.NeverFails := trivial
  have hlisted : Walk.Follows .absent ⟨r, u⟩ t.preorder ⟨⟨r, u⟩, ⟨[root], .absent⟩⟩ :=
    .start (hprune.mono fun _ hp => hp.2) hrules t
  have hstart : Walk.Follows .absent ⟨r, u⟩ t.preorder ⟨scene, ⟨[root], .absent⟩⟩ :=
    ⟨halike, rfl, hlisted.ahead⟩
  refine ⟨⟨[root], .absent⟩, Walk.start_eq ((halike.kindOf root).trans hroot), fun n => ?_⟩
  have hn := hstart.iterate (hprune.mono fun _ hp => hp.1) hrules n
  rw [hn.step_result hprune hrules fun v hv _ => hexpands v (List.mem_of_mem_drop hv),
    List.head?_drop]

/-- Only a rule that is accepted gets into a registry. -/
theorem eq_put_of_register {r' : Registry σ} {es : List Entry}
    (h : register (.str k) (.rule rule) r = ⟨.ok (), r', es⟩) : r' = r.put k rule := by
  cases haccepted : accepted? (.str k) (.rule rule) with
  | none =>
    obtain ⟨e, he⟩ := register_of_refused haccepted r
    rw [he] at h
    cases h
  | some entry =>
    obtain ⟨k', rule'⟩ := entry
    obtain ⟨hkind, hcandidate, -⟩ := accepted?_eq_some_iff.1 haccepted
    cases hkind
    cases hcandidate
    rw [register_of_accepted haccepted] at h
    exact (congrArg Outcome.state h).symm

theorem AllRules.put {P : Rule σ → Prop} (h : r.AllRules P) (hrule : P rule) :
    (r.put k rule).AllRules P := by
  intro kind rule' hrule'
  rw [rule?_put] at hrule'
  split at hrule'
  · obtain rfl := Option.some.inj hrule'
    exact hrule
  · exact h kind rule' hrule'

/-- Taking a new rule away leaves the rules that were there. -/
theorem rules_erase_put (h : r.has k = false) : ((r.put k rule).erase k).rules = r.rules := by
  have hmem : k ∉ r.rules.map Prod.fst := by
    intro hmem
    rw [has_iff_mem.2 hmem] at h
    cases h
  show (insertRule k rule r.rules).filter (fun e => e.1 != k) = r.rules
  rw [insertRule_of_notMem hmem, List.filter_append, rules_erase_of_not_has h]
  simp

end Registry

/-- A rule for a new kind changes the slots of the nodes of that kind alone, which had none. -/
theorem Scene.slotsOf_put {r : Registry σ} {k : String} (h : r.has k = false) (rule : Rule σ)
    (u : σ) (v : Value) :
    (Scene.slotsOf v ⟨r, u⟩).result =
      if r.isOfKind k v then .ok [] else (Scene.slotsOf v ⟨r.put k rule, u⟩).result := by
  have hput : (r.put k rule).kindOf v = r.kindOf v := rfl
  rw [slotsOf_result, slotsOf_result, Registry.isOfKind]
  simp only [hput]
  rcases r.kindOf v with e | _ | kind
  · rfl
  · rfl
  · by_cases hkind : kind = k
    · subst hkind
      simp [Registry.has_eq_false_iff.1 h]
    · simp [hkind, Registry.rule?_put]

theorem Scene.kids_put {r : Registry σ} {k : String} (h : r.has k = false) (rule : Rule σ) (u : σ)
    (v : Value) :
    Scene.kids ⟨r, u⟩ v =
      if r.isOfKind k v then [] else Scene.kids ⟨r.put k rule, u⟩ v := by
  rw [kids, kids, slotsOf_put h rule]
  cases r.isOfKind k v <;> rfl

namespace Registry

/-- Registering a rule for a kind that had none adds what is below the nodes of that kind: a walk
lists all places of the extended tree, and a walk without the rule lists those of them that have no
node of the kind above them. However the extended registry was used in between, removing the kind
gives the old listing back. The rules need to be pure, and must not fail at the nodes of the
extended tree. -/
theorem lists_of_register (r : Registry σ) (root : Value) {kind : String}
    (hroot : r.kindOf root = .ok (some kind))
    (hrules : r.AllRules Rule.IsPure) (k : String) (hk : r.has k = false) (rule : Rule σ)
    (hrule : rule.IsPure) {extended : Registry σ} {es : List Entry}
    (hregister : register (.str k) (.rule rule) r = ⟨.ok (), extended, es⟩) (u : σ)
    (t : Unfolding (Scene.kids ⟨extended, u⟩) root)
    (hexpands : ∀ v ∈ t.preorder, ∃ slots, (Scene.slotsOf v ⟨extended, u⟩).result = .ok slots) :
    let visible := t.occurrences.filter (Occurrence.isVisible (r.isOfKind k))
    extended.Lists root (t.occurrences.map (·.node)) ∧
      r.Lists root (visible.map (·.node)) ∧
      (visible.map (·.node)).Sublist (t.occurrences.map (·.node)) ∧
      ∀ used : Registry σ, used.kindField = extended.kindField → used.rules = extended.rules →
        ∃ restored, unregister (.str k) used = ⟨.ok (), restored, [.log (.removed k)]⟩ ∧
          restored.Lists root (visible.map (·.node)) := by
  intro visible
  obtain rfl := eq_put_of_register hregister
  have hroot' : (r.put k rule).kindOf root = .ok (some kind) := hroot
  have hextended : (r.put k rule).Lists root (t.occurrences.map (·.node)) := by
    rw [t.map_node_occurrences]
    exact lists_preorder hroot' (hrules.put hrule) (fun v => rfl) t hexpands
  have horiginal : r.Lists root (visible.map (·.node)) := by
    have hpreorder := t.preorder_cut (r.isOfKind k)
    rw [← hpreorder]
    refine lists_preorder hroot hrules (Scene.kids_put hk rule u) _ fun v hv => ?_
    have hmem : v ∈ t.preorder := by
      rw [hpreorder] at hv
      rw [← t.map_node_occurrences]
      exact (List.filter_sublist.map _).subset hv
    rw [Scene.slotsOf_put hk rule]
    cases r.isOfKind k v with
    | true => exact ⟨[], rfl⟩
    | false => exact hexpands v hmem
  refine ⟨hextended, horiginal, List.filter_sublist.map _, ?_⟩
  intro used hfield hused
  have hhas : used.has k = true := by
    rw [has, rule?, hused]
    show ((r.put k rule).rule? k).isSome = true
    rw [rule?_put, if_pos rfl]
    rfl
  refine ⟨used.erase k, unregister_of_has hhas, horiginal.congr hfield ?_⟩
  show used.rules.filter (fun e => e.1 != k) = r.rules
  rw [hused]
  exact rules_erase_put hk

/-- A torn pair above another one: with a rule for torn pairs, the half pair is listed at both of
its places, and without it at the one that has no torn pair above it. -/
theorem lists_of_register_torn :
    let outer : Value := Sample.node 8 "Torn" [("left", Sample.tornHalf)]
    let root : Value := Sample.node 9 "Pair" [("left", outer), ("right", Sample.tornHalf)]
    let original := [root, outer, Sample.tornHalf, Sample.torn, Sample.name]
    let rule : Rule Unit := FieldSpec.rule (["left"].map fun n => .one (.str n))
    ∃ extended, register (.str "Torn") (.rule rule) Sample.pairs = ⟨.ok (), extended, []⟩ ∧
      extended.Lists root
        ([root, outer] ++ [Sample.tornHalf, Sample.torn, Sample.name, Sample.name] ++
          [Sample.tornHalf, Sample.torn, Sample.name, Sample.name]) ∧
      (Sample.pairs : Registry Unit).Lists root original ∧
      ∃ restored, unregister (.str "Torn") extended = ⟨.ok (), restored, [.log (.removed "Torn")]⟩ ∧
        restored.Lists root original := by
  intro outer root original rule
  have hrule : rule.IsPure ∧ rule.NeverFails :=
    ⟨Rule.ofFunction_isPure _ _, FieldSpec.rule_neverFails _⟩
  have hfails : (Sample.pairs.put "Torn" rule).AllRules Rule.NeverFails :=
    Registry.AllRules.put Sample.pairs_neverFails hrule.2
  let half : Forest :=
    .cons Sample.tornHalf (.cons Sample.torn (.cons Sample.name .nil .nil)
      (.cons Sample.name .nil .nil)) .nil
  have hhalf : half.Unfolds (Scene.kids ⟨Sample.pairs.put "Torn" rule, ()⟩) :=
    ⟨rfl, ⟨rfl, ⟨rfl, trivial, trivial⟩, rfl, trivial, trivial⟩, trivial⟩
  let t : Unfolding (Scene.kids ⟨Sample.pairs.put "Torn" rule, ()⟩) root :=
    { below := .cons outer half half
      roots_below := rfl
      unfolds_below := ⟨rfl, hhalf, hhalf⟩ }
  obtain ⟨hextended, horiginal, -, hremoved⟩ :=
    lists_of_register Sample.pairs root rfl Sample.pairs_isPure "Torn" rfl
      rule hrule.1 rfl () t fun v _ => Scene.slotsOf_neverFails ⟨"type", rfl⟩ hfails v
  exact ⟨_, rfl, hextended, horiginal, hremoved _ rfl rfl⟩

end Registry

end RuleWalk
