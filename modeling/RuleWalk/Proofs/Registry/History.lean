import RuleWalk.Proofs.Registry.Chronicle

/-!
# A registry after any operations

What can be read off a registry, and what its next operation does, after it was made from a table
and used in any way, also in ways that were refused. `table_of_operations` is about the rules and
`unknownKinds_of_operations` about the kinds without one. Both go by the events alone.
-/

namespace RuleWalk

variable {σ : Type}

namespace Event.Effect

variable {r r' : Registry σ} {kind : Value} {ok : Bool} {v : Option Value} {records : List Record}

theorem register_ok_iff {candidate : Candidate σ}
    (h : Effect r ⟨.register kind candidate, ok, v, records⟩ r') :
    ok = true ↔
      ∃ k rule, kind = .str k ∧ candidate = .rule rule ∧ k ≠ "" ∧ rule.accepts = true := by
  cases h with
  | registered haccepted =>
    exact iff_of_true rfl ⟨_, _, Registry.accepted?_eq_some_iff.1 haccepted⟩
  | refused hrefused =>
    constructor
    · rintro ⟨⟩
    · rintro ⟨k, rule, h⟩
      rw [Registry.accepted?_eq_some_iff.2 h] at hrefused
      cases hrefused
  | looked hd => cases hd

theorem unregister_ok_iff (h : Effect r ⟨.unregister kind, ok, v, records⟩ r') :
    ok = true ↔ ∃ k, kind = .str k ∧ r.has k = true := by
  cases h with
  | removed hhas => exact iff_of_true rfl ⟨_, rfl, hhas⟩
  | missed hmissed =>
    constructor
    · rintro ⟨⟩
    · rintro ⟨k, hk, hhas⟩
      rw [hmissed k hk] at hhas
      cases hhas
  | looked hd => cases hd

end Event.Effect

/-- A change that is refused leaves everything as it was, and nothing is put on record. -/
theorem Operation.act_of_refused {d : Operation σ} {s : Scene σ} (hd : d.isChange = true)
    (hfail : (d.act s).result.isOk = false) : (d.act s).state = s ∧ (d.act s).entries = [] := by
  cases d with
  | register kind candidate =>
    rw [act, Act.bind_pure_apply] at hfail ⊢
    cases haccepted : Registry.accepted? kind candidate with
    | none =>
      obtain ⟨e, he⟩ := Registry.register_of_refused haccepted s.registry
      simp [Scene.onRegistry, Act.zoom, he]
    | some entry =>
      obtain ⟨k, rule⟩ := entry
      rw [Scene.onRegistry, Act.zoom_result, Registry.register_of_accepted haccepted] at hfail
      cases hfail
  | unregister kind =>
    rw [act, Act.bind_pure_apply] at hfail ⊢
    rcases Registry.has_or_missed kind s.registry with ⟨k, rfl, hk⟩ | hmissed
    · rw [Scene.onRegistry, Act.zoom_result, Registry.unregister_of_has hk] at hfail
      cases hfail
    · obtain ⟨e, he⟩ := Registry.unregister_of_refused hmissed
      simp [Scene.onRegistry, Act.zoom, he]
  | _ => cases hd

theorem Registry.contains_eq (r : Registry σ) (v : Value) :
    r.contains v = (r.getRule v).map Option.isSome := by
  unfold contains getRule
  cases v.checkKey with
  | error e => rfl
  | ok _ => cases v <;> rfl

theorem Registry.getRule_of_ne {v : Value} (h : ∀ k, v ≠ .str k) (r : Registry σ) :
    r.getRule v = v.checkKey.map fun _ => none := by
  cases v with
  | str k => exact absurd rfl (h k)
  | _ => rfl

namespace Scene

variable {field : Value} {table : Option (List (Value × Candidate σ))} {r₀ : Registry σ}
  {es : List Entry}

/-- A registry that was made and used in any way holds, under kinds that are texts and not empty,
rules that can be called with the node alone: for each kind the rule that was registered last and
not removed since. Its kinds are listed in strictly increasing order. A change succeeds exactly when
it makes sense and changes nothing when it is refused, an override is logged exactly where a rule is
replaced, and the registry can be copied. -/
theorem table_of_operations (hmade : Registry.make field table = ⟨.ok (), r₀, es⟩) (u : σ)
    (operations : List (Operation σ)) :
    let past := (⟨.empty field, u⟩ : Scene σ).events (Registry.founding table ++ operations)
    let s := (⟨r₀, u⟩ : Scene σ).serveAll operations
    (∀ e ∈ s.registry.rules, e.1 ≠ "" ∧ e.2.accepts = true) ∧
    (∀ k, s.registry.getRule (.str k) = .ok (lastRule k past)) ∧
    (∀ v, (∀ k, v ≠ .str k) → s.registry.getRule v = v.checkKey.map fun _ => none) ∧
    (∀ k, k ∈ s.registry.kinds ↔ (lastRule k past).isSome = true) ∧
    s.registry.kinds.Pairwise (· < ·) ∧
    s.registry.size = s.registry.kinds.length ∧
    (∀ v, s.registry.contains v = (s.registry.getRule v).map Option.isSome) ∧
    (∀ kind candidate, ((Operation.register kind candidate).act s).result.isOk = true ↔
      ∃ k rule, kind = .str k ∧ candidate = .rule rule ∧ k ≠ "" ∧ rule.accepts = true) ∧
    (∀ kind, ((Operation.unregister kind).act s).result.isOk = true ↔
      ∃ k, kind = .str k ∧ (lastRule k past).isSome = true) ∧
    (∀ d : Operation σ, d.isChange = true → (d.act s).result.isOk = false →
      (d.act s).state = s ∧ (d.act s).entries = []) ∧
    (∀ (d : Operation σ) k, .overriding k ∈ logged (d.act s).entries ↔
      (d.event s).Registers k ∧ (lastRule k past).isSome = true) ∧
    s.registry.copy =
      ⟨.ok (), { kindField := field, rules := s.registry.rules, unknown := [] }, []⟩ := by
  intro past s
  have htells : Tells field past s.registry := tells_made hmade u operations
  have hhas (k : String) : s.registry.has k = (lastRule k past).isSome := by
    rw [Registry.has, htells.rule?]
  refine ⟨htells.wellFormed.usable, ?_, fun v hv => Registry.getRule_of_ne hv _, ?_,
    htells.wellFormed.kinds_increasing, ?_, s.registry.contains_eq, ?_, ?_,
    fun d => Operation.act_of_refused, ?_, ?_⟩
  · intro k
    rw [← htells.rule?]
    rfl
  · intro k
    rw [Registry.mem_kinds, htells.rule?]
  · rw [Registry.size, Registry.kinds, (sortTexts_perm _).length_eq, List.length_map]
  · intro kind candidate
    exact ((Operation.register kind candidate).effect s).register_ok_iff
  · intro kind
    simp only [← hhas]
    exact ((Operation.unregister kind).effect s).unregister_ok_iff
  · intro d k
    rw [← hhas]
    exact (d.effect s).overriding_mem_iff k
  · rw [htells.wellFormed.copy_eq, htells.kindField]

/-- A registry of pairs whose rule is replaced, after an attempt to register a text that cannot be
called and before its own rule for names is taken away again. -/
theorem table_of_operations_pairs :
    let parts : Rule Unit := FieldSpec.rule [.one (.str "left"), .one (.str "right")]
    let left : Rule Unit := FieldSpec.rule [.one (.str "left")]
    let table := some [(.str "Pair", .rule parts)]
    let s := (⟨{ rules := [("Pair", parts)] }, ()⟩ : Scene Unit).serveAll
      [.register (.str "Pair") (.inert "str"), .register (.str "Name") (.rule left),
        .register (.str "Pair") (.rule left), .slotsOf Sample.folded, .unregister (.str "Name")]
    Registry.make (.str "type") table = ⟨.ok (), { rules := [("Pair", parts)] }, []⟩ ∧
      s.registry.getRule (.str "Pair") = .ok (some left) ∧
      s.registry.getRule (.str "Name") = .ok none ∧
      s.registry.copy = ⟨.ok (), { rules := [("Pair", left)] }, []⟩ := by
  intro parts left table s
  have hmade : Registry.make (.str "type") table =
      ⟨.ok (), { rules := [("Pair", parts)] }, []⟩ := rfl
  obtain ⟨-, hrule, -, -, -, -, -, -, -, -, -, hcopy⟩ := table_of_operations hmade ()
    [.register (.str "Pair") (.inert "str"), .register (.str "Name") (.rule left),
      .register (.str "Pair") (.rule left), .slotsOf Sample.folded, .unregister (.str "Name")]
  exact ⟨hmade, hrule "Pair", hrule "Name", hcopy⟩

/-- Between two records that a kind is unknown, the kind was registered. -/
theorem registers_between {past before between later : List (Event σ)} {e e' : Event σ}
    {k : String} {ds : List (Operation σ)} {u : σ}
    (hpast : (⟨.empty field, u⟩ : Scene σ).events ds = past)
    (hsplit : past = before ++ e :: (between ++ e' :: later))
    (he : .unknownKind k ∈ e.records) (he' : .unknownKind k ∈ e'.records) :
    ∃ x ∈ between, x.Registers k := by
  -- What is logged at an event was looked up there without a rule and was not known as unknown.
  have hlogged {before later : List (Event σ)} {e : Event σ} (h : past = before ++ e :: later)
      (he : .unknownKind k ∈ e.records) :
      e.LooksUp field k ∧ lastRule k before = none ∧ ¬ MetWithoutRule field k before := by
    obtain ⟨ds₁, d, ds₂, -, rfl, rfl⟩ := events_eq_append (hpast.trans h)
    have htells := (tells_empty field).events (s := ⟨.empty field, u⟩) ds₁
    rw [List.nil_append] at htells
    have heffect := d.effect ((⟨.empty field, u⟩ : Scene σ).serveAll ds₁)
    have henters := (heffect.unknownKind_mem_iff k).1 he
    rw [htells.unknown, heffect.mem_unknown_iff, htells.kindField, htells.rule?,
      htells.unknown] at henters
    obtain ⟨hnew, ⟨hlooks, hnone⟩ | ⟨hold, -⟩⟩ := henters
    · exact ⟨hlooks, hnone, hnew⟩
    · exact absurd hold hnew
  obtain ⟨hlooks, hnone, -⟩ := hlogged hsplit he
  have hsplit' : past = (before ++ e :: between) ++ e' :: later := by simp [hsplit]
  obtain ⟨-, -, hnew⟩ := hlogged hsplit' he'
  apply Classical.byContradiction
  intro hbetween
  exact hnew ⟨before, e, between, rfl, hlooks, hnone, fun x hx hregisters =>
    hbetween ⟨x, hx, hregisters⟩⟩

/-- After any operations, the unknown kinds are those that were looked up while they had no rule and
were not registered since. They have no rule. An operation logs a kind as unknown, once, exactly
when the kind comes to be unknown, so between two such records the kind was registered. -/
theorem unknownKinds_of_operations (hmade : Registry.make field table = ⟨.ok (), r₀, es⟩) (u : σ)
    (operations : List (Operation σ)) :
    let past := (⟨.empty field, u⟩ : Scene σ).events (Registry.founding table ++ operations)
    let s := (⟨r₀, u⟩ : Scene σ).serveAll operations
    (∀ k, k ∈ s.registry.unknownKinds ↔ MetWithoutRule field k past) ∧
    s.registry.unknownKinds.Pairwise (· < ·) ∧
    (∀ k ∈ s.registry.unknownKinds, k ∉ s.registry.kinds) ∧
    (∀ (d : Operation σ) k, (logged (d.act s).entries).count (.unknownKind k) =
      if k ∉ s.registry.unknownKinds ∧ k ∈ (d.act s).state.registry.unknownKinds then 1 else 0) ∧
    ∀ before e between e' later k, past = before ++ e :: (between ++ e' :: later) →
      .unknownKind k ∈ e.records → .unknownKind k ∈ e'.records →
      ∃ x ∈ between, x.Registers k := by
  intro past s
  have htells : Tells field past s.registry := tells_made hmade u operations
  refine ⟨?_, htells.wellFormed.unknownKinds_increasing, ?_, ?_, ?_⟩
  · intro k
    rw [Registry.unknownKinds, mem_sortTexts, htells.unknown]
  · intro k hk
    rw [Registry.unknownKinds, mem_sortTexts] at hk
    rw [Registry.mem_kinds, htells.wellFormed.unknown_free k hk]
    rintro ⟨⟩
  · intro d k
    simp only [Registry.unknownKinds, mem_sortTexts]
    exact (d.effect s).count_unknownKind k
  · intro before e between e' later k hsplit
    exact registers_between rfl hsplit

/-- Names are met by a look-up and then by a step, and only the first is logged. A rule makes them
known, and when it is taken away they are met, and logged, again. -/
theorem unknownKinds_of_operations_names :
    let left : Rule Unit := FieldSpec.rule [.one (.str "left")]
    let operations : List (Operation Unit) := [.slotsOf Sample.name, .step ⟨[Sample.name], .absent⟩,
      .register (.str "Name") (.rule left), .unregister (.str "Name"), .isLeaf Sample.name]
    let past := (⟨.empty (.str "type"), ()⟩ : Scene Unit).events operations
    let s := (⟨.empty (.str "type"), ()⟩ : Scene Unit).serveAll operations
    past.map Event.records = [[.unknownKind "Name"], [], [], [.removed "Name"],
        [.unknownKind "Name"]] ∧
      (∀ k, k ∈ s.registry.unknownKinds ↔ MetWithoutRule (.str "type") k past) ∧
      "Name" ∈ s.registry.unknownKinds := by
  intro left operations past s
  have hmade : Registry.make (.str "type") (some []) =
      (⟨.ok (), .empty (.str "type"), []⟩ : Outcome Entry (Registry Unit) Unit) := rfl
  obtain ⟨hmet, -⟩ := unknownKinds_of_operations hmade () operations
  refine ⟨rfl, hmet, ?_⟩
  rw [Registry.unknownKinds, mem_sortTexts]
  exact List.mem_singleton.2 rfl

end Scene

end RuleWalk
