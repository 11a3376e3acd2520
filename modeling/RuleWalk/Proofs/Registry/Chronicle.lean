import RuleWalk.Proofs.Registry.Operations

/-!
# What the events tell of a registry

From the events so far one can tell which rule a kind has, by the last event that settled it, and
which kinds are unknown: those that were looked up while they had no rule and were not registered
since. `Tells` says that a registry is as its events tell. It holds when nothing has happened to an
empty registry, and every operation keeps it, so it holds after any operations.

A registry that is made from a table starts with the operations that register the table.
-/

namespace RuleWalk

variable {σ : Type}

namespace Event

/-- What an event settles about a kind: the rule that it has from now on, or that it has none. -/
def ruling? (k : String) (e : Event σ) : Option (Option (Rule σ)) :=
  match e.operation, e.ok with
  | .register (.str k') (.rule rule), true => if k' = k then some (some rule) else none
  | .unregister (.str k'), true => if k' = k then some none else none
  | _, _ => none

/-- A rule was registered for the kind. -/
def Registers (k : String) (e : Event σ) : Prop := ∃ rule, e.ruling? k = some (some rule)

/-- The slots of a node of the kind were looked up. -/
def LooksUp (field : Value) (k : String) (e : Event σ) : Prop :=
  ∃ v, e.subject? = some v ∧ v.kind? field = .ok (some k)

end Event

/-- The rule of the last successful registration of a kind, if it was not removed since. -/
def lastRule (k : String) (past : List (Event σ)) : Option (Rule σ) :=
  (past.reverse.findSome? (Event.ruling? k)).join

/-- The kind was looked up while it had no rule, and was not registered since. -/
def MetWithoutRule (field : Value) (k : String) (past : List (Event σ)) : Prop :=
  ∃ before e later, past = before ++ e :: later ∧ e.LooksUp field k ∧ lastRule k before = none ∧
    ∀ x ∈ later, ¬ x.Registers k

variable {field : Value} {k : String} {past : List (Event σ)} {e : Event σ}

theorem lastRule_concat (k : String) (past : List (Event σ)) (e : Event σ) :
    lastRule k (past ++ [e]) = (e.ruling? k).getD (lastRule k past) := by
  rw [lastRule, List.reverse_concat, List.findSome?_cons, lastRule]
  cases e.ruling? k <;> rfl

theorem metWithoutRule_concat :
    MetWithoutRule field k (past ++ [e]) ↔
      e.LooksUp field k ∧ lastRule k past = none ∨
        MetWithoutRule field k past ∧ ¬ e.Registers k := by
  constructor
  · rintro ⟨before, x, later, hpast, hlooks, hnone, hlater⟩
    -- The event that looked the kind up is the last one, or it came before.
    rcases List.eq_nil_or_concat later with rfl | ⟨later, y, rfl⟩
    · obtain ⟨rfl, hx⟩ := List.append_inj' hpast rfl
      obtain rfl : e = x := by simpa using hx
      exact .inl ⟨hlooks, hnone⟩
    · have hsplit : past ++ [e] = (before ++ x :: later) ++ [y] := by simpa using hpast
      obtain ⟨rfl, hy⟩ := List.append_inj' hsplit rfl
      obtain rfl : e = y := by simpa using hy
      exact .inr ⟨⟨before, x, later, rfl, hlooks, hnone, fun z hz => hlater z (by simp [hz])⟩,
        hlater e (by simp)⟩
  · rintro (⟨hlooks, hnone⟩ | ⟨⟨before, x, later, rfl, hlooks, hnone, hlater⟩, he⟩)
    · exact ⟨past, e, [], rfl, hlooks, hnone, by rintro _ ⟨⟩⟩
    · refine ⟨before, x, later ++ [e], by simp, hlooks, hnone, ?_⟩
      intro y hy
      rcases List.mem_append.1 hy with hy | hy
      · exact hlater y hy
      · rw [List.mem_singleton.1 hy]
        exact he

/-! ## Effects by their events -/

namespace Event.Effect

variable {r r' : Registry σ}

theorem ruling?_registered {kind : Value} {candidate : Candidate σ} {kind' : String}
    {rule : Rule σ} (h : Registry.accepted? kind candidate = some (kind', rule))
    (records : List Record) :
    ruling? k ⟨.register kind candidate, true, none, records⟩ =
      if kind' = k then some (some rule) else none := by
  obtain ⟨rfl, rfl, -⟩ := Registry.accepted?_eq_some_iff.1 h
  rfl

theorem ruling?_looked {d : Operation σ} (hd : d.isChange = false) (ok : Bool) (v : Option Value)
    (records : List Record) : ruling? k ⟨d, ok, v, records⟩ = none := by
  cases d with
  | register kind candidate => cases hd
  | unregister kind => cases hd
  | _ => rfl

theorem ruling?_failed (d : Operation σ) (v : Option Value) (records : List Record) :
    ruling? k ⟨d, false, v, records⟩ = none := by
  unfold ruling?
  split
  · next h => cases h
  · next h => cases h
  · rfl

theorem registers_registered_iff {kind : Value} {candidate : Candidate σ} {kind' : String}
    {rule : Rule σ} (h : Registry.accepted? kind candidate = some (kind', rule))
    (records : List Record) :
    Registers k ⟨.register kind candidate, true, none, records⟩ ↔ kind' = k := by
  rw [Registers, ruling?_registered h]
  by_cases hk : kind' = k <;> simp [hk]

theorem not_registers_removed (kind : String) (records : List Record) :
    ¬ Registers k (⟨.unregister (.str kind), true, none, records⟩ : Event σ) := by
  rintro ⟨rule, hrule⟩
  simp only [ruling?] at hrule
  split at hrule <;> cases hrule

theorem not_registers_failed (d : Operation σ) (v : Option Value) (records : List Record) :
    ¬ Registers k ⟨d, false, v, records⟩ := by
  rintro ⟨rule, hrule⟩
  rw [ruling?_failed] at hrule
  cases hrule

theorem not_registers_looked {d : Operation σ} (hd : d.isChange = false) (ok : Bool)
    (v : Option Value)
    (records : List Record) : ¬ Registers k ⟨d, ok, v, records⟩ := by
  rintro ⟨rule, hrule⟩
  rw [ruling?_looked hd] at hrule
  cases hrule

theorem wellFormed (h : e.Effect r r') (hr : r.WellFormed) : r'.WellFormed := by
  cases h with
  | registered haccepted =>
    obtain ⟨-, -, hk, hrule⟩ := Registry.accepted?_eq_some_iff.1 haccepted
    exact hr.put hk hrule
  | removed => exact hr.erase _
  | refused => exact hr
  | missed => exact hr
  | looked hd ok v => exact hr.notice v
  | passed => exact hr

theorem kindField (h : e.Effect r r') : r'.kindField = r.kindField := by
  cases h <;> rfl

/-- What the event settles is the rule from now on. -/
theorem rule? (h : e.Effect r r') (k : String) :
    r'.rule? k = (e.ruling? k).getD (r.rule? k) := by
  cases h with
  | @registered kind candidate kind' rule haccepted =>
    rw [ruling?_registered haccepted, Registry.rule?_put]
    by_cases hk : k = kind'
    · rw [if_pos hk, if_pos hk.symm, Option.getD_some]
    · rw [if_neg hk, if_neg (Ne.symm hk), Option.getD_none]
  | @removed kind' =>
    rw [Registry.rule?_erase]
    show _ = (if kind' = k then some none else none : Option (Option (Rule σ))).getD _
    by_cases hk : k = kind'
    · rw [if_pos hk, if_pos hk.symm, Option.getD_some]
    · rw [if_neg hk, if_neg (Ne.symm hk), Option.getD_none]
  | refused => rw [ruling?_failed, Option.getD_none]
  | missed => rw [ruling?_failed, Option.getD_none]
  | looked hd ok v =>
    rw [ruling?_looked hd, Option.getD_none]
    rfl
  | passed w ok => rw [ruling?_looked rfl, Option.getD_none]

/-- A kind is unknown from now on if it was looked up without a rule, or was unknown and is not
registered now. -/
theorem mem_unknown_iff (h : e.Effect r r') (k : String) :
    k ∈ r'.unknown ↔
      e.LooksUp r.kindField k ∧ r.rule? k = none ∨ k ∈ r.unknown ∧ ¬ e.Registers k := by
  cases h with
  | @registered kind candidate kind' rule haccepted =>
    rw [registers_registered_iff haccepted, Registry.put, List.mem_filter, bne_iff_ne, ne_comm]
    simp [LooksUp]
  | removed => simp [LooksUp, not_registers_removed, Registry.erase]
  | refused => simp [LooksUp, not_registers_failed]
  | missed => simp [LooksUp, not_registers_failed]
  | looked hd ok v =>
    rw [Registry.mem_unknown_notice, Registry.stranger?_eq_some_iff]
    simp [LooksUp, not_registers_looked hd, Registry.kindOf]
  | passed w ok =>
    have hpass := not_registers_looked (k := k) (d := .step w) rfl ok none []
    simp [LooksUp, hpass]

/-- A kind is logged as unknown, once, exactly when it comes to be unknown. -/
theorem count_unknownKind (h : e.Effect r r') (k : String) :
    e.records.count (.unknownKind k) = if k ∉ r.unknown ∧ k ∈ r'.unknown then 1 else 0 := by
  cases h with
  | @registered kind candidate kind' rule haccepted =>
    have hstays : ¬ (k ∉ r.unknown ∧ k ∈ (r.put kind' rule).unknown) := by
      rintro ⟨hk, hput⟩
      exact hk (List.mem_filter.1 hput).1
    rw [if_neg hstays]
    cases r.has kind' <;> simp
  | removed => simp [Registry.erase]
  | refused => simp
  | missed => simp
  | looked hd ok v =>
    have henters : k ∉ r.unknown ∧ k ∈ (r.notice v).unknown ↔ r.newcomer? v = some k := by
      rw [Registry.mem_unknown_notice, Registry.newcomer?_eq_some_iff]
      constructor
      · rintro ⟨hk, hv | hk'⟩
        · exact ⟨hv, hk⟩
        · exact absurd hk' hk
      · rintro ⟨hv, hk⟩
        exact ⟨hk, .inl hv⟩
    simp only [henters]
    cases r.newcomer? v with
    | none => rfl
    | some k' => by_cases hk : k' = k <;> simp [hk]
  | passed => simp

theorem unknownKind_mem_iff (h : e.Effect r r') (k : String) :
    .unknownKind k ∈ e.records ↔ k ∉ r.unknown ∧ k ∈ r'.unknown := by
  rw [← List.count_pos_iff, h.count_unknownKind]
  split
  · next henters => exact iff_of_true Nat.one_pos henters
  · next henters => exact iff_of_false (Nat.lt_irrefl 0) henters

/-- An override is logged exactly by a registration that succeeds on a kind that has a rule. -/
theorem overriding_mem_iff (h : e.Effect r r') (k : String) :
    .overriding k ∈ e.records ↔ e.Registers k ∧ r.has k = true := by
  cases h with
  | @registered kind candidate kind' rule haccepted =>
    rw [registers_registered_iff haccepted]
    by_cases hk : kind' = k
    · subst hk
      cases r.has kind' <;> simp
    · cases r.has kind' <;> simp [hk, Ne.symm hk]
  | removed => simp [not_registers_removed]
  | refused => simp [not_registers_failed]
  | missed => simp [not_registers_failed]
  | looked hd ok v => simp [not_registers_looked hd]
  | passed w ok =>
    have hpass := not_registers_looked (k := k) (d := .step w) rfl ok none []
    simp [hpass]

end Event.Effect

/-! ## Registries and their events -/

/-- The registry is well-formed, and it is as the events tell. -/
structure Tells (field : Value) (past : List (Event σ)) (r : Registry σ) : Prop where
  wellFormed : r.WellFormed
  kindField : r.kindField = field
  rule? : ∀ k, r.rule? k = lastRule k past
  unknown : ∀ k, k ∈ r.unknown ↔ MetWithoutRule field k past

theorem tells_empty (field : Value) : Tells field [] (.empty field : Registry σ) where
  wellFormed := Registry.wellFormed_empty field
  kindField := rfl
  rule? := fun _ => rfl
  unknown := by
    intro k
    constructor
    · rintro ⟨⟩
    · rintro ⟨before, e, later, hnil, -⟩
      simp at hnil

namespace Tells

variable {r r' : Registry σ} {s : Scene σ}

theorem effect (h : Tells field past r) (he : e.Effect r r') : Tells field (past ++ [e]) r' where
  wellFormed := he.wellFormed h.wellFormed
  kindField := he.kindField.trans h.kindField
  rule? := by
    intro k
    rw [he.rule?, lastRule_concat, h.rule?]
  unknown := by
    intro k
    rw [he.mem_unknown_iff, metWithoutRule_concat, h.kindField, h.rule?, h.unknown]

theorem events (h : Tells field past s.registry) (ds : List (Operation σ)) :
    Tells field (past ++ s.events ds) (s.serveAll ds).registry := by
  induction ds generalizing past s with
  | nil =>
    rw [Scene.events, List.append_nil]
    exact h
  | cons d ds ih =>
    have hrest := ih (h.effect (d.effect s))
    rw [List.append_assoc] at hrest
    exact hrest

end Tells

/-! ## From the making on -/

namespace Registry

/-- Made from a table, or from the catalogue when none is given. -/
def make (kindField : Value) :
    Option (List (Value × Candidate σ)) → Outcome Entry (Registry σ) Unit
  | none => ⟨.ok (), standard kindField, []⟩
  | some table => fill table (empty kindField)

/-- The operations by which a table is registered. -/
def founding : Option (List (Value × Candidate σ)) → List (Operation σ)
  | none => (Catalogue.rules σ).map fun e => .register (.str e.1) (.rule e.2)
  | some table => table.map fun e => .register e.1 e.2

/-- A table that is registered without a fault is registered operation by operation. -/
theorem serveAll_of_fill {table : List (Value × Candidate σ)} {r r₀ : Registry σ}
    {es : List Entry} (h : fill table r = ⟨.ok (), r₀, es⟩) (u : σ) :
    (⟨r, u⟩ : Scene σ).serveAll (table.map fun e => .register e.1 e.2) = ⟨r₀, u⟩ := by
  induction table generalizing r es with
  | nil =>
    cases h
    rfl
  | cons e table ih =>
    have hbind : (register e.1 e.2 >>= fun _ => fill table) r = ⟨.ok (), r₀, es⟩ := h
    rw [Act.bind_apply] at hbind
    cases hresult : (register e.1 e.2 r).result with
    | error e' =>
      rw [hresult] at hbind
      cases hbind
    | ok =>
      rw [hresult] at hbind
      have hrest : fill table (register e.1 e.2 r).state =
          ⟨.ok (), r₀, (fill table (register e.1 e.2 r).state).entries⟩ := by
        obtain ⟨hok, hstate, -⟩ := Outcome.mk.inj hbind
        ext1
        · exact hok
        · exact hstate
        · rfl
      have hserve : (⟨r, u⟩ : Scene σ).serve (.register e.1 e.2) =
          ⟨(register e.1 e.2 r).state, u⟩ := by
        rw [Scene.serve, Operation.act, Act.bind_pure_apply]
        rfl
      show ((⟨r, u⟩ : Scene σ).serve (.register e.1 e.2)).serveAll _ = _
      rw [hserve]
      exact ih hrest

variable {table : Option (List (Value × Candidate σ))} {r₀ : Registry σ} {es : List Entry}

theorem serveAll_founding (h : make field table = ⟨.ok (), r₀, es⟩) (u : σ) :
    (⟨.empty field, u⟩ : Scene σ).serveAll (founding table) = ⟨r₀, u⟩ := by
  cases table with
  | none =>
    cases h
    have hfill := serveAll_of_fill (fill_catalogue field) u
    rw [List.map_map] at hfill
    exact hfill
  | some table => exact serveAll_of_fill h u

end Registry

namespace Scene

variable {table : Option (List (Value × Candidate σ))} {r₀ : Registry σ} {es : List Entry}

theorem serveAll_made (h : Registry.make field table = ⟨.ok (), r₀, es⟩) (u : σ)
    (operations : List (Operation σ)) :
    (⟨.empty field, u⟩ : Scene σ).serveAll (Registry.founding table ++ operations) =
      (⟨r₀, u⟩ : Scene σ).serveAll operations := by
  rw [serveAll_append, Registry.serveAll_founding h]

theorem tells_made (h : Registry.make field table = ⟨.ok (), r₀, es⟩) (u : σ)
    (operations : List (Operation σ)) :
    Tells field ((⟨.empty field, u⟩ : Scene σ).events (Registry.founding table ++ operations))
      ((⟨r₀, u⟩ : Scene σ).serveAll operations).registry := by
  have htells := (tells_empty field).events (s := ⟨.empty field, u⟩)
    (Registry.founding table ++ operations)
  rw [serveAll_made h, List.nil_append] at htells
  exact htells

end Scene

end RuleWalk
