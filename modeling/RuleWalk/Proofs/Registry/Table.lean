import RuleWalk.Proofs.Rules

/-!
# The table of a registry

A registry keeps its rules in a list, each kind once. To register is to put a rule in the place of
the old one or at the end, and to remove is to take the one entry away, so the list is a map from
kinds to rules. `WellFormed` says this, and that the kinds met without a rule are apart from those
that have one; every operation keeps it. A well-formed registry can be copied.
-/

namespace RuleWalk

/-! ## Texts in order -/

theorem sortTexts_perm (xs : List String) : (sortTexts xs).Perm xs := List.mergeSort_perm _ _

@[simp] theorem mem_sortTexts {xs : List String} {k : String} : k ∈ sortTexts xs ↔ k ∈ xs :=
  (sortTexts_perm xs).mem_iff

theorem sortTexts_pairwise_le (xs : List String) : (sortTexts xs).Pairwise (· ≤ ·) := by
  have htrans (a b c : String) : decide (a ≤ b) = true → decide (b ≤ c) = true →
      decide (a ≤ c) = true := by
    rw [decide_eq_true_iff, decide_eq_true_iff, decide_eq_true_iff]
    exact String.le_trans
  have htotal (a b : String) : (decide (a ≤ b) || decide (b ≤ a)) = true := by
    rw [Bool.or_eq_true, decide_eq_true_iff, decide_eq_true_iff]
    exact String.le_total a b
  exact (List.pairwise_mergeSort htrans htotal xs).imp of_decide_eq_true

/-- Texts that are all different stand in strictly increasing order. -/
theorem sortTexts_increasing {xs : List String} (h : xs.Nodup) :
    (sortTexts xs).Pairwise (· < ·) := by
  have hne : (sortTexts xs).Nodup := (sortTexts_perm xs).nodup_iff.2 h
  refine (sortTexts_pairwise_le xs).imp₂ (fun a b hle hne => ?_) hne
  apply Decidable.byContradiction
  intro hlt
  exact hne (String.le_antisymm hle (String.not_lt.1 hlt))

/-- The order does not depend on where the texts stood before. -/
theorem sortTexts_congr {xs ys : List String} (h : xs.Perm ys) : sortTexts xs = sortTexts ys :=
  List.Perm.eq_of_pairwise (fun _ _ _ _ => String.le_antisymm) (sortTexts_pairwise_le xs)
    (sortTexts_pairwise_le ys) ((sortTexts_perm xs).trans (h.trans (sortTexts_perm ys).symm))

/-! ## What is offered for registration -/

variable {σ : Type}

theorem Candidate.check_eq_ok_iff {kind : String} {c : Candidate σ} {rule : Rule σ} :
    c.check kind = .ok rule ↔ c = .rule rule ∧ rule.accepts = true := by
  cases c with
  | inert typeName => simp [check]
  | rule r =>
    cases hsig : r.signature with
    | none =>
      simp only [check, hsig, Except.ok.injEq, Candidate.rule.injEq]
      constructor
      · rintro rfl
        exact ⟨rfl, by rw [Rule.accepts, hsig]⟩
      · exact And.left
    | some s =>
      have haccepts : r.accepts = s.acceptsOne := by rw [Rule.accepts, hsig]
      simp only [check, hsig, Candidate.rule.injEq]
      split
      · next hs =>
        rw [Except.ok.injEq]
        constructor
        · rintro rfl
          exact ⟨rfl, haccepts.trans hs⟩
        · exact And.left
      · next hs =>
        constructor
        · rintro ⟨⟩
        · rintro ⟨rfl, h⟩
          exact absurd (haccepts.symm.trans h) hs

namespace Registry

/-- The kind and the rule that a registration is about, if it is not refused. -/
def accepted? (kind : Value) (candidate : Candidate σ) : Option (String × Rule σ) :=
  match kind, candidate with
  | .str k, .rule rule => if k ≠ "" ∧ rule.accepts = true then some (k, rule) else none
  | _, _ => none

theorem accepted?_eq_some_iff {kind : Value} {candidate : Candidate σ} {k : String}
    {rule : Rule σ} :
    accepted? kind candidate = some (k, rule) ↔
      kind = .str k ∧ candidate = .rule rule ∧ k ≠ "" ∧ rule.accepts = true := by
  unfold accepted?
  split
  · next k' rule' =>
    split
    · next h =>
      constructor
      · rintro ⟨⟩
        exact ⟨rfl, rfl, h⟩
      · rintro ⟨⟨⟩, ⟨⟩, -⟩
        rfl
    · next h =>
      constructor
      · rintro ⟨⟩
      · rintro ⟨⟨⟩, ⟨⟩, h'⟩
        exact absurd h' h
  · next hne =>
    constructor
    · rintro ⟨⟩
    · rintro ⟨rfl, rfl, -⟩
      exact absurd rfl (hne k rule rfl)

theorem register_of_accepted {kind : Value} {candidate : Candidate σ} {k : String} {rule : Rule σ}
    (h : accepted? kind candidate = some (k, rule)) (r : Registry σ) :
    register kind candidate r =
      ⟨.ok (), r.put k rule, if r.has k then [.log (.overriding k)] else []⟩ := by
  obtain ⟨rfl, rfl, hk, hrule⟩ := accepted?_eq_some_iff.1 h
  have hcheck : (Candidate.rule rule).check k = .ok rule :=
    Candidate.check_eq_ok_iff.2 ⟨rfl, hrule⟩
  simp [register, hk, hcheck]

/-- A registration that is refused leaves the registry as it was, and nothing is put on record. -/
theorem register_of_refused {kind : Value} {candidate : Candidate σ}
    (h : accepted? kind candidate = none) (r : Registry σ) :
    ∃ e, register kind candidate r = ⟨.error e, r, []⟩ := by
  unfold register
  split
  · next k =>
    split
    · exact ⟨_, rfl⟩
    · next hk =>
      split
      · next e _ => exact ⟨e, rfl⟩
      · next rule hcheck =>
        obtain ⟨rfl, hrule⟩ := Candidate.check_eq_ok_iff.1 hcheck
        have haccepted : accepted? (.str k) (.rule rule) = some (k, rule) :=
          accepted?_eq_some_iff.2 ⟨rfl, rfl, by simpa using hk, hrule⟩
        exact absurd (haccepted.symm.trans h) (by simp)
  · exact ⟨_, rfl⟩

theorem unregister_of_has {k : String} {r : Registry σ} (h : r.has k = true) :
    unregister (.str k) r = ⟨.ok (), r.erase k, [.log (.removed k)]⟩ := by
  simp [unregister, Value.checkKey, h]

/-- What is named for removal is a kind with a rule, or it is not. -/
theorem has_or_missed (kind : Value) (r : Registry σ) :
    (∃ k, kind = .str k ∧ r.has k = true) ∨ ∀ k, kind = .str k → r.has k = false := by
  by_cases hhas : ∃ k, kind = .str k ∧ r.has k = true
  · exact .inl hhas
  · refine .inr fun k hk => ?_
    rw [← Bool.not_eq_true]
    exact fun h => hhas ⟨k, hk, h⟩

theorem unregister_of_refused {kind : Value} {r : Registry σ}
    (h : ∀ k, kind = .str k → r.has k = false) :
    ∃ e, unregister kind r = ⟨.error e, r, []⟩ := by
  unfold unregister
  split
  · next e _ => exact ⟨e, rfl⟩
  · split
    · rw [if_neg (by simp [h _ rfl])]
      exact ⟨_, rfl⟩
    · exact ⟨_, rfl⟩

/-! ## The list as a map -/

theorem lookup_cons_eq (e : String × Rule σ) (es : List (String × Rule σ)) (k : String) :
    (e :: es).lookup k = if k = e.1 then some e.2 else es.lookup k := by
  rw [List.lookup_cons]
  by_cases h : k = e.1
  · rw [if_pos h, beq_iff_eq.2 h]
  · rw [if_neg h, beq_false_of_ne h]

theorem lookup_insertRule (kind : String) (rule : Rule σ) (es : List (String × Rule σ))
    (k : String) :
    (insertRule kind rule es).lookup k = if k = kind then some rule else es.lookup k := by
  induction es with
  | nil => rw [insertRule, lookup_cons_eq]
  | cons e es ih =>
    rw [insertRule]
    split
    · next he =>
      rw [lookup_cons_eq, lookup_cons_eq, he]
      split <;> rfl
    · next he =>
      rw [lookup_cons_eq, lookup_cons_eq, ih]
      by_cases h : k = kind
      · rw [if_neg (by rw [h]; exact Ne.symm he), if_pos h, if_pos h]
      · rw [if_neg h, if_neg h]

theorem map_fst_insertRule (kind : String) (rule : Rule σ) (es : List (String × Rule σ)) :
    (insertRule kind rule es).map Prod.fst =
      if kind ∈ es.map Prod.fst then es.map Prod.fst else es.map Prod.fst ++ [kind] := by
  induction es with
  | nil => rfl
  | cons e es ih =>
    rw [insertRule]
    by_cases he : e.1 = kind
    · simp [he]
    · rw [if_neg he, List.map_cons, ih, List.map_cons]
      by_cases hmem : kind ∈ es.map Prod.fst
      · rw [if_pos hmem, if_pos (List.mem_cons_of_mem _ hmem)]
      · rw [if_neg hmem, if_neg (by simp only [List.mem_cons, not_or]; exact ⟨Ne.symm he, hmem⟩),
          List.cons_append]

theorem mem_insertRule {kind : String} {rule : Rule σ} {es : List (String × Rule σ)}
    {e : String × Rule σ} (h : e ∈ insertRule kind rule es) : e = (kind, rule) ∨ e ∈ es := by
  induction es with
  | nil => exact .inl (List.mem_singleton.1 h)
  | cons e' es ih =>
    rw [insertRule] at h
    split at h
    · rcases List.mem_cons.1 h with rfl | h
      · exact .inl rfl
      · exact .inr (List.mem_cons_of_mem _ h)
    · rcases List.mem_cons.1 h with rfl | h
      · exact .inr List.mem_cons_self
      · exact (ih h).imp_right (List.mem_cons_of_mem _)

theorem insertRule_of_notMem {kind : String} {rule : Rule σ} {es : List (String × Rule σ)}
    (h : kind ∉ es.map Prod.fst) : insertRule kind rule es = es ++ [(kind, rule)] := by
  induction es with
  | nil => rfl
  | cons e es ih =>
    rw [List.map_cons, List.mem_cons, not_or] at h
    rw [insertRule, if_neg (Ne.symm h.1), ih h.2, List.cons_append]

variable {r : Registry σ} {k : String} {rule : Rule σ}

theorem rule?_put (r : Registry σ) (kind : String) (rule : Rule σ) (k : String) :
    (r.put kind rule).rule? k = if k = kind then some rule else r.rule? k :=
  lookup_insertRule kind rule r.rules k

theorem rule?_erase (r : Registry σ) (kind k : String) :
    (r.erase kind).rule? k = if k = kind then none else r.rule? k := by
  show (r.rules.filter fun e => e.1 != kind).lookup k = if k = kind then none else r.rules.lookup k
  induction r.rules with
  | nil => simp
  | cons e es ih =>
    rw [List.filter_cons, lookup_cons_eq]
    by_cases he : e.1 = kind
    · rw [if_neg (by simp [he]), ih, he]
      by_cases hk : k = kind
      · rw [if_pos hk, if_pos hk]
      · rw [if_neg hk, if_neg hk, if_neg hk]
    · rw [if_pos (by simp [he]), lookup_cons_eq, ih]
      by_cases hk : k = kind
      · rw [if_pos hk, if_pos hk, if_neg (by rw [hk]; exact Ne.symm he)]
      · rw [if_neg hk, if_neg hk]

theorem has_eq_false_iff : r.has k = false ↔ r.rule? k = none := by
  rw [has, Option.isSome_eq_false_iff, Option.isNone_iff_eq_none]

theorem has_iff_mem : r.has k = true ↔ k ∈ r.rules.map Prod.fst := by
  constructor
  · intro h
    obtain ⟨rule, hrule⟩ := Option.isSome_iff_exists.1 h
    obtain ⟨l₁, l₂, hrules, -⟩ := List.lookup_eq_some_iff.1 hrule
    simp [hrules]
  · intro h
    obtain ⟨e, he, rfl⟩ := List.mem_map.1 h
    cases hhas : r.has e.1 with
    | true => rfl
    | false =>
      have hne := List.lookup_eq_none_iff.1 (has_eq_false_iff.1 hhas) e he
      simp at hne

theorem rules_erase_of_not_has (h : r.has k = false) :
    (r.rules.filter fun e => e.1 != k) = r.rules := by
  rw [List.filter_eq_self]
  intro e he
  rw [bne_iff_ne]
  rintro rfl
  have hmem : r.has e.1 = true := has_iff_mem.2 (List.mem_map_of_mem he)
  rw [h] at hmem
  cases hmem

theorem mem_kinds : k ∈ r.kinds ↔ (r.rule? k).isSome = true := mem_sortTexts.trans has_iff_mem.symm

/-! ## Looking up -/

/-- The kind of a value, if it has one without a rule. -/
def stranger? (r : Registry σ) (v : Value) : Option String :=
  match r.kindOf v with
  | .ok (some k) => if r.has k then none else some k
  | _ => none

/-- The kind that is met for the first time when the slots of a value are looked up. -/
def newcomer? (r : Registry σ) (v : Value) : Option String :=
  (r.stranger? v).filter fun k => !r.unknown.contains k

/-- The registry after the slots of a value were looked up. -/
def notice (r : Registry σ) (v : Value) : Registry σ :=
  { r with unknown := (r.newcomer? v).toList ++ r.unknown }

theorem stranger?_eq_some_iff {v : Value} :
    r.stranger? v = some k ↔ r.kindOf v = .ok (some k) ∧ r.rule? k = none := by
  unfold stranger?
  split
  · next k' hkind =>
    rw [hkind, Except.ok.injEq, Option.some.injEq]
    split
    · next hhas =>
      constructor
      · rintro ⟨⟩
      · rintro ⟨rfl, hrule⟩
        rw [has_eq_false_iff.2 hrule] at hhas
        cases hhas
    · next hhas =>
      rw [Bool.not_eq_true, has_eq_false_iff] at hhas
      constructor
      · rintro ⟨⟩
        exact ⟨rfl, hhas⟩
      · rintro ⟨rfl, -⟩
        rfl
  · next hkind =>
    constructor
    · rintro ⟨⟩
    · rintro ⟨h, -⟩
      exact absurd h (hkind k)

theorem newcomer?_eq_some_iff {v : Value} :
    r.newcomer? v = some k ↔ r.stranger? v = some k ∧ k ∉ r.unknown := by
  simp [newcomer?, Option.filter_eq_some_iff]

theorem mem_unknown_notice {v : Value} :
    k ∈ (r.notice v).unknown ↔ r.stranger? v = some k ∨ k ∈ r.unknown := by
  rw [notice, List.mem_append, Option.mem_toList, newcomer?_eq_some_iff]
  constructor
  · rintro (h | h)
    · exact .inl h.1
    · exact .inr h
  · rintro (h | h)
    · by_cases hk : k ∈ r.unknown
      · exact .inr hk
      · exact .inl ⟨h, hk⟩
    · exact .inr h

/-- The slots of the values in `vs` were looked up, one after the other, and `new` are the kinds
that were met for the first time. -/
structure Noticed (r : Registry σ) (vs : List Value) (new : List String) (r' : Registry σ) :
    Prop where
  eq : r' = { r with unknown := new.reverse ++ r.unknown }
  nodup : new.Nodup
  mem_iff : ∀ k, k ∈ new ↔ k ∉ r.unknown ∧ ∃ v ∈ vs, r.stranger? v = some k

theorem noticed_nil (r : Registry σ) : r.Noticed [] [] r where
  eq := rfl
  nodup := List.nodup_nil
  mem_iff := by simp

theorem noticed_notice (r : Registry σ) (v : Value) :
    r.Noticed [v] (r.newcomer? v).toList (r.notice v) where
  eq := by
    rw [notice]
    cases r.newcomer? v <;> rfl
  nodup := by cases r.newcomer? v <;> simp
  mem_iff := by
    intro k
    rw [Option.mem_toList, newcomer?_eq_some_iff, and_comm]
    simp

namespace Noticed

variable {r' r'' : Registry σ} {vs vs' : List Value} {new new' : List String}

/-- What is new in the second row was not met in the first one. -/
theorem trans (h : r.Noticed vs new r') (h' : r'.Noticed vs' new' r'') :
    r.Noticed (vs ++ vs') (new ++ new') r'' := by
  obtain ⟨rfl, hnodup, hnew⟩ := h
  obtain ⟨rfl, hnodup', hnew'⟩ := h'
  have hlater (k : String) : k ∈ new' ↔
      (k ∉ new ∧ k ∉ r.unknown) ∧ ∃ v ∈ vs', r.stranger? v = some k := by
    rw [hnew', List.mem_append, List.mem_reverse, not_or]
    rfl
  constructor
  case eq => simp
  case nodup =>
    refine List.nodup_append.2 ⟨hnodup, hnodup', ?_⟩
    rintro k hk _ hk' rfl
    exact ((hlater k).1 hk').1.1 hk
  case mem_iff =>
    intro k
    rw [List.mem_append, hlater, hnew]
    constructor
    · rintro (⟨hk, v, hv, hstranger⟩ | ⟨⟨-, hk⟩, v, hv, hstranger⟩)
      · exact ⟨hk, v, List.mem_append_left vs' hv, hstranger⟩
      · exact ⟨hk, v, List.mem_append_right vs hv, hstranger⟩
    · rintro ⟨hk, v, hv, hstranger⟩
      by_cases hfirst : ∃ v ∈ vs, r.stranger? v = some k
      · exact .inl ⟨hk, hfirst⟩
      · rcases List.mem_append.1 hv with hv | hv
        · exact absurd ⟨v, hv, hstranger⟩ hfirst
        · exact .inr ⟨⟨fun h => hfirst h.2, hk⟩, v, hv, hstranger⟩

/-- In whatever order the same values are looked up, the same kinds are new. -/
theorem perm (h : r.Noticed vs new r') (h' : r.Noticed vs' new' r'') (hvs : ∀ v, v ∈ vs ↔ v ∈ vs') :
    new.Perm new' := by
  refine (List.perm_ext_iff_of_nodup h.nodup h'.nodup).2 fun k => ?_
  simp only [h.mem_iff, h'.mem_iff, hvs]

theorem unknownKinds_eq (h : r.Noticed vs new r') (h' : r.Noticed vs' new' r'')
    (hnew : new.Perm new') : r'.unknownKinds = r''.unknownKinds := by
  rw [h.eq, h'.eq]
  refine sortTexts_congr (List.Perm.append_right r.unknown ?_)
  exact new.reverse_perm.trans (hnew.trans new'.reverse_perm.symm)

end Noticed

/-! ## Well-formed registries -/

/-- Each kind stands once, is a text that is not empty, and has a rule that can be called with the
node alone. The kinds that were met without a rule are listed once and have none. -/
structure WellFormed (r : Registry σ) : Prop where
  nodup : (r.rules.map Prod.fst).Nodup
  usable : ∀ e ∈ r.rules, e.1 ≠ "" ∧ e.2.accepts = true
  unknown_nodup : r.unknown.Nodup
  unknown_free : ∀ k ∈ r.unknown, r.rule? k = none

theorem wellFormed_empty (kindField : Value) : (empty kindField : Registry σ).WellFormed :=
  ⟨.nil, by rintro _ ⟨⟩, .nil, by rintro _ ⟨⟩⟩

theorem wellFormed_standard (kindField : Value) : (standard kindField : Registry σ).WellFormed := by
  refine ⟨?_, ?_, .nil, by rintro _ ⟨⟩⟩
  · rw [standard, Catalogue.rules, List.map_map]
    show (Catalogue.table.map Prod.fst).Nodup
    decide
  · intro e he
    obtain ⟨e', he', rfl⟩ := List.mem_map.1 he
    have hne : ∀ e ∈ Catalogue.table, e.1 ≠ "" := by decide
    exact ⟨hne e' he', rfl⟩

namespace WellFormed

theorem put (h : r.WellFormed) (hk : k ≠ "") (hrule : rule.accepts = true) :
    (r.put k rule).WellFormed where
  nodup := by
    rw [Registry.put, map_fst_insertRule]
    split
    · exact h.nodup
    · next hmem =>
      rw [List.nodup_append]
      refine ⟨h.nodup, List.pairwise_singleton _ _, ?_⟩
      rintro a ha b hb rfl
      exact hmem (List.mem_singleton.1 hb ▸ ha)
  usable := by
    intro e he
    rcases mem_insertRule he with rfl | he
    · exact ⟨hk, hrule⟩
    · exact h.usable e he
  unknown_nodup := h.unknown_nodup.filter _
  unknown_free := by
    intro k' hk'
    obtain ⟨hmem, hne⟩ := List.mem_filter.1 hk'
    rw [rule?_put, if_neg (by simpa using hne)]
    exact h.unknown_free k' hmem

theorem erase (h : r.WellFormed) (k : String) : (r.erase k).WellFormed where
  nodup := h.nodup.sublist (List.filter_sublist.map _)
  usable := fun e he => h.usable e (List.mem_filter.1 he).1
  unknown_nodup := h.unknown_nodup
  unknown_free := by
    intro k' hk'
    rw [rule?_erase]
    split
    · rfl
    · exact h.unknown_free k' hk'

theorem notice (h : r.WellFormed) (v : Value) : (r.notice v).WellFormed where
  nodup := h.nodup
  usable := h.usable
  unknown_nodup := by
    rw [Registry.notice]
    cases hnew : r.newcomer? v with
    | none => exact h.unknown_nodup
    | some k => exact List.nodup_cons.2 ⟨(newcomer?_eq_some_iff.1 hnew).2, h.unknown_nodup⟩
  unknown_free := by
    intro k hk
    rcases mem_unknown_notice.1 hk with hv | hk
    · exact (stranger?_eq_some_iff.1 hv).2
    · exact h.unknown_free k hk

/-- What was met can be forgotten. -/
theorem forget (h : r.WellFormed) :
    ({ kindField := r.kindField, rules := r.rules } : Registry σ).WellFormed :=
  ⟨h.nodup, h.usable, .nil, by rintro _ ⟨⟩⟩

theorem kinds_increasing (h : r.WellFormed) : r.kinds.Pairwise (· < ·) :=
  sortTexts_increasing h.nodup

theorem unknownKinds_increasing (h : r.WellFormed) : r.unknownKinds.Pairwise (· < ·) :=
  sortTexts_increasing h.unknown_nodup

end WellFormed

/-! ## Copies -/

/-- A table of kinds that are new to a registry is registered behind what is there, in order. -/
theorem fill_rules {es : List (String × Rule σ)} (hnodup : (es.map Prod.fst).Nodup)
    (husable : ∀ e ∈ es, e.1 ≠ "" ∧ e.2.accepts = true) {r : Registry σ} (hunknown : r.unknown = [])
    (hnew : ∀ e ∈ es, e.1 ∉ r.rules.map Prod.fst) :
    fill (es.map fun e => (.str e.1, .rule e.2)) r =
      ⟨.ok (), { r with rules := r.rules ++ es }, []⟩ := by
  induction es generalizing r with
  | nil => simp [fill, Act.each, Act.pure]
  | cons e es ih =>
    obtain ⟨hk, hrule⟩ := husable e List.mem_cons_self
    have hfresh := hnew e List.mem_cons_self
    have hhas : r.has e.1 = false := by
      rw [← Bool.not_eq_true, has_iff_mem]
      exact hfresh
    have hput : r.put e.1 e.2 = { r with rules := r.rules ++ [e] } := by
      rw [put, insertRule_of_notMem hfresh, hunknown]
      rfl
    have hfirst : register (.str e.1) (.rule e.2) r =
        ⟨.ok (), { r with rules := r.rules ++ [e] }, []⟩ := by
      rw [register_of_accepted (accepted?_eq_some_iff.2 ⟨rfl, rfl, hk, hrule⟩), hhas, hput]
      rfl
    have hrest := ih (r := { r with rules := r.rules ++ [e] }) (List.nodup_cons.1 hnodup).2
      (fun e' he' => husable e' (List.mem_cons_of_mem _ he')) hunknown (by
        intro e' he'
        rw [List.map_append, List.mem_append, not_or]
        refine ⟨hnew e' (List.mem_cons_of_mem _ he'), fun hmem => ?_⟩
        rw [List.map_singleton, List.mem_singleton] at hmem
        exact (List.nodup_cons.1 hnodup).1 (hmem ▸ List.mem_map_of_mem he'))
    rw [List.map_cons, fill, Act.each]
    refine (Act.bind_of_ok hfirst _).trans ?_
    rw [← fill, hrest]
    simp [Outcome.after]

/-- The copy of a well-formed registry is made without a fault and without a word: it has the same
rules and the same kind field, and has met nothing yet. -/
theorem WellFormed.copy_eq (h : r.WellFormed) :
    r.copy = ⟨.ok (), { kindField := r.kindField, rules := r.rules }, []⟩ := by
  rw [copy, fill_rules h.nodup h.usable rfl (by rintro _ _ ⟨⟩)]
  rfl

/-- The registry of the catalogue is what registering the catalogue gives. -/
theorem fill_catalogue (kindField : Value) :
    fill ((Catalogue.rules σ).map fun e => (.str e.1, .rule e.2)) (empty kindField) =
      ⟨.ok (), standard kindField, []⟩ :=
  (wellFormed_standard kindField).copy_eq

end Registry

end RuleWalk
