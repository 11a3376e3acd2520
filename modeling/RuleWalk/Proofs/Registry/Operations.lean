import RuleWalk.Proofs.Registry.Table
import RuleWalk.Proofs.Walk.Step

/-!
# What is done with a registry

A registry is used by registering and removing rules, by looking for the slots of values, and by the
steps of walks. `Effect` is all that one of these operations can do to it: a rule is put in or taken
out, a kind is noticed, or nothing changes. What the rules offer and what the tests say has no part
in it, except that a walk does not look for the slots of a node that it prunes.
-/

namespace RuleWalk

variable {σ : Type}

/-! ## Operations -/

/-- Operations on a registry. A step may be one of any walk that uses it. -/
inductive Operation (σ : Type) where
  | register (kind : Value) (candidate : Candidate σ)
  | unregister (kind : Value)
  | slotsOf (v : Value)
  | childrenOf (v : Value)
  | isLeaf (v : Value)
  | step (w : Walk σ)

/-- What an operation gives. -/
inductive Answer where
  | done
  | number (n : Nat)
  | values (vs : List Value)
  | verdict (b : Bool)
  | taken (o : Option Value)

/-- One step of a walk that is kept elsewhere. -/
def Scene.stepOf (w : Walk σ) : Act Entry (Scene σ) (Option Value) :=
  Act.zoom (fun s => ⟨s, w⟩) (fun _ t => t.toScene) Walk.step

namespace Operation

def act : Operation σ → Act Entry (Scene σ) Answer
  | register kind candidate => do
    Scene.onRegistry (Registry.register kind candidate)
    return .done
  | unregister kind => do
    Scene.onRegistry (Registry.unregister kind)
    return .done
  | slotsOf v => return .values (← Scene.slotsOf v)
  | childrenOf v => return .values (← Scene.childrenOf v)
  | isLeaf v => return .verdict (← Scene.isLeaf v)
  | step w => return .taken (← Scene.stepOf w)

/-- Whether the operation is meant to change the rules. -/
def isChange : Operation σ → Bool
  | register _ _ | unregister _ => true
  | _ => false

/-- The value whose slots are looked up. A step looks up the slots of the next node, unless the node
is pruned or the test for that fails. -/
def subject? (s : Scene σ) : Operation σ → Option Value
  | slotsOf v | childrenOf v | isLeaf v => some v
  | step w =>
    match w.fringe with
    | [] => none
    | v :: _ =>
      match (Walk.pruned w.prune v s).result with
      | .ok false => some v
      | _ => none
  | _ => none

variable {w : Walk σ} {s : Scene σ} {v : Value} {rest : List Value}

theorem subject?_step_nil (h : w.fringe = []) : (step w).subject? s = none := by
  simp only [subject?, h]

theorem subject?_step_of_false (h : w.fringe = v :: rest)
    (hpruned : (Walk.pruned w.prune v s).result = .ok false) :
    (step w).subject? s = some v := by
  simp only [subject?, h, hpruned]

theorem subject?_step_of_ne (h : w.fringe = v :: rest)
    (hpruned : (Walk.pruned w.prune v s).result ≠ .ok false) : (step w).subject? s = none := by
  simp only [subject?, h]

end Operation

/-! ## Events -/

def Entry.record? : Entry → Option Record
  | .log record => some record
  | .call _ _ _ => none

/-- The log records among what was put on record. -/
def logged (es : List Entry) : List Record := es.filterMap Entry.record?

theorem logged_append (es es' : List Entry) : logged (es ++ es') = logged es ++ logged es' :=
  List.filterMap_append

/-- An operation that was done: whether it succeeded, the value whose slots were looked up, and what
was logged. -/
structure Event (σ : Type) where
  operation : Operation σ
  ok : Bool
  subject? : Option Value
  records : List Record

def Operation.event (s : Scene σ) (d : Operation σ) : Event σ where
  operation := d
  ok := (d.act s).result.isOk
  subject? := d.subject? s
  records := logged (d.act s).entries

namespace Scene

def serve (s : Scene σ) (d : Operation σ) : Scene σ := (d.act s).state

/-- The scene after one operation after the other. -/
def serveAll (s : Scene σ) (ds : List (Operation σ)) : Scene σ := ds.foldl serve s

def events (s : Scene σ) : List (Operation σ) → List (Event σ)
  | [] => []
  | d :: ds => d.event s :: (s.serve d).events ds

theorem serveAll_append (s : Scene σ) (ds ds' : List (Operation σ)) :
    s.serveAll (ds ++ ds') = (s.serveAll ds).serveAll ds' := List.foldl_append

/-- An event in a row is that of an operation, done after the operations before it. -/
theorem events_eq_append {s : Scene σ} {ds : List (Operation σ)} {before later : List (Event σ)}
    {e : Event σ} (h : s.events ds = before ++ e :: later) :
    ∃ ds₁ d ds₂, ds = ds₁ ++ d :: ds₂ ∧ s.events ds₁ = before ∧
      d.event (s.serveAll ds₁) = e := by
  induction ds generalizing s before with
  | nil => simp [events] at h
  | cons d ds ih =>
    rw [events] at h
    cases before with
    | nil =>
      obtain ⟨rfl, -⟩ := List.cons.inj h
      exact ⟨[], d, ds, rfl, rfl, rfl⟩
    | cons e' before =>
      obtain ⟨rfl, htail⟩ := List.cons.inj h
      obtain ⟨ds₁, d', ds₂, rfl, hevents, he⟩ := ih htail
      exact ⟨d :: ds₁, d', ds₂, rfl, congrArg (d.event s :: ·) hevents, he⟩

end Scene

/-! ## Effects -/

/-- All that an operation can do to a registry `r`: the event, and what becomes of `r`. -/
inductive Event.Effect (r : Registry σ) : Event σ → Registry σ → Prop
  | registered {kind : Value} {candidate : Candidate σ} {k : String} {rule : Rule σ}
      (h : Registry.accepted? kind candidate = some (k, rule)) :
      Effect r ⟨.register kind candidate, true, none, if r.has k then [.overriding k] else []⟩
        (r.put k rule)
  | removed {k : String} (h : r.has k = true) :
      Effect r ⟨.unregister (.str k), true, none, [.removed k]⟩ (r.erase k)
  | refused {kind : Value} {candidate : Candidate σ}
      (h : Registry.accepted? kind candidate = none) :
      Effect r ⟨.register kind candidate, false, none, []⟩ r
  | missed {kind : Value} (h : ∀ k, kind = .str k → r.has k = false) :
      Effect r ⟨.unregister kind, false, none, []⟩ r
  | looked {d : Operation σ} (hd : d.isChange = false) (ok : Bool) (v : Value) :
      Effect r ⟨d, ok, some v, (r.newcomer? v).toList.map .unknownKind⟩ (r.notice v)
  | passed (w : Walk σ) (ok : Bool) : Effect r ⟨.step w, ok, none, []⟩ r

/-- Where no rule is meant to change, an operation looks up its subject and does nothing else. -/
theorem Event.Effect.noticed {r r' : Registry σ} {e : Event σ} (h : e.Effect r r')
    (hd : e.operation.isChange = false) :
    ∃ new, e.records = new.map .unknownKind ∧ r.Noticed e.subject?.toList new r' := by
  cases h with
  | registered => cases hd
  | removed => cases hd
  | refused => cases hd
  | missed => cases hd
  | looked hd ok v => exact ⟨_, rfl, r.noticed_notice v⟩
  | passed w ok => exact ⟨[], rfl, r.noticed_nil⟩

theorem Act.bind_pure_apply {ω ρ α β : Type} (m : Act ω ρ α) (f : α → β) (s : ρ) :
    (m >>= fun a => Pure.pure (f a)) s =
      ⟨(m s).result.map f, (m s).state, (m s).entries⟩ := by
  rw [bind_apply]
  cases (m s).result with
  | error e => rfl
  | ok a => simp [Outcome.after, Except.map]

namespace Scene

/-- Looking up slots, seen from the registry. -/
theorem slotsOf_notices (v : Value) (s : Scene σ) :
    (slotsOf v s).state.registry = s.registry.notice v ∧
      logged (slotsOf v s).entries = (s.registry.newcomer? v).toList.map .unknownKind := by
  rcases hkind : s.registry.kindOf v with e | _ | k
  · simp [slotsOf, Registry.notice, Registry.newcomer?, Registry.stranger?, hkind, logged]
  · simp [slotsOf, Registry.notice, Registry.newcomer?, Registry.stranger?, hkind, logged]
  · cases hrule : s.registry.rule? k with
    | some rule =>
      have hnone : s.registry.newcomer? v = none := by
        simp [Registry.newcomer?, Registry.stranger?, hkind, Registry.has, hrule]
      rw [Registry.notice, hnone, slotsOf, hkind]
      simp only [hrule]
      rw [Act.bind_apply]
      cases (consult (.rule k) v (rule.expand v) s).result with
      | error e => exact ⟨rfl, rfl⟩
      | ok o =>
        cases hslots : o.collect <;> simp only [hslots] <;> exact ⟨rfl, rfl⟩
    | none =>
      have hstranger : s.registry.stranger? v = some k :=
        Registry.stranger?_eq_some_iff.2 ⟨hkind, hrule⟩
      rw [slotsOf_of_no_rule hkind hrule, Registry.notice, Registry.newcomer?, hstranger]
      by_cases hk : s.registry.unknown.contains k = true
      · rw [if_pos hk, Option.filter_some_neg (by rw [hk]; rfl)]
        exact ⟨rfl, rfl⟩
      · rw [if_neg hk, Option.filter_some_pos (by rw [Bool.not_eq_true] at hk; rw [hk]; rfl)]
        exact ⟨rfl, rfl⟩

end Scene

namespace Walk

theorem pruned_registry (prune : Hook (Predicate σ)) (v : Value) (s : Scene σ) :
    (pruned prune v s).state.registry = s.registry ∧ logged (pruned prune v s).entries = [] := by
  cases prune <;> exact ⟨rfl, rfl⟩

/-- An expansion looks up the slots of the node, unless it is pruned. -/
theorem expand_notices {prune : Hook (Predicate σ)} {v : Value} {s : Scene σ}
    (h : (pruned prune v s).result = .ok false) :
    (expand prune v s).state.registry = s.registry.notice v ∧
      logged (expand prune v s).entries = (s.registry.newcomer? v).toList.map .unknownKind := by
  obtain ⟨hregistry, hlogged⟩ := pruned_registry prune v s
  obtain ⟨hstate, hentries⟩ := Scene.slotsOf_notices v (pruned prune v s).state
  rw [hregistry] at hstate hentries
  rw [expand, Act.bind_apply, h]
  refine ⟨hstate, ?_⟩
  show logged ((pruned prune v s).entries ++ (Scene.slotsOf v (pruned prune v s).state).entries) = _
  rw [logged_append, hlogged, hentries, List.nil_append]

theorem expand_passes {prune : Hook (Predicate σ)} {v : Value} {s : Scene σ}
    (h : (pruned prune v s).result ≠ .ok false) :
    (expand prune v s).state.registry = s.registry ∧ logged (expand prune v s).entries = [] := by
  obtain ⟨hregistry, hlogged⟩ := pruned_registry prune v s
  rw [expand, Act.bind_apply]
  rcases hresult : (pruned prune v s).result with e | _ | _
  · exact ⟨hregistry, hlogged⟩
  · exact absurd hresult h
  · refine ⟨hregistry, ?_⟩
    show logged ((pruned prune v s).entries ++ []) = []
    rw [List.append_nil]
    exact hlogged

end Walk

namespace Operation

/-- A step does to the registry what its expansion does. -/
theorem step_effect (w : Walk σ) (s : Scene σ) (ok : Bool) :
    Event.Effect s.registry
      ⟨.step w, ok, (step w).subject? s, logged (Scene.stepOf w s).entries⟩
      (Scene.stepOf w s).state.registry := by
  show Event.Effect _ ⟨_, _, _, logged (Walk.step ⟨s, w⟩).entries⟩ (Walk.step ⟨s, w⟩).state.registry
  cases hfringe : w.fringe with
  | nil =>
    rw [subject?_step_nil hfringe, Walk.step_nil hfringe]
    exact .passed w ok
  | cons v rest =>
    rw [Walk.step_cons hfringe]
    show Event.Effect _ ⟨_, _, _, logged (Walk.expand w.prune v s).entries⟩
      (Walk.expand w.prune v s).state.registry
    by_cases h : (Walk.pruned w.prune v s).result = .ok false
    · obtain ⟨hregistry, hlogged⟩ := Walk.expand_notices h
      rw [subject?_step_of_false hfringe h, hregistry, hlogged]
      exact .looked rfl ok v
    · obtain ⟨hregistry, hlogged⟩ := Walk.expand_passes h
      rw [subject?_step_of_ne hfringe h, hregistry, hlogged]
      exact .passed w ok

/-- Every operation has one of the effects. -/
theorem effect (s : Scene σ) (d : Operation σ) :
    (d.event s).Effect s.registry (s.serve d).registry := by
  have hlook (d : Operation σ) (hd : d.isChange = false) (ok : Bool) (v : Value) :
      Event.Effect s.registry ⟨d, ok, some v, logged (Scene.slotsOf v s).entries⟩
        (Scene.slotsOf v s).state.registry := by
    obtain ⟨hregistry, hlogged⟩ := Scene.slotsOf_notices v s
    rw [hregistry, hlogged]
    exact .looked hd ok v
  rw [event, Scene.serve]
  cases d with
  | register kind candidate =>
    rw [act, Act.bind_pure_apply]
    show Event.Effect _ ⟨_, ((Registry.register kind candidate s.registry).result.map _).isOk, _,
      logged (Registry.register kind candidate s.registry).entries⟩
      (Registry.register kind candidate s.registry).state
    cases haccepted : Registry.accepted? kind candidate with
    | none =>
      obtain ⟨e, he⟩ := Registry.register_of_refused haccepted s.registry
      rw [he]
      exact .refused haccepted
    | some entry =>
      obtain ⟨k, rule⟩ := entry
      rw [Registry.register_of_accepted haccepted]
      have hlogged : logged (if s.registry.has k then [.log (.overriding k)] else []) =
          if s.registry.has k then [.overriding k] else [] := by
        split <;> rfl
      rw [hlogged]
      exact .registered haccepted
  | unregister kind =>
    rw [act, Act.bind_pure_apply]
    show Event.Effect _ ⟨_, ((Registry.unregister kind s.registry).result.map _).isOk, _,
      logged (Registry.unregister kind s.registry).entries⟩
      (Registry.unregister kind s.registry).state
    rcases Registry.has_or_missed kind s.registry with ⟨k, rfl, hk⟩ | hmissed
    · rw [Registry.unregister_of_has hk]
      exact .removed hk
    · obtain ⟨e, he⟩ := Registry.unregister_of_refused hmissed
      rw [he]
      exact .missed hmissed
  | slotsOf v =>
    rw [act, Act.bind_pure_apply]
    exact hlook _ rfl _ v
  | childrenOf v =>
    rw [act, Act.bind_pure_apply, Scene.childrenOf, Act.bind_pure_apply]
    exact hlook _ rfl _ v
  | isLeaf v =>
    rw [act, Act.bind_pure_apply, Scene.isLeaf, Act.bind_pure_apply, Scene.childrenOf,
      Act.bind_pure_apply]
    exact hlook _ rfl _ v
  | step w =>
    rw [act, Act.bind_pure_apply]
    exact step_effect w s _

end Operation

end RuleWalk
