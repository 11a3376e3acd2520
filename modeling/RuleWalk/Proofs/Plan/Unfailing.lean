import RuleWalk.Proofs.Plan.Beat

/-!
# Unfailing configurations

A configuration is unfailing when its own functions never fail and its tests are pure. What a beat
of an unfailing run that skips failures gives can then be told from the node alone: the node is
yielded or passed, and only a fault that escapes from its expansion ends the run.
-/

namespace RuleWalk

/-- The kinds that are named, or all. -/
def Kinds.named : Option (List String) → Kinds
  | none => .all
  | some names => .oneOf (names.map .str)

/-- Whether a kind is one of the named. A value without a kind is none of them. -/
def Kinds.isNamed (names : Option (List String)) (kind : Option String) : Bool :=
  match names, kind with
  | none, _ => true
  | some names, some k => names.contains k
  | some _, none => false

theorem Value.eq_str (s t : String) : Value.eq (.str s) (.str t) = (s == t) := by
  rw [Value.eq]

theorem Value.eq_null_str (t : String) : Value.eq .null (.str t) = false := by
  rw [Value.eq] <;> simp [Value.quantity?]

theorem Value.any_eq_str (s : String) (names : List String) :
    (names.map Value.str).any (Value.eq (.str s)) = names.contains s := by
  have hsame : (fun name => (Value.str s).eq (.str name)) = fun name => s == name :=
    funext (Value.eq_str s)
  rw [List.any_map, Function.comp_def, hsame, List.contains_eq_any_beq]

/-- Looking for a kind among named ones never fails, also where there is no kind. -/
theorem Kinds.contains_named (names : Option (List String)) (kind : Option String) :
    (Kinds.named names).contains (Run.kindValue kind) = .ok (isNamed names kind) := by
  cases names with
  | none => rfl
  | some names =>
    have hkey : (Run.kindValue kind).checkKey = .ok () := by cases kind <;> rfl
    rw [Kinds.named, Kinds.contains, hkey]
    cases kind with
    | none =>
      have hnone : (fun name => Value.null.eq (.str name)) = fun _ => false :=
        funext Value.eq_null_str
      simp [Except.map, isNamed, Run.kindValue, List.any_map, Function.comp_def, hnone]
    | some k =>
      rw [isNamed, Run.kindValue, Value.any_eq_str]
      rfl

/-- A pure test that never fails says in every state what it says in one. -/
theorem Hook.call_result {σ : Type} {h : Hook (Predicate σ)}
    (hall : h.All fun p => p.IsPure ∧ p.NeverFails) (role : Role) (fallback : Bool) (v : Value)
    (u u' : σ) :
    ((if h.isSet then h.call role v (fun p => p v) else pure fallback :
        Act Entry σ Bool) u').result =
      .ok (if h.isSet then h.holds u v else fallback) := by
  cases h with
  | absent => rfl
  | inert w => exact hall.elim
  | live p truth =>
    cases truth with
    | false => rfl
    | true =>
      obtain ⟨b, hb⟩ := hall.2 v u
      rw [Hook.holds_of_ok hb]
      exact (hall.1 v u' u).trans hb

namespace Filter

variable {σ : Type} {f : Filter σ}

/-- Whether a node of the given kind is to be yielded, when the caller's state is `u`: it is not
dropped, its kind is named, and it is kept where there is a test for that. A test that counts as
false is not heeded. -/
def wants (f : Filter σ) (names : Option (List String)) (u : σ) (kind : Option String)
    (v : Value) : Bool :=
  !f.drop.heeded.holds u v && Kinds.isNamed names kind && (!f.keep.isSet || f.keep.holds u v)

/-- An unfailing filter always answers, and says the same in every state of the caller. -/
theorem admits_result {names : Option (List String)} (hkinds : f.kinds = .named names)
    (hdrop : f.drop.All fun p => p.IsPure ∧ p.NeverFails)
    (hkeep : f.keep.All fun p => p.IsPure ∧ p.NeverFails) (v : Value) (kind : Option String)
    (u u' : σ) :
    (f.admits v (Run.kindValue kind) u').result = .ok (f.wants names u kind v) := by
  have hdrops : (f.drops v u').result = .ok (f.drop.heeded.holds u v) := by
    rw [drops, Hook.call_result hdrop .drop false v u u', Hook.heeded_holds]
    cases f.drop.isSet <;> rfl
  rw [admits, Act.bind_apply, hdrops, wants]
  cases f.drop.heeded.holds u v with
  | true => rfl
  | false =>
    have hkeeps := Hook.call_result hkeep .keep true v u (f.drops v u').state
    rw [hkinds, Kinds.contains_named]
    simp only [Bool.false_eq_true, if_false, Act.ofExcept_ok_bind, Outcome.after_result,
      Bool.not_false, Bool.true_and]
    cases Kinds.isNamed names kind with
    | false => rfl
    | true =>
      refine hkeeps.trans ?_
      cases f.keep.isSet <;> rfl

end Filter

/-- The configuration yields what `f`, with the named kinds, wants, up to `max` nodes. None of its
functions ever fails, and its tests are pure. -/
structure Config.Unfailing {σ : Type} (c : Config σ) (f : Filter σ) (names : Option (List String))
    (max : Option Nat) : Prop where
  filter : c.filter = .given f
  kinds : f.kinds = .named names
  limit : c.limit = .given (max.elim .null fun n => .int n)
  keep : f.keep.All fun p => p.IsPure ∧ p.NeverFails
  drop : f.drop.All fun p => p.IsPure ∧ p.NeverFails
  report : c.report.All fun r => ∀ v e, Act.NeverFails (r v e)
  progress : c.progress.All fun p => ∀ count, Act.NeverFails (p count)

/-! ## What is accepted -/

/-- What is known of the function on a hook excludes a plain value there. -/
theorem Hook.All.isSound {φ : Type} {P : φ → Prop} {h : Hook φ} (hall : h.All P) :
    h.isSound = true := by
  cases h with
  | inert v => exact hall.elim
  | _ => rfl

namespace Config

variable {σ : Type} {c : Config σ} {f : Filter σ} {names : Option (List String)} {max : Option Nat}

/-- The walk is pruned by the test of the filter, if that is heeded. -/
theorem prune_eq (hfilter : c.filter = .given f) : c.prune = .ok f.prune.heeded := by
  rw [Config.prune, hfilter]

/-- A natural number is never a bad limit. -/
theorem limitProblems_eq_nil (hlimit : c.limit = .given (max.elim .null fun n => .int n)) :
    c.limitProblems = .ok [] := by
  rw [Config.limitProblems, limitValue, hlimit]
  cases max with
  | none => rfl
  | some n =>
    have htest : (Value.int n).test .less (.int 0) = .ok false := by
      simp only [Value.test, Value.quantity?, Relation.holdsOf, Quantity.compare?, Relation.holds]
      rw [Except.ok.injEq, beq_eq_false_iff_ne, Ne, Int.compare_eq_lt]
      simp
    simp only [Option.elim, bind, Except.bind, htest]
    rfl

/-- No plain value may hang where a function is called. -/
theorem hookProblems_iff (hfilter : c.filter = .given f) :
    c.hookProblems = .ok [] ↔ f.keep.isSound = true ∧ f.drop.isSound = true ∧
      f.prune.isSound = true ∧ c.report.isSound = true := by
  simp only [Config.hookProblems, filterHooks, hfilter, List.mapM_cons, List.mapM_nil, bind,
    Except.bind, pure, Except.pure]
  cases f.keep.isSound <;> cases f.drop.isSound <;> cases f.prune.isSound <;>
    cases c.report.isSound <;> simp

/-- The empty text names no kind. -/
theorem kindProblems_iff (hfilter : c.filter = .given f) (hkinds : f.kinds = .named names) :
    c.kindProblems = .ok [] ↔ "" ∉ names.getD [] := by
  rw [Config.kindProblems, Config.kinds, hfilter]
  simp only [bind, Except.bind, hkinds]
  cases names with
  | none => simp [Kinds.named, Kinds.members]; rfl
  | some names =>
    have hbad : ((names.map Value.str).filter fun v => !isKind v) =
        (names.filter String.isEmpty).map .str := by
      rw [List.filter_map]
      congr 2
      funext name
      simp [isKind]
    simp only [Kinds.named, Kinds.members, hbad, Option.getD_some]
    have hempty : "" ∉ names ↔ names.filter String.isEmpty = [] := by
      simp only [List.filter_eq_nil_iff, String.isEmpty_iff]
      exact ⟨fun h name hname hnil => h (hnil ▸ hname), fun h hmem => h "" hmem rfl⟩
    rw [hempty]
    cases names.filter String.isEmpty with
    | nil => exact iff_of_true rfl rfl
    | cons name bad =>
      refine iff_of_false ?_ (List.cons_ne_nil _ _)
      simp only [List.map_cons]
      cases (Value.list ⟨0, none⟩ (.str name :: bad.map .str)).text <;> nofun

theorem policyProblems_of_given {p : Policy} (h : c.policy = .given p) :
    c.policyProblems = .ok [] := by
  rw [Config.policyProblems, h]

/-- A configuration is accepted when none of its parts has a problem. -/
theorem check_eq_ok_iff (c : Config σ) :
    c.check = .ok () ↔ c.checker = none ∧ c.limitProblems = .ok [] ∧ c.intervalProblems = .ok [] ∧
      c.policyProblems = .ok [] ∧ c.kindProblems = .ok [] ∧ c.hookProblems = .ok [] := by
  have hproblems : c.problems = .ok [] ↔ c.limitProblems = .ok [] ∧ c.intervalProblems = .ok [] ∧
      c.policyProblems = .ok [] ∧ c.kindProblems = .ok [] ∧ c.hookProblems = .ok [] := by
    rw [Config.problems]
    rcases c.limitProblems with e | limit
    · simp [bind, Except.bind]
    rcases c.intervalProblems with e | interval
    · simp [bind, Except.bind]
    rcases c.policyProblems with e | policy
    · simp [bind, Except.bind]
    rcases c.kindProblems with e | kinds
    · simp [bind, Except.bind]
    rcases c.hookProblems with e | hooks
    · simp [bind, Except.bind]
    simp [bind, Except.bind, pure, Except.pure]
  rw [← hproblems, Config.check]
  cases c.checker with
  | some v => simp
  | none => rcases c.problems with e | _ | ⟨p, ps⟩ <;> simp

/-- Of what an unfailing configuration is made of, only an empty name is refused. -/
theorem Unfailing.check_iff (hc : c.Unfailing f names max) {p : Policy}
    (hpolicy : c.policy = .given p)
    {P : Predicate σ → Prop} (hprune : f.prune.All P) :
    c.check = .ok () ↔
      c.checker = none ∧ c.intervalProblems = .ok [] ∧ "" ∉ names.getD [] := by
  have hhooks := (hookProblems_iff hc.filter).mpr
    ⟨hc.keep.isSound, hc.drop.isSound, hprune.isSound, hc.report.isSound⟩
  rw [check_eq_ok_iff, kindProblems_iff hc.filter hc.kinds, limitProblems_eq_nil hc.limit,
    policyProblems_of_given hpolicy, hhooks]
  simp

end Config

/-! ## Beats -/

namespace Run

variable {σ : Type} {c : Config σ} {f : Filter σ} {names : Option (List String)} {max : Option Nat}

/-- A run begins with the root alone on the fringe, pruned by the test of the filter. -/
theorem start_of_filter (hfilter : c.filter = .given f) {scene : Scene σ} {root : Value}
    {kind : String} (hroot : scene.registry.kindOf root = .ok (some kind)) :
    start c scene root = .ok { toScene := scene, walk := ⟨[root], f.prune.heeded⟩ } := by
  rw [start, Config.prune_eq hfilter]
  simp only [bind, Except.bind, Walk.start_eq hroot]
  rfl

theorem reportProgress_result (hc : c.progress.All fun p => ∀ count, Act.NeverFails (p count))
    (count : Nat) (s : Run σ) : (reportProgress c count s).result = .ok () := by
  unfold reportProgress
  split
  · cases hprogress : c.progress with
    | absent => simp_all [Hook.isSet]
    | inert v => exact (hprogress ▸ hc).elim
    | live p truth =>
      have hp : (Hook.live p truth).All _ := hprogress ▸ hc
      obtain ⟨⟨⟩, htold⟩ := hp count s.user
      exact htold
  · rfl

theorem recordFailure_result (hc : c.report.All fun r => ∀ v e, Act.NeverFails (r v e))
    (i : Incident) (e : Fault) (s : Run σ) : (recordFailure c i e s).result = .ok () := by
  rw [recordFailure, onTally, Act.modify_bind]
  split
  · cases hreport : c.report with
    | absent => simp_all [Hook.isSet]
    | inert w => exact (hreport ▸ hc).elim
    | live r truth =>
      have hr : (Hook.live r truth).All _ := hreport ▸ hc
      obtain ⟨⟨⟩, htold⟩ := hr i.node e s.user
      exact htold
  · rfl

/-- A report that never fails leaves nothing but the record and what the caller does to itself. -/
theorem recordFailure_eq (hc : c.report.All fun r => ∀ v e, Act.NeverFails (r v e)) (i : Incident)
    (e : Fault) (s : Run σ) :
    ∃ user es, recordFailure c i e s =
      ⟨.ok (), { s with user, tally := { s.tally with incidents := i :: s.tally.incidents } },
        es⟩ := by
  obtain ⟨user, hstate⟩ := recordFailure_state c i e s
  exact ⟨user, _, Outcome.ext (recordFailure_result hc i e s) hstate rfl⟩

/-- An offered node is yielded or passed. -/
theorem offer_result (hc : c.Unfailing f names max) {v : Value} {kind : Option String} {s : Run σ}
    (hkind : s.registry.kindOf v = .ok kind) (u : σ) :
    (offer c v s).result = .ok (if f.wants names u kind v then .yielded v else .passed) := by
  have htold : (onUser (c.admits v (kindValue kind)) s).result = .ok (f.wants names u kind v) := by
    rw [onUser, Act.zoom_result, Config.admits, hc.filter]
    exact Filter.admits_result hc.kinds hc.drop hc.keep v kind u s.user
  rcases h : onUser (c.admits v (kindValue kind)) s with ⟨e | _ | _, s', es⟩ <;> rw [h] at htold
  · cases htold
  · rw [offer_of_false hkind h, ← Except.ok.inj htold]
    rfl
  · rw [offer_of_true hkind h, ← Except.ok.inj htold]
    simp [reportProgress_result hc.progress, Except.map]

/-- What ends a run at a node that it takes: the fault that escapes from the expansion. -/
def halt (f : Filter σ) (scene : Scene σ) (v : Value) : Option Fault :=
  Walk.escape? f.prune.heeded scene v

/-- Whether a run yields a node that it takes. -/
def wants (f : Filter σ) (names : Option (List String)) (scene : Scene σ) (v : Value) : Bool :=
  match scene.registry.kindOf v with
  | .ok kind => f.wants names scene.user kind v
  | .error _ => false

/-- The kind of a value, where it can be looked up. -/
def kindAt (scene : Scene σ) (v : Value) : Option String :=
  (scene.registry.kindOf v).toOption.join

/-- What has to be known of a run that skips failures to tell it from the nodes it takes. -/
structure Skips (c : Config σ) (f : Filter σ) (names : Option (List String)) (max : Option Nat)
    (scene : Scene σ) : Prop where
  unfailing : c.Unfailing f names max
  policy : c.policy = .given .skip
  prune : f.prune.All fun p => p.IsPure ∧ p.NeverFails
  rules : scene.registry.AllRules Rule.IsPure
  field : scene.registry.HasTextField

variable {scene : Scene σ} {l : List Value} {v : Value} {s : Run σ}

/-- An offer in a scene that is like the one where the run began. -/
theorem offer_result_of_alike (hc : c.Unfailing f names max) (hfield : scene.registry.HasTextField)
    (halike : s.toScene.Alike scene) (v : Value) :
    (offer c v s).result = .ok (if wants f names scene v then .yielded v else .passed) := by
  obtain ⟨kind, hkind⟩ := hfield.kindOf v
  rw [offer_result hc ((halike.kindOf v).trans hkind) scene.user, wants, hkind]

/-- A node whose children cannot be found is offered all the same. -/
theorem recover_result (hc : Skips c f names max scene) (halike : s.toScene.Alike scene)
    (v : Value) (kind : Option String) (detail : String) (cause : Option Fault) :
    (recover c (.expansion v kind detail cause) s).result =
      .ok (if wants f names scene v then .yielded v else .passed) := by
  have hpolicy : c.policy ≠ .given .raise := by rw [hc.policy]; nofun
  obtain ⟨user, es, h⟩ :=
    recordFailure_eq hc.unfailing.report (.of v kind detail) (.expansion v kind detail cause) s
  rw [recover_of_skip hpolicy h, Outcome.after_result]
  apply offer_result_of_alike hc.unfailing hc.field
  exact ⟨halike.kindField, halike.rules⟩

/-- Taking a node, where failures are skipped: it ends the run if the fault of its rule escapes, and
is yielded if it is wanted, whether its rule fails or not. -/
theorem pop_result (hc : Skips c f names max scene)
    (h : Walk.Follows f.prune.heeded scene (v :: l) s.toStage) :
    (pop c s).result =
      match halt f scene v with
      | some e => .error e
      | none => .ok (if wants f names scene v then .yielded v else .passed) := by
  obtain ⟨rest, hfringe, -⟩ := h.fringe_cons
  have hexpand :=
    Walk.expand_result_congr (hc.prune.heeded.mono fun _ hp => hp.1) hc.rules h.alike v
  have halike := (Walk.expand_alike f.prune.heeded v s.toScene).trans h.alike
  rw [pop, Act.attempt_bind, Outcome.after_result, onStage, Act.zoom_result, Act.zoom_state,
    Walk.step_cons hfringe, h.prune_eq, hexpand, halt, Walk.escape?]
  cases (Walk.expand f.prune.heeded v scene).result with
  | ok slots => exact offer_result_of_alike hc.unfailing hc.field halike v
  | error e =>
    obtain ⟨kind, hkind⟩ := (halike.hasTextField hc.field).kindOf v
    simp only [Walk.stepFault_of_kindOf hkind]
    cases hescape : e.escape? with
    | some e' => simp [recover_of_isExpansion (Fault.passes_of_escape? hescape).isExpansion]
    | none =>
      apply recover_result hc
      exact halike

end Run

end RuleWalk
