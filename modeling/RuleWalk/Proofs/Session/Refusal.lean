import RuleWalk.Proofs.Query.Agreement
import RuleWalk.Proofs.Session.Plain
import RuleWalk.Proofs.Session.Search
import RuleWalk.Proofs.Value.Text

/-!
# Refusals

Whatever is asked of a tree, the options are looked at first, then the configuration that they make,
and then the root. If one of them will not do, the call itself fails, and by then nothing of the
caller's has been called and no sequence has been handed out. The leaves are the exception: their
call only puts down what was asked, and all of this happens at the first request.

`Options.refusal?` is what they are refused for. Where options are set as they are meant to be, it
is a list of problems, or else that the root is no node.
-/

namespace RuleWalk

variable {σ α β : Type}

/-! ## Usual settings -/

/-- Of equal values the first stays, and nothing is added. -/
theorem Value.mem_of_distinct {seen vs members : List Value}
    (h : distinct seen vs = .ok members) : ∀ v ∈ members, v ∈ seen ∨ v ∈ vs := by
  induction vs generalizing seen with
  | nil =>
    rw [distinct] at h
    cases h
    intro v hv
    exact .inl (List.mem_reverse.mp hv)
  | cons w vs ih =>
    rw [distinct] at h
    intro v hv
    split at h
    · cases h
    · split at h
      · exact (ih h v hv).imp_right (List.mem_cons_of_mem w)
      · rcases ih h v hv with hseen | hrest
        · rcases List.mem_cons.mp hseen with rfl | hseen
          · exact .inr List.mem_cons_self
          · exact .inl hseen
        · exact .inr (List.mem_cons_of_mem w hrest)

/-- No limit, or a whole number. -/
def Limit.IsUsual (m : Value) : Prop := m = .null ∨ ∃ n, m = .int n

/-- All kinds, or a set of values that can be shown together. -/
def Kinds.IsUsual : Kinds → Prop
  | all => True
  | oneOf vs => (Value.list ⟨0, none⟩ vs).HasText
  | within _ => False

/-- A set of kinds is made of what it is given. -/
theorem Kinds.isUsual_of_ofValue {v : Value} {kinds : Kinds} (h : ofValue v = .ok kinds)
    (hv : ∀ vs, v.iterate = .ok vs → (Value.list ⟨0, none⟩ vs).HasText) : kinds.IsUsual := by
  unfold ofValue at h
  split at h
  · cases h
    trivial
  · next s =>
    cases h
    exact ⟨_, rfl⟩
  · cases hitems : v.iterate with
    | error e =>
      rw [hitems] at h
      cases h
    | ok vs =>
      rw [hitems] at h
      dsimp only at h
      cases hmembers : Value.distinct [] vs with
      | error e =>
        rw [hmembers] at h
        cases h
      | ok members =>
        rw [hmembers] at h
        cases h
        refine (hv vs hitems).of_subset fun w hw => ?_
        exact (Value.mem_of_distinct hmembers w hw).resolve_left List.not_mem_nil

namespace Config

variable {c : Config σ} {f : Filter σ} {ps : List Problem}

/-- The parts of the configuration are what they are meant to be, though they may be refused. -/
structure IsUsual (c : Config σ) : Prop where
  checker : c.checker = none
  filter : ∃ f, c.filter = .given f ∧ f.kinds.IsUsual
  limit : ∃ m, c.limit = .given m ∧ Limit.IsUsual m
  policy : ∃ p, c.policy = .given p
  interval : ∃ n, c.interval = .int n

theorem limitProblems_of_usual {m : Value} (hlimit : c.limit = .given m) (hm : Limit.IsUsual m) :
    ∃ ps, c.limitProblems = .ok ps := by
  rw [limitProblems, limitValue, hlimit]
  rcases hm with rfl | ⟨n, rfl⟩ <;> exact ⟨_, rfl⟩

theorem kindProblems_of_usual (hfilter : c.filter = .given f) (hkinds : f.kinds.IsUsual) :
    ∃ ps, c.kindProblems = .ok ps := by
  rw [kindProblems, Config.kinds, hfilter]
  simp only [bind, Except.bind]
  cases hf : f.kinds with
  | all => exact ⟨[], rfl⟩
  | within v =>
    rw [hf] at hkinds
    exact hkinds.elim
  | oneOf vs =>
    rw [hf] at hkinds
    simp only [Kinds.members]
    cases hbad : vs.filter fun v => !isKind v with
    | nil => exact ⟨[], rfl⟩
    | cons v bad =>
      -- Only values of the set are shown.
      have hsub : v :: bad ⊆ vs := hbad ▸ List.filter_sublist.subset
      obtain ⟨t, ht⟩ : (Value.list ⟨0, none⟩ (v :: bad)).HasText := hkinds.of_subset hsub
      simp only [ht]
      exact ⟨_, rfl⟩

theorem hookProblems_of_given (hfilter : c.filter = .given f) : ∃ ps, c.hookProblems = .ok ps := by
  simp only [hookProblems, filterHooks, hfilter, List.mapM_cons, List.mapM_nil, bind, Except.bind,
    pure, Except.pure]
  exact ⟨_, rfl⟩

/-- The check of usual settings comes to an end. -/
theorem IsUsual.problems (h : c.IsUsual) : ∃ ps, c.problems = .ok ps := by
  obtain ⟨f, hfilter, hkinds⟩ := h.filter
  obtain ⟨m, hlimit, hm⟩ := h.limit
  obtain ⟨p, hpolicy⟩ := h.policy
  obtain ⟨n, hinterval⟩ := h.interval
  obtain ⟨limits, hlimits⟩ := limitProblems_of_usual hlimit hm
  obtain ⟨kinds, hkinds⟩ := kindProblems_of_usual hfilter hkinds
  obtain ⟨hooks, hhooks⟩ := hookProblems_of_given hfilter
  rw [Config.problems, hlimits, intervalProblems, hinterval, policyProblems_of_given hpolicy,
    hkinds, hhooks]
  exact ⟨_, rfl⟩

theorem check_of_problems (hchecker : c.checker = none) (h : c.problems = .ok ps) :
    c.check = if ps.isEmpty then .ok () else .error (.badConfig ps) := by
  rw [check, hchecker, h]
  cases ps <;> rfl

end Config

/-- An option beyond the usual ones is given what it is meant to be given. -/
inductive Override.IsUsual : Override σ → Prop
  | filter {f : Filter σ} (h : f.kinds.IsUsual) : IsUsual (.filter (.given f))
  | limit {m : Value} (h : Limit.IsUsual m) : IsUsual (.limit (.given m))
  | policy (p : Policy) : IsUsual (.policy (.given p))
  | progress (h : Hook (Ticker σ)) : IsUsual (.progress h)
  | interval (n : Int) : IsUsual (.interval (.int n))
  | idle : IsUsual .idle

namespace Options

variable {o : Options σ} {c : Config σ}

/-- Options as they are meant to be given: functions and kinds can be any values, the limit and the
interval are whole numbers. -/
structure IsUsual (o : Options σ) : Prop where
  kinds : ∀ vs, o.kinds.iterate = .ok vs → (Value.list ⟨0, none⟩ vs).HasText
  limit : Limit.IsUsual o.limit
  extra : ∀ x ∈ o.extra, x.IsUsual

theorem apply_isUsual {c' : Config σ} {x : Override σ} (hx : x.IsUsual) (hc : c.IsUsual)
    (h : apply c x = .ok c') : c'.IsUsual := by
  obtain ⟨hchecker, hfilter, hlimit, hpolicy, hinterval⟩ := hc
  cases hx with
  | filter hkinds => cases h; exact ⟨hchecker, ⟨_, rfl, hkinds⟩, hlimit, hpolicy, hinterval⟩
  | limit hm => cases h; exact ⟨hchecker, hfilter, ⟨_, rfl, hm⟩, hpolicy, hinterval⟩
  | policy p => cases h; exact ⟨hchecker, hfilter, hlimit, ⟨p, rfl⟩, hinterval⟩
  | progress hook => cases h; exact ⟨hchecker, hfilter, hlimit, hpolicy, hinterval⟩
  | interval n => cases h; exact ⟨hchecker, hfilter, hlimit, hpolicy, n, rfl⟩
  | idle => cases h; exact ⟨hchecker, hfilter, hlimit, hpolicy, hinterval⟩

theorem foldlM_isUsual {extra : List (Override σ)} (hextra : ∀ x ∈ extra, x.IsUsual)
    {c' : Config σ} (hc : c.IsUsual) (h : extra.foldlM apply c = .ok c') : c'.IsUsual := by
  induction extra generalizing c with
  | nil =>
    cases h
    exact hc
  | cons x extra ih =>
    rw [List.foldlM_cons] at h
    cases happly : apply c x with
    | error e =>
      rw [happly] at h
      cases h
    | ok c₁ =>
      rw [happly] at h
      exact ih (fun y hy => hextra y (List.mem_cons_of_mem x hy))
        (apply_isUsual (hextra x List.mem_cons_self) hc happly) h

theorem IsUsual.config (ho : o.IsUsual) (h : o.config = .ok c) : c.IsUsual := by
  obtain ⟨kinds, hkinds, hfold⟩ := config_eq_ok_iff.mp h
  refine foldlM_isUsual ho.extra ?_ hfold
  exact ⟨rfl, ⟨_, rfl, Kinds.isUsual_of_ofValue hkinds ho.kinds⟩, ⟨_, rfl, ho.limit⟩, ⟨_, rfl⟩,
    _, rfl⟩

/-- What options and root are refused for, if they are. -/
def refusal? (o : Options σ) (scene : Scene σ) (root : Value) : Option Fault :=
  match o.config with
  | .error e => some e
  | .ok c =>
    match c.check with
    | .error e => some e
    | .ok () =>
      match Run.start c scene root with
      | .error e => some e
      | .ok _ => none

/-- The first of options, configuration and root that will not do is what counts. -/
theorem refusal?_eq_some_iff {scene : Scene σ} {root : Value} {e : Fault} :
    o.refusal? scene root = some e ↔
      o.config = .error e ∨ (∃ c, o.config = .ok c ∧ c.check = .error e) ∨
        ∃ c, o.config = .ok c ∧ c.check = .ok () ∧ Run.start c scene root = .error e := by
  rw [refusal?]
  rcases o.config with e' | c
  · simp
  · rcases hcheck : c.check with e' | _
    · simp [hcheck]
    · rcases hstart : Run.start c scene root with e' | t <;> simp [hcheck, hstart]

theorem refusal?_eq_none_iff {scene : Scene σ} {root : Value} :
    o.refusal? scene root = none ↔
      ∃ c t, o.config = .ok c ∧ c.check = .ok () ∧ Run.start c scene root = .ok t := by
  rw [refusal?]
  rcases o.config with e' | c
  · simp
  · rcases hcheck : c.check with e' | _
    · simp [hcheck]
    · rcases hstart : Run.start c scene root with e' | t <;> simp [hcheck, hstart]

/-! A query that keeps a record of failed expansions is refused for what any other is. -/

/-- No option beyond the usual ones replaces the report. -/
theorem foldlM_reporting (es : List (Override σ)) (c : Config σ) (r : Hook (Reporter σ)) :
    es.foldlM apply (c.reporting r) = (es.foldlM apply c).map fun d => d.reporting r := by
  induction es generalizing c with
  | nil => rfl
  | cons e es ih =>
    rw [List.foldlM_cons, List.foldlM_cons]
    cases e with
    | unknown name => rfl
    | filter f => exact ih { c with filter := f }
    | limit l => exact ih { c with limit := l }
    | policy p => exact ih { c with policy := p }
    | progress h => exact ih { c with progress := h }
    | interval v => exact ih { c with interval := v }
    | checker v => exact ih { c with checker := some v }
    | idle => exact ih c

theorem config_reporting (o : Options σ) (r : Hook (Reporter σ)) :
    ({ o with report := r } : Options σ).config = o.config.map fun c => c.reporting r := by
  rw [config, config]
  cases Kinds.ofValue o.kinds with
  | error e => rfl
  | ok kinds => exact foldlM_reporting o.extra (o.base kinds) r

theorem report_of_config (h : o.config = .ok c) : c.report = o.report := by
  have hsame : o.config = o.config.map fun c => c.reporting o.report :=
    o.config_reporting o.report
  rw [h] at hsame
  exact congrArg Config.report (Except.ok.inj hsame)

theorem config_watching (h : o.config = .ok c) : o.watching.config = .ok c.watching := by
  rw [watching, config_reporting, h, Config.watching, report_of_config h]
  rfl

end Options

/-- A function inside another one is a function. -/
theorem Hook.isSound_wrapped {φ : Type} (h : Hook φ) : h.wrapped.isSound = h.isSound := by
  cases h <;> rfl

theorem Config.check_watching (c : Config σ) : c.watching.check = c.check := by
  have hhooks : c.watching.hookProblems = c.hookProblems := by
    rw [hookProblems, hookProblems, watching, report_reporting, Hook.isSound_wrapped]
    rfl
  have hproblems : c.watching.problems = c.problems := by
    rw [problems, problems, hhooks]
    rfl
  rw [check, check, hproblems]
  rfl

theorem Options.refusal?_watching (o : Options σ) (scene : Scene σ) (root : Value) :
    o.watching.refusal? scene root = o.refusal? scene root := by
  rw [refusal?, refusal?]
  cases hconfig : o.config with
  | error e => rw [watching, config_reporting, hconfig, Except.map]
  | ok c =>
    rw [config_watching hconfig]
    dsimp only
    rw [c.check_watching]
    rfl

theorem Walk.rootFault_of_hasText {kindField root : Value} (hfield : kindField.HasText)
    (hroot : root.HasText) : rootFault kindField root = .notANode root kindField := by
  obtain ⟨field, hfield⟩ := hfield
  obtain ⟨t, ht⟩ := hroot
  rw [rootFault, Fault.announced, Fault.text, hfield, ht]
  rfl

theorem Run.start_of_no_kind {c : Config σ} {f : Filter σ} {scene : Scene σ} {root : Value}
    (hfilter : c.filter = .given f) (hkind : scene.registry.kindOf root = .ok none) :
    start c scene root = .error (Walk.rootFault scene.registry.kindField root) := by
  rw [start, Config.prune, hfilter]
  simp only [bind, Except.bind, Walk.start, hkind]

theorem Run.start_of_kind {c : Config σ} {f : Filter σ} {scene : Scene σ} {root : Value}
    {kind : String} (hfilter : c.filter = .given f)
    (hkind : scene.registry.kindOf root = .ok (some kind)) : ∃ t, start c scene root = .ok t := by
  rw [start, Config.prune, hfilter]
  simp only [bind, Except.bind, Walk.start, hkind]
  exact ⟨_, rfl⟩

/-- Usual options are refused for their problems. If there are none, a root that is no node is
refused, and any other is accepted. -/
theorem Options.IsUsual.refusal {o : Options σ} {c : Config σ} (ho : o.IsUsual)
    (hconfig : o.config = .ok c) (scene : Scene σ) (root : Value) :
    ∃ ps, c.problems = .ok ps ∧
      (ps ≠ [] → o.refusal? scene root = some (.badConfig ps)) ∧
      (ps = [] → scene.registry.kindOf root = .ok none → scene.registry.kindField.HasText →
        root.HasText →
        o.refusal? scene root = some (.notANode root scene.registry.kindField)) ∧
      (ps = [] → ∀ kind, scene.registry.kindOf root = .ok (some kind) →
        o.refusal? scene root = none) := by
  have hc := ho.config hconfig
  obtain ⟨f, hfilter, -⟩ := hc.filter
  obtain ⟨ps, hps⟩ := hc.problems
  have hcheck := Config.check_of_problems hc.checker hps
  refine ⟨ps, hps, ?_, ?_, ?_⟩
  · intro hne
    have hisEmpty : ps.isEmpty = false := by simpa using hne
    rw [hisEmpty] at hcheck
    exact refusal?_eq_some_iff.mpr (.inr (.inl ⟨c, hconfig, hcheck⟩))
  · rintro rfl hkind hfield hroot
    have hstart := Run.start_of_no_kind hfilter hkind
    rw [Walk.rootFault_of_hasText hfield hroot] at hstart
    exact refusal?_eq_some_iff.mpr (.inr (.inr ⟨c, hconfig, hcheck, hstart⟩))
  · rintro rfl kind hkind
    obtain ⟨t, hstart⟩ := Run.start_of_kind hfilter hkind
    exact refusal?_eq_none_iff.mpr ⟨c, t, hconfig, hcheck, hstart⟩

/-! ## Calls -/

/-- What can be asked of a tree, apart from its leaves. -/
inductive Demand (σ : Type) where
  | nodes
  | count
  | find (test : Hook (Predicate σ))
  | ofKinds (kinds : List Value)
  | census

namespace Demand

/-- The options by which it is answered. -/
def options (o : Options σ) : Demand σ → Options σ
  | find test => o.finding test
  | ofKinds kinds => o.findingKinds kinds
  | _ => o

/-- The call, without what it gives. -/
def call (registry : Option Nat) (o : Options σ) (root : Value) (fuel : Nat) :
    Demand σ → Act Entry (Session σ) Unit
  | nodes => do let _ ← Session.traverse registry o root
  | count => do let _ ← Session.count registry o root fuel
  | find test => do let _ ← Session.traverse registry (o.finding test) root
  | ofKinds kinds => do let _ ← Session.traverse registry (o.findingKinds kinds) root
  | census => do let _ ← Session.census registry o root fuel

/-- It is answered by a sequence. -/
def isLazy : Demand σ → Bool
  | count | census => false
  | _ => true

end Demand

namespace Session

variable {s : Session σ} {registry : Option Nat} {o : Options σ} {root : Value} {e : Fault}

/-- A call that began at `s` failed with `e`. Nothing was called, and no sequence was made or moved
on. -/
structure Refused (s : Session σ) (e : Fault) (o : Outcome Entry (Session σ) α) : Prop where
  result : o.result = .error e
  entries : o.entries = []
  user : o.state.user = s.user
  cursors : o.state.cursors = s.cursors

theorem Refused.bind {m : Act Entry (Session σ) α} (h : Refused s e (m s))
    (k : α → Act Entry (Session σ) β) : Refused s e ((m >>= k) s) := by
  obtain ⟨hresult, hentries, huser, hcursors⟩ := h
  rw [Act.bind_apply, hresult]
  exact ⟨rfl, hentries, huser, hcursors⟩

theorem settled_user (s : Session σ) (registry : Option Nat) :
    (s.settled registry).user = s.user := by
  rcases registry with _ | r
  · rw [settled]
    cases s.shared <;> rfl
  · rfl

theorem settled_cursors (s : Session σ) (registry : Option Nat) :
    (s.settled registry).cursors = s.cursors := by
  rcases registry with _ | r
  · rw [settled]
    cases s.shared <;> rfl
  · rfl

/-- The scene in which a call is answered. -/
def stageFor (s : Session σ) (registry : Option Nat) : Scene σ :=
  (s.settled registry).scene (s.target registry)

/-- All calls begin alike: they make a plan and begin a run. -/
theorem begin_refused (h : o.refusal? (s.stageFor registry) root = some e)
    (k : Nat → Walk σ → Act Entry (Session σ) α) :
    Refused s e ((planFor registry o >>= fun p => beginRun p root >>= k p) s) := by
  obtain hconfig | ⟨c, hconfig, hcheck⟩ | ⟨c, hconfig, hcheck, hstart⟩ :=
    Options.refusal?_eq_some_iff.mp h
  · refine Refused.bind ?_ _
    rw [planFor, hconfig, Act.ofExcept_error_bind]
    exact ⟨rfl, rfl, rfl, rfl⟩
  · have hplan : planFor registry o s = ⟨.error e, s.settled registry, []⟩ := by
      rw [planFor_settled hconfig, planFor, hconfig, Act.ofExcept_ok_bind, makePlan, registryOr,
        hcheck]
      rfl
    refine Refused.bind ?_ _
    rw [hplan]
    exact ⟨rfl, rfl, settled_user s registry, settled_cursors s registry⟩
  · -- There is a plan by now, but no run of it.
    let plan : Plan σ := { config := c, registry := s.target registry }
    let planned : Session σ :=
      { s.settled registry with plans := (s.settled registry).plans.push plan }
    have hplan : planFor registry o s = ⟨.ok (s.settled registry).plans.size, planned, []⟩ := by
      rw [planFor_settled hconfig, planFor, hconfig, Act.ofExcept_ok_bind, makePlan, registryOr,
        hcheck]
      rfl
    have hnew : planned.plan (s.settled registry).plans.size = plan := by
      simp [Session.plan, planned]
    have hbegun : beginRun (s.settled registry).plans.size root planned =
        ⟨.error e, planned, []⟩ := by
      have hfails : Run.start plan.config (planned.scene plan.registry) root = .error e := hstart
      rw [beginRun, Act.get_bind, hnew, hfails, Act.ofExcept_error_bind]
    rw [Act.bind_of_ok hplan, Act.bind_apply_error hbegun]
    exact ⟨rfl, rfl, settled_user s registry, settled_cursors s registry⟩

theorem traverse_refused (h : o.refusal? (s.stageFor registry) root = some e) :
    Refused s e (traverse registry o root s) := begin_refused h _

theorem runThrough_refused (h : o.refusal? (s.stageFor registry) root = some e)
    (m : Config σ → Act Entry (Run σ) α) : Refused s e (runThrough registry o root m s) :=
  begin_refused h _

theorem census_refused (h : o.refusal? (s.stageFor registry) root = some e) (fuel : Nat) :
    Refused s e (census registry o root fuel s) := by
  rw [← o.refusal?_watching] at h
  have hsettled : o.watching.refusal? ((s.settled registry).stageFor (some (s.target registry)))
    root = some e := h
  have hquery := runThrough_refused hsettled fun c => Run.census c fuel
  obtain ⟨hresult, hentries, huser, hcursors⟩ := hquery.bind fun c => do
    let t ← Act.get
    return (c, c.unknownKinds (t.registry (s.target registry)))
  rw [census, Act.bind_of_ok (registryOr_eq registry s)]
  exact ⟨hresult, hentries, huser.trans (settled_user s registry),
    hcursors.trans (settled_cursors s registry)⟩

/-- Whatever is asked but leaves, a refusal is the end of the call. -/
theorem call_refused (d : Demand σ) (fuel : Nat)
    (h : (d.options o).refusal? (s.stageFor registry) root = some e) :
    Refused s e (d.call registry o root fuel s) := by
  cases d with
  | nodes => exact (traverse_refused h).bind _
  | count => exact (runThrough_refused h _).bind _
  | find test => exact (traverse_refused h).bind _
  | ofKinds kinds => exact (traverse_refused h).bind _
  | census => exact (census_refused h fuel).bind _

/-- Where nothing is refused, a sequence is made, and nothing is called yet. -/
theorem traverse_accepted (h : o.refusal? (s.stageFor registry) root = none) :
    ∃ i, (traverse registry o root s).result = .ok i ∧
      (traverse registry o root s).entries = [] := by
  obtain ⟨c, t, hconfig, hcheck, hstart⟩ := Options.refusal?_eq_none_iff.mp h
  have htraverse : traverse (some (s.target registry)) o root (s.settled registry) = _ :=
    planFor_beginRun hconfig hcheck hstart fun p w => addCursor (.run p w true)
  rw [traverse_settled hconfig, htraverse]
  exact ⟨_, rfl, rfl⟩

theorem call_accepted (d : Demand σ) (fuel : Nat) (hlazy : d.isLazy = true)
    (h : (d.options o).refusal? (s.stageFor registry) root = none) :
    (d.call registry o root fuel s).result = .ok () ∧
      (d.call registry o root fuel s).entries = [] := by
  have hdone {o : Options σ} (h : o.refusal? (s.stageFor registry) root = none) :
      let done : Outcome Entry (Session σ) Unit := (do let _ ← traverse registry o root) s
      done.result = .ok () ∧ done.entries = [] := by
    intro done
    obtain ⟨i, hresult, hentries⟩ := traverse_accepted h
    simp only [done]
    rw [Act.bind_apply, hresult]
    exact ⟨rfl, by simp [Outcome.after, hentries]⟩
  cases d with
  | count => cases hlazy
  | census => cases hlazy
  | nodes => exact hdone h
  | find test => exact hdone h
  | ofKinds kinds => exact hdone h

/-- The first request for a leaf meets what any other call would have met. -/
theorem next_leaves_refused (h : o.refusal? (s.stageFor registry) root = some e) (fuel : Nat) :
    let first := next s.cursors.size fuel (leaves registry o root s).state
    first.result = .error e ∧ first.entries = [] ∧ first.state.user = s.user ∧
      IsOver s.cursors.size first.state := by
  intro first
  let asked := (leaves registry o root s).state
  have hcursor : asked.cursor s.cursors.size = .unopened registry o root := by
    simp [asked, leaves, addCursor, cursor]
  have hfirst : first = openLeaves s.cursors.size registry o root fuel asked := by
    show next s.cursors.size fuel asked = _
    rw [next, hcursor]
  -- Putting the sequence aside changes nothing of what the options and the root are looked at with.
  have hsame : (asked.putCursor s.cursors.size .spent).stageFor registry = s.stageFor registry := by
    rcases registry with _ | r
    · rw [stageFor, stageFor, settled, settled, target, target]
      cases hshared : s.shared with
      | none => simp [asked, leaves, addCursor, putCursor, hshared, scene, Session.registry]
      | some r => simp [asked, leaves, addCursor, putCursor, hshared, scene, Session.registry]
    · rfl
  rw [← hsame, ← o.refusal?_watching] at h
  have hrefused := begin_refused h fun p w => do
    let t ← Act.get
    onRun s.cursors.size p w true (.leaves p) (Run.nextLeaf (t.plan p).config fuel)
  rw [hfirst, openLeaves, Act.modify_bind]
  refine ⟨hrefused.result, hrefused.entries, hrefused.user, ?_⟩
  intro fuel'
  have hspent : Session.cursor ((do
      let p ← planFor registry o.watching
      let w ← beginRun p root
      let t ← Act.get
      onRun s.cursors.size p w true (.leaves p) (Run.nextLeaf (t.plan p).config fuel))
        (asked.putCursor s.cursors.size .spent)).state s.cursors.size = .spent := by
    rw [cursor, hrefused.cursors]
    simp [asked, leaves, addCursor, putCursor]
  rw [next, hspent]

/-- A call for anything but leaves fails itself if options or root are refused, and by then nothing
was called; a call for a sequence that is not refused gives one. A call for leaves always gives a
sequence, and the first request of it fails in the way that the call should have. What usual options
are refused for are their problems, and if there are none, a root without a kind. -/
theorem refusals (registry : Option Nat) (o : Options σ) (root : Value) (fuel : Nat)
    (s : Session σ) :
    let scene := s.stageFor registry
    (∀ d : Demand σ, ∀ e, (d.options o).refusal? scene root = some e →
      Refused s e (d.call registry o root fuel s)) ∧
    (∀ d : Demand σ, d.isLazy = true → (d.options o).refusal? scene root = none →
      (d.call registry o root fuel s).result = .ok () ∧
        (d.call registry o root fuel s).entries = []) ∧
    (leaves registry o root s).result = .ok s.cursors.size ∧
    (leaves registry o root s).entries = [] ∧
    (∀ e, o.refusal? scene root = some e →
      let first := next s.cursors.size fuel (leaves registry o root s).state
      first.result = .error e ∧ first.entries = [] ∧ first.state.user = s.user ∧
        IsOver s.cursors.size first.state) ∧
    ∀ d : Demand σ, (d.options o).IsUsual → ∀ c, (d.options o).config = .ok c →
      ∃ ps, c.problems = .ok ps ∧
        (ps ≠ [] → (d.options o).refusal? scene root = some (.badConfig ps)) ∧
        (ps = [] → scene.registry.kindOf root = .ok none → scene.registry.kindField.HasText →
          root.HasText →
          (d.options o).refusal? scene root = some (.notANode root scene.registry.kindField)) ∧
        (ps = [] → ∀ kind, scene.registry.kindOf root = .ok (some kind) →
          (d.options o).refusal? scene root = none) := by
  intro scene
  refine ⟨fun d e h => call_refused d fuel h, fun d hlazy h => call_accepted d fuel hlazy h, rfl,
    rfl, fun e h => next_leaves_refused h fuel, ?_⟩
  intro d hd c hc
  exact hd.refusal hc scene root

/-- A number is no root, but with a limit below zero and a number for a test the options are refused
first, and all that is wrong with them is said at once. -/
theorem refusals_census :
    let o : Options Unit := { limit := .int (-1), keep := .inert (.int 3) }
    let s : Session Unit := { user := () }
    let fault : Fault := .badConfig [.negativeLimit, .notCallable "include_filter"]
    o.IsUsual ∧ o.refusal? (s.stageFor none) (.int 5) = some fault ∧
      Refused s fault (Demand.census.call none o (.int 5) 1 s) := by
  intro o s fault
  have ho : o.IsUsual := ⟨by rintro vs ⟨⟩, .inr ⟨-1, rfl⟩, by rintro x ⟨⟩⟩
  obtain ⟨hcalls, -, -, -, -, husual⟩ := refusals none o (.int 5) 1 s
  obtain ⟨ps, hps, hproblems, -⟩ := husual .census ho _ rfl
  cases hps
  have hrefusal := hproblems (List.cons_ne_nil _ _)
  exact ⟨ho, hrefusal, hcalls .census fault hrefusal⟩

/-- The leaves of a number are handed out, where every other call fails. -/
theorem leaves_of_number :
    let s : Session Unit := { user := () }
    let fault : Fault := .notANode (.int 5) (.str "type")
    (traverse none {} (.int 5) s).result = .error fault ∧
      (leaves none {} (.int 5) s).result = .ok 0 ∧
      (next 0 1 (leaves none {} (.int 5) s).state).result = .error fault := by
  exact ⟨rfl, rfl, rfl⟩

end Session

end RuleWalk
