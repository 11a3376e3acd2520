import RuleWalk.Proofs.Plan.CountedRuns
import RuleWalk.Proofs.Rules
import RuleWalk.Proofs.Session.Store

/-!
# Several runs of one plan

The runs of a plan can be begun and asked in any order. Each has its own walk, and where rules and
tests are pure a walk is all that a run depends on but for one thing: the number of nodes given,
which belongs to the plan and starts anew with every run that begins. So a session serves its calls
as `CountedRuns` do. `Represents` says where the session keeps them.

Without a limit the runs do not notice each other. With one they do: a run that begins gives room to
those before it, and nodes that others give take room away.
-/

namespace RuleWalk

namespace Run

variable {σ : Type} {c : Config σ} {scene scene' : Scene σ}

/-- Where a run begins, the scene has a part only by its kind field. -/
theorem start_congr (h : scene'.Alike scene) (max : Option Nat) (root : Value) :
    start (c.capped max) scene' root =
      (start c scene root).map fun t => { t with toScene := scene' } := by
  have hprune : (c.capped max).prune = c.prune := by cases max <;> rfl
  have hwalk (prune : Hook (Predicate σ)) :
      Walk.start scene'.registry prune root = Walk.start scene.registry prune root := by
    rw [Walk.start, Walk.start, h.kindOf, h.kindField]
  rw [start, start, hprune]
  cases c.prune with
  | error e => rfl
  | ok prune =>
    simp only [bind, Except.bind, hwalk]
    cases Walk.start scene.registry prune root <;> rfl

end Run

namespace Session

variable {σ : Type} {s : Session σ} {b : CountedRuns σ} {p base : Nat} {c : Config σ} {f : Filter σ}
  {max : Option Nat} {scene : Scene σ} {t : Run σ}

/-- The runs of a plan that begin from now on, when `base` is the number of sequences so far. -/
def host (p base fuel : Nat) : Host (Session σ) where
  execute root := do return (← execute p root) - base
  next j := next (base + j) fuel

/-- The session keeps the counted runs: their walks with the cursors from `base` on, and the
count with the plan. It has one scene for all of them. -/
structure Represents (p base : Nat) (c : Config σ) (f : Filter σ) (max : Option Nat)
    (scene : Scene σ) (s : Session σ) (b : CountedRuns σ) : Prop where
  plan_lt : p < s.plans.size
  config : (s.plan p).config = c.capped max
  registry_lt : (s.plan p).registry < s.registries.size
  alike : (s.scene (s.plan p).registry).Alike scene
  count : (s.plan p).tally.processed = b.count
  size : s.cursors.size = base + b.runs.length
  cursor : ∀ {j : Nat} {t : Run σ}, b.runs[j]? = some t → s.cursor (base + j) = .run p t.walk t.live
  run : ∀ {j : Nat} {t : Run σ}, b.runs[j]? = some t →
    t.toScene.Alike scene ∧ t.walk.prune = f.prune.heeded

/-- The run of the session goes with the counted run. -/
theorem Represents.twins (h : Represents p base c f max scene s b) {j : Nat}
    (hj : b.runs[j]? = some t) :
    Run.Twins f scene (s.run p t.walk t.live) t :=
  ⟨h.alike, (h.run hj).1, rfl, (h.run hj).2, rfl⟩

/-! ## Asking -/

/-- A run that was asked is put back, in the session as among the counted runs. -/
theorem Represents.store (h : Represents p base c f max scene s b) {j : Nat}
    (hj : b.runs[j]? = some t)
    {u t' : Run σ} (htwins : Run.Twins f scene u t') {n : Nat} (hcount : u.tally.processed = n) :
    Represents p base c f max scene (s.store (base + j) p (.run p) u) ⟨b.runs.set j t', n⟩ := by
  have hlt : j < b.runs.length := (List.getElem?_eq_some_iff.1 hj).1
  have hi : base + j < s.cursors.size := by rw [h.size]; omega
  have hplan := plan_store (i := base + j) (.run p) u h.plan_lt
  constructor
  case plan_lt => rw [size_plans_store]; exact h.plan_lt
  case config => rw [hplan]; exact h.config
  case registry_lt => rw [hplan, size_registries_store]; exact h.registry_lt
  case alike =>
    rw [hplan]
    exact (scene_store (.run p) u h.registry_lt).symm ▸ htwins.left
  case count => rw [hplan]; exact hcount
  case size => rw [size_cursors_store, List.length_set]; exact h.size
  case cursor =>
    intro i r hr
    by_cases hij : i = j
    · subst hij
      rw [List.getElem?_set_self hlt, Option.some.injEq] at hr
      subst hr
      rw [cursor_store (.run p) u hi, htwins.walk, htwins.live]
    · rw [List.getElem?_set_ne (Ne.symm hij)] at hr
      rw [cursor_store_ne (.run p) u (by omega)]
      exact h.cursor hr
  case run =>
    intro i r hr
    by_cases hij : i = j
    · subst hij
      rw [List.getElem?_set_self hlt, Option.some.injEq] at hr
      subst hr
      exact ⟨htwins.right, htwins.prune⟩
    · rw [List.getElem?_set_ne (Ne.symm hij)] at hr
      exact h.run hr

/-- A request to a run of the session is a request to the counted run. -/
theorem next_simulates (hc : c.Steady f) (hlimit : c.IsUnlimited)
    (hrules : scene.registry.AllRules Rule.IsPure) (fuel j : Nat) :
    Act.Simulates (Represents p base c f max scene) Entry.unseen (next (base + j) (fuel + 1))
      (CountedRuns.next c max (fuel + 1) j) := by
  intro s b h
  cases hj : b.runs[j]? with
  | none =>
    have hspent : s.cursor (base + j) = .spent := by
      have hout : s.cursors[base + j]? = none := by
        rw [Array.getElem?_eq_none_iff, h.size]
        have := List.getElem?_eq_none_iff.1 hj
        omega
      rw [cursor, hout]
      rfl
    rw [CountedRuns.next_of_none hj, next, hspent]
    exact ⟨rfl, h, rfl⟩
  | some t =>
    have hrun : next (base + j) (fuel + 1) s =
        onRun (base + j) p t.walk t.live (.run p) (Run.next (c.capped max) (fuel + 1)) s := by
      rw [next, h.cursor hj]
      simp only [h.config]
    have hcount : (s.run p t.walk t.live).tally.processed = b.count := h.count
    rw [hrun, onRun_apply]
    cases hfree : isFree max b.count with
    | true =>
      have hmatches := Run.next_simulates hc hlimit hrules (fuel + 1) _ t (h.twins hj)
      rw [CountedRuns.next_of_free hj hfree, Run.next_of_free hlimit _ (hcount ▸ hfree)]
      refine Outcome.matches_unseen hmatches.result (h.store hj hmatches.state ?_)
      rw [Run.next_counts hc.progress (fuel + 1), hcount, hmatches.result]
    | false =>
      obtain ⟨hresult, hstate⟩ := Run.next_of_full (c := c) fuel (hcount ▸ hfree)
      rw [CountedRuns.next_of_full hj hfree, hresult, hstate]
      have hended : Run.Twins f scene { s.run p t.walk t.live with live := false }
          { t with live := false } :=
        ⟨h.alike, (h.run hj).1, rfl, (h.run hj).2, rfl⟩
      exact Outcome.matches_unseen rfl (h.store hj hended hcount)

/-! ## Beginning -/

/-- The session in which one more run of a plan has begun. -/
def begun (s : Session σ) (p : Nat) (w : Walk σ) : Session σ :=
  let q := s.putPlan p (s.plan p).restart
  { q with cursors := q.cursors.push (.run p w true) }

theorem plan_begun (hp : p < s.plans.size) (w : Walk σ) :
    (s.begun p w).plan p = (s.plan p).restart := plan_putPlan _ hp

theorem cursor_begun {i : Nat} (hi : i < s.cursors.size) (w : Walk σ) :
    (s.begun p w).cursor i = s.cursor i := by
  simp [begun, putPlan, cursor, Array.getElem?_push, Nat.ne_of_lt hi]

theorem cursor_begun_self (w : Walk σ) :
    (s.begun p w).cursor s.cursors.size = .run p w true := by
  simp [begun, putPlan, cursor]

theorem execute_of_ok {root : Value}
    (h : Run.start (s.plan p).config (s.scene (s.plan p).registry) root = .ok t) :
    execute p root s = ⟨.ok s.cursors.size, s.begun p t.walk, []⟩ := by
  rw [execute, Act.bind_of_ok (beginRun_eq h)]
  rfl

/-- A root that is refused leaves everything as it was. -/
theorem execute_of_error {root : Value} {e : Fault}
    (h : Run.start (s.plan p).config (s.scene (s.plan p).registry) root = .error e) :
    execute p root s = ⟨.error e, s, []⟩ := by
  have hbegin : beginRun p root s = ⟨.error e, s, []⟩ := by
    rw [beginRun, Act.get_bind, h, Act.ofExcept_error_bind]
  rw [execute, Act.bind_apply_error hbegin]

/-- A run that begins takes the next place and starts the count anew. -/
theorem Represents.begun (h : Represents p base c f max scene s b) (hc : c.Steady f) {root : Value}
    (hstart : Run.start c scene root = .ok t) :
    Represents p base c f max scene (s.begun p t.walk) ⟨b.runs ++ [t], 0⟩ := by
  obtain ⟨prune, kind, hprune, -, rfl⟩ := Run.eq_of_start hstart
  obtain rfl : prune = f.prune.heeded :=
    Except.ok.inj (hprune.symm.trans (Config.prune_eq hc.filter))
  have hplan := plan_begun h.plan_lt ⟨[root], f.prune.heeded⟩
  have hlast {j : Nat} {r : Run σ} {new : Run σ} (hr : (b.runs ++ [new])[j]? = some r) :
      b.runs[j]? = some r ∨ j = b.runs.length ∧ r = new := by
    rw [List.getElem?_append] at hr
    split at hr
    · exact .inl hr
    · have hj := List.getElem?_eq_some_iff.1 hr
      simp at hj
      exact .inr ⟨by omega, hj.2.symm⟩
  constructor
  case plan_lt => simpa [Session.begun, putPlan] using h.plan_lt
  case config => rw [hplan]; exact h.config
  case registry_lt => rw [hplan]; exact h.registry_lt
  case alike => rw [hplan]; exact h.alike
  case count => rw [hplan]; rfl
  case size =>
    simp [Session.begun, putPlan, h.size]
    omega
  case cursor =>
    intro j r hr
    rcases hlast hr with hr | ⟨rfl, rfl⟩
    · have hlt : base + j < s.cursors.size := by
        have := (List.getElem?_eq_some_iff.1 hr).1
        rw [h.size]
        omega
      exact (cursor_begun hlt _).trans (h.cursor hr)
    · rw [← h.size]
      exact cursor_begun_self _
  case run =>
    intro j r hr
    rcases hlast hr with hr | ⟨rfl, rfl⟩
    · exact h.run hr
    · exact ⟨.refl scene, rfl⟩

/-- To begin a run in the session is to begin one of the counted runs. -/
theorem execute_simulates (hc : c.Steady f) (root : Value) :
    Act.Simulates (Represents p base c f max scene) Entry.unseen
      (execute p root >>= fun i => pure (i - base)) (CountedRuns.execute c scene root) := by
  intro s b h
  have hstart := Run.start_congr (c := c) h.alike max root
  rw [← h.config] at hstart
  cases hbegun : Run.start c scene root with
  | error e =>
    rw [hbegun] at hstart
    rw [CountedRuns.execute_of_error hbegun, Act.bind_apply_error (execute_of_error hstart)]
    exact ⟨rfl, h, rfl⟩
  | ok t =>
    rw [hbegun] at hstart
    rw [CountedRuns.execute_of_ok hbegun, Act.bind_of_ok (execute_of_ok hstart)]
    refine Outcome.matches_unseen ?_ (h.begun hc hbegun)
    simp [h.size]

/-! ## Any order of calls -/

/-- Before the first of the runs begins, there are no counted runs. -/
theorem represents_nil (hp : p < s.plans.size) (hr : (s.plan p).registry < s.registries.size)
    (hconfig : (s.plan p).config = c.capped max) :
    Represents p s.cursors.size c f max (s.scene (s.plan p).registry) s
      { count := (s.plan p).tally.processed } :=
  ⟨hp, hconfig, hr, .refl _, rfl, rfl, nofun, nofun⟩

/-- The runs of one plan, begun and asked in any order, give what counted runs give: each goes
its own way and they share the count. So each run gives what it gives alone until it is cut off, and
without a limit it is not cut off at all. It also keeps to the limit as if it were alone when it is
asked before the plan does anything else, whatever the plan did before. Between the beginning of one
run and the next, all runs together give no more nodes than the limit says. -/
theorem host_answers (s : Session σ) {p : Nat} (hp : p < s.plans.size)
    (hr : (s.plan p).registry < s.registries.size) {c : Config σ} {f : Filter σ} (hc : c.Steady f)
    (hlimit : c.IsUnlimited) (max : Option Nat) (hconfig : (s.plan p).config = c.capped max)
    (hrules : (s.scene (s.plan p).registry).registry.AllRules Rule.IsPure) (fuel : Nat) :
    let scene := s.scene (s.plan p).registry
    let host : Host (Session σ) := host p s.cursors.size (fuel + 1)
    (∀ calls, host.replies calls s = (CountedRuns.host c scene max (fuel + 1)).replies calls
      { count := (s.plan p).tally.processed }) ∧
    ∀ before root t, Run.start c scene root = .ok t →
      ∃ j, (host.execute root (host.after before s)).result = .ok j ∧
        let s' := (host.execute root (host.after before s)).state
        (∀ calls, ∃ m n, host.answers j calls s' =
            Run.alone c (fuel + 1) m t ++ List.replicate n (.ok .stop) ∧ (max = none → n = 0)) ∧
        (∀ k, host.answers j (List.replicate k (.next j)) s' =
          Run.alone (c.capped max) (fuel + 1) k t) ∧
        ∀ n, max = some n → ∀ js : List Nat, host.given (js.map .next) s' ≤ n := by
  intro scene host
  have hexecute (root : Value) : Act.Simulates (Represents p s.cursors.size c f max scene)
      Entry.unseen (host.execute root) (CountedRuns.execute c scene root) := execute_simulates hc root
  have hreplies {s' : Session σ} {b : CountedRuns σ}
      (h : Represents p s.cursors.size c f max scene s' b)
      (calls : List Call) :
      host.replies calls s' = (CountedRuns.host c scene max (fuel + 1)).replies calls b ∧
        Represents p s.cursors.size c f max scene (host.after calls s')
          ((CountedRuns.host c scene max (fuel + 1)).after calls b) :=
    Host.replies_eq hexecute (next_simulates hc hlimit hrules fuel) calls h
  have hrepresents := represents_nil (f := f) hp hr hconfig
  refine ⟨fun calls => (hreplies hrepresents calls).1, fun before root t hstart => ?_⟩
  -- The counted runs after the first calls, and with the run that is begun then.
  obtain ⟨-, hbefore⟩ := hreplies hrepresents before
  generalize (CountedRuns.host c scene max (fuel + 1)).after before _ = b at hbefore
  have hbegun := hexecute root _ b hbefore
  rw [CountedRuns.execute_of_ok hstart] at hbegun
  refine ⟨b.runs.length, hbegun.result, ?_⟩
  intro s'
  have hs' : Represents p s.cursors.size c f max scene s' ⟨b.runs ++ [t], 0⟩ := hbegun.state
  have hlast : (b.runs ++ [t])[b.runs.length]? = some t := List.getElem?_concat_length
  have hanswers (calls : List Call) : host.answers b.runs.length calls s' =
      (CountedRuns.host c scene max (fuel + 1)).answers b.runs.length calls ⟨b.runs ++ [t], 0⟩ := by
    rw [Host.answers, Host.answers, (hreplies hs' calls).1]
  refine ⟨fun calls => ?_, fun k => ?_, ?_⟩
  · rw [hanswers]
    exact CountedRuns.answers_eq_alone hlast calls
  · rw [hanswers]
    obtain ⟨prune, kind, -, -, rfl⟩ := Run.eq_of_start hstart
    exact CountedRuns.answers_eq_alone_capped hc hlimit k hlast rfl
  · rintro n rfl js
    have hgiven : host.given (js.map .next) s' =
        (CountedRuns.host c scene (some n) (fuel + 1)).given (js.map .next) ⟨b.runs ++ [t], 0⟩ := by
      rw [Host.given, Host.given, (hreplies hs' _).1]
    rw [hgiven]
    exact Nat.le_trans (Nat.le_add_left _ _) (CountedRuns.given_le js (Nat.zero_le n))

/-- A plan for two nodes of a tree with a torn pair, of which a first run was left half done. The
second run gives its two nodes when it is asked at once. In any order of calls it gives what it
gives alone, until it is cut off. -/
theorem host_answers_tornHalf :
    let c : Config Unit :=
      { filter := .given { prune := .live (Toolkit.hasKind [.str "Fold"]) }
        policy := .given .skip }
    let s : Session Unit :=
      { registries := .ofList [Sample.tornPairs .value]
        plans := #[{ config := c.capped (some 2), registry := 0 }]
        user := () }
    let t : Run Unit :=
      { toScene := s.scene 0
        walk := ⟨[Sample.tornHalf], .live (Toolkit.hasKind [.str "Fold"])⟩ }
    let host : Host (Session Unit) := host 0 0 8
    let begun := host.execute Sample.tornHalf (host.after [.execute Sample.tornHalf, .next 0] s)
    ∃ j, begun.result = .ok j ∧
      host.answers j (List.replicate 3 (.next j)) begun.state =
        [.ok (.node Sample.tornHalf), .ok (.node Sample.torn), .ok .stop] ∧
      ∀ calls, ∃ m n, host.answers j calls begun.state =
        Run.alone c 8 m t ++ List.replicate n (.ok .stop) := by
  intro c s t host begun
  have hc : c.Steady { prune := .live (Toolkit.hasKind [.str "Fold"]) } :=
    ⟨rfl, trivial, trivial, Toolkit.hasKind_isPure _, trivial, trivial⟩
  have hp : 0 < s.plans.size := by decide
  have hr : (s.plan 0).registry < s.registries.size := by decide
  have halone : Run.alone (c.capped (some 2)) 8 3 t =
      [.ok (.node Sample.tornHalf), .ok (.node Sample.torn), .ok .stop] := by rfl
  obtain ⟨-, hruns⟩ := host_answers s hp hr hc rfl (some 2) rfl
    (Sample.tornPairs_isPure .value) 7
  obtain ⟨j, hj, hany, hrow, -⟩ :=
    hruns [.execute Sample.tornHalf, .next 0] Sample.tornHalf t rfl
  refine ⟨j, hj, (hrow 3).trans halone, fun calls => ?_⟩
  obtain ⟨m, n, hanswers, -⟩ := hany calls
  exact ⟨m, n, hanswers⟩

/-- Under a limit of one node a run gives one node when it is alone. It gives two when another run
begins in between, and none when another was asked before it. -/
theorem host_answers_interfere :
    let c : Config Unit := {}
    let s : Session Unit :=
      { registries := .ofList [Sample.pairs]
        plans := #[{ config := c.capped (some 1), registry := 0 }]
        user := () }
    let t : Run Unit := { toScene := s.scene 0, walk := ⟨[Sample.pairTree], .absent⟩ }
    let host : Host (Session Unit) := host 0 0 8
    c.Steady {} ∧ c.IsUnlimited ∧ (s.scene 0).registry.AllRules Rule.IsPure ∧
      Run.start c (s.scene 0) Sample.pairTree = .ok t ∧
      Run.alone (c.capped (some 1)) 8 2 t = [.ok (.node Sample.pairTree), .ok .stop] ∧
      host.answers 0
          [.execute Sample.pairTree, .next 0, .execute Sample.pairTree, .next 0] s =
        [.ok (.node Sample.pairTree), .ok (.node Sample.folded)] ∧
      host.answers 0
          [.execute Sample.pairTree, .execute Sample.pairTree, .next 1, .next 0] s =
        [.ok .stop] :=
  ⟨⟨rfl, trivial, trivial, trivial, trivial, trivial⟩, rfl,
    Sample.pairs_isPure, rfl, rfl, rfl, rfl⟩

end Session

end RuleWalk
