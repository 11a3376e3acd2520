import RuleWalk.Proofs.Query.Agreement
import RuleWalk.Proofs.Query.Census
import RuleWalk.Proofs.Session.Refusal

/-!
# Queries that tell of one tree

A caller can list the nodes of a tree, count them, ask for its leaves or for its statistic. Every
call makes a plan and a run of its own. With pure rules and pure tests, and with the same options,
all of them tell of the same nodes, wherever and whenever they are made: what they return, if they
get to their ends, can be read off one list of nodes and one list of leaves, and on the way the
caller is told of the same failures in the same order. That last part needs a callback that counts
as true: a search for leaves and a statistic keep a record of failed expansions and call the
caller's function from there, whatever it counts as, where a listing and a count ask it first.
-/

namespace RuleWalk

variable {σ α ρ τ : Type}

/-- The alarms that were raised. -/
def Outcome.alarms (o : Outcome Entry ρ α) : List Alarm := o.entries.filterMap Entry.alarm?

theorem Outcome.Matches.alarms_eq {R : ρ → τ → Prop} {o : Outcome Entry ρ α}
    {o' : Outcome Entry τ α} (h : o.Matches R some o') : o.alarms = o'.alarms := by
  rw [Outcome.alarms, Outcome.alarms, h.entries_eq]

namespace Session

variable {s : Session σ} {registry : Option Nat} {o : Options σ} {c : Config σ} {scene : Scene σ}
  {root : Value} {fuel : Nat}

/-! ## Calls that name no registry -/

theorem runThrough_settled (hconfig : o.config = .ok c) (m : Config σ → Act Entry (Run σ) α) :
    runThrough registry o root m s =
      runThrough (some (s.target registry)) o root m (s.settled registry) := by
  rw [runThrough, runThrough, Act.bind_apply, Act.bind_apply, planFor_settled hconfig]

theorem settled_putCursor (i : Nat) (cursor : Cursor σ) :
    (s.putCursor i cursor).settled registry = (s.settled registry).putCursor i cursor := by
  obtain ⟨registries, shared, plans, cursors, user⟩ := s
  rcases registry with _ | r
  · cases shared <;> rfl
  · rfl

theorem openLeaves_settled (hconfig : o.watching.config = .ok c) (i : Nat) :
    openLeaves i registry o root fuel s =
      openLeaves i (some (s.target registry)) o root fuel (s.settled registry) := by
  rw [openLeaves, openLeaves, Act.modify_bind, Act.modify_bind, Act.bind_apply, Act.bind_apply,
    planFor_settled hconfig, settled_putCursor]
  rfl

/-! ## Runs of calls -/

/-- Calls that name the registry like this are answered in a scene like `scene`. -/
structure Offers (s : Session σ) (registry : Option Nat) (scene : Scene σ) : Prop where
  alike : (s.stageFor registry).Alike scene
  registry_lt : s.target registry < (s.settled registry).registries.size

/-- The run as a call begins it. -/
def outset (s : Session σ) (registry : Option Nat) (c : Config σ) (root : Value) : Run σ :=
  { toScene := s.stageFor registry, walk := ⟨[root], c.tests.prune.heeded⟩ }

namespace Offers

theorem start (h : s.Offers registry scene) (hcheck : c.check = .ok ()) {kind : String}
    (hroot : scene.registry.kindOf root = .ok (some kind)) :
    Run.start c (s.stageFor registry) root = .ok (s.outset registry c root) :=
  Run.start_of_check hcheck ((h.alike.kindOf root).trans hroot)

/-- The whole unfolding lies ahead. -/
theorem follows (h : s.Offers registry scene)
    (t : Unfolding (fun v => Walk.found c.tests.prune.heeded v scene) root) :
    Walk.Follows c.tests.prune.heeded scene t.preorder (s.outset registry c root).toStage :=
  ⟨h.alike, rfl, t.ahead⟩

theorem peers {s' : Session σ} {registry' : Option Nat} (h : s.Offers registry scene)
    (h' : s'.Offers registry' scene) (c : Config σ) (root : Value) :
    Run.Peers c.tests scene (s.outset registry c root) (s'.outset registry' c root) :=
  ⟨⟨h.alike, h'.alike, rfl, rfl, rfl⟩, rfl⟩

end Offers

/-! ## Calls as requests to their runs -/

/-- The leaves among the nodes that the options ask for, drawn to the end. -/
def listLeaves (registry : Option Nat) (o : Options σ) (root : Value) (fuel : Nat) :
    Act Entry (Session σ) Drained := do
  let i ← leaves registry o root
  draw i none fuel

section Calls

variable {kind : String} (h : s.Offers registry scene) (hcheck : c.check = .ok ())
  (hroot : scene.registry.kindOf root = .ok (some kind))

include h hcheck hroot

theorem listing_outset (hconfig : o.config = .ok c) (fuel : Nat) :
    ∃ R, (listing registry o root fuel s).Matches R some
      (drain (Run.next c fuel) none fuel (s.outset registry c root)) := by
  have hsettled : listing registry o root fuel s =
      listing (some (s.target registry)) o root fuel (s.settled registry) := by
    rw [listing, listing, Act.bind_apply, Act.bind_apply, traverse_settled hconfig]
  rw [hsettled]
  exact ⟨_, listing_matches hconfig hcheck h.registry_lt (h.start hcheck hroot)⟩

theorem runThrough_outset (hconfig : o.config = .ok c) (m : Config σ → Act Entry (Run σ) α) :
    (runThrough registry o root m s).Matches
      (fun s' t' => s'.scene (s.target registry) = t'.toScene) some
      (m c (s.outset registry c root)) := by
  rw [runThrough_settled hconfig]
  exact runThrough_matches hconfig hcheck h.registry_lt (h.start hcheck hroot) m

theorem listLeaves_outset (hconfig : o.watching.config = .ok c) (fuel : Nat) :
    ∃ R, (listLeaves registry o root fuel s).Matches R some
      (drain (Run.nextLeaf c fuel) none fuel (s.outset registry c root)) := by
  let s' := (leaves registry o root s).state
  have hleaves : leaves registry o root s = ⟨.ok s.cursors.size, s', []⟩ := rfl
  have hsettled : s'.settled registry =
      { s.settled registry with cursors := s.cursors.push (.unopened registry o root) } := by
    obtain ⟨registries, shared, plans, cursors, user⟩ := s
    rcases registry with _ | r
    · cases shared <;> rfl
    · rfl
  have htarget : s'.target registry = s.target registry := by
    cases registry <;> rfl
  have hopen : (openLeaves s.cursors.size registry o root fuel s').Matches
      (Holds s.cursors.size (s'.settled registry).plans.size
        (.leaves (s'.settled registry).plans.size) c) some
      (Run.nextLeaf c fuel (s.outset registry c root)) := by
    rw [openLeaves_settled hconfig, htarget]
    refine openLeaves_matches hconfig hcheck ?_ ?_ ?_ fuel
    · rw [hsettled]
      exact h.registry_lt
    · rw [hsettled]
      simp
    · rw [hsettled]
      exact h.start hcheck hroot
  rw [listLeaves, Act.bind_of_ok hleaves]
  exact draw_unopened hopen none

/-- The statistic is that of the run, and the kinds without a rule are looked up when it has
ended. -/
theorem census_outset (hconfig : o.watching.config = .ok c) {n : Census} {unknown : List String}
    {fuel : Nat} (hn : (census registry o root fuel s).result = .ok (n, unknown)) :
    let counted := Run.census c fuel (s.outset registry c root)
    counted.result = .ok n ∧ unknown = n.unknownKinds counted.state.registry ∧
      (census registry o root fuel s).alarms = counted.alarms := by
  intro counted
  have hmatches := runThrough_matches hconfig hcheck h.registry_lt (h.start hcheck hroot)
    fun c => Run.census c fuel
  rw [census, Act.bind_of_ok (registryOr_eq registry s)] at hn ⊢
  rw [Outcome.after_result, Act.bind_apply, hmatches.result] at hn
  rw [Act.bind_apply, hmatches.result]
  cases hcounted : (Run.census c fuel (s.outset registry c root)).result with
  | error e =>
    rw [hcounted] at hn
    cases hn
  | ok n' =>
    rw [hcounted] at hn
    cases hn
    have hregistry := congrArg Scene.registry hmatches.state
    refine ⟨rfl, congrArg n.unknownKinds hregistry, ?_⟩
    rw [← hmatches.alarms_eq]
    simp [Outcome.alarms, Outcome.after, Act.get_bind]

end Calls

/-! ## Agreement -/

/-- Whatever is asked of a tree with the same options, where rules and tests are pure, is told of
the same nodes. There is a list of nodes that any listing gives that gets to its end, and any count
gives their number; there is a list of leaves among them that any search for leaves gives; any
statistic describes these nodes and leaves. There is one list of alarms, too: a search for leaves
and a statistic raise all of them, and a listing and a count those that the caller's report lets
pass, which are all if that counts as true or is not there, and only the warnings if it counts as
false. The calls may be made in any sessions that offer the same rules. -/
theorem queries_agree (o : Options σ) {c : Config σ} (hconfig : o.config = .ok c)
    (hcheck : c.check = .ok ()) (hc : c.HasPureTests) (scene : Scene σ)
    (hrules : scene.registry.AllRules Rule.IsPure) (root : Value) {kind : String}
    (hroot : scene.registry.kindOf root = .ok (some kind))
    (t : Unfolding (fun v => Walk.found c.tests.prune.heeded v scene) root) :
    ∃ yielded found alarms, found.Sublist yielded ∧
      ∀ (s : Session σ) (registry : Option Nat), s.Offers registry scene →
        ∀ fuel, t.preorder.length < fuel →
          (∀ items, (listing registry o root fuel s).result = .ok ⟨items, .stop⟩ →
            items = yielded ∧
              (listing registry o root fuel s).alarms = alarms.filter o.report.passes) ∧
          (∀ n, (count registry o root fuel s).result = .ok n →
            n = yielded.length ∧
              (count registry o root fuel s).alarms = alarms.filter o.report.passes) ∧
          (∀ items, (listLeaves registry o root fuel s).result = .ok ⟨items, .stop⟩ →
            items = found ∧ (listLeaves registry o root fuel s).alarms = alarms) ∧
          ∀ n unknown, (census registry o root fuel s).result = .ok (n, unknown) →
            n.Describes scene yielded found unknown ∧
              (census registry o root fuel s).alarms = alarms := by
  let begins (t : Run σ) : Prop :=
    ∃ (s : Session σ) (registry : Option Nat), s.Offers registry scene ∧
      t = s.outset registry c root
  obtain ⟨xs, alarms, hunique⟩ := Run.exists_gives hc hrules begins (by
    rintro _ _ ⟨s, registry, h, rfl⟩ ⟨s', registry', h', rfl⟩
    exact h.peers h' c root)
  rw [Options.report_of_config hconfig] at hunique
  have hwatching : c.watching.HasPureTests := ⟨hc.keep, hc.drop, hc.prune⟩
  have hconfig' := Options.config_watching hconfig
  have hcheck' : c.watching.check = .ok () := c.check_watching.trans hcheck
  refine ⟨xs.map Finding.node, (xs.filter Finding.isLeaf).map Finding.node, alarms,
    List.filter_sublist.map _, fun s registry h fuel hfuel => ?_⟩
  have hfollows := h.follows t
  have hbegins : begins (s.outset registry c root) := ⟨s, registry, h, rfl⟩
  have houtset : s.outset registry c.watching root = s.outset registry c root := rfl
  refine ⟨fun items hitems => ?_, fun n hn => ?_, fun items hitems => ?_, fun n unknown hn => ?_⟩
  · obtain ⟨R, hmatches⟩ := listing_outset h hcheck hroot hconfig fuel
    rw [hmatches.result] at hitems
    obtain ⟨ys, hgives, rfl⟩ := Run.drain_next_gives hc hrules hfollows hfuel hfuel hitems
    obtain ⟨rfl, halarms⟩ := (hunique _ _ _ _ hbegins).1 hgives
    exact ⟨rfl, hmatches.alarms_eq.trans halarms⟩
  · have hmatches := runThrough_outset h hcheck hroot hconfig fun c => Run.count c fuel
    rw [count, hmatches.result] at hn
    obtain ⟨ys, hgives, rfl⟩ := Run.count_gives hc hrules hfollows hfuel hn
    obtain ⟨rfl, halarms⟩ := (hunique _ _ _ _ hbegins).1 hgives
    exact ⟨by rw [List.length_map], hmatches.alarms_eq.trans halarms⟩
  · obtain ⟨R, hmatches⟩ := listLeaves_outset h hcheck' hroot hconfig' fuel
    rw [houtset] at hmatches
    rw [hmatches.result] at hitems
    obtain ⟨ys, hgives, rfl⟩ :=
      Run.drain_nextLeaf_gives hwatching hrules (Run.peers_of_follows hfollows) hitems
    obtain ⟨rfl, halarms⟩ := (hunique _ _ _ _ hbegins).2 hgives
    exact ⟨rfl, hmatches.alarms_eq.trans halarms⟩
  · obtain ⟨hcounted, rfl, hcensus⟩ := census_outset h hcheck' hroot hconfig' hn
    rw [houtset] at hcounted hcensus ⊢
    obtain ⟨ys, hgives, rfl, halike⟩ := Run.census_gives hwatching hrules hfollows hfuel hcounted
    obtain ⟨rfl, halarms⟩ := (hunique _ _ _ _ hbegins).2 hgives
    refine ⟨Census.describes_foldl Finding.node Finding.isLeaf ys fun k => ?_,
      hcensus.trans halarms⟩
    rw [Registry.has, Registry.has, halike.rule? k]

end Session

namespace Sample

/-- A torn pair and a name on the left, and on the right a number, which is no node. -/
def tornSum : Value := node 8 "Pair" [("left", tornHalf), ("right", .int 8)]

/-- A session with one registry. -/
def tornDesk : Session Nat := { registries := .ofList [tornPairs .value], user := 0 }

/-- Counts how often it is told of a failure. -/
def tallying : Reporter Nat := fun _ _ n => ⟨.ok (), n + 1, []⟩

/-- Skips failures and counts them. -/
def counting : Options Nat where
  keep := .live fun _ n => ⟨.ok true, n, []⟩
  report := .live tallying
  skipErrors := true

/-- The same, with a function that counts as false. -/
def unheeded : Options Nat := { counting with report := .live tallying false }

/-- The nodes that are ahead of a run over the tree. -/
def tornSumUnfolding :
    Unfolding (fun v => Walk.found (counting.base .all).tests.prune.heeded v (tornDesk.scene 0))
      tornSum where
  below := .cons tornHalf (.cons torn .nil (.cons name .nil .nil)) (.cons (.int 8) .nil .nil)
  roots_below := rfl
  unfolds_below := ⟨rfl, ⟨rfl, trivial, rfl, trivial, trivial⟩, rfl, trivial, trivial⟩

/-- The failure of the torn pair. -/
def tearing : Fault := .expansion torn (some "Torn") "torn" (some (.raised .value "torn"))

end Sample

namespace Session

open Sample

/-- Five nodes are yielded, and three of them are leaves: the torn pair, whose rule fails, the name
and the number. Whatever is asked, the caller is told of the torn pair once. -/
theorem queries_agree_tornSum :
    let yielded := [tornSum, tornHalf, torn, name, .int 8]
    let found := [torn, name, .int 8]
    let alarms := [.told torn tearing, .warned tearing.wording]
    (listing (some 0) counting tornSum 6 tornDesk).result = .ok ⟨yielded, .stop⟩ ∧
      (count (some 0) counting tornSum 6 tornDesk).result = .ok 5 ∧
      (listLeaves (some 0) counting tornSum 6 tornDesk).result = .ok ⟨found, .stop⟩ ∧
      (∃ n unknown, (census (some 0) counting tornSum 6 tornDesk).result = .ok (n, unknown) ∧
        n.Describes (tornDesk.scene 0) yielded found unknown) ∧
      (listing (some 0) counting tornSum 6 tornDesk).alarms = alarms ∧
      (count (some 0) counting tornSum 6 tornDesk).alarms = alarms ∧
      (listLeaves (some 0) counting tornSum 6 tornDesk).alarms = alarms ∧
      (census (some 0) counting tornSum 6 tornDesk).alarms = alarms := by
  intro yielded found alarms
  have hc : (counting.base .all).HasPureTests := ⟨fun _ _ _ => rfl, trivial, trivial⟩
  obtain ⟨ys, ls, told, -, hall⟩ := queries_agree counting rfl rfl hc (tornDesk.scene 0)
    (tornPairs_isPure .value) tornSum rfl tornSumUnfolding
  obtain ⟨hlist, hcount, hleaves, hcensus⟩ :=
    hall tornDesk (some 0) ⟨.refl _, by decide⟩ 6 (by decide)
  have hlisted : (listing (some 0) counting tornSum 6 tornDesk).result = .ok ⟨yielded, .stop⟩ := rfl
  have hcounted : (count (some 0) counting tornSum 6 tornDesk).result = .ok 5 := rfl
  have hfound : (listLeaves (some 0) counting tornSum 6 tornDesk).result = .ok ⟨found, .stop⟩ := rfl
  have halarms : (listLeaves (some 0) counting tornSum 6 tornDesk).alarms = alarms := rfl
  obtain ⟨rfl, htold⟩ := hlist _ hlisted
  obtain ⟨-, htold₁⟩ := hcount _ hcounted
  obtain ⟨rfl, htold₂⟩ := hleaves _ hfound
  obtain ⟨hdescribes, htold₃⟩ := hcensus _ _ rfl
  obtain rfl : told = alarms := htold₂.symm.trans halarms
  exact ⟨hlisted, hcounted, hfound, ⟨_, _, rfl, hdescribes⟩, htold, htold₁, htold₂, htold₃⟩

/-- A report that counts as false hears of the torn pair from a search for leaves and from a
statistic, and nothing from a listing or a count: these only log the warning. -/
theorem queries_disagree :
    let told := [.told torn tearing, .warned tearing.wording]
    let untold := [.warned tearing.wording]
    (∃ c, unheeded.config = .ok c ∧ c.check = .ok () ∧ c.HasPureTests) ∧
      (tornDesk.registry 0).AllRules Rule.IsPure ∧
      Nonempty (Unfolding (fun v => Walk.found .absent v (tornDesk.scene 0)) tornSum) ∧
      (listing (some 0) unheeded tornSum 6 tornDesk).alarms = untold ∧
      (count (some 0) unheeded tornSum 6 tornDesk).alarms = untold ∧
      (listLeaves (some 0) unheeded tornSum 6 tornDesk).alarms = told ∧
      (census (some 0) unheeded tornSum 6 tornDesk).alarms = told := by
  intro told untold
  exact ⟨⟨unheeded.base .all, rfl, rfl, ⟨fun _ _ _ => rfl, trivial, trivial⟩⟩,
    tornPairs_isPure .value, ⟨tornSumUnfolding⟩, rfl, rfl, rfl, rfl⟩

end Session

end RuleWalk
