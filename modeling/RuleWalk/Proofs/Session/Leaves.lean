import RuleWalk.Proofs.Query.Leaves
import RuleWalk.Proofs.Session.Store

/-!
# Statistics and leaves where failures are skipped

A query that skips failures is not safe from them. The rule of a pruned node is first asked when the
node is tested for being a leaf, and a fault of that rule leaves the query; and so does whatever
escapes from an expansion. Where neither happens, the statistic counts every yielded node, and as a
leaf each one whose rule fails or offers no child; and the sequence of leaves gives just these.
-/

namespace RuleWalk

variable {σ : Type}

/-- The options ask for at most `max` nodes of the named kinds, with pure tests that never fail, and
to skip failures. -/
structure Options.Skips (o : Options σ) (names : Option (List String)) (max : Option Nat) :
    Prop where
  kinds : Kinds.ofValue o.kinds = .ok (.named names)
  named : "" ∉ names.getD []
  limit : o.limit = max.elim .null fun n => .int n
  keep : o.keep.All fun p => p.IsPure ∧ p.NeverFails
  drop : o.drop.All fun p => p.IsPure ∧ p.NeverFails
  prune : o.prune.All fun p => p.IsPure ∧ p.NeverFails
  report : o.report.All fun r => ∀ v e, Act.NeverFails (r v e)
  skip : o.skipErrors = true
  extra : o.extra = []

/-- The filter that the options ask for. -/
def Options.filter (o : Options σ) (names : Option (List String)) : Filter σ :=
  { kinds := .named names, keep := o.keep, drop := o.drop, prune := o.prune }

/-- Such options give a configuration, and it is accepted. -/
theorem Options.Skips.config_eq {o : Options σ} {names : Option (List String)} {max : Option Nat}
    (h : o.Skips names max) :
    ∃ c, o.config = .ok c ∧ c.check = .ok () ∧ c.Unfailing (o.filter names) names max ∧
      c.policy = .given .skip := by
  let c : Config σ :=
    { filter := .given (o.filter names), limit := .given o.limit, policy := .given .skip,
      report := o.report }
  have hc : c.Unfailing (o.filter names) names max :=
    ⟨rfl, rfl, congrArg Setting.given h.limit, h.keep, h.drop, h.report, trivial⟩
  refine ⟨c, ?_, (hc.check_iff rfl h.prune).mpr ⟨rfl, rfl, h.named⟩, hc, rfl⟩
  rw [Options.config, h.kinds, h.skip, h.extra]
  rfl

/-- Also where failures are told to a function that hangs inside another one. -/
theorem Options.Skips.watching {o : Options σ} {names : Option (List String)} {max : Option Nat}
    (h : o.Skips names max) : o.watching.Skips names max :=
  { h with report := h.report.wrapped }

namespace Session

open Run (wants leafy trouble yieldsLeaf)

/-- The statistic of a session is that of the run that the options ask for, and the kinds without a
rule are looked up afterwards. -/
theorem census_result {s : Session σ} {r : Nat} {o : Options σ} {c : Config σ} {root : Value}
    {t : Run σ} (hconfig : o.watching.config = .ok c) (hcheck : c.check = .ok ())
    (hr : r < s.registries.size) (hstart : Run.start c (s.scene r) root = .ok t) (fuel : Nat) :
    let after := (runThrough (some r) o.watching root (fun c => Run.census c fuel) s).state
    (census (some r) o root fuel s).result =
      (Run.census c fuel t).result.map fun n => (n, n.unknownKinds (after.registry r)) := by
  have hthrough := runThrough_result hconfig hcheck hr hstart fun c => Run.census c fuel
  rw [census, registryOr, Act.bind_apply]
  simp only [Act.pure_apply, Outcome.after_result]
  rw [Act.bind_result, hthrough]
  cases (Run.census c fuel t).result <;> rfl

/-- Statistics and leaves where failures are skipped. Both end early exactly when some node that the
run takes is in trouble: a fault escapes from its expansion, being an interruption or one without a
text, or the node is yielded and pruned and its rule fails. Then the statistic ends with the first
such fault, and so does the sequence of leaves, after the leaves before it. Else the statistic
counts all yielded nodes, and the leaves among them are those whose rule fails or offers no
child. -/
theorem leaves_of_skips (s : Session σ) {r : Nat} (hr : r < s.registries.size) (o : Options σ)
    (names : Option (List String)) (max : Option Nat) (ho : o.Skips names max) (root : Value)
    {kind : String} (hroot : (s.registry r).kindOf root = .ok (some kind))
    (hrules : (s.registry r).AllRules Rule.IsPure)
    (t : Unfolding (fun v => if o.prune.heeded.holds s.user v then [] else (s.scene r).kids v) root)
    (hidentified : Value.Identified t.preorder) (fuel : Nat) (hfuel : t.preorder.length < fuel) :
    let wanted := wants (o.filter names) names (s.scene r)
    let yielded := max.elim (t.preorder.filter wanted) fun n => (t.preorder.filter wanted).take n
    let seen := visited wanted max t.preorder
    let ended := seen.findSome? (trouble (o.filter names) names (s.scene r))
    let stats := (census (some r) o root fuel s).result
    let drawn := (draw s.cursors.size none fuel (leaves (some r) o root s).state).result
    (match ended with
      | some e => stats = .error e
      | none => ∃ n unknown, stats = .ok (n, unknown) ∧ n.total = yielded.length ∧
          n.leaves = (yielded.filter (leafy (s.scene r))).length) ∧
      drawn = .ok
        (match ended with
          | some e =>
            ⟨(seen.takeWhile fun v => (trouble (o.filter names) names (s.scene r) v).isNone).filter
                (yieldsLeaf (o.filter names) names (s.scene r)), .fault e.leaving⟩
          | none => ⟨yielded.filter (leafy (s.scene r)), .stop⟩) := by
  intro wanted yielded seen ended stats drawn
  obtain ⟨c, hconfig, hcheck, hunfailing, hskip⟩ := ho.watching.config_eq
  have hc : Run.Surveys c (o.filter names) names max (s.scene r) t.preorder :=
    { unfailing := hunfailing
      policy := hskip
      prune := ho.prune
      rules := hrules
      field := Registry.hasTextField_of_kindOf hroot
      identified := hidentified }
  have hstart := hc.predictable.start_eq hroot
  have hfollows : Walk.Follows o.prune.heeded (s.scene r) t.preorder
      ⟨s.scene r, ⟨[root], o.prune.heeded⟩⟩ :=
    @Walk.Follows.start σ o.prune.heeded (s.scene r) root
      (ho.prune.heeded.mono fun _ hp => hp.2) hrules t
  have hdue : Run.Due (o.filter names) names max (s.scene r) t.preorder fuel seen
      { toScene := s.scene r, walk := ⟨[root], (o.filter names).prune.heeded⟩ } :=
    ⟨t.preorder, {}, ⟨hfollows, rfl, rfl⟩, by rw [room_zero], List.Subset.refl _, hfuel, nofun⟩
  have hyielded : seen.filter wanted = yielded := filter_visited max t.preorder
  constructor
  · have hstats : stats = _ := census_result hconfig hcheck hr hstart fuel
    rw [Run.census_result hc hdue] at hstats
    cases hended : seen.findSome? (trouble (o.filter names) names (s.scene r)) with
    | some e =>
      rw [hended] at hstats
      simp only [ended, hended]
      exact hstats
    | none =>
      rw [hended, hyielded] at hstats
      obtain ⟨htotal, hleaves⟩ :=
        Run.count_foldl_add (Run.kindAt (s.scene r)) (leafy (s.scene r)) yielded {}
      simp only [ended, hended]
      exact ⟨_, _, hstats, htotal.trans (Nat.zero_add _), hleaves.trans (Nat.zero_add _)⟩
  · have hdrawn : drawn = _ := draw_leaves hconfig hcheck hr hstart none fuel
    rw [Run.drain_nextLeaf hc hdue hdue.length_lt, harvest_eq] at hdrawn
    rw [hdrawn]
    cases hended : seen.findSome? (trouble (o.filter names) names (s.scene r)) with
    | some e =>
      simp only [ended, hended]
      rfl
    | none =>
      have hall : seen.takeWhile
          (fun v => (trouble (o.filter names) names (s.scene r) v).isNone) = seen := by
        rw [List.takeWhile_eq_self_iff]
        intro v hv
        rw [List.findSome?_eq_none_iff.mp hended v hv]
        rfl
      have hleaves : seen.filter (yieldsLeaf (o.filter names) names (s.scene r)) =
          yielded.filter (leafy (s.scene r)) := by
        rw [← hyielded, List.filter_filter]
        exact List.filter_congr fun v _ => Bool.and_comm _ _
      simp only [ended, hended, Option.elim, chosen, hall, hleaves]

/-- A torn pair beside a name: both are leaves, the torn one because its rule fails. -/
theorem leaves_of_skips_tornHalf :
    let o : Options Unit :=
      { prune := .live (Toolkit.hasKind [.str "Fold"]), skipErrors := true }
    let s : Session Unit := { registries := .ofList [Sample.tornPairs .value], user := () }
    (∃ n unknown, (census (some 0) o Sample.tornHalf 4 s).result = .ok (n, unknown) ∧
      n.total = 3 ∧ n.leaves = 2) ∧
    (draw 0 none 4 (leaves (some 0) o Sample.tornHalf s).state).result =
      .ok ⟨[Sample.torn, Sample.name], .stop⟩ := by
  intro o s
  have ho : o.Skips none none :=
    ⟨rfl, by decide, rfl, trivial, trivial,
      ⟨Toolkit.hasKind_isPure _, Toolkit.hasKind_neverFails _⟩, trivial, rfl, rfl⟩
  let t : Unfolding (fun v => if o.prune.heeded.holds s.user v then [] else (s.scene 0).kids v)
      Sample.tornHalf :=
    { below := .cons Sample.torn .nil (.cons Sample.name .nil .nil)
      roots_below := rfl
      unfolds_below := ⟨rfl, trivial, rfl, trivial, trivial⟩ }
  have hpreorder : ∀ v ∈ t.preorder, v = Sample.tornHalf ∨ v = Sample.torn ∨ v = Sample.name := by
    intro v hv
    have ht : t.preorder = [Sample.tornHalf, Sample.torn, Sample.name] := rfl
    simpa [ht] using hv
  refine leaves_of_skips s (by decide) o none none ho Sample.tornHalf rfl
    (Sample.tornPairs_isPure .value) t ?_ 4 (by decide)
  intro u hu w hw n hun hwn
  rcases hpreorder u hu with rfl | rfl | rfl <;> rcases hpreorder w hw with rfl | rfl | rfl <;>
    cases hun <;> cases hwn <;> rfl

/-- A torn pair that is pruned: its rule fails in the test for leaves, and the fault escapes. One
that is not pruned and whose failure has no text: the fault met in asking for the text escapes. -/
theorem leaves_escape :
    let pruned : Options Unit :=
      { prune := .live (Toolkit.hasKind [.str "Torn"]), skipErrors := true }
    let whole : Options Unit := { skipErrors := true }
    let s : Session Unit := { registries := .ofList [Sample.tornPairs .value], user := () }
    let s' : Session Unit := { registries := .ofList [Sample.failingPairs Sample.mute], user := () }
    pruned.Skips none none ∧ whole.Skips none none ∧
      (s.registry 0).AllRules Rule.IsPure ∧ (s'.registry 0).AllRules Rule.IsPure ∧
      Nonempty (Unfolding
        (fun v => if pruned.prune.heeded.holds s.user v then [] else (s.scene 0).kids v)
        Sample.torn) ∧
      Nonempty (Unfolding (s'.scene 0).kids Sample.torn) ∧
      (census (some 0) pruned Sample.torn 2 s).result = .error (.raised .value "torn") ∧
      (draw 0 none 2 (leaves (some 0) pruned Sample.torn s).state).result =
        .ok ⟨[], .fault (.raised .value "torn")⟩ ∧
      (census (some 0) whole Sample.torn 2 s').result = .error (.notCallable "int") ∧
      (draw 0 none 2 (leaves (some 0) whole Sample.torn s').state).result =
        .ok ⟨[], .fault (.notCallable "int")⟩ :=
  ⟨⟨rfl, by decide, rfl, trivial, trivial,
      ⟨Toolkit.hasKind_isPure _, Toolkit.hasKind_neverFails _⟩, trivial, rfl, rfl⟩,
    ⟨rfl, by decide, rfl, trivial, trivial, trivial, trivial, rfl, rfl⟩,
    Sample.tornPairs_isPure .value, Sample.failingPairs_isPure _, ⟨⟨.nil, rfl, trivial⟩⟩,
    ⟨⟨.nil, rfl, trivial⟩⟩, rfl, rfl, rfl, rfl⟩

end Session

end RuleWalk
