import Mathlib.Data.List.TakeWhile
import RuleWalk.Proofs.Plan.Limit
import RuleWalk.Proofs.Plan.Unfailing
import RuleWalk.Proofs.Rules
import RuleWalk.Proofs.Walk.Preorder

/-!
# What a run selects

An unfailing run that skips failures yields, of the whole pre-order listing, the places that have no
pruned proper ancestor and that are wanted themselves, as many as the limit allows. A node that is
not wanted hides nothing, and a pruned or failing one hides only what is below it. A rule whose
fault escapes ends the run: one that is interrupted, or that fails with a failure without a text.

`harvest` says what is drawn from a list of nodes that are met one by one, and `harvest_eq` says it
with the usual functions on lists. `At` holds a run and the nodes that lie ahead of it together; a
turn, a request and all requests are then compared with the list, one after the other.
-/

namespace RuleWalk

/-! ## Harvests -/

section Harvest

variable (wants : Value → Bool) (halt : Value → Option Fault)

/-- What is drawn from a list of nodes that are taken one by one, when there is room for so many
nodes: the wanted ones, up to the first that halts. -/
def harvest : Option Nat → List Value → Drained
  | some 0, _ => ⟨[], .stop⟩
  | _, [] => ⟨[], .stop⟩
  | room, v :: l =>
    match halt v with
    | some e => ⟨[], .fault e.leaving⟩
    | none =>
      if wants v then
        ⟨v :: (harvest (room.map (· - 1)) l).items, (harvest (room.map (· - 1)) l).ending⟩
      else harvest room l

/-- The first node that is wanted, with the nodes behind it, unless one halts before it. -/
def scan : List Value → Option (Except Fault (Value × List Value))
  | [] => none
  | v :: l =>
    match halt v with
    | some e => some (.error e)
    | none => if wants v then some (.ok (v, l)) else scan l

/-- A harvest for which there is room goes from one wanted node to the next. -/
theorem harvest_eq_scan {room : Option Nat} (hroom : room ≠ some 0) (l : List Value) :
    harvest wants halt room l =
      match scan wants halt l with
      | none => ⟨[], .stop⟩
      | some (.error e) => ⟨[], .fault e.leaving⟩
      | some (.ok (v, l')) =>
        ⟨v :: (harvest wants halt (room.map (· - 1)) l').items,
          (harvest wants halt (room.map (· - 1)) l').ending⟩ := by
  induction l with
  | nil => rw [harvest, scan]; exact hroom
  | cons v l ih =>
    rw [harvest, scan]
    · cases halt v with
      | some e => rfl
      | none =>
        cases wants v with
        | true => rfl
        | false => exact ih
    · exact hroom

/-- The wanted nodes up to the first that halts. -/
def chosen (l : List Value) : List Value :=
  (l.takeWhile fun v => (halt v).isNone).filter wants

variable {wants halt} in
theorem chosen_of_some {v : Value} {e : Fault} (he : halt v = some e) (l : List Value) :
    chosen wants halt (v :: l) = [] := by
  simp [chosen, he]

variable {wants halt} in
theorem chosen_of_none {v : Value} (he : halt v = none) (l : List Value) :
    chosen wants halt (v :: l) =
      if wants v then v :: chosen wants halt l else chosen wants halt l := by
  simp [chosen, he, List.filter_cons]

/-- What is harvested, without recursion. -/
theorem harvest_items (room : Option Nat) (l : List Value) :
    (harvest wants halt room l).items =
      room.elim (chosen wants halt l) fun n => (chosen wants halt l).take n := by
  fun_induction harvest wants halt room l with
  | case1 l => rfl
  | case2 room => cases room <;> simp [chosen]
  | case3 room v l _ e he => cases room <;> simp [chosen_of_some he]
  | case4 room v l hroom he hv ih =>
    rw [ih, chosen_of_none he, if_pos hv]
    rcases room with _ | _ | n
    · rfl
    · exact absurd rfl hroom
    · rfl
  | case5 room v l _ he hv ih => rw [ih, chosen_of_none he, if_neg hv]

/-- A harvest ends with a halt only if there is still room when it comes to it. -/
theorem harvest_ending (room : Option Nat) (l : List Value) :
    (harvest wants halt room l).ending =
      match l.findSome? halt with
      | some e => if room.any (· ≤ (chosen wants halt l).length) then .stop else .fault e.leaving
      | none => .stop := by
  fun_induction harvest wants halt room l with
  | case1 l => cases l.findSome? halt <;> simp
  | case2 room => rfl
  | case3 room v l hroom e he =>
    have hany : room.any (· ≤ 0) = false := by
      rcases room with _ | _ | n
      · rfl
      · exact absurd rfl hroom
      · simp
    rw [List.findSome?_cons, he, chosen_of_some he, List.length_nil, hany]
    rfl
  | case4 room v l hroom he hv ih =>
    have hany : (room.map (· - 1)).any (· ≤ (chosen wants halt l).length) =
        room.any (· ≤ (chosen wants halt l).length + 1) := by
      cases room <;> simp
    rw [ih, List.findSome?_cons, he, chosen_of_none he, if_pos hv, List.length_cons, hany]
  | case5 room v l _ he hv ih =>
    rw [ih, List.findSome?_cons, he, chosen_of_none he, if_neg hv]

theorem harvest_eq (room : Option Nat) (l : List Value) :
    harvest wants halt room l =
      ⟨room.elim (chosen wants halt l) fun n => (chosen wants halt l).take n,
        match l.findSome? halt with
        | some e => if room.any (· ≤ (chosen wants halt l).length) then .stop else .fault e.leaving
        | none => .stop⟩ := by
  rw [← harvest_items, ← harvest_ending]

end Harvest

/-! ## Runs -/

/-- How many nodes may be yielded after `k` of at most `max`. -/
def room (max : Option Nat) (k : Nat) : Option Nat := max.map (· - k)

theorem room_zero (max : Option Nat) : room max 0 = max := by cases max <;> rfl

theorem room_succ (max : Option Nat) (k : Nat) : (room max k).map (· - 1) = room max (k + 1) := by
  cases max <;> simp [room, Nat.sub_sub]

/-- Another node is allowed as long as there is room. -/
theorem Config.Unfailing.allows {σ : Type} {c : Config σ} {f : Filter σ}
    {names : Option (List String)}
    {max : Option Nat} (hc : c.Unfailing f names max) (k : Nat) :
    c.allows k = .ok (room max k != some 0) := by
  cases max with
  | none =>
    rw [Config.allows, hc.limit]
    rfl
  | some m =>
    have hroom : decide (k < m) = (room (some m) k != some 0) := by
      rw [Bool.eq_iff_iff]
      simp [room]
      omega
    rw [Config.allows, hc.limit, ← hroom]
    exact c.limited_allows m k

namespace Run

variable {σ : Type} {c : Config σ} {f : Filter σ} {names : Option (List String)} {max : Option Nat}
  {scene : Scene σ} {l : List Value} {v : Value} {s : Run σ} {k : Nat}

/-- A run that has yielded `k` nodes and has the nodes in `l` ahead. -/
structure At (f : Filter σ) (scene : Scene σ) (l : List Value) (k : Nat) (s : Run σ) : Prop where
  follows : Walk.Follows f.prune.heeded scene l s.toStage
  live : s.live = true
  count : s.tally.processed = k

theorem At.allows (h : At f scene l k s) (hc : Skips c f names max scene)
    (hroom : room max k ≠ some 0) : c.allows s.tally.processed = .ok true := by
  rw [h.count, hc.unfailing.allows, bne_iff_ne.mpr hroom]

/-- Taking a node goes on along the nodes that lie ahead, and counts it if it is wanted. -/
theorem pop_at (hc : Skips c f names max scene) (h : At f scene (v :: l) k s)
    (hhalt : halt f scene v = none) :
    At f scene l (k + if wants f names scene v then 1 else 0) (pop c s).state := by
  have hresult := pop_result hc h.follows
  have hfollows := pop_follows (c := c) (hc.prune.heeded.mono fun _ hp => hp.1) hc.rules h.follows
  obtain ⟨user, tally, hstate, hcount⟩ := pop_state c s
  rw [hhalt] at hresult
  rw [hstate] at hfollows ⊢
  refine ⟨hfollows, h.live, ?_⟩
  rw [hcount _ hresult, h.count]
  cases wants f names scene v <;> rfl

/-- One turn takes the first node that lies ahead. -/
theorem turn_at (hc : Skips c f names max scene) (h : At f scene (v :: l) k s)
    (hroom : room max k ≠ some 0) :
    (turn c () s).result =
        (match halt f scene v with
        | some e => .error e
        | none => .ok (if wants f names scene v then .done (some v) else .again ())) ∧
      (halt f scene v = none →
        At f scene l (k + if wants f names scene v then 1 else 0) (turn c () s).state) := by
  have hallows := h.allows hc hroom
  have hresult := pop_result hc h.follows
  have hat := pop_at hc h
  rw [turn, Act.bind_apply, beat_of_allows hallows, hresult]
  cases hhalt : halt f scene v with
  | some e => exact ⟨rfl, fun h => by cases h⟩
  | none =>
    specialize hat hhalt
    cases hwants : wants f names scene v <;> rw [hwants] at hat
    · exact ⟨rfl, fun _ => hat⟩
    · exact ⟨rfl, fun _ => hat⟩

/-- One request takes nodes up to the first that is wanted. -/
theorem iterate_turn_at {fuel : Nat} (hc : Skips c f names max scene) (h : At f scene l k s)
    (hfuel : l.length < fuel) (hroom : room max k ≠ some 0) :
    match scan (wants f names scene) (halt f scene) l with
    | none => (Act.iterate (turn c) fuel () s).result = .ok (.done none)
    | some (.error e) => (Act.iterate (turn c) fuel () s).result = .error e
    | some (.ok (v, l')) =>
      (Act.iterate (turn c) fuel () s).result = .ok (.done (some v)) ∧
        At f scene l' (k + 1) (Act.iterate (turn c) fuel () s).state ∧ l'.length < l.length := by
  obtain ⟨fuel, rfl⟩ : ∃ m, fuel = m + 1 := ⟨fuel - 1, by omega⟩
  -- On the nodes that lie ahead: a turn that yields nothing leaves one less, and keeps the count.
  induction l generalizing s fuel with
  | nil =>
    have hallows := h.allows hc hroom
    have hended := (pop_ended_iff c s).mpr (h.follows.isDone_iff.mpr rfl)
    rw [scan, Act.iterate_succ, Act.bind_result, turn, Act.bind_result, beat_of_allows hallows,
      hended]
    rfl
  | cons v l ih =>
    obtain ⟨hresult, hat⟩ := turn_at hc h hroom
    rw [scan, Act.iterate_succ, Act.bind_apply, hresult]
    cases hhalt : halt f scene v with
    | some e => rfl
    | none =>
      specialize hat hhalt
      cases hwants : wants f names scene v with
      | true =>
        rw [hwants] at hat
        exact ⟨rfl, hat, Nat.lt_succ_self _⟩
      | false =>
        rw [hwants] at hat
        obtain ⟨fuel, rfl⟩ : ∃ m, fuel = m + 1 := ⟨fuel - 1, by simp at hfuel; omega⟩
        have hrest := ih hat fuel (by simp at hfuel ⊢; omega)
        simp only [Bool.false_eq_true, if_false, Outcome.after_result, Outcome.after_state]
        generalize scan (wants f names scene) (halt f scene) l = found at hrest ⊢
        rcases found with _ | _ | ⟨w, l'⟩
        · exact hrest
        · exact hrest
        · exact ⟨hrest.1, hrest.2.1, Nat.lt_succ_of_lt hrest.2.2⟩

/-- A request when there is room for another node. -/
theorem next_at {fuel : Nat} (hc : Skips c f names max scene) (h : At f scene l k s)
    (hfuel : l.length < fuel) (hroom : room max k ≠ some 0) :
    match scan (wants f names scene) (halt f scene) l with
    | none => (next c fuel s).result = .ok .stop
    | some (.error e) => (next c fuel s).result = .error e.leaving
    | some (.ok (v, l')) =>
      (next c fuel s).result = .ok (.node v) ∧
        At f scene l' (k + 1) (next c fuel s).state ∧ l'.length < l.length := by
  have hturns := iterate_turn_at hc h hfuel hroom
  rw [next, h.live, if_pos rfl]
  generalize Act.iterate (turn c) fuel () s = turns at hturns ⊢
  obtain ⟨r, s', es⟩ := turns
  cases hscan : scan (wants f names scene) (halt f scene) l with
  | none =>
    rw [hscan] at hturns
    obtain rfl : r = _ := hturns
    rfl
  | some found =>
    rw [hscan] at hturns
    cases found with
    | error e =>
      obtain rfl : r = _ := hturns
      rfl
    | ok found =>
      obtain ⟨hr, hrest⟩ := hturns
      obtain rfl : r = _ := hr
      exact ⟨rfl, hrest⟩

/-- Request after request, the nodes that lie ahead are harvested. -/
theorem iterate_at {fuel g : Nat} {xs : List Value} (hc : Skips c f names max scene)
    (h : At f scene l xs.length s) (hfuel : l.length < fuel) (hg : l.length < g) :
    let drawn := harvest (wants f names scene) (halt f scene) (room max xs.length) l
    (Act.iterate (Drained.turn (next c fuel) none) g (xs, xs.length) s).result =
      .ok (.done ⟨xs.reverse ++ drawn.items, drawn.ending⟩) := by
  -- On the requests: each leaves fewer nodes ahead.
  induction g generalizing l xs s with
  | zero => exact absurd hg (Nat.not_lt_zero _)
  | succ g ih =>
    rw [Act.iterate_succ,
      Act.bind_of_ok (Drained.turn_of_ne (next c fuel) xs (Option.some_ne_none _).symm s)]
    by_cases hroom : room max xs.length = some 0
    · have hallows : c.allows s.tally.processed = .ok false := by
        rw [h.count, hc.unfailing.allows, hroom]
        rfl
      obtain ⟨fuel, rfl⟩ : ∃ n, fuel = n + 1 := ⟨fuel - 1, by omega⟩
      rw [next_of_limit fuel h.live hallows, hroom, harvest]
      simp [Drained.answer, Outcome.after]
    · have hnext := next_at hc h hfuel hroom
      rw [harvest_eq_scan _ _ hroom]
      generalize scan (wants f names scene) (halt f scene) l = found at hnext ⊢
      rcases found with _ | e | ⟨v, l'⟩
      · rw [show (next c fuel s).result = .ok .stop from hnext]
        simp [Drained.answer, Outcome.after]
      · rw [show (next c fuel s).result = .error e.leaving from hnext]
        simp [Drained.answer, Outcome.after]
      · obtain ⟨hnode, hat, hless⟩ := hnext
        have hcons : At f scene l' (v :: xs).length (next c fuel s).state := hat
        rw [hnode, room_succ]
        refine (ih hcons (by omega) (by omega)).trans ?_
        rw [List.reverse_cons, List.append_assoc, List.singleton_append]
        rfl

/-- All requests together. -/
theorem drain_at {fuel g : Nat} (hc : Skips c f names max scene) (h : At f scene l 0 s)
    (hfuel : l.length < fuel) (hg : l.length < g) :
    (drain (next c fuel) none g s).result =
      .ok (harvest (wants f names scene) (halt f scene) max l) := by
  have hnone : At f scene l ([] : List Value).length s := h
  have hdrawn := iterate_at hc hnone hfuel hg
  rw [List.length_nil, room_zero] at hdrawn
  rcases hrun : Act.iterate (Drained.turn (next c fuel) none) g ([], 0) s with ⟨r, s', es⟩
  obtain rfl : r = _ := (congrArg Outcome.result hrun).symm.trans hdrawn
  rw [drain_of_done hrun]
  rfl

theorem Skips.start_eq (hc : Skips c f names max scene) {root : Value} {kind : String}
    (hroot : scene.registry.kindOf root = .ok (some kind)) :
    start c scene root = .ok { toScene := scene, walk := ⟨[root], f.prune.heeded⟩ } :=
  start_of_filter hc.unfailing.filter hroot

/-- At its start, a run has all visible places ahead. -/
theorem Skips.at_start (hc : Skips c f names max scene) {root : Value}
    (t : Unfolding scene.kids root) :
    At f scene
      ((t.occurrences.filter
        (Occurrence.isVisible (f.prune.heeded.holds scene.user))).map (·.node)) 0
      { toScene := scene, walk := ⟨[root], f.prune.heeded⟩ } := by
  have hfollows := Walk.Follows.start (hc.prune.heeded.mono fun _ hp => hp.2) hc.rules (t.cut _)
  rw [t.preorder_cut] at hfollows
  exact ⟨hfollows, rfl, rfl⟩

/-- What a run selects that skips failures. Of all places of the tree, in pre-order, those are
visible that have no pruned node above them. The run yields the visible ones that are wanted, as
many as the limit allows. Of the tests, those that count as true are heeded. A rule whose fault
escapes stops the run before its node, if the limit did not stop it sooner: an interruption with
itself, and a failure that has no text with what was met in its place. Of such configurations, the
check refuses those with an empty name among the kinds, beside those with a bad interval. -/
theorem drain_selects (c : Config σ) (f : Filter σ) (names : Option (List String))
    (max : Option Nat) (hc : c.Unfailing f names max) (hskip : c.policy = .given .skip)
    (hprune : f.prune.All fun p => p.IsPure ∧ p.NeverFails) (scene : Scene σ) (root : Value)
    {kind : String} (hroot : scene.registry.kindOf root = .ok (some kind))
    (hrules : scene.registry.AllRules Rule.IsPure) (t : Unfolding scene.kids root) :
    (c.check = .ok () ↔ c.checker = none ∧ c.intervalProblems = .ok [] ∧ "" ∉ names.getD []) ∧
      ∃ r, start c scene root = .ok r ∧ ∀ fuel g,
        t.occurrences.length < fuel → t.occurrences.length < g →
        let visible := t.occurrences.filter (Occurrence.isVisible (f.prune.heeded.holds scene.user))
        let reached := visible.takeWhile fun o => (halt f scene o.node).isNone
        let selected := fun l : List Occurrence =>
          (l.filter fun o => wants f names scene o.node).map (·.node)
        let drawn := (drain (next c fuel) none g r).result
        drawn = .ok
          ⟨max.elim (selected reached) fun n => (selected reached).take n,
            match visible.findSome? fun o => halt f scene o.node with
            | some e => if max.any (· ≤ (selected reached).length) then .stop else .fault e.leaving
            | none => .stop⟩ ∧
        ((∀ o ∈ visible, halt f scene o.node = none) →
          drawn = .ok ⟨max.elim (selected visible) fun n => (selected visible).take n, .stop⟩) := by
  have hskips : Skips c f names max scene :=
    ⟨hc, hskip, hprune, hrules, Registry.hasTextField_of_kindOf hroot⟩
  refine ⟨hc.check_iff hskip hprune, _, hskips.start_eq hroot, ?_⟩
  intro fuel g hfuel hg visible reached selected drawn
  have hlength : (visible.map (·.node)).length ≤ t.occurrences.length := by
    rw [List.length_map]
    exact List.length_filter_le _ _
  have hselected :
      chosen (wants f names scene) (halt f scene) (visible.map (·.node)) = selected reached := by
    simp only [chosen, List.takeWhile_map, List.filter_map]
    rfl
  have hdrawn := drain_at hskips (hskips.at_start t) (Nat.lt_of_le_of_lt hlength hfuel)
    (Nat.lt_of_le_of_lt hlength hg)
  rw [harvest_eq, hselected, List.findSome?_map] at hdrawn
  refine ⟨hdrawn, fun hnone => hdrawn.trans ?_⟩
  have hreached : reached = visible := List.takeWhile_eq_self_iff.mpr fun o ho => by
    rw [hnone o ho, Option.isNone_none]
  have hfound : visible.findSome? (halt f scene ∘ (·.node)) = none :=
    List.findSome?_eq_none_iff.mpr hnone
  rw [hreached, hfound]

/-- Two of the nodes of a tree: the pairs are dropped, but not what is below them. -/
theorem drain_selects_tornTree :
    let f : Filter Unit :=
      { kinds := .named (some ["Pair", "Fold", "Torn", "Name"])
        drop := .live (Toolkit.hasKind [.str "Pair"])
        prune := .live (Toolkit.hasKind [.str "Fold"]) }
    let c : Config Unit :=
      { filter := .given f, limit := .given (.int 2), policy := .given .skip }
    c.check = .ok () ∧
      ∃ r, start c ⟨Sample.tornPairs .value, ()⟩ Sample.tornTree = .ok r ∧
        (drain (next c 8) none 8 r).result = .ok ⟨[Sample.folded, Sample.torn], .stop⟩ := by
  intro f c
  have htest (kinds : List Value) : (Hook.live (Toolkit.hasKind kinds : Predicate Unit)).All
      fun p => p.IsPure ∧ p.NeverFails :=
    ⟨Toolkit.hasKind_isPure kinds, Toolkit.hasKind_neverFails kinds⟩
  have hc : c.Unfailing f (some ["Pair", "Fold", "Torn", "Name"]) (some 2) :=
    ⟨rfl, rfl, rfl, trivial, htest _, trivial, trivial⟩
  obtain ⟨hcheck, r, hr, hdrawn⟩ := drain_selects c f _ _ hc rfl (htest _)
    ⟨Sample.tornPairs .value, ()⟩ Sample.tornTree rfl (Sample.tornPairs_isPure .value)
    { below := .cons Sample.folded (.cons Sample.name .nil (.cons Sample.name .nil .nil))
        (.cons Sample.tornHalf (.cons Sample.torn .nil (.cons Sample.name .nil .nil)) .nil)
      roots_below := rfl
      unfolds_below := ⟨rfl, ⟨rfl, trivial, rfl, trivial, trivial⟩, rfl,
        ⟨rfl, trivial, rfl, trivial, trivial⟩, trivial⟩ }
  exact ⟨hcheck.mpr ⟨rfl, rfl, by decide⟩, r, hr, (hdrawn 8 8 (by decide) (by decide)).1⟩

/-- An interrupted rule is not skipped, and its node is not yielded. -/
theorem drain_interrupted :
    let c : Config Unit := { policy := .given .skip }
    let scene : Scene Unit := ⟨Sample.tornPairs .interrupt, ()⟩
    c.Unfailing {} none none ∧ scene.registry.AllRules Rule.IsPure ∧
      ∃ (t : Unfolding scene.kids Sample.torn) (r : Run Unit),
        start c scene Sample.torn = .ok r ∧
        ((t.occurrences.filter (Occurrence.isVisible fun _ => false)).filter fun o =>
          wants {} none scene o.node).map (·.node) = [Sample.torn] ∧
        (drain (next c 2) none 2 r).result = .ok ⟨[], .fault (.raised .interrupt "torn")⟩ :=
  ⟨⟨rfl, rfl, rfl, trivial, trivial, trivial, trivial⟩, Sample.tornPairs_isPure .interrupt,
    ⟨.nil, rfl, trivial⟩, _, rfl, rfl, rfl⟩

end Run

end RuleWalk
