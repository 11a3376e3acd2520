import RuleWalk.Proofs.Plan.Ruling
import RuleWalk.Proofs.Plan.Selection

/-!
# What comes of a run

`runResult` goes along a list of nodes and keeps to the ruling on each: it says what is drawn, how
the drawing ends, what is recorded and which alarms are raised. `drain_runResult` says that drawing
from a run does the same along the nodes that lie ahead of it. The result depends on what is asked
for and on the room that the limit leaves only through the list of visited nodes:
`runResult_of_no_error` and `runResult_of_error` give it with the usual functions on lists.
-/

namespace RuleWalk

/-- What was drawn from a run, what it recorded meanwhile, and the alarms it raised. -/
structure RunResult extends Drained where
  incidents : List Incident := []
  alarms : List Alarm := []

/-- The result of a run that first takes a node which is ruled on like this. -/
def RunResult.after (r : Ruling) (items : List Value) (d : RunResult) : RunResult :=
  ⟨⟨items ++ d.items, d.ending⟩, r.incident.toList ++ d.incidents, r.alarms ++ d.alarms⟩

theorem filterMap_cons_toList {α β : Type} (g : α → Option β) (a : α) (l : List α) :
    (a :: l).filterMap g = (g a).toList ++ l.filterMap g := by
  cases h : g a <;> simp [h]

section RunResult

variable (ruling : Value → Ruling)

/-- The result along a list of nodes, when so many are asked for and there is room for so many. -/
def runResult : Option Nat → Option Nat → List Value → RunResult
  | some 0, _, _ => { items := [], ending := .limit }
  | _, some 0, _ => { items := [], ending := .stop }
  | _, _, [] => { items := [], ending := .stop }
  | ask, room, v :: l =>
    match (ruling v).verdict with
    | .ok true =>
      .after (ruling v) [v] (runResult (ask.map (· - 1)) (room.map (· - 1)) l)
    | .ok false => .after (ruling v) [] (runResult ask room l)
    | .error e => .after (ruling v) [] { items := [], ending := .fault e.leaving }

variable (wants : Value → Bool)

/-- The nodes that are taken until so many of them were wanted. -/
def visited : Option Nat → List Value → List Value
  | some 0, _ => []
  | _, [] => []
  | room, v :: l => v :: visited (if wants v then room.map (· - 1) else room) l

variable {ruling wants} {ask room : Option Nat} {v : Value} {l : List Value}

/-- The wanted nodes among those taken are the first wanted ones for which there is room. -/
theorem filter_visited (room : Option Nat) (l : List Value) :
    (visited wants room l).filter wants =
      room.elim (l.filter wants) fun n => (l.filter wants).take n := by
  fun_induction visited wants room l with
  | case1 l => rfl
  | case2 room => cases room <;> simp
  | case3 room v l hroom ih =>
    by_cases hv : wants v = true
    · rw [List.filter_cons_of_pos hv, List.filter_cons_of_pos hv, ih, if_pos hv]
      rcases room with _ | _ | n
      · rfl
      · exact absurd rfl hroom
      · rfl
    · rw [List.filter_cons_of_neg hv, List.filter_cons_of_neg hv, ih, if_neg hv]

/-! Of the nodes that are asked for and those for which there is room, the fewer count. -/

theorem visited_none_left (h : ask = some 0 ∨ room = some 0) (l : List Value) :
    visited wants (Option.merge min ask room) l = [] := by
  have hmerge : Option.merge min ask room = some 0 := by
    rcases h with rfl | rfl
    · cases room <;> simp
    · cases ask <;> simp
  rw [hmerge, visited]

theorem visited_nil (room : Option Nat) : visited wants room [] = [] := by
  rcases room with _ | _ | n <;> rfl

theorem visited_wanted (hask : ask ≠ some 0) (hroom : room ≠ some 0) (hv : wants v = true) :
    visited wants (Option.merge min ask room) (v :: l) =
      v :: visited wants (Option.merge min (ask.map (· - 1)) (room.map (· - 1))) l := by
  have hmerge : Option.merge min (ask.map (· - 1)) (room.map (· - 1)) =
      (Option.merge min ask room).map (· - 1) := by
    cases ask <;> cases room <;> simp
    omega
  rw [visited, if_pos hv, hmerge]
  cases ask <;> cases room <;> simp_all

theorem visited_passed (hask : ask ≠ some 0) (hroom : room ≠ some 0) (hv : wants v = false) :
    visited wants (Option.merge min ask room) (v :: l) =
      v :: visited wants (Option.merge min ask room) l := by
  rw [visited, if_neg (Bool.eq_false_iff.mp hv)]
  cases ask <;> cases room <;> simp_all

variable (wants) in
theorem head?_visited (hask : ask ≠ some 0) (hroom : room ≠ some 0) (v : Value) (l : List Value) :
    (visited wants (Option.merge min ask room) (v :: l)).head? = some v := by
  cases hv : wants v with
  | true => rw [visited_wanted hask hroom hv]; rfl
  | false => rw [visited_passed hask hroom hv]; rfl

theorem pred_eq_some (hask : ask ≠ some 0) (n : Nat) :
    ask.map (· - 1) = some n ↔ ask = some (n + 1) := by
  rcases ask with _ | _ | k
  · simp
  · exact absurd rfl hask
  · simp

/-- The result when no visited node ends the run. -/
theorem runResult_of_no_error
    (h : ∀ v ∈ visited wants (Option.merge min ask room) l, (ruling v).verdict = .ok (wants v)) :
    let seen := visited wants (Option.merge min ask room) l
    runResult ruling ask room l =
      { items := seen.filter wants
        ending := if ask = some (seen.filter wants).length then .limit else .stop
        incidents := seen.filterMap fun v => (ruling v).incident
        alarms := seen.flatMap fun v => (ruling v).alarms } := by
  fun_induction runResult ruling ask room l with
  | case1 l => simp [visited_none_left]
  | case2 l ask hask => simp [visited_none_left, show ask ≠ some 0 from hask]
  | case3 ask room hask hroom => simp [visited_nil, show ask ≠ some 0 from hask]
  | case4 ask room v l hask hroom hv ih =>
    have hwants : wants v = true :=
      Except.ok.inj ((h v (List.mem_of_head? (head?_visited wants hask hroom v l))).symm.trans hv)
    rw [visited_wanted hask hroom hwants] at h ⊢
    rw [ih fun u hu => h u (List.mem_cons_of_mem v hu)]
    simp [RunResult.after, hwants, pred_eq_some hask, filterMap_cons_toList]
  | case5 ask room v l hask hroom hv ih =>
    have hwants : wants v = false :=
      Except.ok.inj ((h v (List.mem_of_head? (head?_visited wants hask hroom v l))).symm.trans hv)
    rw [visited_passed hask hroom hwants] at h ⊢
    rw [ih fun u hu => h u (List.mem_cons_of_mem v hu)]
    simp [RunResult.after, hwants, filterMap_cons_toList]
  | case6 ask room v l hask hroom e hv =>
    cases (h v (List.mem_of_head? (head?_visited wants hask hroom v l))).symm.trans hv

/-- The result when a visited node ends the run, and none before it does. -/
theorem runResult_of_error {before after : List Value} {e : Fault}
    (hseen : visited wants (Option.merge min ask room) l = before ++ v :: after)
    (hbefore : ∀ u ∈ before, (ruling u).verdict = .ok (wants u))
    (hv : (ruling v).verdict = .error e) :
    runResult ruling ask room l =
      { items := before.filter wants
        ending := .fault e.leaving
        incidents := (before ++ [v]).filterMap fun u => (ruling u).incident
        alarms := (before ++ [v]).flatMap fun u => (ruling u).alarms } := by
  fun_induction runResult ruling ask room l generalizing before with
  | case1 l => simp [visited_none_left] at hseen
  | case2 l ask hask => simp [visited_none_left] at hseen
  | case3 ask room hask hroom => simp [visited_nil] at hseen
  | case4 ask room u l hask hroom hu ih =>
    have hhead := head?_visited wants hask hroom u l
    rw [hseen] at hhead
    rcases before with _ | ⟨b, before⟩ <;> cases hhead
    · cases hv.symm.trans hu
    · have hwants : wants u = true :=
        Except.ok.inj ((hbefore u List.mem_cons_self).symm.trans hu)
      rw [visited_wanted hask hroom hwants] at hseen
      rw [ih (List.cons.inj hseen).2 fun w hw => hbefore w (List.mem_cons_of_mem u hw)]
      simp [RunResult.after, hwants, filterMap_cons_toList]
  | case5 ask room u l hask hroom hu ih =>
    have hhead := head?_visited wants hask hroom u l
    rw [hseen] at hhead
    rcases before with _ | ⟨b, before⟩ <;> cases hhead
    · cases hv.symm.trans hu
    · have hwants : wants u = false :=
        Except.ok.inj ((hbefore u List.mem_cons_self).symm.trans hu)
      rw [visited_passed hask hroom hwants] at hseen
      rw [ih (List.cons.inj hseen).2 fun w hw => hbefore w (List.mem_cons_of_mem u hw)]
      simp [RunResult.after, hwants, filterMap_cons_toList]
  | case6 ask room u l hask hroom e' hu =>
    have hhead := head?_visited wants hask hroom u l
    rw [hseen] at hhead
    rcases before with _ | ⟨b, before⟩ <;> cases hhead
    · cases hv.symm.trans hu
      simp [RunResult.after, filterMap_cons_toList]
    · cases (hbefore u List.mem_cons_self).symm.trans hu

end RunResult

/-! ## Drawing -/

namespace Drained

variable {ρ : Type} {next : Act Entry ρ Delivery} {limit : Option Nat} {xs : List Value} {k : Nat}
  {s : ρ}

theorem iterate_done (hne : limit ≠ some k) {d : Drained}
    (hd : answer xs k (next s).result = .done d)
    (g : Nat) :
    Act.iterate (turn next limit) (g + 1) (xs, k) s =
      ⟨.ok (.done d), (next s).state, (next s).entries⟩ := by
  rw [Act.iterate_succ, Act.bind_of_ok (turn_of_ne next xs hne s), hd]
  simp [Outcome.after]

theorem iterate_again (hne : limit ≠ some k) {acc : List Value × Nat}
    (hacc : answer xs k (next s).result = .again acc) (g : Nat) :
    Act.iterate (turn next limit) (g + 1) (xs, k) s =
      (Act.iterate (turn next limit) g acc (next s).state).after (next s).entries := by
  rw [Act.iterate_succ, Act.bind_of_ok (turn_of_ne next xs hne s), hacc]

theorem turn_after (hne : limit ≠ some k) {s' : ρ} {es : List Entry}
    (h : next s = (next s').after es) :
    turn next limit (xs, k) s = (turn next limit (xs, k) s').after es := by
  rw [turn_of_ne next xs hne, turn_of_ne next xs hne, h]
  rfl

end Drained

/-! ## Runs -/

/-- How many nodes are yielded under the ruling. -/
def Ruling.count (r : Ruling) : Nat :=
  match r.verdict with
  | .ok true => 1
  | _ => 0

/-- The tally after a node that was ruled on like this. -/
def Tally.enter (t : Tally) (r : Ruling) : Tally :=
  ⟨t.processed + r.count, r.incident.toList ++ t.incidents⟩

namespace Run

variable {σ : Type} {c : Config σ} {f : Filter σ} {names : Option (List String)} {max : Option Nat}
  {scene : Scene σ} {l : List Value} {v : Value} {s : Run σ} {t : Tally} {fuel : Nat}

/-- A live run with the nodes in `l` ahead and the given tally. -/
structure Tracks (f : Filter σ) (scene : Scene σ) (l : List Value) (t : Tally) (s : Run σ) :
    Prop where
  follows : Walk.Follows f.prune.heeded scene l s.toStage
  live : s.live = true
  tally : s.tally = t

namespace Tracks

theorem allows (hc : Predictable c f names max scene) (h : Tracks f scene l t s) :
    c.allows s.tally.processed = .ok (room max t.processed != some 0) := by
  rw [h.tally, hc.unfailing.allows]

/-- While there is room, a beat takes the first node that lies ahead and keeps to the ruling. -/
theorem beat_cons (hc : Predictable c f names max scene) (h : Tracks f scene (v :: l) t s)
    (hroom : room max t.processed ≠ some 0) :
    Obeys (ruling c f names scene v) v t.incidents (beat c s) ∧
      ∀ yields, (ruling c f names scene v).verdict = .ok yields →
        Tracks f scene l (t.enter (ruling c f names scene v)) (beat c s).state := by
  have hallows := h.allows hc
  rw [bne_iff_ne.mpr hroom] at hallows
  have hpop := pop_ruling hc h.follows
  have hfollows := pop_follows (c := c) hc.prune.heeded hc.rules h.follows
  obtain ⟨user, tally, hstate, hcount⟩ := pop_state c s
  rw [beat_of_allows hallows]
  rw [h.tally] at hpop hcount
  refine ⟨hpop, fun yields hyields => ?_⟩
  have hresult := hpop.result
  have hincidents := hpop.incidents
  rw [hyields] at hresult
  rw [hstate] at hincidents hfollows ⊢
  refine ⟨hfollows, h.live, ?_⟩
  have hprocessed : tally.processed = t.processed + (ruling c f names scene v).count := by
    rw [hcount _ hresult, Ruling.count, hyields]
    cases yields <;> rfl
  obtain ⟨processed, incidents⟩ := tally
  obtain rfl : processed = _ := hprocessed
  obtain rfl : incidents = _ := hincidents
  rfl

/-- A request ends the run when no node lies ahead, or when there is no room. -/
theorem next_stop (hc : Predictable c f names max scene) (h : Tracks f scene l t s)
    (hnone : l = [] ∨ room max t.processed = some 0) :
    ∃ es, es.filterMap Entry.alarm? = [] ∧
      ∀ fuel, next c (fuel + 1) s = ⟨.ok .stop, { s with live := false }, es⟩ := by
  have hallows := h.allows hc
  by_cases hroom : room max t.processed = some 0
  · rw [hroom] at hallows
    refine ⟨_, ?_, fun fuel => next_of_limit fuel h.live hallows⟩
    unfold farewell
    split <;> rfl
  · obtain rfl := hnone.resolve_right hroom
    rw [bne_iff_ne.mpr hroom] at hallows
    have hbeat : beat c s = ⟨.ok .ended, s, []⟩ := by
      rw [beat_of_allows hallows, pop, Act.attempt_bind, onStage, Act.zoom_result, Act.zoom_state,
        Walk.step_nil h.follows.fringe_nil]
      simp [Outcome.after, Act.zoom, Walk.step_nil h.follows.fringe_nil]
    exact ⟨[], rfl, fun fuel => next_of_ended fuel h.live hbeat⟩

/-- What a request does while there is room and a node lies ahead, from the ruling on that node. -/
theorem next_cons (hc : Predictable c f names max scene) (h : Tracks f scene (v :: l) t s)
    (hroom : room max t.processed ≠ some 0) :
    ∃ s' es, es.filterMap Entry.alarm? = (ruling c f names scene v).alarms ∧
      s'.tally.incidents = (ruling c f names scene v).incident.toList ++ t.incidents ∧
      match (ruling c f names scene v).verdict with
      | .ok true =>
        (∀ fuel, next c (fuel + 1) s = ⟨.ok (.node v), s', es⟩) ∧
          Tracks f scene l (t.enter (ruling c f names scene v)) s'
      | .ok false =>
        (∀ fuel, next c (fuel + 1) s = (next c fuel s').after es) ∧
          Tracks f scene l (t.enter (ruling c f names scene v)) s'
      | .error e =>
        ∀ fuel, next c (fuel + 1) s = ⟨.error e.leaving, { s' with live := false }, es⟩ := by
  obtain ⟨hobeys, htracks⟩ := h.beat_cons hc hroom
  have hresult := hobeys.result
  rcases hbeat : beat c s with ⟨r, s', es⟩
  rw [hbeat] at hobeys htracks hresult
  obtain rfl : r = _ := hresult
  refine ⟨s', es, hobeys.alarms, hobeys.incidents, ?_⟩
  rcases hverdict : (ruling c f names scene v).verdict with e | _ | _ <;> rw [hverdict] at hbeat
  · exact fun fuel => next_of_error fuel h.live hbeat
  · have hnext := htracks false hverdict
    exact ⟨fun fuel => next_of_passed fuel h.live hnext.live hbeat, hnext⟩
  · exact ⟨fun fuel => next_of_yielded fuel h.live hbeat, htracks true hverdict⟩

/-- Fuel beyond the number of nodes ahead makes no difference. -/
theorem next_fuel (hc : Predictable c f names max scene) (h : Tracks f scene l t s)
    (hfuel : l.length < fuel) : next c (fuel + 1) s = next c fuel s := by
  obtain ⟨fuel, rfl⟩ : ∃ m, fuel = m + 1 := ⟨fuel - 1, by omega⟩
  induction l generalizing s t fuel with
  | nil =>
    obtain ⟨es, -, hnext⟩ := h.next_stop hc (.inl rfl)
    rw [hnext, hnext]
  | cons v l ih =>
    by_cases hroom : room max t.processed = some 0
    · obtain ⟨es, -, hnext⟩ := h.next_stop hc (.inr hroom)
      rw [hnext, hnext]
    · obtain ⟨s', es, -, -, hnext⟩ := h.next_cons hc hroom
      rcases hverdict : (ruling c f names scene v).verdict with e | _ | _ <;> rw [hverdict] at hnext
      · rw [hnext, hnext]
      · obtain ⟨fuel, rfl⟩ : ∃ m, fuel = m + 1 := ⟨fuel - 1, by simp at hfuel; omega⟩
        rw [hnext.1, hnext.1, ih hnext.2 fuel (by simp at hfuel ⊢; omega)]
      · rw [hnext.1, hnext.1]

/-- With enough fuel, a request that passes a node over is a request behind that node. -/
theorem next_passed (hc : Predictable c f names max scene) {s' : Run σ} {es : List Entry}
    (h : Tracks f scene l t s') (hnext : ∀ fuel, next c (fuel + 1) s = (next c fuel s').after es)
    (hfuel : l.length + 1 < fuel) : next c fuel s = (next c fuel s').after es := by
  obtain ⟨fuel, rfl⟩ : ∃ m, fuel = m + 1 := ⟨fuel - 1, by omega⟩
  rw [hnext, h.next_fuel hc (Nat.lt_of_succ_lt_succ hfuel)]

end Tracks

/-- What came out of drawing on after the items `xs`, begun with the given incidents, is as `d`
says. -/
structure Keeps (d : RunResult) (xs : List Value) (incidents : List Incident)
    (o : Outcome Entry (Run σ) (Act.Turn (List Value × Nat) Drained)) : Prop where
  result : o.result = .ok (.done ⟨xs.reverse ++ d.items, d.ending⟩)
  incidents : o.state.tally.incidents = d.incidents.reverse ++ incidents
  alarms : o.entries.filterMap Entry.alarm? = d.alarms
  live : ∀ e, d.ending = .fault e → o.state.live = false

theorem Keeps.after {d : RunResult} {xs items : List Value} {incidents : List Incident} {r : Ruling}
    {o : Outcome Entry (Run σ) (Act.Turn (List Value × Nat) Drained)}
    (h : Keeps d (items.reverse ++ xs) (r.incident.toList ++ incidents) o) {es : List Entry}
    (hes : es.filterMap Entry.alarm? = r.alarms) :
    Keeps (d.after r items) xs incidents (o.after es) := by
  refine ⟨?_, ?_, ?_, h.live⟩
  · simp [h.result, RunResult.after]
  · rw [Outcome.after_state, h.incidents]
    cases hincident : r.incident <;> simp [RunResult.after, hincident]
  · rw [Outcome.after, List.filterMap_append, hes, h.alarms]
    rfl

/-- Who asks for more than was drawn has not yet got what is asked for. -/
theorem map_add_ne {ask : Option Nat} (hask : ask ≠ some 0) (k : Nat) :
    ask.map (· + k) ≠ some k := by
  cases ask <;> simp_all

/-- A drawing stops where nothing is ahead or the limit is reached. -/
theorem Tracks.iterate_stop (h : Tracks f scene l t s) (hc : Predictable c f names max scene)
    (hask : ask ≠ some 0) (hnone : l = [] ∨ room max t.processed = some 0) (xs : List Value)
    (fuel g : Nat) :
    Keeps { items := [], ending := .stop } xs t.incidents
      (Act.iterate (Drained.turn (next c (fuel + 1)) (ask.map (· + xs.length))) (g + 1)
        (xs, xs.length) s) := by
  obtain ⟨es, hes, hnext⟩ := h.next_stop hc hnone
  have hanswer : Drained.answer xs xs.length (next c (fuel + 1) s).result =
      .done ⟨xs.reverse, .stop⟩ := by
    rw [hnext]
    rfl
  rw [Drained.iterate_done (map_add_ne hask _) hanswer, hnext]
  exact ⟨by simp, by simp [h.tally], hes, by rintro e ⟨⟩⟩

/-- Request after request, a run keeps to the result. -/
theorem iterate_runResult {g : Nat} (ask : Option Nat) (xs : List Value)
    (hc : Predictable c f names max scene) (h : Tracks f scene l t s) (hfuel : l.length < fuel)
    (hg : l.length < g) :
    Keeps (runResult (ruling c f names scene) ask (room max t.processed) l) xs t.incidents
      (Act.iterate (Drained.turn (next c fuel) (ask.map (· + xs.length))) g (xs, xs.length) s) := by
  obtain ⟨fuel, rfl⟩ : ∃ m, fuel = m + 1 := ⟨fuel - 1, by omega⟩
  obtain ⟨g, rfl⟩ : ∃ m, g = m + 1 := ⟨g - 1, by omega⟩
  generalize hk : room max t.processed = k
  -- Along the nodes: each that is taken leaves one less ahead.
  fun_induction runResult (ruling c f names scene) ask k l generalizing s t xs g with
  | case1 l =>
    rw [Option.map_some, Nat.zero_add, Act.iterate_succ,
      Act.bind_of_ok (Drained.turn_of_limit _ xs xs.length s)]
    exact ⟨by simp [Outcome.after], by simp [Outcome.after, h.tally], rfl, nofun⟩
  | case2 l ask hask => exact h.iterate_stop hc hask (.inr hk) xs fuel g
  | case3 ask k hask hroom => exact h.iterate_stop hc hask (.inl rfl) xs fuel g
  | case4 ask k v l hask hroom hv ih =>
    obtain ⟨s', es, hes, -, hnext⟩ := h.next_cons hc (hk ▸ hroom)
    rw [hv] at hnext
    obtain ⟨hnext, htracks⟩ := hnext
    obtain ⟨g, rfl⟩ : ∃ m, g = m + 1 := ⟨g - 1, by simp at hg; omega⟩
    have hanswer : Drained.answer xs xs.length (next c (fuel + 1) s).result =
        .again (v :: xs, xs.length + 1) := by
      rw [hnext]
      rfl
    rw [Drained.iterate_again (map_add_ne hask _) hanswer, hnext]
    refine Keeps.after ?_ hes
    have hask' : ask.map (· + xs.length) = (ask.map (· - 1)).map (· + (v :: xs).length) := by
      rcases ask with _ | _ | n
      · rfl
      · exact absurd rfl hask
      · simp; omega
    have hcount : (t.enter (ruling c f names scene v)).processed = t.processed + 1 := by
      rw [Tally.enter, Ruling.count, hv]
    rw [hask']
    refine ih _ htracks (by simp at hfuel; omega) g (by simp at hg; omega) ?_
    rw [hcount, ← room_succ, hk]
  | case5 ask k v l hask hroom hv ih =>
    obtain ⟨s', es, hes, -, hnext⟩ := h.next_cons hc (hk ▸ hroom)
    rw [hv] at hnext
    obtain ⟨hnext, htracks⟩ := hnext
    have hpassed : next c (fuel + 1) s = (next c (fuel + 1) s').after es :=
      htracks.next_passed hc hnext (by simpa using hfuel)
    rw [Act.iterate_after (Drained.turn_after (map_add_ne hask _) hpassed)]
    refine Keeps.after ?_ hes
    refine ih xs htracks (by simp at hfuel; omega) g (by simp at hg; omega) ?_
    rw [Tally.enter, Ruling.count, hv, Nat.add_zero, hk]
  | case6 ask k v l hask hroom e hv =>
    obtain ⟨s', es, hes, hincidents, hnext⟩ := h.next_cons hc (hk ▸ hroom)
    rw [hv] at hnext
    have hanswer : Drained.answer xs xs.length (next c (fuel + 1) s).result =
        .done ⟨xs.reverse, .fault e.leaving⟩ := by
      rw [hnext]
      rfl
    rw [Drained.iterate_done (map_add_ne hask _) hanswer, hnext]
    refine ⟨by simp [RunResult.after], ?_, by simp [RunResult.after, hes], fun _ _ => rfl⟩
    refine hincidents.trans ?_
    cases hincident : (ruling c f names scene v).incident <;> simp [RunResult.after, hincident]

theorem Predictable.start_eq (hc : Predictable c f names max scene) {root : Value} {kind : String}
    (hroot : scene.registry.kindOf root = .ok (some kind)) :
    start c scene root = .ok { toScene := scene, walk := ⟨[root], f.prune.heeded⟩ } :=
  start_of_filter hc.unfailing.filter hroot

/-- At its start, a run has the whole unfolding ahead, and nothing is counted. -/
theorem tracks_start {root : Value}
    (t : Unfolding (fun v => Walk.found f.prune.heeded v scene) root) :
    Tracks f scene t.preorder {} { toScene := scene, walk := ⟨[root], f.prune.heeded⟩ } :=
  ⟨⟨.refl scene, rfl, t.ahead⟩, rfl, rfl⟩

/-- What is drawn from a run, what it records and what the outside hears of it, all along the nodes
that lie ahead. After a fault the run has ended. -/
theorem drain_runResult {g : Nat} (ask : Option Nat) (hc : Predictable c f names max scene)
    (h : Tracks f scene l {} s) (hfuel : l.length < fuel) (hg : l.length < g) :
    let d := runResult (ruling c f names scene) ask max l
    let drawn := drain (next c fuel) ask g s
    drawn.result = .ok d.toDrained ∧ drawn.state.tally.incidents = d.incidents.reverse ∧
      drawn.entries.filterMap Entry.alarm? = d.alarms ∧
      ∀ e, d.ending = .fault e → drawn.state.live = false := by
  intro d drawn
  have hkeeps := iterate_runResult ask [] hc h hfuel hg
  have hask : ask.map (· + ([] : List Value).length) = ask := by cases ask <;> rfl
  rw [hask, room_zero] at hkeeps
  rcases hrun : Act.iterate (Drained.turn (next c fuel) ask) g ([], 0) s with ⟨r, s', es⟩
  rw [List.length_nil, hrun] at hkeeps
  obtain rfl : r = _ := hkeeps.result
  have hdrawn : drawn = ⟨.ok d.toDrained, s', es⟩ := drain_of_done hrun
  rw [hdrawn]
  exact ⟨rfl, hkeeps.incidents.trans (List.append_nil _), hkeeps.alarms, hkeeps.live⟩

end Run

end RuleWalk
