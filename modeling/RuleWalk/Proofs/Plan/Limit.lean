import RuleWalk.Proofs.Plan.Beat
import RuleWalk.Proofs.Rules

/-!
# Limits

A run that is limited to `n` nodes is the run without a limit, asked for at most `n` nodes: the same
nodes, the same end, the same calls and records and the same tally. Only when it has yielded `n`
nodes while others wait does it say one thing more, that it stopped.
-/

namespace RuleWalk

namespace Config

variable {σ : Type} {c : Config σ}

/-- The configuration that stops after `n` nodes. -/
def limited (c : Config σ) (n : Nat) : Config σ := { c with limit := .given (.int n) }

/-- No limit is set. -/
def IsUnlimited (c : Config σ) : Prop := c.limit = .given .null

theorem IsUnlimited.allows (hc : c.IsUnlimited) (count : Nat) : c.allows count = .ok true := by
  rw [Config.allows, hc]
  rfl

/-- A limit of `n` allows another node while fewer than `n` were yielded. -/
theorem limited_allows (c : Config σ) (n count : Nat) :
    (c.limited n).allows count = .ok (decide (count < n)) := by
  simp only [Config.allows, limited, Limit.allows, Value.test, Value.quantity?, Relation.holdsOf,
    Quantity.compare?, Relation.holds]
  rw [Except.ok.injEq, Bool.eq_iff_iff, beq_iff_eq, decide_eq_true_iff, Int.compare_eq_lt]
  simp

end Config

namespace Run

variable {σ : Type} {c : Config σ} {s : Run σ} {n : Nat}

/-! ## Below the limit -/

theorem beat_limited (hc : c.IsUnlimited) (h : s.tally.processed < n) :
    beat (c.limited n) s = beat c s := by
  have hallows : (c.limited n).allows s.tally.processed = .ok true := by
    rw [c.limited_allows, decide_eq_true h]
  rw [beat_of_allows hallows, beat_of_allows (hc.allows _)]
  exact congrFun (pop_limit c _) s

theorem turn_limited (hc : c.IsUnlimited) (h : s.tally.processed < n) :
    turn (c.limited n) () s = turn c () s := by
  rw [turn, turn, Act.bind_apply, Act.bind_apply, beat_limited hc h]

/-- How much the count grows in a turn. -/
theorem turn_state (hc : c.IsUnlimited) (s : Run σ) :
    (turn c () s).state.live = s.live ∧
      ((turn c () s).result = .ok (.again ()) →
        (turn c () s).state.tally.processed = s.tally.processed) ∧
      ∀ v, (turn c () s).result = .ok (.done (some v)) →
        (turn c () s).state.tally.processed = s.tally.processed + 1 := by
  obtain ⟨user, tally, hstate, hcount⟩ := pop_state c s
  rw [turn, Act.bind_apply, beat_of_allows (hc.allows _)]
  rcases hpop : pop c s with ⟨e | v | _ | _, s', es⟩ <;> rw [hpop] at hstate hcount <;>
    subst hstate
  · exact ⟨rfl, by rintro ⟨⟩, by rintro v ⟨⟩⟩
  · exact ⟨rfl, by rintro ⟨⟩, fun _ _ => hcount _ rfl⟩
  · exact ⟨rfl, fun _ => hcount _ rfl, by rintro v ⟨⟩⟩
  · exact ⟨rfl, by rintro ⟨⟩, by rintro v ⟨⟩⟩

/-- The turns of one request agree as long as the count is below the limit, and it stays there
until a node is yielded. -/
theorem iterate_turn_limited (hc : c.IsUnlimited) (fuel : Nat) (h : s.tally.processed < n) :
    Act.iterate (turn (c.limited n)) fuel () s = Act.iterate (turn c) fuel () s := by
  induction fuel generalizing s with
  | zero => rfl
  | succ fuel ih =>
    rw [Act.iterate_succ, Act.iterate_succ, Act.bind_apply, Act.bind_apply, turn_limited hc h]
    obtain ⟨-, hagain, -⟩ := turn_state hc s
    rcases hturn : turn c () s with ⟨e | _ | _, s', es⟩
    · rfl
    · rw [hturn] at hagain
      dsimp only at hagain ⊢
      rw [ih (hagain rfl ▸ h)]
    · rfl

theorem next_limited (hc : c.IsUnlimited) (fuel : Nat) (h : s.tally.processed < n) :
    next (c.limited n) fuel s = next c fuel s := by
  rw [next, next, iterate_turn_limited hc fuel h]

/-- A yielded node is counted, and the run goes on. -/
theorem iterate_turn_done (hc : c.IsUnlimited) {fuel : Nat} {v : Value}
    (h : (Act.iterate (turn c) fuel () s).result = .ok (.done (some v))) :
    (Act.iterate (turn c) fuel () s).state.tally.processed = s.tally.processed + 1 ∧
      (Act.iterate (turn c) fuel () s).state.live = s.live := by
  induction fuel generalizing s with
  | zero => cases h
  | succ fuel ih =>
    obtain ⟨hlive, hagain, hdone⟩ := turn_state hc s
    rw [Act.iterate_succ, Act.bind_apply] at h ⊢
    rcases hturn : turn c () s with ⟨e | _ | _, s', es⟩ <;> rw [hturn] at h hlive hagain hdone
    · cases h
    · obtain ⟨hcount, hkept⟩ := ih h
      exact ⟨hcount.trans (congrArg (· + 1) (hagain rfl)), hkept.trans hlive⟩
    · cases h
      exact ⟨hdone v rfl, hlive⟩

/-- After a request that gave a node, the count is one higher and the run can be asked again. -/
theorem next_node (hc : c.IsUnlimited) {fuel : Nat} {v : Value}
    (h : (next c fuel s).result = .ok (.node v)) :
    (next c fuel s).state.tally.processed = s.tally.processed + 1 ∧
      (next c fuel s).state.live = true := by
  rw [next] at h ⊢
  cases hlive : s.live with
  | false => simp [hlive] at h
  | true =>
    simp only [hlive, if_true] at h ⊢
    rcases hturns : Act.iterate (turn c) fuel () s with ⟨e | _ | _ | w, s', es⟩ <;>
      rw [hturns] at h
    · cases h
    · cases h
    · cases h
    · have hdone := iterate_turn_done hc (congrArg Outcome.result hturns)
      rw [hturns, hlive] at hdone
      exact hdone

/-! ## At the limit -/

/-- What a limited run says last. -/
def farewell (n : Nat) (s : Run σ) : List Entry :=
  if s.walk.isDone then [] else [.log (.limitReached n)]

/-- A request at the limit looks at nothing but the fringe, ends the run and says farewell. -/
theorem next_of_limit (fuel : Nat) (hlive : s.live = true)
    (hallows : c.allows s.tally.processed = .ok false) :
    next c (fuel + 1) s =
      ⟨.ok .stop, { s with live := false }, farewell s.tally.processed s⟩ := by
  have hturn : turn c () s = ⟨.ok (.done none), s, farewell s.tally.processed s⟩ := by
    rw [turn, Act.bind_of_ok (beat_of_limit hallows)]
    simp [Outcome.after, farewell]
  have hturns : Act.iterate (turn c) (fuel + 1) () s =
      ⟨.ok (.done none), s, farewell s.tally.processed s⟩ := by
    rw [Act.iterate_succ, Act.bind_of_ok hturn]
    simp [Outcome.after]
  rw [next, hlive, if_pos rfl, hturns]

end Run

/-! ## Drawing -/

namespace Drained

variable {ρ : Type}

/-- What follows from the answer to one request. -/
def answer (xs : List Value) (k : Nat) : Except Fault Delivery → Act.Turn (List Value × Nat) Drained
  | .ok (.node v) => .again (v :: xs, k + 1)
  | .ok .stop => .done ⟨xs.reverse, .stop⟩
  | .ok .pending => .done ⟨xs.reverse, .pending⟩
  | .error e => .done ⟨xs.reverse, .fault e⟩

theorem turn_of_limit (next : Act Entry ρ Delivery) (xs : List Value) (k : Nat) (s : ρ) :
    turn next (some k) (xs, k) s = ⟨.ok (.done ⟨xs.reverse, .limit⟩), s, []⟩ := by
  rw [turn, if_pos (by simp)]
  rfl

/-- As long as more items are wanted, drawing asks once and goes by the answer. -/
theorem turn_of_ne (next : Act Entry ρ Delivery) {limit : Option Nat} (xs : List Value) {k : Nat}
    (h : limit ≠ some k) (s : ρ) :
    turn next limit (xs, k) s =
      ⟨.ok (answer xs k (next s).result), (next s).state, (next s).entries⟩ := by
  rw [turn, if_neg (by simpa using h), Act.attempt_bind]
  rcases (next s).result with e | v | _ | _ <;> simp [answer, Outcome.after]

end Drained

/-- The end that a run comes to by itself, where the caller wanted no more nodes. -/
def Ending.uncapped : Ending → Ending
  | limit => stop
  | e => e

theorem Ending.uncapped_of_ne {e : Ending} (h : e ≠ .limit) : e.uncapped = e := by
  cases e with
  | limit => exact absurd rfl h
  | _ => rfl

theorem drain_of_done {ρ : Type} {next : Act Entry ρ Delivery} {limit : Option Nat} {fuel : Nat}
    {s s' : ρ} {d : Drained} {es : List Entry}
    (h : Act.iterate (Drained.turn next limit) fuel ([], 0) s = ⟨.ok (.done d), s', es⟩) :
    drain next limit fuel s = ⟨.ok d, s', es⟩ := by
  rw [drain, Act.bind_of_ok h]
  simp [Outcome.after]

/-- Nothing is asked of a sequence of which nothing is wanted. -/
theorem drain_some_zero {ρ : Type} (next : Act Entry ρ Delivery) (fuel : Nat) (s : ρ) :
    drain next (some 0) (fuel + 1) s = ⟨.ok ⟨[], .limit⟩, s, []⟩ := by
  refine drain_of_done ?_
  rw [Act.iterate_succ, Act.bind_of_ok (Drained.turn_of_limit next [] 0 s)]
  rfl

namespace Run

variable {σ : Type} {c : Config σ} {n : Nat}

/-- How a limited run, the first, compares with one that is asked for at most `n` nodes: they are
the same, or both gave `n` nodes and the limited one ends by itself. -/
inductive Capped (n : Nat) :
    Outcome Entry (Run σ) (Act.Turn (List Value × Nat) Drained) →
    Outcome Entry (Run σ) (Act.Turn (List Value × Nat) Drained) → Prop
  | below {d : Drained} {s : Run σ} {es : List Entry} (hitems : d.items.length < n)
      (hending : d.ending ≠ .limit) :
      Capped n ⟨.ok (.done d), s, es⟩ ⟨.ok (.done d), s, es⟩
  | reached {xs : List Value} {s : Run σ} {es : List Entry} (hitems : xs.length = n) :
      Capped n ⟨.ok (.done ⟨xs, .stop⟩), { s with live := false }, es ++ farewell n s⟩
        ⟨.ok (.done ⟨xs, .limit⟩), s, es⟩

theorem Capped.after {a b : Outcome Entry (Run σ) (Act.Turn (List Value × Nat) Drained)}
    (h : Capped n a b) (es : List Entry) : Capped n (a.after es) (b.after es) := by
  cases h with
  | below hitems hending => exact .below hitems hending
  | reached hitems =>
    rw [Outcome.after, ← List.append_assoc]
    exact .reached hitems

/-- Request after request the two runs agree, until `n` nodes were given. -/
theorem iterate_capped (hc : c.IsUnlimited) (fuel g m : Nat) (xs : List Value) (s : Run σ)
    (hlive : s.live = true) (hcount : s.tally.processed = xs.length) (hn : xs.length + m = n) :
    Capped n
      (Act.iterate (Drained.turn (next (c.limited n) (fuel + 1)) none) (m + g + 1)
        (xs, xs.length) s)
      (Act.iterate (Drained.turn (next c (fuel + 1)) (some n)) (m + g + 1) (xs, xs.length) s) := by
  induction m generalizing xs s with
  -- Both gave `n` nodes: one is asked no more, the other once more.
  | zero =>
    obtain rfl : xs.length = n := hn
    have hallows : (c.limited xs.length).allows s.tally.processed = .ok false := by
      rw [c.limited_allows, hcount, decide_eq_false (Nat.lt_irrefl _)]
    rw [Act.iterate_succ, Act.iterate_succ,
      Act.bind_of_ok (Drained.turn_of_ne (next (c.limited xs.length) (fuel + 1)) xs
        (Option.some_ne_none _).symm s),
      Act.bind_of_ok (Drained.turn_of_limit _ xs xs.length s), next_of_limit fuel hlive hallows,
      hcount]
    have hreached : Capped xs.length
        ⟨.ok (.done ⟨xs.reverse, .stop⟩), { s with live := false }, [] ++ farewell xs.length s⟩
        ⟨.ok (.done ⟨xs.reverse, .limit⟩), s, []⟩ := .reached List.length_reverse
    simpa [Drained.answer, Outcome.after] using hreached
  | succ m ih =>
    have hlt : xs.length < n := by omega
    have hne : some n ≠ some xs.length := by simp; omega
    rw [Nat.succ_add, Nat.succ_add, Act.iterate_succ, Act.iterate_succ,
      Act.bind_of_ok (Drained.turn_of_ne (next (c.limited n) (fuel + 1)) xs
        (Option.some_ne_none _).symm s),
      Act.bind_of_ok (Drained.turn_of_ne (next c (fuel + 1)) xs hne s),
      next_limited hc (fuel + 1) (hcount ▸ hlt)]
    refine Capped.after ?_ _
    rcases hnext : next c (fuel + 1) s with ⟨e | v | _ | _, s', es⟩
    · exact .below (by simpa using hlt) (by simp)
    · obtain ⟨hcount', hlive'⟩ := next_node hc (congrArg Outcome.result hnext)
      rw [hnext] at hcount' hlive'
      exact ih (v :: xs) s' hlive' (hcount'.trans (congrArg (· + 1) hcount)) (by simp; omega)
    · exact .below (by simpa using hlt) (by simp)
    · exact .below (by simpa using hlt) (by simp)

/-- The limit has no part in how a run begins. -/
theorem start_limited (c : Config σ) (n : Nat) (scene : Scene σ) (root : Value) :
    start (c.limited n) scene root = start c scene root := rfl

/-- A run limited to `n` nodes does what the run without a limit does when it is asked for at most
`n` nodes, whatever the caller's functions do. It says one thing more exactly when it gave `n` nodes
while others were waiting. -/
theorem drain_limited (c : Config σ) (hc : c.IsUnlimited) {scene : Scene σ} {root : Value}
    {r : Run σ} (hr : start c scene root = .ok r) (n fuel g : Nat) :
    let limited := drain (next (c.limited n) (fuel + 1)) none (n + g + 1) r
    let asked := drain (next c (fuel + 1)) (some n) (n + g + 1) r
    start (c.limited n) scene root = .ok r ∧
      ∃ items ending, asked.result = .ok ⟨items, ending⟩ ∧
        limited.result = .ok ⟨items, ending.uncapped⟩ ∧
        (ending = .limit ↔ items.length = n) ∧
        limited.state.toStage = asked.state.toStage ∧
        limited.state.tally = asked.state.tally ∧
        limited.entries = asked.entries ++
          (if items.length = n ∧ asked.state.walk.isDone = false then [.log (.limitReached n)]
            else []) ∧
        (asked.state.walk.isDone = false ↔ (beat c asked.state).result ≠ .ok .ended) ∧
        (n = 0 → items = [] ∧ limited.state.toStage = r.toStage ∧
          limited.entries = [.log (.limitReached 0)]) := by
  intro limited asked
  obtain ⟨prune, kind, -, -, rfl⟩ := eq_of_start hr
  refine ⟨(start_limited c n scene root).trans hr, ?_⟩
  have hpopped : asked.state.walk.isDone = false ↔ (beat c asked.state).result ≠ .ok .ended := by
    rw [beat_of_allows (hc.allows _), Ne, pop_ended_iff, Bool.not_eq_true]
  have hcapped := iterate_capped hc fuel g n [] { toScene := scene, walk := ⟨[root], prune⟩ }
    rfl rfl (Nat.zero_add n)
  generalize hfirst : Act.iterate _ _ _ _ = first at hcapped
  generalize hsecond : Act.iterate _ _ _ _ = second at hcapped
  cases hcapped with
  | @below d s es hitems hending =>
    have hlimited : limited = ⟨.ok d, s, es⟩ := drain_of_done hfirst
    have hasked : asked = ⟨.ok d, s, es⟩ := drain_of_done hsecond
    have hne : d.items.length ≠ n := Nat.ne_of_lt hitems
    refine ⟨d.items, d.ending, by rw [hasked], by rw [hlimited, d.ending.uncapped_of_ne hending],
      iff_of_false hending hne, by rw [hlimited, hasked], by rw [hlimited, hasked], ?_, hpopped, ?_⟩
    · rw [hlimited, hasked, if_neg fun h => hne h.1, List.append_nil]
    · rintro rfl
      exact absurd hitems (Nat.not_lt_zero _)
  | @reached xs s es hitems =>
    have hlimited : limited = ⟨.ok ⟨xs, .stop⟩, { s with live := false }, es ++ farewell n s⟩ :=
      drain_of_done hfirst
    have hasked : asked = ⟨.ok ⟨xs, .limit⟩, s, es⟩ := drain_of_done hsecond
    have hentries : limited.entries = asked.entries ++
        (if xs.length = n ∧ asked.state.walk.isDone = false then [.log (.limitReached n)]
          else []) := by
      rw [hlimited, hasked, farewell]
      cases s.walk.isDone <;> simp [hitems]
    refine ⟨xs, .limit, by rw [hasked], by rw [hlimited]; rfl, iff_of_true rfl hitems,
      by rw [hlimited, hasked], by rw [hlimited, hasked], hentries, hpopped, ?_⟩
    rintro rfl
    -- The other run was not asked at all, so its state is the first one.
    have hnothing := hasked.symm.trans (drain_some_zero (next c (fuel + 1)) (0 + g) _)
    cases hnothing
    exact ⟨rfl, by rw [hlimited], by rw [hlimited]; rfl⟩

/-- Two nodes of a tree with more; the second call of a rule would fail, but it is not made. -/
theorem drain_limited_pairTree :
    let c : Config Nat := {}
    let scene : Scene Nat := ⟨Sample.flakyPairs 1, 0⟩
    let r : Run Nat := { toScene := scene, walk := ⟨[Sample.pairTree], .absent⟩ }
    let limited := drain (next (c.limited 2) 8) none 3 r
    let asked := drain (next c 8) (some 2) 3 r
    start c scene Sample.pairTree = .ok r ∧
      asked.result = .ok ⟨[Sample.pairTree, Sample.folded], .limit⟩ ∧
      limited.state.tally = asked.state.tally ∧
      limited.entries = asked.entries ++ [.log (.limitReached 2)] := by
  intro c scene r limited asked
  have hstart : start c scene Sample.pairTree = .ok r := rfl
  have hgiven : asked.result = .ok ⟨[Sample.pairTree, Sample.folded], .limit⟩ := rfl
  obtain ⟨-, items, ending, hasked, -, -, -, htally, hentries, -⟩ :=
    drain_limited c rfl hstart 2 7 0
  cases hgiven.symm.trans hasked
  exact ⟨hstart, hgiven, htally, hentries⟩

end Run

end RuleWalk
