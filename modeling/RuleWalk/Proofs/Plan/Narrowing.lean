import RuleWalk.Proofs.Plan.RunResult
import RuleWalk.Proofs.Plan.Unfailing

/-!
# Narrower runs

Two runs that differ in what they yield, and not in whose children they leave out, go through the
same nodes. If one of them yields what the other does and a test holds of, this shows beat by beat:
where the wider run yields a node, the narrower one yields it or passes it over, and in all else
they agree, in the caller's state as well. So the narrower run gives the nodes of the wider one that
pass the test, and comes to the same end.

The two runs do not spend the same number of beats on a request. `haul` is what a run gives beat by
beat, and `drain_haul` says that this is what is drawn from it.
-/

namespace RuleWalk

variable {σ : Type}

/-! ## Functions that leave no trace -/

/-- The test answers as `b` does, whatever the caller's state, and leaves that state alone. -/
def Predicate.Answers (p : Predicate σ) (b : Value → Bool) : Prop :=
  ∀ v u, (p v u).result = .ok (b v) ∧ (p v u).state = u

/-- A pure test that never fails and touches nothing answers as it does in any one state. -/
theorem Predicate.answers_holds {p : Predicate σ} (hpure : p.IsPure) (hfails : p.NeverFails)
    (hstate : ∀ v u, (p v u).state = u) (u : σ) : p.Answers ((Hook.live p).holds u) := by
  intro v u'
  obtain ⟨b, hb⟩ := hfails v u
  rw [Hook.holds_of_ok hb]
  exact ⟨(hpure v u' u).trans hb, hstate v u'⟩

/-- To be told of progress never fails and leaves the caller's state alone. -/
def Ticker.IsIdle (t : Ticker σ) : Prop :=
  ∀ count u, (t count u).result = .ok () ∧ (t count u).state = u

/-! ## Filters -/

namespace Filter

variable {f f' : Filter σ} {test : Value → Option String → Bool}

/-- Of the nodes that `f` admits, `f'` admits those that pass the test, which sees a node and its
kind. Both prune alike, and leave the caller in the same state. -/
structure Narrows (test : Value → Option String → Bool) (f f' : Filter σ) : Prop where
  prune : f'.prune = f.prune
  result : ∀ v kind u, (f'.admits v (Run.kindValue kind) u).result =
    (f.admits v (Run.kindValue kind) u).result.map (· && test v kind)
  state : ∀ v kind u, (f'.admits v (Run.kindValue kind) u).state =
    (f.admits v (Run.kindValue kind) u).state

theorem narrows_refl (f : Filter σ) : Narrows (fun _ _ => true) f f := by
  refine ⟨rfl, fun v kind u => ?_, fun _ _ _ => rfl⟩
  cases (f.admits v (Run.kindValue kind) u).result <;> simp [Except.map]

/-- What is asked of a node that is not dropped. -/
def chooses (f : Filter σ) (v kind : Value) : Act Entry σ Bool := do
  if ← Act.ofExcept (f.kinds.contains kind) then f.keeps v else return false

theorem admits_eq (f : Filter σ) (v kind : Value) :
    f.admits v kind = f.drops v >>= fun dropped =>
      if dropped then pure false else f.chooses v kind := rfl

/-- Filters that drop alike are compared by what they ask of the other nodes. -/
theorem narrows_of_chooses (hprune : f'.prune = f.prune) (hdrop : f'.drop = f.drop)
    (h : ∀ v kind u,
      (f'.chooses v (Run.kindValue kind) u).result =
        (f.chooses v (Run.kindValue kind) u).result.map (· && test v kind) ∧
      (f'.chooses v (Run.kindValue kind) u).state = (f.chooses v (Run.kindValue kind) u).state) :
    Narrows test f f' := by
  have hdrops (v : Value) : f'.drops v = f.drops v := by rw [drops, drops, hdrop]
  refine ⟨hprune, fun v kind u => ?_, fun v kind u => ?_⟩
  · rw [admits_eq, admits_eq, Act.bind_result, Act.bind_result, hdrops]
    rcases (f.drops v u).result with e | _ | _
    · rfl
    · exact (h v kind _).1
    · rfl
  · rw [admits_eq, admits_eq, Act.bind_state, Act.bind_state, hdrops]
    rcases (f.drops v u).result with e | _ | _
    · rfl
    · exact (h v kind _).2
    · rfl

theorem keeps_of_absent (hkeep : f.keep = .absent) (v : Value) : f.keeps v = pure true := by
  rw [keeps, hkeep]
  rfl

theorem keeps_of_answers {p : Predicate σ} {truth : Bool} {b : Value → Bool}
    (hkeep : f.keep = .live p truth) (hp : p.Answers b) (v : Value) (u : σ) :
    (f.keeps v u).result = .ok (!truth || b v) ∧ (f.keeps v u).state = u := by
  rw [keeps, hkeep]
  cases truth with
  | false => exact ⟨rfl, rfl⟩
  | true => exact hp v u

/-- With a test to keep nodes by, a filter admits of the nodes that it admits without one those that
pass the test, or all if the test counts as false. -/
theorem narrows_keep (f : Filter σ) {p : Predicate σ} {b : Value → Bool} (hp : p.Answers b)
    (truth : Bool) :
    Narrows (fun v _ => !truth || b v) { f with keep := .absent }
      { f with keep := .live p truth } := by
  refine narrows_of_chooses rfl rfl fun v kind u => ?_
  obtain ⟨hresult, hstate⟩ := keeps_of_answers (f := { f with keep := .live p truth }) rfl hp v u
  rw [chooses, chooses, keeps_of_absent (f := { f with keep := .absent }) rfl]
  rcases f.kinds.contains (Run.kindValue kind) with e | _ | _
  · exact ⟨rfl, rfl⟩
  · exact ⟨rfl, rfl⟩
  · rw [Act.ofExcept_ok_bind, Act.ofExcept_ok_bind]
    exact ⟨hresult, hstate⟩

/-- With kinds that are named, a filter admits of the nodes that it admits for all kinds those of
these kinds. -/
theorem narrows_kinds (f : Filter σ) (hkeep : f.keep.All fun p => ∃ b, Predicate.Answers p b)
    (names : List String) :
    Narrows (fun _ kind => Kinds.isNamed (some names) kind) { f with kinds := .all }
      { f with kinds := .named (some names) } := by
  have hkeeps (v : Value) (u : σ) :
      ∃ b, (f.keeps v u).result = .ok b ∧ (f.keeps v u).state = u := by
    cases hhook : f.keep with
    | absent => exact ⟨true, by rw [keeps_of_absent hhook]; exact ⟨rfl, rfl⟩⟩
    | inert w => exact (hhook ▸ hkeep).elim
    | live p truth =>
      have hp : (Hook.live p truth).All fun p => ∃ b, Predicate.Answers p b := hhook ▸ hkeep
      obtain ⟨b, hb⟩ := hp
      exact ⟨!truth || b v, keeps_of_answers hhook hb v u⟩
  refine narrows_of_chooses rfl rfl fun v kind u => ?_
  obtain ⟨b, hresult, hstate⟩ := hkeeps v u
  have hall : chooses { f with kinds := .all } v (Run.kindValue kind) u = f.keeps v u :=
    Act.ofExcept_ok_bind _ _ u
  rw [hall, chooses, Kinds.contains_named, Act.ofExcept_ok_bind, hresult, hstate]
  cases Kinds.isNamed (some names) kind with
  | true => exact ⟨by rw [Except.map, Bool.and_true]; exact hresult, hstate⟩
  | false => exact ⟨by rw [Except.map, Bool.and_false]; rfl, rfl⟩

end Filter

/-- The configuration with another filter. -/
def Config.filtered (c : Config σ) (f : Filter σ) : Config σ := { c with filter := .given f }

/-- A beat of the narrower run, from that of the wider one. -/
def Beat.sift (test : Value → Bool) : Beat → Beat
  | yielded v => if test v then yielded v else passed
  | b => b

namespace Run

variable {c : Config σ} {f f' : Filter σ} {test : Value → Option String → Bool} {scene : Scene σ}
  {s s' : Run σ}

/-! ## Beats -/

/-- Whether a node passes the test, given the kind it has in the scene. -/
def passes (test : Value → Option String → Bool) (scene : Scene σ) (v : Value) : Bool :=
  test v (kindAt scene v)

theorem passes_eq (test : Value → Option String → Bool) (halike : s.toScene.Alike scene) {v : Value}
    {kind : Option String} (hkind : s.registry.kindOf v = .ok kind) :
    passes test scene v = test v kind := by
  rw [passes, kindAt, ← halike.kindOf, hkind]
  rfl

/-- The second beat is the first one with less yielded: it has the same effect on the walk, on the
registry and on the caller. -/
structure Sifts (test : Value → Bool) (o o' : Outcome Entry (Run σ) Beat) : Prop where
  result : o'.result = o.result.map (Beat.sift test)
  stage : o'.state.toStage = o.state.toStage

theorem Sifts.after {test : Value → Bool} {o o' : Outcome Entry (Run σ) Beat} (h : Sifts test o o')
    (es es' : List Entry) : Sifts test (o.after es) (o'.after es') := ⟨h.result, h.stage⟩

theorem reportProgress_of_idle (hc : c.progress.All Ticker.IsIdle) (count : Nat) (s : Run σ) :
    (reportProgress c count s).result = .ok () ∧ (reportProgress c count s).state = s := by
  unfold reportProgress
  split
  · cases hprogress : c.progress with
    | absent => simp_all [Hook.isSet]
    | inert v => exact (hprogress ▸ hc).elim
    | live t truth =>
      have ht : (Hook.live t truth).All Ticker.IsIdle := hprogress ▸ hc
      obtain ⟨hresult, hstate⟩ := ht count s.user
      refine ⟨hresult, ?_⟩
      have hsame : { s with user := (t count s.user).state } = s := by rw [hstate]
      exact hsame
  · exact ⟨rfl, rfl⟩

/-- An admitted node is yielded, and nothing but the count changes. -/
theorem offer_of_idle (hc : c.progress.All Ticker.IsIdle) {v : Value} {kind : Option String}
    {t : Run σ} {es : List Entry} (hkind : s.registry.kindOf v = .ok kind)
    (h : onUser (c.admits v (kindValue kind)) s = ⟨.ok true, t, es⟩) :
    (offer c v s).result = .ok (.yielded v) ∧ (offer c v s).state.toStage = t.toStage := by
  obtain ⟨hresult, hstate⟩ := reportProgress_of_idle hc (s.tally.processed + 1)
    { t with tally := { t.tally with processed := s.tally.processed + 1 } }
  have hstage := congrArg (fun t : Run σ => t.toStage) hstate
  rw [offer_of_true hkind h]
  exact ⟨congrArg (Except.map fun _ => Beat.yielded v) hresult, hstage⟩

/-- Where the two runs stand at the same stage, their filters are asked in the same state. -/
theorem onUser_narrows (hf : f.Narrows test f') (hs : s'.toStage = s.toStage) (v : Value)
    (kind : Option String) :
    (onUser (f'.admits v (kindValue kind)) s').result =
        (onUser (f.admits v (kindValue kind)) s).result.map (· && test v kind) ∧
      (onUser (f'.admits v (kindValue kind)) s').state.toStage =
        (onUser (f.admits v (kindValue kind)) s).state.toStage := by
  simp only [onUser, Act.zoom_result, Act.zoom_state, hs, hf.state, hf.result, and_self]

theorem offer_sifts (hc : c.progress.All Ticker.IsIdle) (hf : f.Narrows test f')
    (hs : s'.toStage = s.toStage) (halike : s.toScene.Alike scene) (v : Value) :
    Sifts (passes test scene) (offer (c.filtered f) v s) (offer (c.filtered f') v s') := by
  have hregistry : s'.registry = s.registry := congrArg (fun t : Stage σ => t.registry) hs
  cases hkind : s.registry.kindOf v with
  | error e =>
    have hkind' : s'.registry.kindOf v = .error e := hregistry ▸ hkind
    rw [offer_of_kind_error hkind, offer_of_kind_error hkind']
    exact ⟨rfl, hs⟩
  | ok kind =>
    have hkind' : s'.registry.kindOf v = .ok kind := hregistry ▸ hkind
    obtain ⟨hr, ht⟩ := onUser_narrows hf hs v kind
    rw [← passes_eq test halike hkind] at hr
    rcases h : onUser (f.admits v (kindValue kind)) s with ⟨r, t, es⟩
    rcases h' : onUser (f'.admits v (kindValue kind)) s' with ⟨r', t', es'⟩
    rw [h, h'] at hr ht
    dsimp only at hr ht
    obtain e | _ | _ := r
    · obtain rfl : r' = .error e := hr
      rw [offer_of_error (c := c.filtered f) hkind h, offer_of_error (c := c.filtered f') hkind' h']
      exact ⟨rfl, ht⟩
    · obtain rfl : r' = .ok false := hr
      rw [offer_of_false (c := c.filtered f) hkind h, offer_of_false (c := c.filtered f') hkind' h']
      exact ⟨rfl, ht⟩
    · obtain ⟨hresult, hstage⟩ := offer_of_idle (c := c.filtered f) hc hkind h
      cases hpasses : passes test scene v with
      | true =>
        obtain rfl : r' = .ok true := by rw [hr, hpasses]; rfl
        obtain ⟨hresult', hstage'⟩ := offer_of_idle (c := c.filtered f') hc hkind' h'
        refine ⟨?_, by rw [hstage, hstage', ht]⟩
        simp [hresult, hresult', Except.map, Beat.sift, hpasses]
      | false =>
        obtain rfl : r' = .ok false := by rw [hr, hpasses]; rfl
        rw [offer_of_false (c := c.filtered f') hkind' h']
        refine ⟨?_, by rw [hstage, ht]⟩
        simp [hresult, Except.map, Beat.sift, hpasses]

/-- A failure is recorded alike at the same stage. -/
theorem recordFailure_congr (hs : s'.toStage = s.toStage) (i : Incident) (e : Fault) :
    (recordFailure c i e s').result = (recordFailure c i e s).result ∧
      (recordFailure c i e s').state.toStage = (recordFailure c i e s).state.toStage := by
  rw [recordFailure, onTally, Act.modify_bind, Act.modify_bind]
  split
  · simp only [onUser, Act.zoom_result, Act.zoom_state, hs, and_self]
  · exact ⟨rfl, hs⟩

/-- Both runs record a failure and tell the caller of it before their filters are asked. -/
theorem recover_sifts (hc : c.progress.All Ticker.IsIdle) (hf : f.Narrows test f')
    (hs : s'.toStage = s.toStage) (halike : s.toScene.Alike scene) (e : Fault) :
    Sifts (passes test scene) (recover (c.filtered f) e s) (recover (c.filtered f') e s') := by
  cases e with
  | expansion v kind detail cause =>
    obtain ⟨hresult, hstage⟩ :=
      recordFailure_congr (c := c) hs (.of v kind detail) (.expansion v kind detail cause)
    obtain ⟨user, hstate⟩ :=
      recordFailure_state c (.of v kind detail) (.expansion v kind detail cause) s
    rcases h : recordFailure c (.of v kind detail) (.expansion v kind detail cause) s with
      ⟨r, t, es⟩
    rcases h' : recordFailure c (.of v kind detail) (.expansion v kind detail cause) s' with
      ⟨r', t', es'⟩
    rw [h, h'] at hresult hstage
    rw [h] at hstate
    dsimp only at hresult hstage hstate
    obtain rfl := hresult
    obtain e | _ := r'
    · rw [recover_of_error (c := c.filtered f) h, recover_of_error (c := c.filtered f') h']
      exact ⟨rfl, hstage⟩
    · by_cases hpolicy : c.policy = .given .raise
      · rw [recover_of_raise (c := c.filtered f) hpolicy h,
          recover_of_raise (c := c.filtered f') hpolicy h']
        exact ⟨rfl, hstage⟩
      · rw [recover_of_skip (c := c.filtered f) hpolicy h,
          recover_of_skip (c := c.filtered f') hpolicy h']
        refine (offer_sifts hc hf hstage ?_ v).after _ _
        rw [hstate]
        exact ⟨halike.kindField, halike.rules⟩
  | _ => exact ⟨rfl, hs⟩

theorem pop_sifts (hc : c.progress.All Ticker.IsIdle) (hf : f.Narrows test f')
    (hs : s'.toStage = s.toStage) (halike : s.toScene.Alike scene) :
    Sifts (passes test scene) (pop (c.filtered f) s) (pop (c.filtered f') s') := by
  have hresult : (onStage Walk.step s').result = (onStage Walk.step s).result := by
    simp only [onStage, Act.zoom_result, hs]
  have hstage : (onStage Walk.step s').state.toStage = (onStage Walk.step s).state.toStage := by
    simp only [onStage, Act.zoom_state, hs]
  have halike' : (onStage Walk.step s).state.toScene.Alike scene :=
    (Walk.advance_alike s.toStage).trans halike
  rw [pop, pop, Act.attempt_bind, Act.attempt_bind, hresult]
  refine Sifts.after ?_ _ _
  rcases (onStage Walk.step s).result with e | _ | v
  · exact recover_sifts hc hf hstage halike' e
  · exact ⟨rfl, hstage⟩
  · exact offer_sifts hc hf hstage halike' v

end Run

/-! ## Beat by beat -/

namespace Drained

/-- What is drawn when one more node comes first. -/
def cons (v : Value) (d : Drained) : Drained := ⟨v :: d.items, d.ending⟩

/-- The nodes that pass the test, with the same end. -/
def sift (test : Value → Bool) (d : Drained) : Drained := ⟨d.items.filter test, d.ending⟩

/-- The first `m` nodes. Where there are as many, the limit is the end. -/
def cap (m : Nat) (d : Drained) : Drained :=
  if m ≤ d.items.length then ⟨d.items.take m, .stop⟩ else d

theorem cap_zero (d : Drained) : d.cap 0 = ⟨[], .stop⟩ := by simp [cap]

theorem cap_succ_nil (m : Nat) (ending : Ending) : cap (m + 1) ⟨[], ending⟩ = ⟨[], ending⟩ := by
  simp [cap]

theorem cap_succ_cons (m : Nat) (v : Value) (d : Drained) :
    (d.cons v).cap (m + 1) = (d.cap m).cons v := by
  by_cases h : m ≤ d.items.length <;> simp [cap, cons, h]

theorem cap_ending_ne {d : Drained} (h : d.ending ≠ .pending) (m : Nat) :
    (d.cap m).ending ≠ .pending := by
  unfold cap
  split
  · nofun
  · exact h

end Drained

namespace Run

variable {c : Config σ} {f f' : Filter σ} {test : Value → Option String → Bool} {scene : Scene σ}
  {s s' : Run σ} {n : Nat}

/-- What a run gives in `n` beats. If it has not ended by then, more is pending. -/
def haul (c : Config σ) : Nat → Run σ → Drained
  | 0, _ => ⟨[], .pending⟩
  | n + 1, s =>
    match (beat c s).result with
    | .ok (.yielded v) => (haul c n (beat c s).state).cons v
    | .ok .passed => haul c n (beat c s).state
    | .ok .ended => ⟨[], .stop⟩
    | .error e => ⟨[], .fault e.leaving⟩

/-- The narrower run gives what passes the test, and comes to the same end. -/
theorem haul_sift (hc : c.progress.All Ticker.IsIdle) (hunlimited : c.IsUnlimited)
    (hf : f.Narrows test f') (hs : s'.toStage = s.toStage) (halike : s.toScene.Alike scene)
    (n : Nat) :
    haul (c.filtered f') n s' = (haul (c.filtered f) n s).sift (passes test scene) := by
  induction n generalizing s s' with
  | zero => rfl
  | succ n ih =>
    have hbeat : beat (c.filtered f) s = pop (c.filtered f) s :=
      beat_of_allows (hunlimited.allows _)
    have hbeat' : beat (c.filtered f') s' = pop (c.filtered f') s' :=
      beat_of_allows (hunlimited.allows _)
    have hsifts := pop_sifts hc hf hs halike
    have hrest := ih hsifts.stage ((pop_alike (c.filtered f) s).trans halike)
    rw [haul, haul, hbeat, hbeat', hsifts.result]
    rcases (pop (c.filtered f) s).result with e | v | _ | _
    · rfl
    · cases hpasses : passes test scene v with
      | true => simp [Except.map, Beat.sift, hpasses, hrest, Drained.sift, Drained.cons]
      | false => simp [Except.map, Beat.sift, hpasses, hrest, Drained.sift, Drained.cons]
    · exact hrest
    · rfl

/-- Where finitely many nodes lie ahead, a run ends after so many beats and one. -/
theorem haul_ends {prune : Hook (Predicate σ)} {l : List Value} (hunlimited : c.IsUnlimited)
    (hprune : prune.All Predicate.IsPure) (hrules : scene.registry.AllRules Rule.IsPure)
    (h : Walk.Follows prune scene l s.toStage) : (haul c (l.length + 1) s).ending ≠ .pending := by
  induction l generalizing s with
  | nil =>
    have hended : (beat c s).result = .ok .ended := by
      rw [beat_of_allows (hunlimited.allows _), pop_ended_iff, h.isDone_iff]
    rw [haul, hended]
    nofun
  | cons v l ih =>
    have hnext : Walk.Follows prune scene l (beat c s).state.toStage := by
      rw [beat_of_allows (hunlimited.allows _)]
      exact pop_follows hprune hrules h
    have hends := ih hnext
    rw [List.length_cons, haul]
    rcases (beat c s).result with e | w | _ | _
    · nofun
    · exact hends
    · exact hends
    · nofun

/-- A limited run gives the first nodes of the unlimited one, up to the limit. -/
theorem haul_limited (hunlimited : c.IsUnlimited) (m : Nat)
    (hends : (haul c n s).ending ≠ .pending) :
    haul (c.limited m) n s = (haul c n s).cap (m - s.tally.processed) := by
  induction n generalizing s with
  | zero => exact absurd rfl hends
  | succ n ih =>
    by_cases hlt : s.tally.processed < m
    · obtain ⟨k, hk⟩ : ∃ k, m - s.tally.processed = k + 1 := ⟨m - s.tally.processed - 1, by omega⟩
      have hroom {b : Beat} (hb : (beat c s).result = .ok b) :
          m - (beat c s).state.tally.processed = k + 1 - b.count := by
        rw [beat_processed (hunlimited.allows _) hb]
        omega
      rw [haul] at hends ⊢
      rw [beat_limited hunlimited hlt, hk, haul]
      rcases hbeat : (beat c s).result with e | v | _ | _ <;> rw [hbeat] at hends
      · exact (Drained.cap_succ_nil k _).symm
      · have hrest := ih hends
        rw [hroom hbeat] at hrest
        simp only [hrest, Drained.cap_succ_cons]
        rfl
      · have hrest := ih hends
        rw [hroom hbeat] at hrest
        exact hrest
      · exact (Drained.cap_succ_nil k _).symm
    · have hallows : (c.limited m).allows s.tally.processed = .ok false := by
        rw [c.limited_allows, decide_eq_false hlt]
      rw [haul, beat_of_limit hallows, Nat.sub_eq_zero_of_le (Nat.le_of_not_lt hlt),
        Drained.cap_zero]

/-- The next request to a run that ends within `n` beats: it gives a node, and the rest is what the
run gives from there, or it is the last. -/
theorem next_haul {fuel : Nat} (hlive : s.live = true) (hn : n ≤ fuel)
    (hends : (haul c n s).ending ≠ .pending) :
    (∃ v k, k < n ∧ (next c fuel s).result = .ok (.node v) ∧ (next c fuel s).state.live = true ∧
      haul c n s = (haul c k (next c fuel s).state).cons v) ∨
    ∃ ending, haul c n s = ⟨[], ending⟩ ∧ ∀ xs k,
      Drained.answer xs k (next c fuel s).result = .done ⟨xs.reverse, ending⟩ := by
  induction n generalizing s fuel with
  | zero => exact absurd rfl hends
  | succ n ih =>
    obtain ⟨fuel, rfl⟩ : ∃ k, fuel = k + 1 := ⟨fuel - 1, by omega⟩
    have hlive' : (beat c s).state.live = true := (beat_live c s).trans hlive
    rw [haul] at hends ⊢
    rcases hbeat : beat c s with ⟨e | v | _ | _, t, es⟩ <;> rw [hbeat] at hends hlive'
    · rw [next_of_error fuel hlive hbeat]
      exact .inr ⟨_, rfl, fun _ _ => rfl⟩
    · rw [next_of_yielded fuel hlive hbeat]
      exact .inl ⟨v, n, Nat.lt_succ_self n, rfl, hlive', rfl⟩
    · rw [next_of_passed fuel hlive hlive' hbeat]
      obtain ⟨v, k, hk, hnext⟩ | hlast := ih hlive' (Nat.le_of_succ_le_succ hn) hends
      · exact .inl ⟨v, k, Nat.lt_succ_of_lt hk, hnext⟩
      · exact .inr hlast
    · rw [next_of_ended fuel hlive hbeat]
      exact .inr ⟨_, rfl, fun _ _ => rfl⟩

/-- Request after request, a run gives what it gives beat by beat. -/
theorem iterate_haul {fuel g : Nat} (xs : List Value) (hlive : s.live = true) (hn : n ≤ fuel)
    (hg : n ≤ g) (hends : (haul c n s).ending ≠ .pending) :
    (Act.iterate (Drained.turn (next c fuel) none) g (xs, xs.length) s).result =
      .ok (.done ⟨xs.reverse ++ (haul c n s).items, (haul c n s).ending⟩) := by
  induction n using Nat.strongRecOn generalizing s xs g with
  | ind n ih =>
    have hpos : n ≠ 0 := by
      rintro rfl
      exact hends rfl
    obtain ⟨g, rfl⟩ : ∃ k, g = k + 1 := ⟨g - 1, by omega⟩
    have hne : (none : Option Nat) ≠ some xs.length := nofun
    obtain ⟨v, k, hk, hnode, hlive', hhaul⟩ | ⟨ending, hhaul, hlast⟩ := next_haul hlive hn hends
    · have hanswer : Drained.answer xs xs.length (next c fuel s).result =
          .again (v :: xs, xs.length + 1) := by
        rw [hnode]
        rfl
      rw [hhaul] at hends
      have hrest := ih k hk (v :: xs) hlive' (by omega) (show k ≤ g by omega) hends
      rw [Drained.iterate_again hne hanswer, Outcome.after_result, hhaul]
      simpa [Drained.cons] using hrest
    · rw [Drained.iterate_done hne (hlast xs xs.length), hhaul]
      simp

/-- What is drawn from a run that ends is what it gives beat by beat. -/
theorem drain_haul {fuel g : Nat} (hlive : s.live = true) (hn : n ≤ fuel) (hg : n ≤ g)
    (hends : (haul c n s).ending ≠ .pending) :
    (drain (next c fuel) none g s).result = .ok (haul c n s) := by
  have hiterate := iterate_haul [] hlive hn hg hends
  rcases hrun : Act.iterate (Drained.turn (next c fuel) none) g ([], 0) s with ⟨r, t, es⟩
  rw [List.length_nil, hrun] at hiterate
  obtain rfl : r = _ := hiterate
  rw [drain_of_done hrun]
  rfl

end Run

end RuleWalk
