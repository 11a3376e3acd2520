import RuleWalk.Proofs.Plan.Blame
import RuleWalk.Proofs.Plan.RunResult

/-!
# Calls in blocks

While a run is drawn from, the caller's functions are called in blocks, one for each node that is
taken off the fringe, in the order in which nodes are taken. A block depends on the answers that the
functions give, and these may depend on anything that was called before. `Round` holds the answers
that matter and `Round.calls` is the block. `Took` ties a round to the run: the answers are those
that are given in the states that the run is in. Of the functions that hang somewhere, those are
called that count as true.

A block breaks off behind the rule if the fault of the expansion escapes, and then it is the last.

A run takes no node before it is asked for one. So the last block is that of the node that was drawn
last, as long as no more are asked for.
-/

namespace RuleWalk

variable {σ : Type}

/-- What one of the caller's functions was called for, and about which value. -/
def Entry.call? : Entry → Option (Role × Value)
  | .call role v _ => some (role, v)
  | .log _ => none

/-- Whether nodes of a kind may be yielded. -/
def Filter.lists (f : Filter σ) (kind : Option String) : Bool :=
  match f.kinds.contains (Run.kindValue kind) with
  | .ok b => b
  | .error _ => false

namespace Config

/-- The tests of the filter. A value in its place has none. -/
def tests (c : Config σ) : Filter σ :=
  match c.filter with
  | .given f => f
  | .foreign _ => {}

/-- Tells the caller of the failed expansion of a node, if it failed. -/
def tell (c : Config σ) (v : Value) : Option Fault → Act Entry σ Unit
  | some e => if c.report.isSet then c.report.call (.report e) v fun r => r v e else pure ()
  | none => pure ()

/-- The tests and the callbacks never fail. They may remember what they like. -/
structure NeverFails (c : Config σ) : Prop where
  prune : c.tests.prune.All Predicate.NeverFails
  drop : c.tests.drop.All Predicate.NeverFails
  keep : c.tests.keep.All Predicate.NeverFails
  report : c.report.All fun r => ∀ v e, Act.NeverFails (r v e)
  progress : c.progress.All fun p => ∀ count, Act.NeverFails (p count)

end Config

/-- What was drawn so far. -/
def Drained.soFar : Act.Turn (List Value × Nat) Drained → List Value
  | .done d => d.items
  | .again acc => acc.1.reverse

theorem drain_of_turn {ρ : Type} {next : Act Entry ρ Delivery} {limit : Option Nat} {g : Nat}
    {s : ρ} {turn : Act.Turn (List Value × Nat) Drained}
    (h : (Act.iterate (Drained.turn next limit) g ([], 0) s).result = .ok turn) :
    ∃ d, d.items = Drained.soFar turn ∧ (∀ d', turn = .done d' → d = d') ∧
      drain next limit g s =
        ⟨.ok d, (Act.iterate (Drained.turn next limit) g ([], 0) s).state,
          (Act.iterate (Drained.turn next limit) g ([], 0) s).entries⟩ := by
  rw [drain, Act.bind_apply, h]
  cases turn with
  | done d => exact ⟨d, rfl, by rintro _ ⟨⟩; rfl, by simp [Outcome.after]⟩
  | again acc => exact ⟨⟨acc.1.reverse, .pending⟩, rfl, by rintro _ ⟨⟩, by simp [Outcome.after]⟩

/-! ## Rounds -/

/-- What became of a node that was taken off the fringe: whether its children were left out, the
fault of the step that took it, whether it was dropped, and the number under which it was
yielded. -/
structure Round where
  node : Value
  pruned : Bool
  failure : Option Fault
  dropped : Bool
  number : Option Nat

/-- The fault of the step is no failed expansion: it escapes. -/
def Round.escapes (x : Round) : Bool := x.failure.any fun e => !e.isExpansion

/-- The calls that are made for a node, in their order. -/
def Round.calls (c : Config σ) (scene : Scene σ) (x : Round) : List (Role × Value) :=
  let kind := Run.kindAt scene x.node
  (if c.tests.prune.isSet then [(.prune, x.node)] else []) ++
    (if x.pruned then []
      else ((kind.filter scene.registry.has).map fun k => (.rule k, x.node)).toList) ++
    if x.escapes then []
    else
      (if c.report.isSet then (x.failure.map fun e => (.report e, x.node)).toList else []) ++
        (if c.tests.drop.isSet then [(.drop, x.node)] else []) ++
        (if c.tests.keep.isSet && !x.dropped && c.tests.lists kind then [(.keep, x.node)]
          else []) ++
        ((x.number.filter fun n => c.progress.isSet && c.isTick n).map fun n =>
          (.progress, .int n)).toList

/-- The nodes that were yielded. -/
def Round.yields (xs : List Round) : List Value :=
  (xs.filter fun x => x.number.isSome).map (·.node)

namespace Run

/-- The next beat takes a node, and `x` is what becomes of it. The test that drops nodes is asked
when the node has been expanded and the caller has heard of a failure. -/
structure Took (c : Config σ) (s : Run σ) (x : Round) : Prop where
  node : s.walk.fringe.head? = some x.node
  pruned : (Walk.pruned c.tests.prune.heeded x.node s.toScene).result = .ok x.pruned
  failure : (Walk.step s.toStage).result = x.failure.elim (.ok (some x.node)) .error
  dropped : x.escapes = false → (c.tests.drops x.node
    (c.tell x.node x.failure (Walk.advance s.toStage).user).state).result = .ok x.dropped
  number : ∀ n, x.number = some n ↔
    (beat c s).result = .ok (.yielded x.node) ∧ n = s.tally.processed + 1

/-- Beat after beat takes a node. -/
inductive Rounds (c : Config σ) : Run σ → List Round → Run σ → Prop
  | nil (s : Run σ) : Rounds c s [] s
  | cons {s t : Run σ} {x : Round} {xs : List Round} (h : Took c s x)
      (hrest : Rounds c (beat c s).state xs t) : Rounds c s (x :: xs) t

theorem Rounds.append {c : Config σ} {s t r : Run σ} {xs ys : List Round} (h : Rounds c s xs t)
    (h' : Rounds c t ys r) : Rounds c s (xs ++ ys) r := by
  induction h with
  | nil s => exact h'
  | cons hx _ ih => exact .cons hx (ih h')

end Run

/-! ## Expansions -/

/-- A test is called once if there is one. -/
theorem Hook.test_calls {h : Hook (Predicate σ)} (hh : h.All Predicate.NeverFails) (role : Role)
    (fallback : Bool) (v : Value) (u : σ) :
    ∃ b u' es,
      (if h.isSet then h.call role v (fun p => p v) else pure fallback : Act Entry σ Bool) u =
        ⟨.ok b, u', es⟩ ∧ es.filterMap Entry.call? = if h.isSet then [(role, v)] else [] := by
  cases h with
  | absent => exact ⟨fallback, u, [], rfl, rfl⟩
  | inert w => exact hh.elim
  | live p truth =>
    cases truth with
    | false => exact ⟨fallback, u, [], rfl, rfl⟩
    | true =>
      obtain ⟨b, hb⟩ := hh v u
      exact ⟨b, (p v u).state, [.call role v (p v u).entries], by rw [← hb]; rfl, rfl⟩

/-- The rule of a node is called once if there is one. -/
theorem Scene.slotsOf_calls (v : Value) (s : Scene σ) :
    (slotsOf v s).entries.filterMap Entry.call? =
      (((Run.kindAt s v).filter s.registry.has).map fun k => (.rule k, v)).toList := by
  rw [Run.kindAt]
  rcases hkind : s.registry.kindOf v with e | _ | k
  · rw [slotsOf, hkind]
    rfl
  · rw [slotsOf_of_no_kind hkind]
    rfl
  · cases hrule : s.registry.rule? k with
    | none =>
      have hhas : s.registry.has k = false := by rw [Registry.has, hrule]; rfl
      have hnone :
          (Except.ok (some k) : Except Fault _).toOption.join.filter s.registry.has = none := by
        simp [Except.toOption, Option.filter, hhas]
      rw [slotsOf_of_no_rule hkind hrule, hnone]
      split <;> rfl
    | some rule =>
      have hhas : s.registry.has k = true := by rw [Registry.has, hrule]; rfl
      rw [slotsOf_entries hkind hrule]
      simp [Except.toOption, Option.filter, hhas, Entry.call?]

namespace Walk

variable {prune : Hook (Predicate σ)}

theorem pruned_calls (hprune : prune.All Predicate.NeverFails) (v : Value) (s : Scene σ) :
    ∃ b, (pruned prune v s).result = .ok b ∧
      (pruned prune v s).entries.filterMap Entry.call? =
        if prune.isPresent then [(.prune, v)] else [] := by
  cases prune with
  | absent => exact ⟨false, rfl, rfl⟩
  | inert w => exact hprune.elim
  | live p truth =>
    obtain ⟨b, hb⟩ := hprune v s.user
    exact ⟨b, hb, rfl⟩

/-- The test is asked first, and the rule if the test lets the node pass. -/
theorem expand_calls (hprune : prune.All Predicate.NeverFails) (v : Value) (s : Scene σ) :
    ∃ b, (pruned prune v s).result = .ok b ∧
      (expand prune v s).entries.filterMap Entry.call? =
        (if prune.isPresent then [(.prune, v)] else []) ++
          if b then []
          else (((Run.kindAt s v).filter s.registry.has).map fun k => (.rule k, v)).toList := by
  obtain ⟨b, hb, hcalls⟩ := pruned_calls hprune v s
  have halike := pruned_alike prune v s
  have hhas : (pruned prune v s).state.registry.has = s.registry.has := by
    funext k
    rw [Registry.has, Registry.has, halike.rule?]
  have hkind : Run.kindAt (pruned prune v s).state v = Run.kindAt s v := by
    rw [Run.kindAt, Run.kindAt, halike.kindOf]
  refine ⟨b, hb, ?_⟩
  rw [expand, Act.bind_apply, hb]
  cases b with
  | true => simp [Outcome.after, hcalls]
  | false =>
    simp only [Outcome.after, List.filterMap_append, hcalls, Bool.false_eq_true, if_false]
    rw [Scene.slotsOf_calls, hhas, hkind]

end Walk

/-! ## Offers -/

namespace Config

variable {c : Config σ}

/-- The caller is told once of a failure. -/
theorem tell_calls (hc : c.NeverFails) (v : Value) (failure : Option Fault) (u : σ) :
    (c.tell v failure u).result = .ok () ∧
      (c.tell v failure u).entries.filterMap Entry.call? =
        if c.report.isSet then (failure.map fun e => (.report e, v)).toList else [] := by
  cases failure with
  | none => exact ⟨rfl, by simp [tell]⟩
  | some e =>
    have hreport := hc.report
    rw [tell]
    cases hook : c.report with
    | absent => exact ⟨rfl, rfl⟩
    | inert w => exact (hook ▸ hreport).elim
    | live r truth =>
      rw [hook] at hreport
      obtain ⟨⟨⟩, hr⟩ := hreport v e u
      cases truth with
      | false => exact ⟨rfl, rfl⟩
      | true => exact ⟨hr, rfl⟩

/-- A node that is not dropped and has a kind of the right sort is put to the other test. -/
theorem admits_calls (hc : c.NeverFails) (v : Value) (kind : Option String) (u : σ) :
    ∃ dropped, (c.tests.drops v u).result = .ok dropped ∧
      (c.admits v (Run.kindValue kind) u).entries.filterMap Entry.call? =
        (if c.tests.drop.isSet then [(.drop, v)] else []) ++
          if c.tests.keep.isSet && !dropped && c.tests.lists kind then [(.keep, v)] else [] := by
  have hdrop := hc.drop
  have hkeep := hc.keep
  rw [admits]
  cases hfilter : c.filter with
  | foreign w =>
    rw [tests, hfilter]
    exact ⟨false, rfl, rfl⟩
  | given f =>
    rw [tests, hfilter] at hdrop hkeep ⊢
    dsimp only at hdrop hkeep ⊢
    obtain ⟨dropped, u', es, hdropped, hcalls⟩ := Hook.test_calls hdrop .drop false v u
    have hdrops : f.drops v u = ⟨.ok dropped, u', es⟩ := hdropped
    refine ⟨dropped, by rw [hdrops], ?_⟩
    rw [Filter.admits, Act.bind_of_ok hdrops, Filter.lists]
    cases dropped with
    | true => simp [Outcome.after, hcalls]
    | false =>
      cases hlisted : f.kinds.contains (Run.kindValue kind) with
      | error e =>
        simp only [Bool.false_eq_true, if_false, Act.ofExcept_error_bind]
        simp [Outcome.after, hcalls]
      | ok listed =>
        simp only [Bool.false_eq_true, if_false, Act.ofExcept_ok_bind]
        cases listed with
        | false => simp [Outcome.after, hcalls]
        | true =>
          obtain ⟨kept, u'', es', hkept, hcalls'⟩ := Hook.test_calls hkeep .keep true v u'
          have hkeeps : f.keeps v u' = ⟨.ok kept, u'', es'⟩ := hkept
          simp [Outcome.after, hcalls, hkeeps, hcalls']

end Config

namespace Run

variable {c : Config σ} {s : Run σ}

theorem reportProgress_calls (hc : c.NeverFails) (count : Nat) (s : Run σ) :
    (reportProgress c count s).entries.filterMap Entry.call? =
      (((some count).filter fun n => c.progress.isSet && c.isTick n).map fun n =>
        (.progress, .int n)).toList := by
  have hprogress := hc.progress
  rw [reportProgress]
  cases hdue : c.progress.isSet && c.isTick count with
  | false => simp [Option.filter, hdue]
  | true =>
    cases hook : c.progress with
    | absent => simp [hook, Hook.isSet] at hdue
    | inert w => exact (hook ▸ hprogress).elim
    | live p truth =>
      rw [hook] at hdue
      simp [Option.filter, hdue]
      rfl

/-- An offer asks the tests, and tells of progress if the node is yielded. -/
theorem offer_calls (hc : c.NeverFails) {v : Value} {kind : Option String}
    (hkind : s.registry.kindOf v = .ok kind) :
    ∃ (dropped : Bool) (number : Option Nat), (c.tests.drops v s.user).result = .ok dropped ∧
      (∀ n, number = some n ↔
        (offer c v s).result = .ok (.yielded v) ∧ n = s.tally.processed + 1) ∧
      (offer c v s).entries.filterMap Entry.call? =
        (if c.tests.drop.isSet then [(.drop, v)] else []) ++
          (if c.tests.keep.isSet && !dropped && c.tests.lists kind then [(.keep, v)] else []) ++
          ((number.filter fun n => c.progress.isSet && c.isTick n).map fun n =>
            (.progress, .int n)).toList := by
  obtain ⟨dropped, hdropped, hcalls⟩ := c.admits_calls hc v kind s.user
  have hentries : (onUser (c.admits v (kindValue kind)) s).entries =
    (c.admits v (kindValue kind) s.user).entries := rfl
  rw [← hentries] at hcalls
  rcases htold : onUser (c.admits v (kindValue kind)) s with ⟨e | _ | _, s', es⟩ <;>
    rw [htold] at hcalls
  · rw [offer_of_error hkind htold]
    refine ⟨dropped, none, hdropped, by simp, ?_⟩
    simp [hcalls]
  · rw [offer_of_false hkind htold]
    refine ⟨dropped, none, hdropped, by simp, ?_⟩
    simp [hcalls]
  · rw [offer_of_true hkind htold]
    refine ⟨dropped, some (s.tally.processed + 1), hdropped, ?_, ?_⟩
    · simp [reportProgress_result hc.progress, Except.map, eq_comm]
    · simp only [List.filterMap_append, hcalls, reportProgress_calls hc]

/-- An offer yields the node that is offered. -/
theorem eq_of_offer_yielded {v w : Value} (h : (offer c v s).result = .ok (.yielded w)) :
    w = v := by
  cases hkind : s.registry.kindOf v with
  | error e => rw [offer_of_kind_error hkind] at h; cases h
  | ok kind =>
    rcases htold : onUser (c.admits v (kindValue kind)) s with ⟨e | _ | _, s', es⟩
    · rw [offer_of_error hkind htold] at h; cases h
    · rw [offer_of_false hkind htold] at h; cases h
    · rw [offer_of_true hkind htold] at h
      dsimp only at h
      generalize (reportProgress c _ _).result = r at h
      cases r <;> cases h
      rfl

/-! ## Beats -/

theorem recordFailure_eq_tell (c : Config σ) (i : Incident) (e : Fault) (s : Run σ) :
    recordFailure c i e s =
      let told := c.tell i.node (some e) s.user
      ⟨told.result,
        { s with user := told.state, tally := { s.tally with
          incidents := i :: s.tally.incidents } }, told.entries⟩ := by
  rw [recordFailure, onTally, Act.modify_bind, Config.tell]
  split <;> rfl

/-- A node that was expanded is offered. -/
theorem beat_of_expanded (hallows : c.allows s.tally.processed = .ok true) {v : Value}
    (h : (Walk.step s.toStage).result = .ok (some v)) :
    beat c s = (offer c v { s with toStage := Walk.advance s.toStage }).after
      (Walk.step s.toStage).entries := by
  have hstep : (onStage Walk.step s).result = .ok (some v) := h
  rw [beat_of_allows hallows, pop, Act.attempt_bind, hstep]
  rfl

theorem beat_of_unexpanded (hallows : c.allows s.tally.processed = .ok true) {e : Fault}
    (h : (Walk.step s.toStage).result = .error e) :
    beat c s = (recover c e { s with toStage := Walk.advance s.toStage }).after
      (Walk.step s.toStage).entries := by
  have hstep : (onStage Walk.step s).result = .error e := h
  rw [beat_of_allows hallows, pop, Act.attempt_bind, hstep]
  rfl

namespace Ready

variable {scene : Scene σ} {v : Value} {rest : List Value}

theorem kindAt_eq (hs : Ready c.tests scene s) (v : Value) :
    kindAt s.toScene v = kindAt scene v := by
  rw [kindAt, kindAt, hs.alike.kindOf]

/-- A beat that takes a node expands it first, whatever comes of that. -/
theorem step_calls (hs : Ready c.tests scene s) (hc : c.NeverFails)
    (hfringe : s.walk.fringe = v :: rest) :
    ∃ pruned, (Walk.pruned c.tests.prune.heeded v s.toScene).result = .ok pruned ∧
      (Walk.step s.toStage).entries.filterMap Entry.call? =
        (if c.tests.prune.isSet then [(.prune, v)] else []) ++
          if pruned then []
          else (((kindAt scene v).filter scene.registry.has).map fun k => (.rule k, v)).toList := by
  have hhas : s.registry.has = scene.registry.has := by
    funext k
    rw [Registry.has, Registry.has, hs.alike.rule?]
  obtain ⟨pruned, hpruned, hcalls⟩ := Walk.expand_calls hc.prune.heeded v s.toScene
  rw [hs.kindAt_eq, hhas, Hook.isPresent_heeded] at hcalls
  refine ⟨pruned, hpruned, ?_⟩
  rw [Walk.step_cons hfringe, hs.prune_eq]
  exact hcalls

/-- The fault of an expansion, as it leaves the step. -/
theorem step_of_error (hs : Ready c.tests scene s) (hfringe : s.walk.fringe = v :: rest) {e : Fault}
    (he : (Walk.expand c.tests.prune.heeded v s.toScene).result = .error e) :
    (Walk.step s.toStage).result =
      .error (e.escape?.getD (.expansion v (kindAt scene v) e.wording (some e))) := by
  obtain ⟨kind, hkind⟩ := hs.field.kindOf v
  have hkindAt : kindAt scene v = kind := by rw [kindAt, hkind]; rfl
  rw [hkindAt]
  exact (Walk.step_of_fails hfringe ((hs.alike.kindOf v).trans hkind) (hs.prune_eq ▸ he)).1

/-- A beat whose step fails with a fault that escapes makes no call after that. -/
theorem beat_of_escape {e : Fault} (hallows : c.allows s.tally.processed = .ok true)
    (hstep : (Walk.step s.toStage).result = .error e) (he : e.isExpansion = false) :
    Run.beat c s =
      ⟨.error e, { s with toStage := Walk.advance s.toStage }, (Walk.step s.toStage).entries⟩ := by
  rw [beat_of_unexpanded hallows hstep, recover_of_isExpansion he]
  simp [Outcome.after]

/-- A beat that takes a node from which nothing escapes tells of a failure and then offers the
node. -/
theorem beat_eq_offer (hs : Ready c.tests scene s) (hc : c.NeverFails)
    (hskip : c.policy = .given .skip) (hallows : c.allows s.tally.processed = .ok true)
    (hfringe : s.walk.fringe = v :: rest)
    (hescape : Walk.escape? c.tests.prune.heeded s.toScene v = none) :
    ∃ (failure : Option Fault) (s' : Run σ) (es : List Entry),
      (Walk.step s.toStage).result = failure.elim (.ok (some v)) .error ∧
      (∀ e, failure = some e → e.isExpansion = true) ∧
      s'.user = (c.tell v failure (Walk.advance s.toStage).user).state ∧
      s'.registry.kindOf v = .ok (kindAt scene v) ∧
      s'.tally.processed = s.tally.processed ∧
      Run.beat c s = (offer c v s').after es ∧
      es.filterMap Entry.call? = (Walk.step s.toStage).entries.filterMap Entry.call? ++
        (if c.report.isSet then (failure.map fun e => (.report e, v)).toList else []) := by
  obtain ⟨kind, hkind⟩ := hs.field.kindOf v
  have hkindAt : kindAt scene v = kind := by rw [kindAt, hkind]; rfl
  let s₁ : Run σ := { s with toStage := Walk.advance s.toStage }
  have hkind₁ : s₁.registry.kindOf v = .ok (kindAt scene v) := by
    rw [hkindAt]
    exact ((Walk.advance_alike s.toStage).kindOf v).trans ((hs.alike.kindOf v).trans hkind)
  cases hexpand : (Walk.expand c.tests.prune.heeded v s.toScene).result with
  | ok slots =>
    have hstep : (Walk.step s.toStage).result = .ok (some v) := by
      rw [Walk.step_cons hfringe, hs.prune_eq, hexpand]
    exact ⟨none, s₁, _, hstep, by rintro _ ⟨⟩, rfl, hkind₁, rfl, beat_of_expanded hallows hstep,
      by simp⟩
  | error e =>
    rw [Walk.escape?, hexpand] at hescape
    have hstep := hs.step_of_error hfringe hexpand
    rw [show e.escape? = none from hescape, Option.getD_none] at hstep
    let fault : Fault := .expansion v (kindAt scene v) e.wording (some e)
    let told := c.tell v (some fault) s₁.user
    obtain ⟨htold, htells⟩ : told.result = .ok () ∧ told.entries.filterMap Entry.call? = _ :=
      c.tell_calls hc v (some fault) s₁.user
    let i : Incident := .of v (kindAt scene v) e.wording
    let s₂ : Run σ := { s₁ with user := told.state, tally := { s₁.tally with
      incidents := i :: s₁.tally.incidents } }
    have hrecord : recordFailure c i fault s₁ = ⟨.ok (), s₂, told.entries⟩ := by
      rw [recordFailure_eq_tell, ← htold]
      rfl
    have hpolicy : c.policy ≠ .given .raise := by
      rw [hskip]
      rintro ⟨⟩
    have hbeat := beat_of_unexpanded hallows hstep
    rw [recover_of_skip hpolicy hrecord, Outcome.after_after] at hbeat
    refine ⟨some fault, s₂, _, hstep, ?_, rfl, hkind₁, rfl, hbeat, ?_⟩
    · rintro _ ⟨⟩
      rfl
    · simp [htells, Entry.call?]

/-- A beat that takes a node makes the calls of one round. If a fault escapes there, the beat ends
with it. -/
theorem beat_took (hs : Ready c.tests scene s) (hc : c.NeverFails)
    (hskip : c.policy = .given .skip) (hallows : c.allows s.tally.processed = .ok true)
    (hfringe : s.walk.fringe = v :: rest) :
    ∃ x, Took c s x ∧ (∀ w, (Run.beat c s).result = .ok (.yielded w) → w = x.node) ∧
      (Run.beat c s).entries.filterMap Entry.call? = x.calls c scene ∧
      ∀ e, x.failure = some e → x.escapes = true → (Run.beat c s).result = .error e := by
  have hhead : s.walk.fringe.head? = some v := by
    rw [hfringe]
    rfl
  obtain ⟨pruned, hpruned, hcalls⟩ := hs.step_calls hc hfringe
  cases hescape : Walk.escape? c.tests.prune.heeded s.toScene v with
  | none =>
    obtain ⟨failure, s', es, hstep, hfailure, huser, hkind, hcount, hbeat, hcalls'⟩ :=
      hs.beat_eq_offer hc hskip hallows hfringe hescape
    obtain ⟨dropped, number, hdropped, hnumber, hcalls''⟩ := offer_calls hc hkind
    let x : Round := ⟨v, pruned, failure, dropped, number⟩
    have hstays : x.escapes = false := by
      cases hx : failure with
      | none => simp [Round.escapes, x, hx]
      | some e => simp [Round.escapes, x, hx, hfailure e hx]
    refine ⟨x, ⟨hhead, hpruned, hstep, fun _ => ?_, ?_⟩, ?_, ?_, ?_⟩
    · rw [← huser]
      exact hdropped
    · rw [hbeat, ← hcount]
      exact hnumber
    · intro w hw
      rw [hbeat] at hw
      exact eq_of_offer_yielded hw
    · rw [hbeat, Outcome.after, List.filterMap_append, hcalls', hcalls'', hcalls, Round.calls,
        hstays]
      simp [x]
    · intro e _ hx
      cases hstays.symm.trans hx
  | some e =>
    obtain ⟨cause, hcause, hcausal⟩ : ∃ cause,
        (Walk.expand c.tests.prune.heeded v s.toScene).result = .error cause ∧
          cause.escape? = some e := by
      unfold Walk.escape? at hescape
      split at hescape
      · cases hescape
      · next cause hcause => exact ⟨cause, hcause, hescape⟩
    have hexpansion := (Fault.passes_of_escape? hcausal).isExpansion
    have hstep := hs.step_of_error hfringe hcause
    rw [hcausal, Option.getD_some] at hstep
    have hbeat := beat_of_escape hallows hstep hexpansion
    refine ⟨⟨v, pruned, some e, false, none⟩, ⟨hhead, hpruned, hstep, ?_, ?_⟩, ?_, ?_, ?_⟩
    · intro hstays
      simp [Round.escapes, hexpansion] at hstays
    · simp [hbeat]
    · rw [hbeat]
      rintro _ ⟨⟩
    · rw [hbeat, Round.calls, hcalls]
      simp [Round.escapes, hexpansion]
    · rintro _ ⟨⟩ -
      rw [hbeat]

end Ready

/-- A beat that takes no node makes no call and changes nothing, and the request is over. -/
theorem beat_idle (h : c.allows s.tally.processed ≠ .ok true ∨ s.walk.fringe = []) :
    (beat c s).state = s ∧ (beat c s).entries.filterMap Entry.call? = [] ∧
      ((beat c s).result = .ok .ended ∨ ∃ e, (beat c s).result = .error e) := by
  rcases hallows : c.allows s.tally.processed with e | _ | _
  · rw [beat, Act.get_bind, hallows, Act.ofExcept_error_bind]
    exact ⟨rfl, rfl, .inr ⟨e, rfl⟩⟩
  · rw [beat_of_limit hallows]
    refine ⟨rfl, ?_, .inl rfl⟩
    split <;> rfl
  · have hfringe := h.resolve_left (not_not_intro hallows)
    have hstep : onStage Walk.step s = ⟨.ok none, s, []⟩ := by
      rw [onStage, Act.zoom, Walk.step_nil hfringe]
    rw [beat_of_allows hallows, pop, Act.attempt_bind, hstep]
    exact ⟨rfl, rfl, .inl rfl⟩

/-! ## Requests -/

theorem Took.number_eq_none {x : Round} (h : Took c s x)
    (hbeat : (beat c s).result ≠ .ok (.yielded x.node)) : x.number = none := by
  rw [Option.eq_none_iff_forall_ne_some]
  intro n hn
  exact hbeat ((h.number n).1 hn).1

theorem Took.number_isSome {x : Round} (h : Took c s x)
    (hbeat : (beat c s).result = .ok (.yielded x.node)) : x.number.isSome = true := by
  rw [(h.number _).2 ⟨hbeat, rfl⟩]
  rfl

theorem Rounds.ready {f : Filter σ} {scene : Scene σ} {t : Run σ} {xs : List Round}
    (h : Rounds c s xs t) (hs : Ready f scene s) : Ready f scene t := by
  induction h with
  | nil s => exact hs
  | cons _ _ ih => exact ih (hs.beat c)

/-- A request at `s` whose outcome is `o` took the nodes of `xs`, one after the other until `t`, and
made their calls. If it gave a node, that is the last one it took, and the only one that was
yielded. If a fault escaped, the request failed with it. -/
structure Requested (c : Config σ) (scene : Scene σ) (s : Run σ) (xs : List Round) (t : Run σ)
    (o : Outcome Entry (Run σ) Delivery) : Prop where
  rounds : Rounds c s xs t
  state : ∃ live, o.state = { t with live }
  calls : o.entries.filterMap Entry.call? = xs.flatMap (Round.calls c scene)
  given : ∀ v, o.result = .ok (.node v) →
    o.state = t ∧ Round.yields xs = [v] ∧ ∀ x ∈ xs.getLast?, x.number.isSome = true
  none_given : (∀ v, o.result ≠ .ok (.node v)) → Round.yields xs = []
  escaped : ∀ x ∈ xs, ∀ e, x.failure = some e → x.escapes = true → o.result = .error e.leaving

namespace Requested

variable {scene : Scene σ} {t : Run σ} {x : Round} {xs : List Round}
variable {o : Outcome Entry (Run σ) Delivery} {es : List Entry} {live : Bool}

/-- No node is taken, and then none is given. -/
theorem idle (hstate : o.state = { s with live }) (hcalls : o.entries.filterMap Entry.call? = [])
    (hresult : ∀ v, o.result ≠ .ok (.node v)) : Requested c scene s [] s o where
  rounds := .nil s
  state := ⟨live, hstate⟩
  calls := hcalls
  given := fun v hv => absurd hv (hresult v)
  none_given := fun _ => rfl
  escaped := by rintro _ ⟨⟩

/-- The only node that is taken is given. -/
theorem yielding (hx : Took c s x) (hstate : o.state = (beat c s).state)
    (hcalls : o.entries.filterMap Entry.call? = x.calls c scene)
    (hresult : o.result = .ok (.node x.node)) (hnumber : x.number.isSome = true)
    (hstays : ∀ e, x.failure = some e → x.escapes ≠ true) :
    Requested c scene s [x] (beat c s).state o where
  rounds := .cons hx (.nil _)
  state := ⟨(beat c s).state.live, hstate⟩
  calls := by rw [hcalls, List.flatMap_singleton]
  given := by
    intro v hv
    cases hresult.symm.trans hv
    exact ⟨hstate, by simp [Round.yields, hnumber], by simp [hnumber]⟩
  none_given := fun hnone => absurd hresult (hnone x.node)
  escaped := by
    intro y hy e hfailure hescape
    obtain rfl := List.mem_singleton.1 hy
    exact absurd hescape (hstays e hfailure)

/-- The only node that is taken is not given, and the request is over. -/
theorem ending (hx : Took c s x) (hstate : o.state = { (beat c s).state with live })
    (hcalls : o.entries.filterMap Entry.call? = x.calls c scene)
    (hresult : ∀ v, o.result ≠ .ok (.node v)) (hnumber : x.number = none)
    (hescapes : ∀ e, x.failure = some e → x.escapes = true → o.result = .error e.leaving) :
    Requested c scene s [x] (beat c s).state o where
  rounds := .cons hx (.nil _)
  state := ⟨live, hstate⟩
  calls := by rw [hcalls, List.flatMap_singleton]
  given := fun v hv => absurd hv (hresult v)
  none_given := fun _ => by simp [Round.yields, hnumber]
  escaped := by
    intro y hy e hfailure hescape
    obtain rfl := List.mem_singleton.1 hy
    exact hescapes e hfailure hescape

/-- The first node that is taken is passed over, and the request goes on. -/
theorem passing (hx : Took c s x) (hcalls : es.filterMap Entry.call? = x.calls c scene)
    (hnumber : x.number = none) (hstays : ∀ e, x.failure = some e → x.escapes ≠ true)
    (h : Requested c scene (beat c s).state xs t o) :
    Requested c scene s (x :: xs) t (o.after es) := by
  have hyields : Round.yields (x :: xs) = Round.yields xs := by simp [Round.yields, hnumber]
  constructor
  case rounds => exact .cons hx h.rounds
  case state => exact h.state
  case calls =>
    rw [Outcome.after, List.filterMap_append, hcalls, h.calls, List.flatMap_cons]
  case given =>
    intro v hv
    obtain ⟨hstate, hxs, hlast⟩ := h.given v hv
    refine ⟨hstate, hyields.trans hxs, ?_⟩
    cases xs with
    | nil => cases hxs
    | cons y ys => rwa [List.getLast?_cons_cons]
  case none_given => exact fun hnone => hyields.trans (h.none_given hnone)
  case escaped =>
    intro y hy e hfailure hescape
    rcases List.mem_cons.1 hy with rfl | hy
    · exact absurd hescape (hstays e hfailure)
    · exact h.escaped y hy e hfailure hescape

end Requested

namespace Ready

variable {scene : Scene σ}

/-- A request makes the calls of the nodes that it takes. -/
theorem next_rounds (hs : Ready c.tests scene s) (hc : c.NeverFails)
    (hskip : c.policy = .given .skip) (fuel : Nat) :
    ∃ xs t, Requested c scene s xs t (Run.next c fuel s) := by
  induction fuel generalizing s with
  | zero =>
    rw [Run.next, Act.iterate_zero]
    cases s.live <;> exact ⟨[], s, .idle rfl rfl (by rintro _ ⟨⟩)⟩
  | succ fuel ih =>
    cases hlive : s.live with
    | false =>
      rw [next_of_not_live _ hlive]
      exact ⟨[], s, .idle rfl rfl (by rintro _ ⟨⟩)⟩
    | true =>
      by_cases hidle : c.allows s.tally.processed ≠ .ok true ∨ s.walk.fringe = []
      · obtain ⟨hstate, hcalls, hover⟩ := beat_idle hidle
        rcases h : Run.beat c s with ⟨r, s', es⟩
        rw [h] at hstate hcalls hover
        obtain rfl : s' = s := hstate
        obtain rfl | ⟨e, rfl⟩ := hover
        · rw [next_of_ended fuel hlive h]
          exact ⟨[], s', .idle rfl hcalls (by rintro _ ⟨⟩)⟩
        · rw [next_of_error fuel hlive h]
          exact ⟨[], s', .idle rfl hcalls (by rintro _ ⟨⟩)⟩
      · obtain ⟨hallows, hfringe⟩ := not_or.1 hidle
        obtain ⟨v, rest, hfringe⟩ := List.exists_cons_of_ne_nil hfringe
        obtain ⟨x, hx, hyielded, hcalls, hescapes⟩ :=
          hs.beat_took hc hskip (not_not.1 hallows) hfringe
        have hnumber := hx.number_eq_none
        have hstays : (∀ e, (Run.beat c s).result ≠ .error e) →
            ∀ e, x.failure = some e → x.escapes ≠ true :=
          fun hresult e hfailure hescape => hresult e (hescapes e hfailure hescape)
        rcases h : Run.beat c s with ⟨e | w | _ | _, s', es⟩ <;>
          rw [h] at hyielded hcalls hescapes hnumber hstays
        · rw [next_of_error fuel hlive h]
          refine ⟨[x], _, .ending hx (by rw [h]) hcalls (by rintro _ ⟨⟩)
            (hnumber (by rintro ⟨⟩)) ?_⟩
          intro e' hfailure hescape
          rw [Except.error.inj (hescapes e' hfailure hescape)]
        · obtain rfl := hyielded w rfl
          rw [next_of_yielded fuel hlive h]
          exact ⟨[x], _, .yielding hx (by rw [h]) hcalls rfl (hx.number_isSome (by rw [h]))
            (hstays (by rintro _ ⟨⟩))⟩
        · have hlive' := (beat_live c s).trans hlive
          obtain ⟨xs, t, hrequested⟩ := ih (hs.beat c)
          rw [next_of_passed fuel hlive (by rwa [h] at hlive') h]
          refine ⟨x :: xs, t, .passing hx hcalls (hnumber (by rintro ⟨⟩))
            (hstays (by rintro _ ⟨⟩)) ?_⟩
          rwa [h] at hrequested ⊢
        · rw [next_of_ended fuel hlive h]
          exact ⟨[x], _, .ending hx (by rw [h]) hcalls (by rintro _ ⟨⟩)
            (hnumber (by rintro ⟨⟩)) fun e hfailure hescape =>
              absurd hescape (hstays (by rintro _ ⟨⟩) e hfailure)⟩

/-- So do requests one after the other. If as many nodes were drawn as are wanted, the last node
that was taken is the last that was drawn. A fault that escapes is the end. -/
theorem iterate_rounds (hs : Ready c.tests scene s) (hc : c.NeverFails)
    (hskip : c.policy = .given .skip) (fuel : Nat) (limit : Option Nat) (g : Nat)
    (drawn : List Value) (k : Nat) :
    let o := Act.iterate (Drained.turn (Run.next c fuel) limit) g (drawn, k) s
    ∃ xs t turn, Rounds c s xs t ∧ (∃ live, o.state = { t with live }) ∧
      o.entries.filterMap Entry.call? = xs.flatMap (Round.calls c scene) ∧
      o.result = .ok turn ∧ Drained.soFar turn = drawn.reverse ++ Round.yields xs ∧
      (limit = some (k + (Round.yields xs).length) →
        ∀ x ∈ xs.getLast?, x.number.isSome = true) ∧
      ∀ x ∈ xs, ∀ e, x.failure = some e → x.escapes = true →
        ∃ items, turn = .done ⟨items, .fault e.leaving⟩ := by
  induction g generalizing s drawn k with
  | zero =>
    exact ⟨[], s, _, .nil s, ⟨s.live, rfl⟩, rfl, rfl, by simp [Drained.soFar, Round.yields],
      by simp, by simp⟩
  | succ g ih =>
    intro o
    by_cases hlimit : limit = some k
    · have ho : o = ⟨.ok (.done ⟨drawn.reverse, .limit⟩), s, []⟩ := by
        show Act.iterate _ (g + 1) (drawn, k) s = _
        rw [hlimit, Act.iterate_succ, Act.bind_of_ok (Drained.turn_of_limit _ drawn k s)]
        rfl
      rw [ho]
      exact ⟨[], s, _, .nil s, ⟨s.live, rfl⟩, rfl, rfl, by simp [Drained.soFar, Round.yields],
        by simp, by simp⟩
    · obtain ⟨xs, t, hrounds, hstate, hcalls, hgiven, hnever, hescaped⟩ :=
        hs.next_rounds hc hskip fuel
      by_cases hnode : ∃ v, (Run.next c fuel s).result = .ok (.node v)
      · obtain ⟨v, hv⟩ := hnode
        obtain ⟨rfl, hxs, hlast⟩ := hgiven v hv
        have ho : o = (Act.iterate (Drained.turn (Run.next c fuel) limit) g (v :: drawn, k + 1)
            (Run.next c fuel s).state).after (Run.next c fuel s).entries :=
          Drained.iterate_again hlimit (by rw [hv]; rfl) g
        obtain ⟨ys, t', turn, hrounds', hstate', hcalls', hresult, hturn, hlast', hescaped'⟩ :=
          ih (hrounds.ready hs) (v :: drawn) (k + 1)
        have hyields : Round.yields (xs ++ ys) = v :: Round.yields ys := by
          rw [Round.yields, List.filter_append, List.map_append]
          exact congrArg (· ++ Round.yields ys) hxs
        rw [ho]
        refine ⟨xs ++ ys, t', turn, hrounds.append hrounds', hstate', ?_, hresult, ?_, ?_,
          fun x hx e hfailure hescape => ?_⟩
        · rw [Outcome.after, List.filterMap_append, hcalls, hcalls', List.flatMap_append]
        · simp [hturn, hyields]
        · rw [hyields, List.length_cons, Nat.add_comm _ 1, ← Nat.add_assoc]
          intro hwanted
          rw [List.getLast?_append]
          intro x hx
          cases hys : ys.getLast? with
          | none =>
            rw [hys] at hx
            exact hlast x hx
          | some y =>
            rw [hys] at hx
            exact hlast' hwanted x (hys.trans hx)
        · rcases List.mem_append.1 hx with hx | hx
          · cases hv.symm.trans (hescaped x hx e hfailure hescape)
          · exact hescaped' x hx e hfailure hescape
      · have hnone : Round.yields xs = [] := hnever fun v hv => hnode ⟨v, hv⟩
        have hanswer : ∃ d, Drained.answer drawn k (Run.next c fuel s).result = .done d ∧
            d.items = drawn.reverse := by
          rcases hresult : (Run.next c fuel s).result with e | v | _ | _
          · exact ⟨_, rfl, rfl⟩
          · exact absurd ⟨v, hresult⟩ hnode
          · exact ⟨_, rfl, rfl⟩
          · exact ⟨_, rfl, rfl⟩
        obtain ⟨d, hd, hitems⟩ := hanswer
        have ho : o = ⟨.ok (.done d), (Run.next c fuel s).state, (Run.next c fuel s).entries⟩ :=
          Drained.iterate_done hlimit hd g
        rw [ho]
        refine ⟨xs, t, .done d, hrounds, hstate, hcalls, rfl, ?_, ?_,
          fun x hx e hfailure hescape => ?_⟩
        · rw [hnone, List.append_nil, Drained.soFar, hitems]
        · rw [hnone]
          exact fun hwanted => absurd hwanted hlimit
        · rw [hescaped x hx e hfailure hescape] at hd
          cases hd
          exact ⟨_, rfl⟩

end Ready

/-! ## Runs -/

/-- The walk is pruned by the test of the filter, if that is heeded. A value in place of the filter
passes the check only if it holds no test to prune by. -/
theorem prune_eq_tests (hcheck : c.check = .ok ()) : c.prune = .ok c.tests.prune.heeded := by
  cases hfilter : c.filter with
  | given f =>
    have htests : c.tests = f := by rw [Config.tests, hfilter]
    rw [htests]
    exact Config.prune_eq hfilter
  | foreign w =>
    obtain ⟨-, -, -, -, -, hhooks⟩ := (Config.check_eq_ok_iff c).1 hcheck
    rw [Config.hookProblems, Config.filterHooks, hfilter] at hhooks
    rw [Config.prune, Config.tests, hfilter]
    cases hkeep : w.attr (.str "include_filter") <;>
      cases hdrop : w.attr (.str "exclude_filter") <;>
      cases hprune : w.attr (.str "prune_filter") <;>
      simp [hkeep, hdrop, hprune, bind, Except.bind, Except.map, pure, Except.pure] at hhooks
    next keep drop prune =>
      cases prune with
      | null =>
        simp only [hprune]
        rfl
      | _ => simp [Hook.ofValue, Hook.isSound] at hhooks

/-- A run under a configuration that was checked begins at any node. -/
theorem start_of_check (hcheck : c.check = .ok ()) {scene : Scene σ} {root : Value} {kind : String}
    (hroot : scene.registry.kindOf root = .ok (some kind)) :
    start c scene root = .ok { toScene := scene, walk := ⟨[root], c.tests.prune.heeded⟩ } := by
  rw [start, prune_eq_tests hcheck]
  simp only [bind, Except.bind, Walk.start_eq hroot]
  rfl

/-- Whatever is drawn from a run that skips failures, the calls on record are those of the nodes
that were taken, block after block. The nodes that were drawn are those that were yielded among
them. When as many were drawn as are wanted, the last node that was taken is the last that was
drawn: nothing was called for any node behind it. Where a fault escapes from an expansion, the
drawing ends with it. Rules may fail with what they like. -/
theorem drain_calls (c : Config σ) (hcheck : c.check = .ok ()) (hskip : c.policy = .given .skip)
    (hc : c.NeverFails) (scene : Scene σ) (root : Value) {kind : String}
    (hroot : scene.registry.kindOf root = .ok (some kind)) :
    ∃ r, start c scene root = .ok r ∧ r.walk.fringe = [root] ∧ r.toScene = scene ∧
      ∀ fuel limit g, ∃ xs t live d es, Rounds c r xs t ∧
        drain (next c fuel) limit g r = ⟨.ok d, { t with live }, es⟩ ∧
        d.items = Round.yields xs ∧
        es.filterMap Entry.call? = xs.flatMap (Round.calls c scene) ∧
        (limit = some d.items.length → ∀ x ∈ xs.getLast?, x.number.isSome = true) ∧
        ∀ x ∈ xs, ∀ e, x.failure = some e → x.escapes = true → d.ending = .fault e.leaving := by
  refine ⟨_, start_of_check hcheck hroot, rfl, rfl, fun fuel limit g => ?_⟩
  have hready : Ready c.tests scene { toScene := scene, walk := ⟨[root], c.tests.prune.heeded⟩ } :=
    ⟨.refl scene, rfl, Registry.hasTextField_of_kindOf hroot⟩
  obtain ⟨xs, t, turn, hrounds, ⟨live, hstate⟩, hcalls, hresult, hturn, hlast, hescaped⟩ :=
    hready.iterate_rounds hc hskip fuel limit g [] 0
  obtain ⟨d, hitems, hending, hdrained⟩ := drain_of_turn hresult
  rw [hstate] at hdrained
  rw [hturn, List.reverse_nil, List.nil_append] at hitems
  rw [Nat.zero_add, ← hitems] at hlast
  refine ⟨xs, t, live, d, _, hrounds, hdrained, hitems, hcalls, hlast, ?_⟩
  intro x hx e hfailure hescape
  obtain ⟨items, hdone⟩ := hescaped x hx e hfailure hescape
  rw [hending _ hdone]

end Run

namespace Sample

/-- Skips failures and has all the functions a configuration can have. Nodes are dropped when the
caller has counted one call. -/
def watchful : Config Nat where
  filter := .given
    { keep := .live fun v n => ⟨.ok v.serial?.isSome, n, []⟩
      drop := .live fun _ n => ⟨.ok (n == 1), n, []⟩
      prune := .live fun v n => ⟨.ok v.serial?.isNone, n, []⟩ }
  policy := .given .skip
  report := .live fun _ _ n => ⟨.ok (), n, []⟩
  progress := .live fun _ n => ⟨.ok (), n, []⟩
  interval := .int 1

theorem watchful_neverFails : watchful.NeverFails where
  prune := fun _ _ => ⟨_, rfl⟩
  drop := fun _ _ => ⟨_, rfl⟩
  keep := fun _ _ => ⟨_, rfl⟩
  report := fun _ _ _ => ⟨_, rfl⟩
  progress := fun _ _ => ⟨_, rfl⟩

end Sample

namespace Run

/-- One node is drawn. The pair is dropped, its rule having just been called for the first time. The
rule fails for the half pair, which is yielded all the same. The name behind it is not looked at. -/
theorem drain_calls_watchful :
    let failure : Fault :=
      .expansion Sample.halfPair (some "Pair") "flaky" (some (.raised .value "flaky"))
    Sample.watchful.check = .ok () ∧ ∃ r xs t live d es,
      start Sample.watchful ⟨Sample.flakyPairs 1, 0⟩ Sample.lopsided = .ok r ∧
        Rounds Sample.watchful r xs t ∧
        drain (next Sample.watchful 4) (some 1) 4 r = ⟨.ok d, { t with live }, es⟩ ∧
        d.items = [Sample.halfPair] ∧ Round.yields xs = [Sample.halfPair] ∧
        xs.flatMap (Round.calls Sample.watchful ⟨Sample.flakyPairs 1, 0⟩) =
          [(.prune, Sample.lopsided), (.rule "Pair", Sample.lopsided), (.drop, Sample.lopsided),
            (.prune, Sample.halfPair), (.rule "Pair", Sample.halfPair),
            (.report failure, Sample.halfPair), (.drop, Sample.halfPair), (.keep, Sample.halfPair),
            (.progress, .int 1)] := by
  intro failure
  obtain ⟨r, hr, -, -, hdrained⟩ := drain_calls Sample.watchful rfl rfl Sample.watchful_neverFails
    ⟨Sample.flakyPairs 1, 0⟩ Sample.lopsided rfl
  obtain ⟨xs, t, live, d, es, hrounds, hd, hitems, hcalls, -⟩ := hdrained 4 (some 1) 4
  have hstart : start Sample.watchful ⟨Sample.flakyPairs 1, 0⟩ Sample.lopsided =
      .ok { toScene := ⟨Sample.flakyPairs 1, 0⟩
            walk := ⟨[Sample.lopsided], Sample.watchful.tests.prune.heeded⟩ } := rfl
  obtain rfl := Except.ok.inj (hstart.symm.trans hr)
  obtain rfl : ⟨[Sample.halfPair], .limit⟩ = d := Except.ok.inj (congrArg Outcome.result hd)
  obtain rfl : _ = es := congrArg Outcome.entries hd
  exact ⟨rfl, _, xs, t, live, _, _, hr, hrounds, hd, rfl, hitems.symm, hcalls.symm⟩

/-- The rule of the torn pair fails, and the one to be told of it is not called: at first because it
counts as false, though the failure is recorded and the pair is yielded; and then, though it counts
as true, because the failure has no text. -/
theorem drain_calls_unheeded :
    let report : Reporter Unit := fun _ _ => pure ()
    let c (truth : Bool) : Config Unit := { policy := .given .skip, report := .live report truth }
    (∀ truth, (c truth).check = .ok () ∧ (c truth).NeverFails) ∧
      ∃ r r', start (c false) ⟨Sample.tornPairs .value, ()⟩ Sample.torn = .ok r ∧
        start (c true) ⟨Sample.failingPairs Sample.mute, ()⟩ Sample.torn = .ok r' ∧
        let unheeded := drain (next (c false) 2) none 2 r
        let mute := drain (next (c true) 2) none 2 r'
        unheeded.result = .ok ⟨[Sample.torn], .stop⟩ ∧
        unheeded.state.tally.incidents = [.of Sample.torn (some "Torn") "torn"] ∧
        unheeded.entries.filterMap Entry.call? = [(.rule "Torn", Sample.torn)] ∧
        mute.result = .ok ⟨[], .fault (.notCallable "int")⟩ ∧
        mute.entries.filterMap Entry.call? = [(.rule "Torn", Sample.torn)] := by
  intro report c
  have hc (truth : Bool) : (c truth).NeverFails :=
    ⟨trivial, trivial, trivial, fun _ _ _ => ⟨(), rfl⟩, trivial⟩
  exact ⟨fun truth => ⟨rfl, hc truth⟩, _, _, rfl, rfl, rfl, rfl, rfl, rfl, rfl⟩

end Run

end RuleWalk
