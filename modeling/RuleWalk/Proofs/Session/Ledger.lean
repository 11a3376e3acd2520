import RuleWalk.Proofs.Plan.Account
import RuleWalk.Proofs.Session.Plain

/-!
# The books of a plan

A plan counts the nodes of its latest run and keeps the record of its failed expansions. A `Ledger`
is kept by the caller: the nodes that the latest run gave, the faults of its steps, and what the
caller was told about progress. Whatever rules and tests do, and whatever else happens in the
session meanwhile, plan and ledger agree between any two requests, as long as runs that a later one
replaced are left alone. One fault may be missing in the record: one that escaped from an expansion
is not turned into a failed expansion, and then the run has ended with it.
-/

namespace RuleWalk

/-! ## Intervals -/

theorem exists_of_bind_eq_ok {α β : Type} {x : Except Fault α} {f : α → Except Fault β} {b : β}
    (h : (x >>= f) = .ok b) : ∃ a, x = .ok a ∧ f a = .ok b := by
  cases x with
  | error e => cases h
  | ok a => exact ⟨a, rfl, h⟩

/-- A number is compared with a whole number by what it stands for. -/
theorem Value.test_int {v : Value} {x : Quantity} (hv : v.quantity? = some x) (r : Relation)
    (m : Int) : v.test r (.int m) = .ok (r.holdsOf x (.fraction m 1)) := by
  cases v with
  | bool b => cases hv; rfl
  | int n => cases hv; rfl
  | float y => cases hv; rfl
  | _ => cases hv

namespace Config

variable {σ : Type} {c : Config σ} {n : Int}

/-- A whole number is accepted as interval only if it is positive. -/
theorem interval_pos (h : c.check = .ok ())
    (hinterval : c.interval.quantity? = some (.fraction n 1)) : 0 < n := by
  obtain ⟨-, -, hproblems, -⟩ := (check_eq_ok_iff c).mp h
  obtain ⟨atMost, htest, hproblem⟩ := exists_of_bind_eq_ok hproblems
  rw [Value.test_int hinterval] at htest
  cases atMost with
  | true => cases hproblem
  | false =>
    have hgt : compare n 0 = .gt := by
      simpa [Relation.holdsOf, Quantity.compare?, Relation.holds] using htest
    exact Int.compare_eq_gt.1 hgt

/-- The caller is told of the multiples of the interval. -/
theorem ticks_iff (hn : 0 < n) (hinterval : c.interval.quantity? = some (.fraction n 1))
    (count : Nat) : c.ticks count = true ↔ c.progress.isSet = true ∧ n.toNat ∣ count := by
  obtain ⟨k, rfl⟩ := Int.eq_ofNat_of_zero_le (Int.le_of_lt hn)
  rw [ticks, isTick, hinterval, Bool.and_eq_true]
  refine and_congr_right fun _ => ?_
  simp only [Int.natCast_one, Int.mul_one, beq_iff_eq, Int.toNat_natCast]
  exact (Int.dvd_iff_emod_eq_zero.symm).trans Int.natCast_dvd_natCast

end Config

/-- The positive multiples of `n` up to `m`. -/
def multiples (n m : Nat) : List Value :=
  (List.range (m / n)).map fun k => .int ((k + 1) * n : Nat)

theorem multiples_succ (n m : Nat) :
    multiples n (m + 1) = multiples n m ++ if n ∣ m + 1 then [.int (m + 1 : Nat)] else [] := by
  rw [multiples, multiples, Nat.succ_div]
  split
  · next hdvd =>
    have hlast : (m / n + 1) * n = m + 1 := by
      have hdiv := Nat.succ_div (a := m) (b := n)
      rw [if_pos hdvd] at hdiv
      rw [← hdiv]
      exact Nat.div_mul_cancel hdvd
    rw [List.range_succ, List.map_append, List.map_cons, hlast]
    rfl
  · simp

/-- What is told goes on from the multiples up to `m` to those up to the number of the node that is
given, if one is. -/
theorem Announced.multiples_append {told : Bool} {k m : Nat} {new : List Value} {es : List Entry}
    (h : Announced (told = true ∧ new ≠ [] ∧ k ∣ m + 1) (m + 1) es) (hnew : new.length ≤ 1) :
    (if told then multiples k m else []) ++ es.filterMap Entry.tick? =
      if told then multiples k (m + new.length) else [] := by
  cases told with
  | false => exact h.silent fun hdue => absurd hdue.1 Bool.false_ne_true
  | true =>
    simp only [if_true]
    match new with
    | [] =>
      rw [h.silent fun hdue => hdue.2.1 rfl, List.append_nil]
      rfl
    | [v] =>
      rw [List.length_singleton, multiples_succ]
      by_cases hdvd : k ∣ m + 1
      · obtain ⟨before, remarks, hbefore, rfl⟩ := h.last ⟨rfl, by simp, hdvd⟩
        rw [if_pos hdvd, List.filterMap_append, hbefore]
        rfl
      · rw [if_neg hdvd, h.silent fun hdue => hdvd hdue.2.2]
    | _ :: _ :: _ => simp at hnew

/-! ## Ledgers -/

/-- The node that an answer gives, if it gives one. -/
def Delivery.nodes : Except Fault Delivery → List Value
  | .ok (.node v) => [v]
  | _ => []

theorem Delivery.length_nodes (answer : Except Fault Delivery) :
    (nodes answer).length = answer.toOption.elim 0 Delivery.count := by
  rcases answer with e | v | _ | _ <;> rfl

/-- The faults of the steps that a request to a run of a plan takes, from first to last. -/
def Session.mishaps {σ : Type} (i fuel : Nat) (s : Session σ) : List Fault :=
  match s.cursor i with
  | .run p w live => Run.mishaps (s.plan p).config fuel (s.run p w live)
  | _ => []

/-- A session, and what is known of the latest run of a plan: its number, the nodes it gave, the
faults of its steps, and what was told about progress, each from first to last. -/
structure Ledger (σ : Type) where
  session : Session σ
  latest : Option Nat := none
  nodes : List Value := []
  mishaps : List Fault := []
  ticks : List Value := []

namespace Ledger

variable {σ : Type} {p : Nat} {c : Config σ} {n : Int} {h : Ledger σ}

/-- Begins a run of the plan. If the root is refused, the latest run stays the latest. -/
def execute (p : Nat) (root : Value) (h : Ledger σ) : Ledger σ :=
  match h.session.execute p root with
  | ⟨.ok i, s, _⟩ => { session := s, latest := some i }
  | ⟨.error _, s, _⟩ => { h with session := s }

/-- Asks the latest run for a node. -/
def ask (fuel : Nat) (h : Ledger σ) : Ledger σ :=
  match h.latest with
  | none => h
  | some i =>
    let o := Session.next i fuel h.session
    { h with
      session := o.state
      nodes := h.nodes ++ Delivery.nodes o.result
      mishaps := h.mishaps ++ h.session.mishaps i fuel
      ticks := h.ticks ++ o.entries.filterMap Entry.tick? }

/-- From one session to the next, the plan and its latest run were left alone. -/
structure Spares (p : Nat) (latest : Option Nat) (s s' : Session σ) : Prop where
  plan : s'.plans[p]? = s.plans[p]?
  cursor : ∀ i, latest = some i → s'.cursors[i]? = s.cursors[i]?

/-- The ledgers that can be reached: runs of the plan are begun, the latest one is asked, and
anything may happen in the session that leaves both alone. -/
inductive Reached (p : Nat) (s : Session σ) : Ledger σ → Prop where
  | opened : Reached p s { session := s }
  | execute {h : Ledger σ} (hr : Reached p s h) (root : Value) : Reached p s (h.execute p root)
  | ask {h : Ledger σ} (hr : Reached p s h) (fuel : Nat) : Reached p s (h.ask fuel)
  | elsewhere {h : Ledger σ} (hr : Reached p s h) {s' : Session σ}
      (hs : Spares p h.latest h.session s') : Reached p s { h with session := s' }

/-- The books of the plan and the ledger agree. -/
structure Balanced (p : Nat) (c : Config σ) (n : Int) (h : Ledger σ) : Prop where
  plan_lt : p < h.session.plans.size
  config : (h.session.plan p).config = c
  latest : ∀ i, h.latest = some i → ∃ w live, h.session.cursor i = .run p w live
  processed : (h.session.plan p).tally.processed = h.nodes.length
  incidents : (h.session.plan p).tally.incidents =
    (h.mishaps.filterMap Fault.incident?).reverse
  ticks : h.ticks = if c.progress.isSet then multiples n.toNat h.nodes.length else []

/-- A request to the latest run is a request to a run of the configuration, with the books of the
plan. -/
theorem Balanced.next_eq (hb : Balanced p c n h) {i : Nat} (hi : h.latest = some i) (fuel : Nat) :
    ∃ t : Run σ, t.toScene = h.session.scene (h.session.plan p).registry ∧
      t.tally = (h.session.plan p).tally ∧ h.session.mishaps i fuel = Run.mishaps c fuel t ∧
      Session.next i fuel h.session =
        ⟨(Run.next c fuel t).result, h.session.store i p (.run p) (Run.next c fuel t).state,
          (Run.next c fuel t).entries⟩ ∧ i < h.session.cursors.size := by
  obtain ⟨w, live, hcursor⟩ := hb.latest i hi
  refine ⟨h.session.run p w live, rfl, rfl, ?_, ?_, ?_⟩
  · rw [Session.mishaps, hcursor]
    simp only [hb.config]
  · rw [Session.next, hcursor]
    simp only [Session.onRun_apply, hb.config]
  · apply Classical.byContradiction
    intro hlt
    rw [Session.cursor, Array.getElem?_eq_none (Nat.not_lt.1 hlt)] at hcursor
    cases hcursor

/-- The caller is told of progress exactly when a node is given whose number is a multiple of the
interval, and that is the last thing to happen before the node is given. -/
theorem Balanced.announced (hb : Balanced p c n h) (hn : 0 < n)
    (hinterval : c.interval.quantity? = some (.fraction n 1))
    (hprogress : c.progress.All fun f => ∀ count, Act.NeverFails (f count)) {i : Nat}
    (hi : h.latest = some i) (fuel : Nat) :
    Announced
      (c.progress.isSet = true ∧ Delivery.nodes (Session.next i fuel h.session).result ≠ [] ∧
        n.toNat ∣ h.nodes.length + 1)
      (h.nodes.length + 1) (Session.next i fuel h.session).entries := by
  obtain ⟨t, -, htally, -, hnext, -⟩ := hb.next_eq hi fuel
  have hbooks := (Run.next_books hprogress fuel t).announced
  rw [htally, hb.processed] at hbooks
  rw [hnext]
  refine hbooks.congr ?_
  rw [Config.ticks_iff hn hinterval, ← Delivery.length_nodes, Ne, List.length_eq_zero_iff]
  exact and_left_comm

/-- A fault that is no failed expansion leaves the request, and the run has ended. Where kinds can
be read, it escaped from an expansion. -/
theorem Balanced.escaped (hb : Balanced p c n h) {i : Nat} (hi : h.latest = some i) {fuel : Nat}
    {e : Fault} (hmem : e ∈ h.session.mishaps i fuel) (he : e.isExpansion = false) :
    let o := Session.next i fuel h.session
    o.result = .error e.leaving ∧ Session.IsOver i o.state ∧
      ((h.session.registry (h.session.plan p).registry).HasTextField →
        ∃ cause : Fault, cause.escape? = some e) := by
  intro o
  obtain ⟨t, hscene, -, hmishaps, hnext, hlt⟩ := hb.next_eq hi fuel
  rw [hmishaps] at hmem
  obtain ⟨hresult, hdead, hescape⟩ := Run.next_of_mem_mishaps hmem he
  have hregistry : t.registry = h.session.registry (h.session.plan p).registry :=
    congrArg Scene.registry hscene
  have ho : o = _ := hnext
  rw [ho]
  refine ⟨hresult, ?_, hregistry ▸ hescape⟩
  have hcursor := Session.cursor_store (p := p) (.run p) (Run.next c fuel t).state hlt
  rw [hdead] at hcursor
  exact Session.isOver_of_not_live hcursor

/-- Asking the latest run keeps the books. -/
theorem Balanced.ask (hb : Balanced p c n h) (hn : 0 < n)
    (hinterval : c.interval.quantity? = some (.fraction n 1))
    (hprogress : c.progress.All fun f => ∀ count, Act.NeverFails (f count)) (fuel : Nat) :
    Balanced p c n (h.ask fuel) := by
  unfold Ledger.ask
  split
  · exact hb
  · next i hi =>
    have hannounced := hb.announced hn hinterval hprogress hi fuel
    obtain ⟨t, -, htally, hmishaps, hnext, hlt⟩ := hb.next_eq hi fuel
    have hbooks := Run.next_books hprogress fuel t
    have hcounts := Run.next_counts hprogress fuel t
    rw [hnext] at hannounced ⊢
    have hplan := Session.plan_store (i := i) (.run p) (Run.next c fuel t).state hb.plan_lt
    constructor
    case plan_lt => simpa using hb.plan_lt
    case config => rw [hplan]; exact hb.config
    case latest =>
      intro j hj
      cases hi.symm.trans hj
      exact ⟨_, _, Session.cursor_store (.run p) _ hlt⟩
    case processed =>
      rw [hplan, List.length_append, Delivery.length_nodes, ← hb.processed, ← htally]
      exact hcounts
    case incidents =>
      rw [hplan, hmishaps, List.filterMap_append, List.reverse_append, ← hb.incidents, ← htally]
      exact hbooks.incidents
    case ticks =>
      have hlength : (Delivery.nodes (Run.next c fuel t).result).length ≤ 1 := by
        rcases (Run.next c fuel t).result with e | v | _ | _ <;> simp [Delivery.nodes]
      rw [hb.ticks, List.length_append]
      exact hannounced.multiples_append hlength

/-- Beginning a run starts new books, unless its root is refused. -/
theorem Balanced.execute (hb : Balanced p c n h) (root : Value) :
    Balanced p c n (h.execute p root) := by
  cases hstart : Run.start (h.session.plan p).config
      (h.session.scene (h.session.plan p).registry) root with
  | error e =>
    rw [Ledger.execute, Session.execute_of_error hstart]
    exact hb
  | ok t =>
    have hplan := Session.plan_begun hb.plan_lt t.walk
    rw [Ledger.execute, Session.execute_of_ok hstart]
    constructor
    case plan_lt => simpa [Session.begun, Session.putPlan] using hb.plan_lt
    case config => rw [hplan]; exact hb.config
    case latest =>
      rintro i ⟨⟩
      exact ⟨_, _, Session.cursor_begun_self t.walk⟩
    case processed => rw [hplan]; rfl
    case incidents => rw [hplan]; rfl
    case ticks => cases c.progress.isSet <;> simp [multiples]

/-- What happens elsewhere does not touch the books. -/
theorem Balanced.elsewhere (hb : Balanced p c n h) {s : Session σ}
    (hs : Spares p h.latest h.session s) : Balanced p c n { h with session := s } := by
  have hplan : s.plan p = h.session.plan p := by rw [Session.plan, Session.plan, hs.plan]
  constructor
  case plan_lt =>
    have hlt := Array.getElem?_eq_getElem hb.plan_lt
    rw [← hs.plan] at hlt
    exact (Array.getElem?_eq_some_iff.1 hlt).1
  case config => rw [hplan]; exact hb.config
  case latest =>
    intro i hi
    obtain ⟨w, live, hcursor⟩ := hb.latest i hi
    exact ⟨w, live, by rw [Session.cursor, hs.cursor i hi]; exact hcursor⟩
  case processed => rw [hplan]; exact hb.processed
  case incidents => rw [hplan]; exact hb.incidents
  case ticks => exact hb.ticks

theorem Balanced.reached {s : Session σ} (hn : 0 < n)
    (hinterval : c.interval.quantity? = some (.fraction n 1))
    (hprogress : c.progress.All fun f => ∀ count, Act.NeverFails (f count))
    (hs : Balanced p c n { session := s }) (hr : Reached p s h) : Balanced p c n h := by
  induction hr with
  | opened => exact hs
  | execute hr root ih => exact ih.execute root
  | ask hr fuel ih => exact ih.ask hn hinterval hprogress fuel
  | elsewhere hr hspares ih => exact ih.elsewhere hspares

/-- A plan that was made has an accepted configuration, and nothing in its books. -/
theorem balanced_makePlan {registry : Option Nat} {s : Session σ}
    (hplan : (Session.makePlan c registry s).result = .ok p) :
    c.check = .ok () ∧ Balanced p c n { session := (Session.makePlan c registry s).state } := by
  have hmake : Session.makePlan c registry s = (Act.ofExcept c.check >>= fun _ =>
      Session.addPlan { config := c, registry := s.target registry }) (s.settled registry) := by
    rw [Session.makePlan, Act.bind_of_ok (Session.registryOr_eq registry s)]
    rfl
  rw [hmake] at hplan ⊢
  cases hcheck : c.check with
  | error e =>
    rw [hcheck, Act.ofExcept_error_bind] at hplan
    cases hplan
  | ok u =>
    rw [hcheck, Act.ofExcept_ok_bind] at hplan
    cases hplan
    rw [Act.ofExcept_ok_bind]
    refine ⟨rfl, ?_, ?_, ?_, ?_, ?_, ?_⟩
    · simp [Session.addPlan]
    · simp [Session.addPlan, Session.plan]
    · rintro i ⟨⟩
    · simp [Session.addPlan, Session.plan]
    · simp [Session.addPlan, Session.plan]
    · cases c.progress.isSet <;> simp [multiples]

/-- Whatever rules and tests do, and whatever happens elsewhere in the session, between any two
requests the plan has counted the nodes that its latest run gave, and has recorded the failed
expansions of that run, in order. A step with any other fault is not recorded: that fault, which
escaped from an expansion, leaves the request, and the run has ended. A caller whose callback counts
as true was told of the multiples of the interval up to that count, of each as the last thing before
the node of that number was given. A run whose root is refused changes nothing. The interval itself
is never zero. -/
theorem reached_balanced (c : Config σ) (registry : Option Nat) (s : Session σ) {p : Nat} {n : Int}
    (hplan : (Session.makePlan c registry s).result = .ok p)
    (hinterval : c.interval.quantity? = some (.fraction n 1))
    (hprogress : c.progress.All fun f => ∀ count, Act.NeverFails (f count)) :
    0 < n ∧ ∀ h, Reached p (Session.makePlan c registry s).state h →
      let plan := h.session.plan p
      plan.tally.processed = h.nodes.length ∧
        plan.incidents plan.currentLog = h.mishaps.filterMap Fault.incident? ∧
        h.ticks = (if c.progress.isSet then multiples n.toNat h.nodes.length else []) ∧
        (∀ i fuel, h.latest = some i →
          let o := Session.next i fuel h.session
          Announced (c.progress.isSet = true ∧ Delivery.nodes o.result ≠ [] ∧
            n.toNat ∣ h.nodes.length + 1) (h.nodes.length + 1) o.entries ∧
          ∀ e ∈ h.session.mishaps i fuel, e.isExpansion = false →
            o.result = .error e.leaving ∧ Session.IsOver i o.state ∧
            ((h.session.registry plan.registry).HasTextField →
              ∃ cause : Fault, cause.escape? = some e)) ∧
        ∀ root e, (h.session.execute p root).result = .error e →
          (h.session.execute p root).state = h.session := by
  obtain ⟨hcheck, hopened⟩ := balanced_makePlan (n := n) hplan
  have hn := Config.interval_pos hcheck hinterval
  refine ⟨hn, fun h hr => ?_⟩
  have hb := hopened.reached hn hinterval hprogress hr
  refine ⟨hb.processed, ?_, hb.ticks, fun i fuel hi => ⟨?_, fun e hmem he => ?_⟩,
    fun root e he => ?_⟩
  · rw [Plan.incidents, if_pos rfl, hb.incidents, List.reverse_reverse]
  · exact hb.announced hn hinterval hprogress hi fuel
  · exact hb.escaped hi hmem he
  · cases hstart : Run.start (h.session.plan p).config
        (h.session.scene (h.session.plan p).registry) root with
    | error e => rw [Session.execute_of_error hstart]
    | ok t =>
      rw [Session.execute_of_ok hstart] at he
      cases he

end Ledger

namespace Sample

/-- Failures are skipped, and the caller is told of every second node. -/
def paced : Config Nat :=
  { policy := .given .skip, progress := .live fun _ => pure (), interval := .int 2 }

/-- A plan of this kind is made. The rule of pairs fails when it is called a second time. -/
def pacedPlan : Outcome Entry (Session Nat) Nat :=
  Session.makePlan paced (some 0) { registries := .ofList [flakyPairs 1], user := 0 }

/-- The ledger after a run is begun and gives two nodes. -/
def pacedLedger : Ledger Nat :=
  (((⟨pacedPlan.state, none, [], [], []⟩ : Ledger Nat).execute 0 lopsided).ask 1).ask 1

end Sample

/-- The second node is given though its expansion failed, and the caller is told of it. -/
theorem Ledger.reached_balanced_paced :
    let h := Sample.pacedLedger
    Sample.pacedPlan.result = .ok 0 ∧ Reached 0 Sample.pacedPlan.state h ∧ h.nodes.length = 2 ∧
      (h.mishaps.filterMap Fault.incident?).length = 1 ∧
      (h.session.plan 0).tally.processed = 2 ∧
      (h.session.plan 0).tally.incidents.length = 1 ∧ h.ticks = [.int 2] := by
  intro h
  have hplan : Sample.pacedPlan.result = .ok 0 := rfl
  have hreached : Reached 0 Sample.pacedPlan.state h :=
    ((Reached.opened.execute Sample.lopsided).ask 1).ask 1
  have hnodes : Sample.pacedLedger.nodes.length = 2 := by decide +kernel
  have hfailures : (Sample.pacedLedger.mishaps.filterMap Fault.incident?).length = 1 := by
    decide +kernel
  obtain ⟨-, hbooks⟩ := reached_balanced Sample.paced (some 0)
    { registries := .ofList [Sample.flakyPairs 1], user := 0 } (n := 2) hplan rfl
    fun _ _ => ⟨(), rfl⟩
  obtain ⟨hprocessed, hincidents, hticks, -⟩ := hbooks h hreached
  refine ⟨hplan, hreached, hnodes, hfailures, hprocessed.trans hnodes, ?_, ?_⟩
  · rw [Plan.incidents, if_pos rfl] at hincidents
    rw [← List.length_reverse, hincidents, hfailures]
  · rw [hticks, hnodes]
    rfl

namespace Sample

/-- Failures are skipped, but the test for pruning is interrupted. -/
def interrupted : Config Unit :=
  { filter := .given { prune := .live fun _ => .fail (.raised .interrupt "torn") }
    policy := .given .skip }

/-- The caller would be told of every node, but by a function that counts as false. -/
def hushed : Config Unit := { progress := .live (fun _ => pure ()) false, interval := .int 1 }

/-- The ledger after a run of a plan for the configuration is begun and asked once. -/
def askedOnce (c : Config Unit) : Ledger Unit :=
  ((⟨(Session.makePlan c (some 0) { registries := .ofList [pairs], user := () }).state,
    none, [], [], []⟩ : Ledger Unit).execute 0 halfPair).ask 1

end Sample

/-- An interruption is not recorded, though the expansion of the first node failed with it; and a
function that counts as false is not told of the first node, though each is due. -/
theorem Ledger.reached_unrecorded :
    let s : Session Unit := { registries := .ofList [Sample.pairs], user := () }
    let start (c : Config Unit) := Session.makePlan c (some 0) s
    let h := Sample.askedOnce Sample.interrupted
    let h' := Sample.askedOnce Sample.hushed
    (start Sample.interrupted).result = .ok 0 ∧ Reached 0 (start Sample.interrupted).state h ∧
      (start Sample.hushed).result = .ok 0 ∧ Reached 0 (start Sample.hushed).state h' ∧
      h.mishaps = [.raised .interrupt "torn"] ∧ (h.session.plan 0).tally.incidents = [] ∧
      h'.nodes = [Sample.halfPair] ∧ h'.ticks = [] :=
  ⟨rfl, (Reached.opened.execute Sample.halfPair).ask 1, rfl,
    (Reached.opened.execute Sample.halfPair).ask 1, rfl, rfl, rfl, rfl⟩

end RuleWalk
