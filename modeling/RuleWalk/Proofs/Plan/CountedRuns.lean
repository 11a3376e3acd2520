import RuleWalk.Proofs.Plan.Independence

/-!
# Runs that share a count

A caller can begin run after run of one plan and ask them for nodes in any order. A `Host` is
whatever serves such calls. `CountedRuns` is the host that keeps the runs apart: each goes on by
itself, without a limit, as if it were alone. All they share is the number of nodes that were given
since the last one began, and a run that is asked when that number has reached the limit is cut off.

So a run among counted runs gives what it gives alone, up to the point where it is cut off
(`answers_eq_alone`). Without a limit it never is. With one, it ends where it should if no other run
begins or is asked in between (`answers_eq_alone_capped`).
-/

namespace RuleWalk

/-! ## Calls -/

/-- What a caller asks for: a new run, or the next node of the run with the number `j`. -/
inductive Call where
  | execute (root : Value)
  | next (j : Nat)

inductive Reply where
  | begun (r : Except Fault Nat)
  | given (j : Nat) (r : Except Fault Delivery)

namespace Reply

/-- What the run with the number `j` answers. -/
def answer? (j : Nat) : Reply → Option (Except Fault Delivery)
  | given i r => if i = j then some r else none
  | begun _ => none

/-- How many nodes there are in an answer. -/
def count : Reply → Nat
  | given _ r => r.toOption.elim 0 Delivery.count
  | begun _ => 0

end Reply

/-- Serves calls. The runs are numbered in the order in which they begin. -/
structure Host (ρ : Type) where
  execute : Value → Act Entry ρ Nat
  next : Nat → Act Entry ρ Delivery

namespace Host

variable {ρ τ : Type} {h : Host ρ} {h' : Host τ} {j : Nat}

def reply (h : Host ρ) (s : ρ) : Call → Reply
  | .execute root => .begun (h.execute root s).result
  | .next j => .given j (h.next j s).result

def move (h : Host ρ) (s : ρ) : Call → ρ
  | .execute root => (h.execute root s).state
  | .next j => (h.next j s).state

/-- The state after the calls were served. -/
def after (h : Host ρ) (calls : List Call) (s : ρ) : ρ := calls.foldl h.move s

def replies (h : Host ρ) : List Call → ρ → List Reply
  | [], _ => []
  | call :: calls, s => h.reply s call :: h.replies calls (h.move s call)

/-- What the run with the number `j` answers, call by call. -/
def answers (h : Host ρ) (j : Nat) (calls : List Call) (s : ρ) : List (Except Fault Delivery) :=
  (h.replies calls s).filterMap (Reply.answer? j)

/-- How many nodes all runs give together. -/
def given (h : Host ρ) (calls : List Call) (s : ρ) : Nat :=
  (h.replies calls s).foldr (fun reply n => reply.count + n) 0

theorem answers_execute (root : Value) (calls : List Call) (s : ρ) :
    h.answers j (.execute root :: calls) s = h.answers j calls (h.execute root s).state := rfl

theorem answers_next (calls : List Call) (s : ρ) :
    h.answers j (.next j :: calls) s =
      (h.next j s).result :: h.answers j calls (h.next j s).state := by
  simp [answers, replies, reply, move, Reply.answer?]

theorem answers_next_ne {i : Nat} (hi : i ≠ j) (calls : List Call) (s : ρ) :
    h.answers j (.next i :: calls) s = h.answers j calls (h.next i s).state := by
  simp [answers, replies, reply, move, Reply.answer?, hi]

/-- Hosts that go side by side call by call give the same replies. -/
theorem replies_eq {R : ρ → τ → Prop}
    (hexecute : ∀ root, Act.Simulates R Entry.unseen (h.execute root) (h'.execute root))
    (hnext : ∀ j, Act.Simulates R Entry.unseen (h.next j) (h'.next j)) (calls : List Call) {s : ρ}
    {t : τ} (hst : R s t) :
    h.replies calls s = h'.replies calls t ∧ R (h.after calls s) (h'.after calls t) := by
  induction calls generalizing s t with
  | nil => exact ⟨rfl, hst⟩
  | cons call calls ih =>
    have hcall : h.reply s call = h'.reply t call ∧ R (h.move s call) (h'.move t call) := by
      cases call with
      | execute root =>
        have hbegun := hexecute root s t hst
        exact ⟨congrArg Reply.begun hbegun.result, hbegun.state⟩
      | next j =>
        have hgiven := hnext j s t hst
        exact ⟨congrArg (Reply.given j) hgiven.result, hgiven.state⟩
    obtain ⟨hreplies, hafter⟩ := ih hcall.2
    exact ⟨congr (congrArg List.cons hcall.1) hreplies, hafter⟩

end Host

/-! ## A run alone -/

/-- Whether another node may be given after `count` of them. -/
def isFree (max : Option Nat) (count : Nat) : Bool := max.all (count < ·)

/-- The configuration with a limit, if one is given. -/
def Config.capped {σ : Type} (c : Config σ) (max : Option Nat) : Config σ := max.elim c c.limited

namespace Run

variable {σ : Type} {c : Config σ} {max : Option Nat} {s t : Run σ}

/-- The answers to the first `k` requests of a run that is alone. -/
def alone (c : Config σ) (fuel : Nat) : Nat → Run σ → List (Except Fault Delivery)
  | 0, _ => []
  | k + 1, t => (next c fuel t).result :: alone c fuel k (next c fuel t).state

/-- A run that has ended gives nothing any more. -/
theorem alone_of_not_live (c : Config σ) (fuel k : Nat) (hlive : t.live = false) :
    alone c fuel k t = List.replicate k (.ok .stop) := by
  induction k with
  | zero => rfl
  | succ k ih => rw [alone, next_of_not_live fuel hlive, ih, List.replicate_succ]

/-- As long as there is room, a limit makes no difference to a request. -/
theorem next_of_free (hc : c.IsUnlimited) (fuel : Nat)
    (hfree : isFree max s.tally.processed = true) : next (c.capped max) fuel s = next c fuel s := by
  cases max with
  | none => rfl
  | some n => exact next_limited hc fuel (by simpa [isFree] using hfree)

/-- At the limit a run is cut off. -/
theorem next_of_full (fuel : Nat) (hfull : isFree max s.tally.processed = false) :
    (next (c.capped max) (fuel + 1) s).result = .ok .stop ∧
      (next (c.capped max) (fuel + 1) s).state = { s with live := false } := by
  cases max with
  | none => cases hfull
  | some n =>
    have hallows : (c.limited n).allows s.tally.processed = .ok false := by
      rw [c.limited_allows]
      exact congrArg Except.ok hfull
    cases hlive : s.live with
    | false =>
      rw [next_of_not_live _ hlive]
      exact ⟨rfl, by rw [← hlive]⟩
    | true =>
      rw [Config.capped, Option.elim, next_of_limit fuel hlive hallows]
      exact ⟨rfl, rfl⟩

end Run

/-! ## Runs with a common count -/

/-- Runs in the order in which they began, and the number of nodes that were given since the last
one did. -/
structure CountedRuns (σ : Type) where
  runs : List (Run σ) := []
  count : Nat := 0

namespace CountedRuns

variable {σ : Type} {c : Config σ} {f : Filter σ} {max : Option Nat} {scene : Scene σ}
  {fuel j : Nat} {b : CountedRuns σ} {t : Run σ}

def execute (c : Config σ) (scene : Scene σ) (root : Value) :
    Act Entry (CountedRuns σ) Nat := fun b =>
  match Run.start c scene root with
  | .ok t => ⟨.ok b.runs.length, ⟨b.runs ++ [t], 0⟩, []⟩
  | .error e => ⟨.error e, b, []⟩

/-- The run goes on by itself, or is cut off when the number of nodes has reached the limit. A run
that has not begun gives nothing. -/
def next (c : Config σ) (max : Option Nat) (fuel j : Nat) :
    Act Entry (CountedRuns σ) Delivery := fun b =>
  match b.runs[j]? with
  | none => ⟨.ok .stop, b, []⟩
  | some t =>
    if isFree max b.count then
      match Run.next c fuel t with
      | ⟨r, t', es⟩ => ⟨r, ⟨b.runs.set j t', b.count + r.toOption.elim 0 Delivery.count⟩, es⟩
    else ⟨.ok .stop, ⟨b.runs.set j { t with live := false }, b.count⟩, []⟩

/-- Runs without a limit, all begun in the same scene, with a limit on the shared count. -/
def host (c : Config σ) (scene : Scene σ) (max : Option Nat) (fuel : Nat) : Host (CountedRuns σ) :=
  ⟨execute c scene, next c max fuel⟩

theorem execute_of_ok {root : Value} (h : Run.start c scene root = .ok t) (b : CountedRuns σ) :
    execute c scene root b = ⟨.ok b.runs.length, ⟨b.runs ++ [t], 0⟩, []⟩ := by
  rw [execute, h]

theorem execute_of_error {root : Value} {e : Fault} (h : Run.start c scene root = .error e)
    (b : CountedRuns σ) : execute c scene root b = ⟨.error e, b, []⟩ := by
  rw [execute, h]

theorem next_of_none (h : b.runs[j]? = none) : next c max fuel j b = ⟨.ok .stop, b, []⟩ := by
  rw [next, h]

theorem next_of_free (h : b.runs[j]? = some t) (hfree : isFree max b.count = true) :
    next c max fuel j b =
      ⟨(Run.next c fuel t).result,
        ⟨b.runs.set j (Run.next c fuel t).state,
          b.count + (Run.next c fuel t).result.toOption.elim 0 Delivery.count⟩,
        (Run.next c fuel t).entries⟩ := by
  rw [next, h]
  exact if_pos hfree

theorem next_of_full (h : b.runs[j]? = some t) (hfull : isFree max b.count = false) :
    next c max fuel j b =
      ⟨.ok .stop, ⟨b.runs.set j { t with live := false }, b.count⟩, []⟩ := by
  rw [next, h]
  exact if_neg (by rw [hfull]; exact Bool.false_ne_true)

/-- A run that has begun keeps its number. -/
theorem getElem?_execute (h : b.runs[j]? = some t) (root : Value) :
    (execute c scene root b).state.runs[j]? = some t := by
  cases hstart : Run.start c scene root with
  | error e => rwa [execute_of_error hstart]
  | ok t' =>
    rw [execute_of_ok hstart]
    exact (List.getElem?_append_left (List.getElem?_eq_some_iff.1 h).1).trans h

theorem getElem?_next_ne {i : Nat} (hi : i ≠ j) :
    (next c max fuel i b).state.runs[j]? = b.runs[j]? := by
  cases h : b.runs[i]? with
  | none => rw [next_of_none h]
  | some t =>
    cases hfree : isFree max b.count with
    | false =>
      rw [next_of_full h hfree]
      exact List.getElem?_set_ne hi
    | true =>
      rw [next_of_free h hfree]
      exact List.getElem?_set_ne hi

/-- The run that was asked is put back in its place. -/
theorem getElem?_set {t' : Run σ} {n : Nat} (h : b.runs[j]? = some t) :
    (mk (b.runs.set j t') n).runs[j]? = some t' :=
  List.getElem?_set_self (List.getElem?_eq_some_iff.1 h).1

/-- In whatever order the calls come, a run gives what it gives alone until it is cut off, and then
nothing. It is never cut off where there is no limit. -/
theorem answers_eq_alone (h : b.runs[j]? = some t) (calls : List Call) :
    ∃ m n, (host c scene max fuel).answers j calls b =
        Run.alone c fuel m t ++ List.replicate n (.ok .stop) ∧ (max = none → n = 0) := by
  induction calls generalizing b t with
  | nil => exact ⟨0, 0, rfl, fun _ => rfl⟩
  | cons call calls ih =>
    cases call with
    | execute root =>
      rw [Host.answers_execute]
      exact ih (getElem?_execute h root)
    | next i =>
      by_cases hi : i = j
      · subst hi
        rw [Host.answers_next]
        cases hfree : isFree max b.count with
        | true =>
          have hnext : (host c scene max fuel).next i b = _ := next_of_free h hfree
          rw [hnext]
          obtain ⟨m, n, hanswers, hn⟩ := ih (getElem?_set h)
          exact ⟨m + 1, n, congrArg _ hanswers, hn⟩
        | false =>
          have hnext : (host c scene max fuel).next i b = _ := next_of_full h hfree
          rw [hnext]
          -- From here on the run has ended, so alone it would give nothing either.
          obtain ⟨m, n, hanswers, -⟩ := ih (getElem?_set h)
          have hended := Run.alone_of_not_live (t := { t with live := false }) c fuel m rfl
          rw [hended, List.replicate_append_replicate] at hanswers
          refine ⟨0, m + n + 1, congrArg _ hanswers, ?_⟩
          rintro rfl
          cases hfree
      · rw [Host.answers_next_ne hi]
        exact ih ((getElem?_next_ne hi).trans h)

/-- A run that is asked again and again, with no other call in between, gives what it gives alone
under the limit. -/
theorem answers_eq_alone_capped (hc : c.Steady f) (hlimit : c.IsUnlimited) (k : Nat)
    (h : b.runs[j]? = some t) (hcount : b.count = t.tally.processed) :
    (host c scene max (fuel + 1)).answers j (List.replicate k (.next j)) b =
      Run.alone (c.capped max) (fuel + 1) k t := by
  induction k generalizing b t with
  | zero => rfl
  | succ k ih =>
    rw [List.replicate_succ, Host.answers_next, Run.alone]
    cases hfree : isFree max b.count with
    | true =>
      have hnext : (host c scene max (fuel + 1)).next j b = _ := next_of_free h hfree
      rw [hnext, Run.next_of_free hlimit _ (hcount ▸ hfree)]
      refine congrArg _ (ih (getElem?_set h) ?_)
      rw [Run.next_counts hc.progress (fuel + 1) t, hcount]
    | false =>
      have hnext : (host c scene max (fuel + 1)).next j b = _ := next_of_full h hfree
      obtain ⟨hresult, hstate⟩ := Run.next_of_full (c := c) fuel (hcount ▸ hfree)
      rw [hnext, hresult, hstate]
      exact congrArg _ (ih (getElem?_set h) hcount)

/-- As long as no run begins, all runs together give no more nodes than the limit has left. -/
theorem given_le {n : Nat} (js : List Nat) (hcount : b.count ≤ n) :
    b.count + (host c scene (some n) fuel).given (js.map .next) b ≤ n := by
  induction js generalizing b with
  | nil => exact hcount
  | cons j js ih =>
    have hgiven : (host c scene (some n) fuel).given ((j :: js).map .next) b =
        ((next c (some n) fuel j b).result.toOption.elim 0 Delivery.count) +
          (host c scene (some n) fuel).given (js.map .next) (next c (some n) fuel j b).state := rfl
    -- One request: what it gives is added to the count, and only below the limit.
    have hstep : (next c (some n) fuel j b).state.count =
        b.count + (next c (some n) fuel j b).result.toOption.elim 0 Delivery.count ∧
        (next c (some n) fuel j b).state.count ≤ n := by
      cases h : b.runs[j]? with
      | none =>
        rw [next_of_none h]
        exact ⟨rfl, hcount⟩
      | some t =>
        cases hfree : isFree (some n) b.count with
        | false =>
          rw [next_of_full h hfree]
          exact ⟨rfl, hcount⟩
        | true =>
          have hlt : b.count < n := by simpa [isFree] using hfree
          rw [next_of_free h hfree]
          refine ⟨rfl, ?_⟩
          rcases (Run.next c fuel t).result with e | _ | _ | _ <;>
            simp only [Except.toOption, Option.elim, Delivery.count] <;> omega
    have hrest := ih hstep.2
    omega

end CountedRuns

end RuleWalk
