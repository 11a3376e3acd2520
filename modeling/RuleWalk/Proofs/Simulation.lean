import RuleWalk.Plan
import RuleWalk.Proofs.Act

/-!
# Activities that go side by side

`Act.Simulates R view m m'`: begun in states that `R` relates, `m` and `m'` give the same result,
leave states that `R` relates, and show the same under `view` of what they put on record. It goes
through sequences, attempts and loops, so two lazy sequences that simulate each other request by
request also do so when they are drained.
-/

namespace RuleWalk

/-- The same result, related states, and the same to be seen on record. -/
structure Outcome.Matches {ω κ ρ τ α : Type} (R : ρ → τ → Prop) (view : ω → Option κ)
    (o : Outcome ω ρ α) (o' : Outcome ω τ α) : Prop where
  result : o.result = o'.result
  state : R o.state o'.state
  entries : o.entries.filterMap view = o'.entries.filterMap view

theorem Outcome.Matches.after {ω κ ρ τ α : Type} {R : ρ → τ → Prop} {view : ω → Option κ}
    {o : Outcome ω ρ α} {o' : Outcome ω τ α} (h : o.Matches R view o') {es es' : List ω}
    (hes : es.filterMap view = es'.filterMap view) :
    (o.after es).Matches R view (o'.after es') :=
  ⟨h.result, h.state, by
    rw [Outcome.after, Outcome.after, List.filterMap_append, List.filterMap_append, hes, h.entries]⟩

/-- Where all of it is seen, the same is put on record. -/
theorem Outcome.Matches.entries_eq {ω ρ τ α : Type} {R : ρ → τ → Prop} {o : Outcome ω ρ α}
    {o' : Outcome ω τ α} (h : o.Matches R some o') : o.entries = o'.entries := by
  simpa using h.entries

/-- The view under which what is put on record is not compared. -/
def Entry.unseen (_ : Entry) : Option Unit := none

theorem Outcome.matches_unseen {ρ τ α : Type} {R : ρ → τ → Prop} {o : Outcome Entry ρ α}
    {o' : Outcome Entry τ α} (hresult : o.result = o'.result) (hstate : R o.state o'.state) :
    o.Matches R Entry.unseen o' := by
  have hnone (es : List Entry) : es.filterMap Entry.unseen = [] :=
    List.filterMap_eq_nil_iff.2 fun _ _ => rfl
  exact ⟨hresult, hstate, by rw [hnone, hnone]⟩

namespace Act

variable {ω κ ρ τ α β : Type} {R : ρ → τ → Prop} {view : ω → Option κ}

def Simulates (R : ρ → τ → Prop) (view : ω → Option κ) (m : Act ω ρ α) (m' : Act ω τ α) : Prop :=
  ∀ s t, R s t → (m s).Matches R view (m' t)

theorem simulates_pure (a : α) : Simulates R view (Pure.pure a : Act ω ρ α) (Pure.pure a) :=
  fun _ _ h => ⟨rfl, h, rfl⟩

/-- The second parts need to go side by side only from states that the first parts can leave. -/
theorem matches_bind {m : Act ω ρ α} {m' : Act ω τ α} {f : α → Act ω ρ β} {f' : α → Act ω τ β}
    {s : ρ} {t : τ} (hm : (m s).Matches R view (m' t))
    (hf : ∀ a, (m s).result = .ok a → (f a (m s).state).Matches R view (f' a (m' t).state)) :
    ((m >>= f) s).Matches R view ((m' >>= f') t) := by
  rw [bind_apply, bind_apply, ← hm.result]
  cases hresult : (m s).result with
  | error e => exact ⟨rfl, hm.state, hm.entries⟩
  | ok a => exact (hf a hresult).after hm.entries

theorem Simulates.bind {m : Act ω ρ α} {m' : Act ω τ α} {f : α → Act ω ρ β} {f' : α → Act ω τ β}
    (hm : Simulates R view m m') (hf : ∀ a, Simulates R view (f a) (f' a)) :
    Simulates R view (m >>= f) (m' >>= f') :=
  fun s t h => matches_bind (hm s t h) fun a _ => hf a _ _ (hm s t h).state

theorem Simulates.attempt {m : Act ω ρ α} {m' : Act ω τ α} (h : Simulates R view m m') :
    Simulates R view (attempt m) (attempt m') :=
  fun s t hst => ⟨congrArg Except.ok (h s t hst).result, (h s t hst).state, (h s t hst).entries⟩

/-- Loops go side by side when their bodies do. -/
theorem Simulates.iterate {body : β → Act ω ρ (Turn β α)} {body' : β → Act ω τ (Turn β α)}
    (h : ∀ b, Simulates R view (body b) (body' b)) (fuel : Nat) (b : β) :
    Simulates R view (iterate body fuel b) (iterate body' fuel b) := by
  induction fuel generalizing b with
  | zero => exact simulates_pure _
  | succ fuel ih =>
    rw [iterate_succ, iterate_succ]
    refine (h b).bind fun turn => ?_
    cases turn with
    | again b' => exact ih b'
    | done a => exact simulates_pure _

end Act

theorem Drained.simulates_turn {κ ρ τ : Type} {R : ρ → τ → Prop} {view : Entry → Option κ}
    {next : Act Entry ρ Delivery} {next' : Act Entry τ Delivery}
    (h : Act.Simulates R view next next')
    (limit : Option Nat) (acc : List Value × Nat) :
    Act.Simulates R view (turn next limit acc) (turn next' limit acc) := by
  rw [turn, turn]
  split
  · exact Act.simulates_pure _
  · refine h.attempt.bind fun answer => ?_
    rcases answer with e | v | _ | _ <;> exact Act.simulates_pure _

/-- Sequences that go side by side request by request do so when they are drained. -/
theorem simulates_drain {κ ρ τ : Type} {R : ρ → τ → Prop} {view : Entry → Option κ}
    {next : Act Entry ρ Delivery} {next' : Act Entry τ Delivery}
    (h : Act.Simulates R view next next')
    (limit : Option Nat) (fuel : Nat) :
    Act.Simulates R view (drain next limit fuel) (drain next' limit fuel) := by
  refine (Act.Simulates.iterate (Drained.simulates_turn h limit) fuel _).bind fun turn => ?_
  cases turn <;> exact Act.simulates_pure _

end RuleWalk
