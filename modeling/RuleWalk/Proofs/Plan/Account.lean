import RuleWalk.Proofs.Plan.Independence
import RuleWalk.Proofs.Plan.Ruling

/-!
# What a request leaves behind

Rules and tests may do what they like here, and may fail. As long as the callback for progress does
not fail, each beat of a run leaves the same trail: one incident if the step of the walk failed with
a failed expansion, and a call of the callback as the very last thing before a node is yielded whose
number is due. `next_books` puts the beats of a request together. A step that fails with any other
fault leaves no incident; that fault leaves the request (`next_of_mem_mishaps`).
-/

namespace RuleWalk

/-- What the caller is told about progress. -/
def Entry.tick? : Entry → Option Value
  | .call .progress v _ => some v
  | _ => none

theorem Entry.tick?_of_isInquiry (e : Entry) (h : e.isInquiry = true) : e.tick? = none := by
  cases e with
  | log record => rfl
  | call role subject remarks =>
    cases role with
    | progress => cases h
    | _ => rfl

/-! ## Announcements -/

/-- If it is due, the last entry tells the caller `count`. No other entry tells of progress. -/
structure Announced (due : Prop) (count : Nat) (es : List Entry) : Prop where
  last : due → ∃ before remarks, before.filterMap Entry.tick? = [] ∧
    es = before ++ [.call .progress (.int count) remarks]
  silent : ¬due → es.filterMap Entry.tick? = []

namespace Announced

variable {due due' : Prop} {count : Nat} {es es' : List Entry}

theorem of_not_due (h : ¬due) (hes : es.filterMap Entry.tick? = []) : Announced due count es :=
  ⟨fun hdue => absurd hdue h, fun _ => hes⟩

/-- What went before told of no progress. -/
theorem append (hes : es.filterMap Entry.tick? = []) (h : Announced due count es') :
    Announced due count (es ++ es') := by
  refine ⟨fun hdue => ?_, fun hdue => ?_⟩
  · obtain ⟨before, remarks, hbefore, rfl⟩ := h.last hdue
    exact ⟨es ++ before, remarks, by rw [List.filterMap_append, hes, hbefore]; rfl, by simp⟩
  · rw [List.filterMap_append, hes, h.silent hdue]
    rfl

theorem congr (hdue : due ↔ due') (h : Announced due count es) : Announced due' count es :=
  ⟨fun h' => h.last (hdue.2 h'), fun h' => h.silent fun hd => h' (hdue.1 hd)⟩

theorem ticks [Decidable due] (h : Announced due count es) :
    es.filterMap Entry.tick? = if due then [.int count] else [] := by
  split
  · next hdue =>
    obtain ⟨before, remarks, hbefore, rfl⟩ := h.last hdue
    rw [List.filterMap_append, hbefore]
    rfl
  · next hdue => exact h.silent hdue

end Announced

/-- Whether the caller is told of progress at a count. -/
def Config.ticks {σ : Type} (c : Config σ) (count : Nat) : Bool :=
  c.progress.isSet && c.isTick count

namespace Run

variable {σ α : Type} {c : Config σ} {s : Run σ}

theorem reportProgress_announced (hc : c.progress.All fun p => ∀ count, Act.NeverFails (p count))
    (count : Nat) (s : Run σ) :
    Announced (c.ticks count = true) count (reportProgress c count s).entries := by
  unfold reportProgress Config.ticks
  split
  · next hset =>
    refine ⟨fun _ => ?_, fun h => absurd hset h⟩
    cases hprogress : c.progress with
    | absent => simp [hprogress, Hook.isSet] at hset
    | inert v => exact (hprogress ▸ hc).elim
    | live p truth => exact ⟨[], _, rfl, rfl⟩
  · next hset => exact .of_not_due hset rfl

theorem recordFailure_hides (c : Config σ) (i : Incident) (e : Fault) :
    Act.Hides Entry.tick? (recordFailure c i e) := by
  refine (Act.hides_modify _).bind fun _ => ?_
  split
  · exact (Hook.call_hides (fun _ => rfl) _ c.report).zoom _ _
  · exact Act.hides_pure ()

/-! ## The trail of a beat -/

/-- What is left by an activity that began at `s`: the incidents `failed` were added, from first to
last, and the caller was told of progress if a node was given whose number is due. -/
structure Books (c : Config σ) (weight : α → Nat) (failed : List Incident) (s : Run σ)
    (o : Outcome Entry (Run σ) α) : Prop where
  incidents : o.state.tally.incidents = failed.reverse ++ s.tally.incidents
  announced : Announced
    (o.result.toOption.elim 0 weight ≠ 0 ∧ c.ticks (s.tally.processed + 1) = true)
    (s.tally.processed + 1) o.entries

/-- Nothing was given and the caller was told nothing. -/
theorem Books.of_nothing {weight : α → Nat} {failed : List Incident} {o : Outcome Entry (Run σ) α}
    (hincidents : o.state.tally.incidents = failed.reverse ++ s.tally.incidents)
    (hresult : o.result.toOption.elim 0 weight = 0)
    (hentries : o.entries.filterMap Entry.tick? = []) : Books c weight failed s o :=
  ⟨hincidents, .of_not_due (fun h => h.1 hresult) hentries⟩

/-- Offering a node adds no incident. -/
theorem offer_books (hc : c.progress.All fun p => ∀ count, Act.NeverFails (p count)) (v : Value)
    (s : Run σ) : Books c Beat.count [] s (offer c v s) := by
  cases hkind : s.registry.kindOf v with
  | error e =>
    rw [offer_of_kind_error hkind]
    exact .of_nothing rfl rfl rfl
  | ok kind =>
    have hhides : Act.Hides Entry.tick? (onUser (c.admits v (kindValue kind)) :
        Act Entry (Run σ) Bool) :=
      (c.admits_hides Entry.tick?_of_isInquiry v (kindValue kind)).zoom _ _
    have hentries := hhides s
    rcases htold : onUser (c.admits v (kindValue kind)) s with ⟨e | _ | _, s', es⟩ <;>
      rw [htold] at hentries <;> obtain ⟨user, rfl⟩ := eq_of_onUser htold
    · rw [offer_of_error hkind htold]
      exact .of_nothing rfl rfl hentries
    · rw [offer_of_false hkind htold]
      exact .of_nothing rfl rfl hentries
    · rw [offer_of_true hkind htold]
      dsimp only
      generalize hs' : ({ s with user, tally := _ } : Run σ) = s'
      obtain ⟨user', hstate⟩ := reportProgress_state c (s.tally.processed + 1) s'
      have hannounced := reportProgress_announced hc (s.tally.processed + 1) s'
      refine ⟨?_, (Announced.append hentries hannounced).congr ?_⟩
      · rw [hstate, ← hs']
        rfl
      · rw [reportProgress_result hc]
        exact ⟨fun h => ⟨Nat.one_ne_zero, h⟩, fun h => h.2⟩

/-- Recovering from a fault adds what is recorded of it. -/
theorem recover_books (hc : c.progress.All fun p => ∀ count, Act.NeverFails (p count)) (e : Fault)
    (s : Run σ) : Books c Beat.count e.incident?.toList s (recover c e s) := by
  cases e with
  | expansion v kind detail cause =>
    have hentries := recordFailure_hides c (.of v kind detail) (.expansion v kind detail cause) s
    obtain ⟨user, hstate⟩ :=
      recordFailure_state c (.of v kind detail) (.expansion v kind detail cause) s
    rcases h : recordFailure c (.of v kind detail) (.expansion v kind detail cause) s with
      ⟨e | _, s', es⟩ <;> rw [h] at hentries hstate
    · rw [recover_of_error h]
      exact .of_nothing (by rw [hstate]; rfl) rfl hentries
    · by_cases hpolicy : c.policy = .given .raise
      · rw [recover_of_raise hpolicy h]
        exact .of_nothing (by rw [hstate]; rfl) rfl hentries
      · have hoffer := offer_books hc v s'
        rw [recover_of_skip hpolicy h]
        subst hstate
        refine ⟨hoffer.incidents, hoffer.announced.append ?_⟩
        rw [List.filterMap_append, hentries]
        rfl
  | _ => exact .of_nothing rfl rfl rfl

/-- The fault of a beat: the limit allowed a step of the walk, and the step failed. -/
def mishap? (c : Config σ) (s : Run σ) : Option Fault :=
  match c.allows s.tally.processed, (Walk.step s.toStage).result with
  | .ok true, .error e => some e
  | _, _ => none

theorem beat_books (hc : c.progress.All fun p => ∀ count, Act.NeverFails (p count)) (s : Run σ) :
    Books c Beat.count ((mishap? c s).toList.filterMap Fault.incident?) s (beat c s) := by
  unfold mishap?
  rcases hallows : c.allows s.tally.processed with e | _ | _
  · have hbeat : beat c s = ⟨.error e, s, []⟩ := by
      rw [beat, Act.get_bind, hallows, Act.ofExcept_error_bind]
    rw [hbeat]
    exact .of_nothing rfl rfl rfl
  · rw [beat_of_limit hallows]
    refine .of_nothing rfl rfl ?_
    dsimp only
    split <;> rfl
  · have hentries : (onStage Walk.step s).entries.filterMap Entry.tick? = [] :=
      Walk.step_hides Entry.tick?_of_isInquiry s.toStage
    rw [beat_of_allows hallows, pop, Act.attempt_bind]
    have hresult : (onStage Walk.step s).result = (Walk.step s.toStage).result := rfl
    rw [hresult]
    rcases (Walk.step s.toStage).result with e | _ | v
    · have hrecover := recover_books hc e (onStage Walk.step s).state
      have hincident : [e].filterMap Fault.incident? = e.incident?.toList := by
        cases h : e.incident? <;> simp [h]
      rw [Option.toList_some, hincident]
      exact ⟨hrecover.incidents, hrecover.announced.append hentries⟩
    · exact .of_nothing rfl rfl (by simpa [Outcome.after] using hentries)
    · have hoffer := offer_books hc v (onStage Walk.step s).state
      exact ⟨hoffer.incidents, hoffer.announced.append hentries⟩

/-- A fault that is no failed expansion ends the beat. -/
theorem beat_of_mishap? {e : Fault} (h : mishap? c s = some e) (he : e.isExpansion = false) :
    (beat c s).result = .error e := by
  unfold mishap? at h
  split at h
  · next e' hallows hstep =>
    cases h
    have hresult : (onStage Walk.step s).result = .error e := hstep
    rw [beat_of_allows hallows, pop, Act.attempt_bind, Outcome.after_result, hresult]
    simp only [recover_of_isExpansion he]
  · cases h

/-- Where kinds can be read, a fault that is no failed expansion escaped from one. -/
theorem exists_escape?_of_mishap? {e : Fault} (hfield : s.registry.HasTextField)
    (h : mishap? c s = some e) (he : e.isExpansion = false) :
    ∃ cause : Fault, cause.escape? = some e := by
  unfold mishap? at h
  split at h
  · next e' _ hstep =>
    cases h
    cases hfringe : s.walk.fringe with
    | nil =>
      rw [Walk.step_nil hfringe] at hstep
      cases hstep
    | cons v rest =>
      obtain ⟨kind, hkind⟩ := hfield.kindOf v
      have hkind' := ((Walk.expand_alike s.walk.prune v s.toScene).kindOf v).trans hkind
      rw [Walk.step_cons hfringe] at hstep
      cases hexpand : (Walk.expand s.walk.prune v s.toScene).result with
      | ok slots =>
        rw [hexpand] at hstep
        cases hstep
      | error cause =>
        rw [hexpand] at hstep
        have hfault := (Walk.stepFault_of_kindOf hkind' cause).symm.trans (Except.error.inj hstep)
        cases hescape : cause.escape? with
        | none =>
          rw [hescape] at hfault
          subst hfault
          cases he
        | some e' =>
          rw [hescape] at hfault
          exact ⟨cause, hescape.trans (congrArg some hfault)⟩
  · cases h

/-! ## The trail of a request -/

/-- The faults of a request, from first to last: those of its beats, and the request goes on after a
beat only if a node was passed over. -/
def mishaps (c : Config σ) : Nat → Run σ → List Fault
  | 0, _ => []
  | fuel + 1, s =>
    if s.live then
      (mishap? c s).toList ++
        match (beat c s).result with
        | .ok .passed => mishaps c fuel (beat c s).state
        | _ => []
    else []

theorem mishaps_of_not_live (fuel : Nat) (h : s.live = false) : mishaps c fuel s = [] := by
  cases fuel with
  | zero => rfl
  | succ fuel => rw [mishaps, h]; rfl

/-- A request records the failed expansions it met, and tells of progress only if it gives a node
whose number is due. -/
theorem next_books (hc : c.progress.All fun p => ∀ count, Act.NeverFails (p count)) (fuel : Nat)
    (s : Run σ) :
    Books c Delivery.count ((mishaps c fuel s).filterMap Fault.incident?) s (next c fuel s) := by
  induction fuel generalizing s with
  | zero =>
    have hnext : (next c 0 s).state.tally = s.tally ∧ (next c 0 s).entries = [] ∧
        (next c 0 s).result.toOption.elim 0 Delivery.count = 0 := by
      rw [next, Act.iterate_zero]
      cases s.live <;> exact ⟨rfl, rfl, rfl⟩
    obtain ⟨htally, hentries, hresult⟩ := hnext
    exact .of_nothing (by rw [htally]; rfl) hresult (by rw [hentries]; rfl)
  | succ fuel ih =>
    cases hlive : s.live with
    | false =>
      rw [next_of_not_live _ hlive, mishaps_of_not_live _ hlive]
      exact .of_nothing rfl rfl rfl
    | true =>
      have hbeat := beat_books hc s
      have hcount := beat_counts hc s
      have hlive' := beat_live c s
      rw [mishaps, hlive, if_pos rfl]
      rcases h : beat c s with ⟨e | v | _ | _, s', es⟩ <;> rw [h] at hbeat hcount hlive' <;>
        dsimp only
      · rw [next_of_error fuel hlive h, List.append_nil]
        exact ⟨hbeat.incidents, hbeat.announced⟩
      · rw [next_of_yielded fuel hlive h, List.append_nil]
        exact ⟨hbeat.incidents, hbeat.announced⟩
      · have hpassed : s'.tally.processed = s.tally.processed := hcount
        have hrest := ih s'
        rw [next_of_passed fuel hlive (hlive'.trans hlive) h]
        refine ⟨?_, Announced.append (hbeat.announced.silent fun h => h.1 rfl) ?_⟩
        · rw [Outcome.after_state, hrest.incidents, hbeat.incidents, List.filterMap_append,
            List.reverse_append, List.append_assoc]
        · rw [← hpassed]
          exact hrest.announced
      · rw [next_of_ended fuel hlive h, List.append_nil]
        exact ⟨hbeat.incidents, hbeat.announced⟩

/-- A fault that is no failed expansion leaves the request in which it is met, and ends the run.
Where kinds can be read, it escaped from an expansion. -/
theorem next_of_mem_mishaps {e : Fault} {fuel : Nat} (h : e ∈ mishaps c fuel s)
    (he : e.isExpansion = false) :
    (next c fuel s).result = .error e.leaving ∧ (next c fuel s).state.live = false ∧
      (s.registry.HasTextField → ∃ cause : Fault, cause.escape? = some e) := by
  induction fuel generalizing s with
  | zero => cases h
  | succ fuel ih =>
    cases hlive : s.live with
    | false =>
      rw [mishaps_of_not_live _ hlive] at h
      cases h
    | true =>
      have hlive' := beat_live c s
      have halike := beat_alike c s
      rw [mishaps, hlive, if_pos rfl] at h
      rcases List.mem_append.1 h with hfirst | hrest
      · have hmishap := Option.mem_toList.1 hfirst
        have hresult := beat_of_mishap? hmishap he
        rcases hbeat : beat c s with ⟨r, s', es⟩
        rw [hbeat] at hresult
        obtain rfl : r = _ := hresult
        rw [next_of_error fuel hlive hbeat]
        exact ⟨rfl, rfl, fun hfield => exists_escape?_of_mishap? hfield hmishap he⟩
      · rcases hbeat : beat c s with ⟨e' | v | _ | _, s', es⟩ <;>
          rw [hbeat] at hrest hlive' halike
        · cases hrest
        · cases hrest
        · rw [next_of_passed fuel hlive (hlive'.trans hlive) hbeat]
          obtain ⟨hresult, hdead, hescape⟩ := ih hrest
          exact ⟨hresult, hdead, fun hfield => hescape (halike.hasTextField hfield)⟩
        · cases hrest

end Run

end RuleWalk
