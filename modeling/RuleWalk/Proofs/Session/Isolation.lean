import RuleWalk.Proofs.Registry.Chronicle
import RuleWalk.Proofs.Session.Store

/-!
# Registries side by side

A session holds any number of registries: made from the catalogue or from a table, copied from
others, and the shared one, which is there from its first use on. Commands are addressed to one of
them, by its number or as the shared one, and walks keep the one they were begun with.

Each command is dispatched: a registry is founded with some rules, or an operation is sent to a
registry. `Traced` is all that the registries of a session can undergo by that. From it, the rules
of each registry are those it was founded with, revised by the operations that were sent to it and
by no others.
-/

namespace RuleWalk

variable {σ : Type}

/-! ## Rules by themselves -/

/-- The rules after an operation, from the rules before it. -/
def Operation.revise : Operation σ → List (String × Rule σ) → List (String × Rule σ)
  | register kind candidate, rules =>
    match Registry.accepted? kind candidate with
    | some (k, rule) => Registry.insertRule k rule rules
    | none => rules
  | unregister (.str k), rules => rules.filter fun e => e.1 != k
  | _, rules => rules

/-- One operation after the other. -/
def Operation.reviseAll (ds : List (Operation σ)) (rules : List (String × Rule σ)) :
    List (String × Rule σ) := ds.foldl (fun rules d => d.revise rules) rules

theorem Operation.reviseAll_cons (d : Operation σ) (ds : List (Operation σ))
    (rules : List (String × Rule σ)) :
    reviseAll (d :: ds) rules = reviseAll ds (d.revise rules) := rfl

/-- What an operation does to the rules is told by the rules alone. -/
theorem Event.Effect.rules {e : Event σ} {r r' : Registry σ} (h : e.Effect r r') :
    r'.rules = e.operation.revise r.rules := by
  cases h with
  | registered haccepted => simp only [Operation.revise, haccepted, Registry.put]
  | removed => rfl
  | refused hrefused => simp only [Operation.revise, hrefused]
  | @missed kind hmissed =>
    cases kind with
    | str k => exact (Registry.rules_erase_of_not_has (hmissed k rfl)).symm
    | _ => rfl
  | @looked d hd =>
    cases d with
    | register kind candidate => cases hd
    | unregister kind => cases hd
    | _ => rfl
  | passed => rfl

namespace Registry

/-- The rules that a registry begins with: those of the table that is given, if all of it can be
registered, or the whole catalogue when none is given. -/
def given? : Option (List (Value × Candidate σ)) → Option (List (String × Rule σ))
  | none => some (Catalogue.rules σ)
  | some table =>
    if table.all fun e => (accepted? e.1 e.2).isSome then
      some (Operation.reviseAll (table.map fun e => .register e.1 e.2) [])
    else none

/-- A table is registered up to its end if all of it can be, and else it fails. -/
theorem fill_of_unknown_nil (table : List (Value × Candidate σ)) {r : Registry σ}
    (hr : r.unknown = []) :
    if table.all fun e => (accepted? e.1 e.2).isSome then
      ∃ es, fill table r =
        ⟨.ok (),
          { r with rules := Operation.reviseAll (table.map fun e => .register e.1 e.2) r.rules },
          es⟩
    else ∃ e r' es, fill table r = ⟨.error e, r', es⟩ := by
  induction table generalizing r with
  | nil => exact ⟨[], rfl⟩
  | cons e table ih =>
    have hfill : fill (e :: table) r = (register e.1 e.2 >>= fun _ => fill table) r := rfl
    rw [List.all_cons, hfill]
    cases haccepted : accepted? e.1 e.2 with
    | none =>
      obtain ⟨e', he'⟩ := register_of_refused haccepted r
      exact ⟨e', r, [], Act.bind_apply_error he'⟩
    | some entry =>
      obtain ⟨k, rule⟩ := entry
      have hput : r.put k rule = { r with rules := insertRule k rule r.rules } := by
        rw [put, hr]
        rfl
      have hrevise : (Operation.register e.1 e.2).revise r.rules = insertRule k rule r.rules := by
        simp only [Operation.revise, haccepted]
      have hrest := ih (r := { r with rules := insertRule k rule r.rules }) hr
      rw [Act.bind_of_ok (register_of_accepted haccepted r), hput]
      simp only [Option.isSome_some, Bool.true_and]
      split
      · next hall =>
        rw [if_pos hall] at hrest
        obtain ⟨es, hes⟩ := hrest
        have hall' : Operation.reviseAll ((e :: table).map fun e => .register e.1 e.2) r.rules =
            Operation.reviseAll (table.map fun e => .register e.1 e.2)
              (insertRule k rule r.rules) := by
          rw [List.map_cons, Operation.reviseAll_cons, hrevise]
        rw [hes, hall']
        exact ⟨_, rfl⟩
      · next hall =>
        rw [if_neg hall] at hrest
        obtain ⟨e', r', es, hes⟩ := hrest
        rw [hes]
        exact ⟨e', r', _, rfl⟩

theorem make_of_given (kindField : Value) {table : Option (List (Value × Candidate σ))}
    {rules : List (String × Rule σ)} (h : given? table = some rules) :
    ∃ es, make kindField table = ⟨.ok (), { kindField, rules }, es⟩ := by
  cases table with
  | none =>
    cases h
    exact ⟨[], rfl⟩
  | some table =>
    rw [given?] at h
    split at h
    · next hall =>
      cases h
      have hfill := fill_of_unknown_nil table (r := empty kindField) rfl
      rw [if_pos hall] at hfill
      exact hfill
    · cases h

theorem make_of_not_given (kindField : Value) {table : Option (List (Value × Candidate σ))}
    (h : given? table = none) : ∃ e r es, make kindField table = ⟨.error e, r, es⟩ := by
  cases table with
  | none => cases h
  | some table =>
    rw [given?] at h
    split at h
    · cases h
    · next hall =>
      have hfill := fill_of_unknown_nil table (r := empty kindField) rfl
      rw [if_neg hall] at hfill
      exact hfill

theorem wellFormed_of_given {kindField : Value} {table : Option (List (Value × Candidate σ))}
    {rules : List (String × Rule σ)} (h : given? table = some rules) (u : σ) :
    ({ kindField, rules } : Registry σ).WellFormed := by
  obtain ⟨es, hmade⟩ := make_of_given kindField h
  exact (Scene.tells_made hmade u []).wellFormed

end Registry

/-! ## Commands -/

/-- What a caller does with the registries of a session. A registry is named by its number; where
none is named, the shared one is meant. -/
inductive Command (σ : Type) where
  | shared
  | make (kindField : Value) (table : Option (List (Value × Candidate σ)))
  | copy (r : Option Nat)
  | send (r : Option Nat) (d : Operation σ)
  | walk (r : Option Nat) (prune : Hook (Predicate σ)) (root : Value)
  | step (i : Nat)

/-- What becomes of a command: a registry is founded, or an operation is sent to one. -/
inductive Dispatch (σ : Type) where
  | founded (n : Nat) (rules : List (String × Rule σ))
  | sent (n : Nat) (d : Operation σ)

namespace Dispatch

/-- The rules with which the registry `n` is founded. -/
def founding? (n : Nat) : Dispatch σ → Option (List (String × Rule σ))
  | founded m rules => if m = n then some rules else none
  | sent _ _ => none

/-- The operation that is sent to the registry `n`. -/
def operation? (n : Nat) : Dispatch σ → Option (Operation σ)
  | sent m d => if m = n then some d else none
  | founded _ _ => none

end Dispatch

namespace Session

/-- The number that a registry has which is named, or not named, like this. -/
def target (s : Session σ) : Option Nat → Nat
  | some r => r
  | none => s.shared.getD s.registries.size

/-- The session in which the registry that is named, or not named, like this is there. -/
def settled (s : Session σ) : Option Nat → Session σ
  | some _ => s
  | none =>
    match s.shared with
    | some _ => s
    | none =>
      { s with
        registries := s.registries.push (s.registries.standard (.str "type"))
        shared := some s.registries.size }

/-- The shared registry is founded when it is needed for the first time. -/
def opening (s : Session σ) : Option Nat → List (Dispatch σ)
  | some _ => []
  | none =>
    match s.shared with
    | some _ => []
    | none => [.founded s.registries.size (Catalogue.rules σ)]

/-- An operation is sent to a registry if there is one with that number. -/
def posting (s : Session σ) (n : Nat) (d : Operation σ) : List (Dispatch σ) :=
  if n < s.registries.size then [.sent n d] else []

end Session

namespace Command

def act : Command σ → Act Entry (Session σ) Answer
  | shared => return .number (← Session.sharedRegistry)
  | make kindField none => return .number (← Session.standardRegistry kindField)
  | make kindField (some table) => return .number (← Session.makeRegistry kindField table)
  | copy r => return .number (← Session.copyRegistry (← Session.registryOr r))
  | send r d => do Session.onScene (← Session.registryOr r) d.act
  | walk r prune root => return .number (← Session.startWalk r prune root)
  | step i => return .taken (← Session.stepWalk i)

def dispatches (s : Session σ) : Command σ → List (Dispatch σ)
  | shared => s.opening none
  | make _ table => ((Registry.given? table).map (.founded s.registries.size)).toList
  | copy r =>
    let t := s.settled r
    s.opening r ++ [.founded t.registries.size (t.registry (s.target r)).rules]
  | send r d => s.opening r ++ (s.settled r).posting (s.target r) d
  | walk r _ _ => s.opening r
  | step i =>
    match s.cursor i with
    | .walk n w => s.posting n (.step w)
    | _ => []

end Command

namespace Session

def serve (s : Session σ) (e : Command σ) : Session σ := (e.act s).state

/-- The session after one command after the other. -/
def serveAll (s : Session σ) (commands : List (Command σ)) : Session σ := commands.foldl serve s

/-- All that was dispatched on the way. -/
def trace (s : Session σ) : List (Command σ) → List (Dispatch σ)
  | [] => []
  | e :: commands => e.dispatches s ++ (s.serve e).trace commands

/-! ## What a command does -/

variable {s : Session σ} {n : Nat}

theorem registryOr_eq (r : Option Nat) (s : Session σ) :
    registryOr r s = ⟨.ok (s.target r), s.settled r, []⟩ := by
  cases r with
  | some r => rfl
  | none =>
    rw [registryOr, sharedRegistry, target, settled]
    cases s.shared <;> rfl

theorem act_shared (s : Session σ) :
    Command.shared.act s = ⟨.ok (.number (s.target none)), s.settled none, []⟩ := by
  have hshared : sharedRegistry s = ⟨.ok (s.target none), s.settled none, []⟩ :=
    registryOr_eq none s
  rw [Command.act, Act.bind_pure_apply, hshared]
  rfl

theorem act_send (r : Option Nat) (d : Operation σ) (s : Session σ) :
    (Command.send r d).act s = onScene (s.target r) d.act (s.settled r) := by
  rw [Command.act, Act.bind_of_ok (registryOr_eq r s)]
  simp [Outcome.after]

theorem act_copy_of_ok {r : Option Nat} {q : Registry σ}
    (h : ((s.settled r).registry (s.target r)).copy = ⟨.ok (), q, []⟩) :
    (Command.copy r).act s =
      ⟨.ok (.number (s.settled r).registries.size),
        { s.settled r with registries := (s.settled r).registries.push q }, []⟩ := by
  rw [Command.act, Act.bind_of_ok (registryOr_eq r s), Act.bind_pure_apply, copyRegistry, h]
  rfl

/-- A walk begins in the session where its registry is there, or it does not begin. -/
theorem act_walk (r : Option Nat) (prune : Hook (Predicate σ)) (root : Value) (s : Session σ) :
    (Command.walk r prune root).act s =
      match Walk.start ((s.settled r).registry (s.target r)) prune root with
      | .ok w =>
        ⟨.ok (.number (s.settled r).cursors.size),
          { s.settled r with
            cursors := (s.settled r).cursors.push (.walk (s.target r) w) }, []⟩
      | .error e => ⟨.error e, s.settled r, []⟩ := by
  have hstart : startWalk r prune root s =
      match Walk.start ((s.settled r).registry (s.target r)) prune root with
      | .ok w =>
        ⟨.ok (s.settled r).cursors.size,
          { s.settled r with
            cursors := (s.settled r).cursors.push (.walk (s.target r) w) }, []⟩
      | .error e => ⟨.error e, s.settled r, []⟩ := by
    rw [startWalk, Act.bind_of_ok (registryOr_eq r s), Act.get_bind]
    cases Walk.start ((s.settled r).registry (s.target r)) prune root with
    | error e =>
      rw [Act.ofExcept_error_bind]
      rfl
    | ok w =>
      rw [Act.ofExcept_ok_bind]
      rfl
  rw [Command.act, Act.bind_pure_apply, hstart]
  cases Walk.start ((s.settled r).registry (s.target r)) prune root <;> rfl

/-- The walk that begins has the registry that was named. -/
theorem cursor_of_walk {r : Option Nat} {prune : Hook (Predicate σ)} {root : Value} {i : Nat}
    (h : ((Command.walk r prune root).act s).result = .ok (.number i)) :
    ∃ w, (s.serve (.walk r prune root)).cursor i = .walk (s.target r) w := by
  rw [serve, act_walk]
  rw [act_walk] at h
  cases hstart : Walk.start ((s.settled r).registry (s.target r)) prune root with
  | error e =>
    rw [hstart] at h
    cases h
  | ok w =>
    rw [hstart] at h
    obtain rfl := Answer.number.inj (Except.ok.inj h)
    exact ⟨w, by simp [cursor]⟩

theorem registry_eq_of_getElem? {r : Registry σ} (h : s.registries.view[n]? = some r) :
    s.registry n = r := by
  rw [registry, Registries.get_eq, h]
  rfl

/-! ## What the registries undergo -/

/-- The registries, before and after some dispatches: a registry is founded behind all others, and a
operation has its effect on the registry to which it is sent. -/
inductive Traced : Array (Registry σ) → List (Dispatch σ) → Array (Registry σ) → Prop
  | done (a : Array (Registry σ)) : Traced a [] a
  | founded {a b : Array (Registry σ)} {l : List (Dispatch σ)} {r : Registry σ}
      (hr : r.WellFormed) (h : Traced (a.push r) l b) :
      Traced a (.founded a.size r.rules :: l) b
  | sent {a b : Array (Registry σ)} {l : List (Dispatch σ)} {r r' : Registry σ} {e : Event σ}
      {n : Nat} (hn : a[n]? = some r) (he : e.Effect r r')
      (h : Traced (a.setIfInBounds n r') l b) : Traced a (.sent n e.operation :: l) b

namespace Traced

variable {a b c : Array (Registry σ)} {l l' : List (Dispatch σ)}

theorem append (h : Traced a l b) (h' : Traced b l' c) : Traced a (l ++ l') c := by
  induction h with
  | done => exact h'
  | founded hr _ ih => exact .founded hr (ih h')
  | sent hn he _ ih => exact .sent hn he (ih h')

theorem wellFormed (h : Traced a l b) (ha : ∀ r ∈ a, r.WellFormed) : ∀ r ∈ b, r.WellFormed := by
  induction h with
  | done => exact ha
  | founded hr _ ih =>
    refine ih fun r' hr' => ?_
    rcases Array.mem_push.1 hr' with hr' | rfl
    · exact ha r' hr'
    · exact hr
  | sent hn he _ ih =>
    refine ih fun q hq => ?_
    rcases Array.mem_or_eq_of_mem_setIfInBounds hq with hq | rfl
    · exact ha q hq
    · exact he.wellFormed (ha _ (Array.mem_of_getElem? hn))

/-- A registry that is there is not founded again, and only what is sent to it revises its rules. -/
theorem rules_of_old (h : Traced a l b) {r : Registry σ} (hn : a[n]? = some r) :
    l.filterMap (Dispatch.founding? n) = [] ∧
      ∃ r', b[n]? = some r' ∧
        r'.rules = Operation.reviseAll (l.filterMap (Dispatch.operation? n)) r.rules := by
  induction h generalizing r with
  | done => exact ⟨rfl, r, hn, rfl⟩
  | @founded a b l q hq _ ih =>
    have hlt : n < a.size := (Array.getElem?_eq_some_iff.1 hn).1
    have hne : a.size ≠ n := by omega
    have hpush : (a.push q)[n]? = some r := by
      rw [Array.getElem?_push_lt hlt]
      simpa [hlt] using hn
    obtain ⟨hnone, r', hr', hrules⟩ := ih hpush
    refine ⟨?_, r', hr', ?_⟩
    · simpa [List.filterMap_cons, Dispatch.founding?, hne] using hnone
    · simpa [List.filterMap_cons, Dispatch.operation?] using hrules
  | @sent a b l q q' e m hm he _ ih =>
    by_cases hmn : m = n
    · subst hmn
      obtain rfl : r = q := Option.some.inj (hn.symm.trans hm)
      have hlt : m < a.size := (Array.getElem?_eq_some_iff.1 hn).1
      obtain ⟨hnone, r', hr', hrules⟩ := ih (r := q') (by simp [hlt])
      refine ⟨by simpa [List.filterMap_cons, Dispatch.founding?] using hnone, r', hr', ?_⟩
      rw [hrules, he.rules]
      simp [Dispatch.operation?, Operation.reviseAll]
    · obtain ⟨hnone, r', hr', hrules⟩ :=
        ih (r := r) (by rw [Array.getElem?_setIfInBounds_ne hmn]; exact hn)
      refine ⟨by simpa [List.filterMap_cons, Dispatch.founding?] using hnone, r', hr', ?_⟩
      simpa [List.filterMap_cons, Dispatch.operation?, hmn] using hrules

/-- A registry that is new is founded once. -/
theorem rules_of_new (h : Traced a l b) (hn : a.size ≤ n) (hb : n < b.size) :
    ∃ rules r', l.filterMap (Dispatch.founding? n) = [rules] ∧ b[n]? = some r' ∧
      r'.rules = Operation.reviseAll (l.filterMap (Dispatch.operation? n)) rules := by
  induction h with
  | done => omega
  | @founded a b l q hq h ih =>
    by_cases hsize : a.size = n
    · subst hsize
      obtain ⟨hnone, r', hr', hrules⟩ := h.rules_of_old (n := a.size) (r := q) (by simp)
      refine ⟨q.rules, r', ?_, hr', ?_⟩
      · simpa [List.filterMap_cons, Dispatch.founding?] using hnone
      · simpa [List.filterMap_cons, Dispatch.operation?] using hrules
    · obtain ⟨rules, r', hfounded, hr', hrules⟩ := ih (by simp; omega) hb
      refine ⟨rules, r', ?_, hr', ?_⟩
      · simpa [List.filterMap_cons, Dispatch.founding?, hsize] using hfounded
      · simpa [List.filterMap_cons, Dispatch.operation?] using hrules
  | @sent a b l q q' e m hm he _ ih =>
    have hlt : m < a.size := (Array.getElem?_eq_some_iff.1 hm).1
    have hmn : m ≠ n := by omega
    obtain ⟨rules, r', hfounded, hr', hrules⟩ := ih (by simpa using hn) hb
    refine ⟨rules, r', ?_, hr', ?_⟩
    · simpa [List.filterMap_cons, Dispatch.founding?] using hfounded
    · simpa [List.filterMap_cons, Dispatch.operation?, hmn] using hrules

end Traced

/-- A registry that is added is founded with the rules it has. -/
theorem founded_traced (s : Registries σ) {r : Registry σ} (hr : r.WellFormed) :
    Traced s.view [.founded s.size r.rules] (s.push r).view := by
  rw [Registries.view_push, ← Registries.size_view]
  exact .founded hr (.done _)

theorem opening_traced (r : Option Nat) (s : Session σ) :
    Traced s.registries.view (s.opening r) (s.settled r).registries.view := by
  cases r with
  | some r => exact .done _
  | none =>
    rw [opening, settled]
    cases s.shared with
    | some n => exact .done _
    | none =>
      have hstandard : (s.registries.standard (.str "type")).WellFormed := by
        rw [Registries.standard_eq]
        exact Registry.wellFormed_standard _
      rw [← Registries.catalogue_eq s.registries]
      exact founded_traced s.registries hstandard

theorem posting_traced (n : Nat) (d : Operation σ) (s : Session σ) :
    Traced s.registries.view (s.posting n d)
      (s.putScene n ((s.scene n).serve d)).registries.view := by
  rw [posting, putScene]
  split
  · next hn =>
    rw [Registries.view_set]
    exact .sent (Registries.getElem?_view hn) (d.effect (s.scene n)) (.done _)
  · next hn =>
    rw [Registries.set_of_size_le _ (Nat.not_lt.1 hn)]
    exact .done _

theorem registry_wellFormed (h : ∀ r ∈ s.registries.view, r.WellFormed) (n : Nat) :
    (s.registry n).WellFormed := by
  rw [registry, Registries.get_eq]
  cases hn : s.registries.view[n]? with
  | some r => exact h r (Array.mem_of_getElem? hn)
  | none => exact Registry.wellFormed_empty _

/-- The registries undergo what is dispatched. -/
theorem serve_traced (h : ∀ r ∈ s.registries.view, r.WellFormed) (e : Command σ) :
    Traced s.registries.view (e.dispatches s) (s.serve e).registries.view := by
  cases e with
  | shared =>
    rw [serve, act_shared]
    exact opening_traced none s
  | make kindField table =>
    rw [Command.dispatches]
    cases hgiven : Registry.given? table with
    | none =>
      obtain ⟨e, r, es, hmade⟩ := Registry.make_of_not_given kindField hgiven
      cases table with
      | none => cases hgiven
      | some table =>
        have hfill : Registry.fill table (.empty kindField) = ⟨.error e, r, es⟩ := hmade
        rw [serve, Command.act, Act.bind_pure_apply, makeRegistry, hfill]
        exact .done _
    | some rules =>
      obtain ⟨es, hmade⟩ := Registry.make_of_given kindField hgiven
      have hfounded : (s.serve (.make kindField table)).registries =
          s.registries.push { kindField, rules } := by
        cases table with
        | none =>
          cases hgiven
          rw [serve, Command.act, Act.bind_pure_apply, ← Registries.catalogue_eq s.registries]
          rfl
        | some table =>
          have hfill : Registry.fill table (.empty kindField) =
              ⟨.ok (), { kindField, rules }, es⟩ := hmade
          rw [serve, Command.act, Act.bind_pure_apply, makeRegistry, hfill]
      rw [hfounded]
      exact founded_traced s.registries (Registry.wellFormed_of_given hgiven s.user)
  | copy r =>
    have hopening := opening_traced r s
    have hcopied := registry_wellFormed (s := s.settled r) (hopening.wellFormed h) (s.target r)
    rw [serve, act_copy_of_ok hcopied.copy_eq]
    exact hopening.append (founded_traced (s.settled r).registries hcopied.forget)
  | send r d =>
    rw [serve, act_send]
    exact (opening_traced r s).append (posting_traced _ d _)
  | walk r prune root =>
    rw [serve, act_walk]
    cases Walk.start ((s.settled r).registry (s.target r)) prune root <;> exact opening_traced r s
  | step i =>
    rw [serve, Command.act, Act.bind_pure_apply, Command.dispatches]
    split
    · next n w hcursor =>
      rw [stepWalk_of_walk hcursor]
      have hposted := posting_traced n (.step w) s
      rw [Scene.serve, Operation.act, Act.bind_pure_apply] at hposted
      exact hposted
    · next hcursor =>
      rw [stepWalk_of_not_walk hcursor]
      exact .done _

theorem serveAll_traced (h : ∀ r ∈ s.registries.view, r.WellFormed) (commands : List (Command σ)) :
    Traced s.registries.view (s.trace commands) (s.serveAll commands).registries.view := by
  induction commands generalizing s with
  | nil => exact .done _
  | cons e commands ih =>
    have hfirst := serve_traced h e
    exact hfirst.append (ih (hfirst.wellFormed h))

/-! ## What lasts -/

/-- If there is a shared registry, it is one of the session. -/
def HasShared (s : Session σ) : Prop := ∀ n, s.shared = some n → n < s.registries.size

/-- Later on, the shared registry is the same one, and so is the registry of each walk. -/
structure Keeps (s t : Session σ) : Prop where
  shared : ∀ n, s.shared = some n → t.shared = some n
  hasShared : s.HasShared → t.HasShared
  cursor : ∀ i n w, s.cursor i = .walk n w → ∃ w', t.cursor i = .walk n w'

namespace Keeps

variable {t q : Session σ}

theorem refl (s : Session σ) : s.Keeps s :=
  ⟨fun _ h => h, id, fun _ _ w h => ⟨w, h⟩⟩

theorem trans (h : s.Keeps t) (h' : t.Keeps q) : s.Keeps q where
  shared n hn := h'.shared n (h.shared n hn)
  hasShared hs := h'.hasShared (h.hasShared hs)
  cursor i n w hw := by
    obtain ⟨w', hw'⟩ := h.cursor i n w hw
    exact h'.cursor i n w' hw'

/-- Registries can be added and changed, and so can the caller's state. -/
theorem of_size_le (hshared : t.shared = s.shared) (hcursors : t.cursors = s.cursors)
    (hsize : s.registries.size ≤ t.registries.size) : s.Keeps t where
  shared n hn := hshared.trans hn
  hasShared hs n hn := Nat.lt_of_lt_of_le (hs n (hshared.symm.trans hn)) hsize
  cursor i n w hw := by
    rw [Session.cursor, hcursors]
    exact ⟨w, hw⟩

theorem addCursor (s : Session σ) (c : Cursor σ) :
    s.Keeps { s with cursors := s.cursors.push c } where
  shared _ hn := hn
  hasShared hs := hs
  cursor i n w hw := by
    refine ⟨w, ?_⟩
    have hi := lt_of_cursor_walk hw
    rw [← hw]
    simp [Session.cursor, Array.getElem?_push, Nat.ne_of_lt hi]

theorem putCursor {i : Nat} {w : Walk σ} (h : s.cursor i = .walk n w) (w' : Walk σ) :
    s.Keeps (s.putCursor i (.walk n w')) where
  shared _ hn := hn
  hasShared hs := hs
  cursor j m v hv := by
    by_cases hij : j = i
    · subst hij
      obtain ⟨rfl, -⟩ := Cursor.walk.inj (h.symm.trans hv)
      exact ⟨w', cursor_putCursor _ (lt_of_cursor_walk h)⟩
    · exact ⟨v, (cursor_putCursor_ne hij _).trans hv⟩

theorem putScene (s : Session σ) (n : Nat) (t : Scene σ) : s.Keeps (s.putScene n t) :=
  of_size_le rfl rfl (by simp [Session.putScene])

theorem settled (s : Session σ) (r : Option Nat) : s.Keeps (s.settled r) := by
  cases r with
  | some r => exact .refl s
  | none =>
    rw [Session.settled]
    cases hshared : s.shared with
    | some n => exact .refl s
    | none =>
      refine ⟨fun n hn => ?_, fun _ n hn => ?_, fun i n w hw => ⟨w, hw⟩⟩
      · rw [hshared] at hn
        cases hn
      · obtain rfl := Option.some.inj hn
        simp

end Keeps

/-- No command replaces the shared registry or the registry of a walk. -/
theorem serve_keeps (s : Session σ) (e : Command σ) : s.Keeps (s.serve e) := by
  rw [serve]
  cases e with
  | shared =>
    rw [act_shared]
    exact .settled s none
  | make kindField table =>
    cases table with
    | none =>
      rw [Command.act, Act.bind_pure_apply]
      exact .of_size_le rfl rfl (by simp [standardRegistry, addRegistry])
    | some table =>
      rw [Command.act, Act.bind_pure_apply, makeRegistry]
      rcases Registry.fill table (.empty kindField) with ⟨_ | _, r, es⟩
      · exact .refl s
      · exact .of_size_le rfl rfl (by simp)
  | copy r =>
    rw [Command.act, Act.bind_of_ok (registryOr_eq r s), Act.bind_pure_apply, copyRegistry]
    refine (Keeps.settled s r).trans ?_
    rcases ((s.settled r).registry (s.target r)).copy with ⟨_ | _, q, es⟩
    · exact .refl _
    · exact .of_size_le rfl rfl (by simp)
  | send r d =>
    rw [act_send]
    exact (Keeps.settled s r).trans (.putScene _ _ _)
  | walk r prune root =>
    rw [act_walk]
    refine (Keeps.settled s r).trans ?_
    cases Walk.start ((s.settled r).registry (s.target r)) prune root with
    | error e => exact .refl _
    | ok w => exact .addCursor _ _
  | step i =>
    rw [Command.act, Act.bind_pure_apply]
    by_cases hwalk : ∃ n w, s.cursor i = .walk n w
    · obtain ⟨n, w, hi⟩ := hwalk
      rw [stepWalk_of_walk hi]
      exact (Keeps.putScene s n _).trans (.putCursor (s := s.putScene n _) hi _)
    · rw [stepWalk_of_not_walk fun n w hi => hwalk ⟨n, w, hi⟩]
      exact .refl s

theorem serveAll_keeps (s : Session σ) (commands : List (Command σ)) :
    s.Keeps (s.serveAll commands) := by
  induction commands generalizing s with
  | nil => exact .refl s
  | cons e commands ih => exact (serve_keeps s e).trans (ih (s.serve e))

theorem settled_none_shared (s : Session σ) :
    (s.settled none).shared = some (s.target none) := by
  rw [settled, target]
  cases hshared : s.shared with
  | some n => exact hshared
  | none => rfl

/-! ## Isolation -/

/-- After any commands, each registry has been founded once, and its rules are those it was founded
with, revised by the operations that were sent to it and by nothing else. An operation that is sent
to a registry, named or shared, works on that one and leaves all others as they are, and so do, as
long as a walk lasts, its steps. From its first use on the shared registry is the same one. The
catalogue from which new registries are made is the same at any time. -/
theorem rules_of_commands (u : σ) (commands : List (Command σ)) :
    let s₀ : Session σ := { user := u }
    let s := s₀.serveAll commands
    (∀ n < s.registries.size, ∃ rules,
      (s₀.trace commands).filterMap (Dispatch.founding? n) = [rules] ∧
        (s.registry n).rules =
          Operation.reviseAll ((s₀.trace commands).filterMap (Dispatch.operation? n)) rules) ∧
    (∀ r d, let t := s.settled r
      ((Command.send r d).act s).result = (d.act (t.scene (s.target r))).result ∧
      (s.target r < t.registries.size → (s.serve (.send r d)).registry (s.target r) =
        (d.act (t.scene (s.target r))).state.registry) ∧
      ∀ m ≠ s.target r, (s.serve (.send r d)).registry m = t.registry m) ∧
    (∀ r prune root i, ((Command.walk r prune root).act s).result = .ok (.number i) →
      ∀ more, let t := (s.serve (.walk r prune root)).serveAll more
      ∃ w, t.cursor i = .walk (s.target r) w ∧
        ((Command.step i).act t).result =
          (Walk.step ⟨t.scene (s.target r), w⟩).result.map .taken ∧
        ∀ m ≠ s.target r, (t.serve (.step i)).registry m = t.registry m) ∧
    (s.target none < (s.settled none).registries.size ∧
      ∀ more, ((s.settled none).serveAll more).target none = s.target none) ∧
    ∀ kindField, (s.serve (.make kindField none)).registry s.registries.size =
      { kindField, rules := Catalogue.rules σ } := by
  intro s₀ s
  have hkeeps : s₀.Keeps s := serveAll_keeps s₀ commands
  have hshared : s.HasShared := hkeeps.hasShared (by rintro _ ⟨⟩)
  refine ⟨fun n hn => ?_, fun r d => ⟨?_, fun hn => ?_, fun m hm => ?_⟩, ?_, ⟨?_, ?_⟩, ?_⟩
  · have hnone : s₀.registries.view = #[] := Registries.view_empty
    have htraced := serveAll_traced (s := s₀) (by simp [hnone]) commands
    rw [hnone] at htraced
    rw [← Registries.size_view] at hn
    obtain ⟨rules, r, hfounded, hr, hrules⟩ := htraced.rules_of_new (Nat.zero_le n) hn
    exact ⟨rules, hfounded, by rw [registry_eq_of_getElem? hr, hrules]⟩
  · rw [act_send]
    rfl
  · rw [serve, act_send]
    exact congrArg Scene.registry (scene_putScene _ hn)
  · rw [serve, act_send]
    exact registry_putScene_ne hm _
  · intro r prune root i hi more t
    -- From its start on, the walk keeps its registry.
    obtain ⟨w₀, hw₀⟩ := cursor_of_walk hi
    obtain ⟨w, hw⟩ := (serveAll_keeps _ more).cursor i _ w₀ hw₀
    refine ⟨w, hw, ?_, fun m hm => ?_⟩
    · rw [Command.act, Act.bind_pure_apply, stepWalk_of_walk hw]
    · rw [serve, Command.act, Act.bind_pure_apply, stepWalk_of_walk hw]
      exact registry_putScene_ne hm _
  · exact (Keeps.settled s none).hasShared hshared _ (settled_none_shared s)
  · intro more
    have hlater := (serveAll_keeps (s.settled none) more).shared _ (settled_none_shared s)
    rw [target, hlater]
    rfl
  · intro kindField
    rw [serve, Command.act, Act.bind_pure_apply, ← Registries.catalogue_eq s.registries]
    exact Registries.get_push_self _ _

/-- A copy is taken from a registry that began empty, between two changes of it, and then the shared
registry is used for the first time. -/
theorem rules_of_commands_copy :
    let left : Rule Unit := FieldSpec.rule [.one (.str "left")]
    let commands : List (Command Unit) :=
      [.make (.str "type") (some []), .send (some 0) (.register (.str "Pair") (.rule left)),
        .copy (some 0), .send (some 0) (.unregister (.str "Pair")), .send none (.unregister .null)]
    let s := ({ user := () } : Session Unit).serveAll commands
    (s.registry 0).rules = [] ∧ (s.registry 1).rules = [("Pair", left)] ∧
      (s.registry 2).rules = Catalogue.rules Unit ∧
      ∀ more, ((s.settled none).serveAll more).target none = 2 := by
  intro left commands s
  obtain ⟨hrules, -, -, ⟨-, hshared⟩, -⟩ := rules_of_commands () commands
  have htrace : ({ user := () } : Session Unit).trace commands =
      [.founded 0 [], .sent 0 (.register (.str "Pair") (.rule left)),
        .founded 1 [("Pair", left)], .sent 0 (.unregister (.str "Pair")),
        .founded 2 (Catalogue.rules Unit), .sent 2 (.unregister .null)] := by
    -- The sessions after the first commands, one by one.
    let empty : Registry Unit := { kindField := .str "type" }
    let paired : Registry Unit := { kindField := .str "type", rules := [("Pair", left)] }
    have hmade : ({ user := () } : Session Unit).serve (.make (.str "type") (some [])) =
        { user := (), registries := .ofList [empty] } := rfl
    have hregistered : ({ user := (), registries := .ofList [empty] } : Session Unit).serve
        (.send (some 0) (.register (.str "Pair") (.rule left))) =
        { user := (), registries := .ofList [paired] } := rfl
    have hcopied : ({ user := (), registries := .ofList [paired] } : Session Unit).serve
        (.copy (some 0)) = { user := (), registries := .ofList [paired, paired] } := rfl
    have hremoved : ({ user := (), registries := .ofList [paired, paired] } : Session Unit).serve
        (.send (some 0) (.unregister (.str "Pair"))) =
        { user := (), registries := .ofList [empty, paired] } := rfl
    simp only [commands, trace, hmade, hregistered, hcopied, hremoved]
    rfl
  have hsize : s.registries.size = 3 := by decide +kernel
  simp only [htrace] at hrules
  obtain ⟨rules₀, hfounded₀, hrules₀⟩ := hrules 0 (by rw [hsize]; decide)
  obtain ⟨rules₁, hfounded₁, hrules₁⟩ := hrules 1 (by rw [hsize]; decide)
  obtain ⟨rules₂, hfounded₂, hrules₂⟩ := hrules 2 (by rw [hsize]; decide)
  obtain rfl : [] = rules₀ := (List.cons.inj hfounded₀).1
  obtain rfl : [("Pair", left)] = rules₁ := (List.cons.inj hfounded₁).1
  obtain rfl : Catalogue.rules Unit = rules₂ := (List.cons.inj hfounded₂).1
  exact ⟨hrules₀, hrules₁, hrules₂, hshared⟩

end Session

end RuleWalk
