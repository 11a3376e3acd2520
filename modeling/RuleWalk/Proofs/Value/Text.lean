import RuleWalk.Value.Text

/-!
# Where texts fail

The text of a value is put together from the texts of the values that it shows. It fails where one
of them stands too deep, is an attribute node with a field that hides the operation by which it
lists its fields, or is a number that is too long to be written.
-/

namespace RuleWalk.Value

/-- The text of the value can be had. -/
def HasText (v : Value) : Prop := ∃ t, v.text = .ok t

/-- The values whose texts stand in the text of a value. An attribute node shows its kind; of its
fields it shows the names alone. An operation shows the node that it belongs to. -/
def shown : Value → List Value
  | list _ items | tuple _ items => items
  | dict _ entries => entries.map Prod.snd
  | node _ kind _ => [kind]
  | method owner name => if name = classMethod then [] else [owner]
  | _ => []

/-- The text of `w` is made when the text of `v` is, at depth `n`. -/
def ShowsAt : Nat → Value → Value → Prop
  | 0, v, w => v = w
  | n + 1, v, w => ∃ u ∈ v.shown, ShowsAt n u w

/-- Why a value has no text even if all that it shows has one: it is an attribute node with a field
that hides the operation by which it lists its fields, or a number that is too long. -/
def obstacle? : Value → Option Fault
  | node _ _ fields => (fields.lookup "fields").map fun x => .notCallable x.typeName
  | int n =>
    if (Nat.toDigits 10 n.natAbs).length ≤ digitLimit then none
    else some (.tooManyDigits digitLimit none)
  | _ => none

/-- The fault of a text that is looked for too deep. -/
def depthFault : Fault := .tooDeep .texts

/-- The entries of a mapping are shown one by one, like items. -/
theorem entryTexts_eq (entries : List (String × Value)) (room : Nat) :
    entryTexts entries room = (itemTexts (entries.map Prod.snd) room).map fun ts =>
      (entries.zip ts).map fun e => Text.quote e.1.1 ++ ": " ++ e.2 := by
  induction entries with
  | nil => rfl
  | cons e entries ih =>
    rw [entryTexts, List.map_cons, itemTexts, ih]
    cases e.2.textWithin room with
    | error e => rfl
    | ok t =>
      cases itemTexts (entries.map Prod.snd) room <;> rfl

theorem itemTexts_singleton (v : Value) (room : Nat) :
    itemTexts [v] room = (v.textWithin room).map fun t => [t] := by
  rw [itemTexts, itemTexts]
  cases v.textWithin room <;> rfl

/-- The text of a value is put together from those of the values that it shows, unless there is an
obstacle. -/
theorem textWithin_eq (v : Value) (room : Nat) :
    ∃ frame : List String → String, v.textWithin (room + 1) =
      v.obstacle?.elim ((itemTexts v.shown room).map frame) .error := by
  cases v with
  | list o items =>
    refine ⟨fun ts => "[" ++ String.intercalate ", " ts ++ "]", ?_⟩
    rw [textWithin]
    cases hitems : itemTexts items room <;> simp [obstacle?, shown, hitems] <;> rfl
  | tuple o items =>
    refine ⟨fun ts => "(" ++ String.intercalate ", " ts ++ if ts.length = 1 then ",)" else ")", ?_⟩
    rw [textWithin]
    rcases hitems : itemTexts items room with e | _ | ⟨t, _ | ⟨t', ts⟩⟩ <;>
      simp [obstacle?, shown, hitems] <;> rfl
  | dict o entries =>
    refine ⟨fun ts => "\x7b" ++ String.intercalate ", "
      ((entries.zip ts).map fun e => Text.quote e.1.1 ++ ": " ++ e.2) ++ "\x7d", ?_⟩
    rw [textWithin, entryTexts_eq]
    cases hitems : itemTexts (entries.map Prod.snd) room <;> simp [obstacle?, shown, hitems] <;> rfl
  | node o kind fields =>
    let names := String.intercalate ", " (sortTexts (fields.map Prod.fst))
    refine ⟨fun ts => "EstreeNode(" ++ ts.headD "" ++
      (if names.isEmpty then "" else ", " ++ names) ++ ")", ?_⟩
    rw [textWithin, Value.fields, obstacle?, shown, itemTexts_singleton]
    cases fields.lookup "fields" <;> cases kind.textWithin room <;> rfl
  | method owner name =>
    refine ⟨fun ts => "<bound method EstreeNode." ++ name ++ " of " ++
      ts.headD "<class 'estreelib.core.node.EstreeNode'>" ++ ">", ?_⟩
    simp only [textWithin, obstacle?, shown]
    by_cases hname : name = classMethod
    · rw [if_pos hname, if_pos hname, itemTexts]
      rfl
    · rw [if_neg hname, if_neg hname, itemTexts_singleton]
      cases owner.textWithin room <;> rfl
  | int n =>
    refine ⟨fun _ => toString n, ?_⟩
    simp only [textWithin, intText, obstacle?, shown, itemTexts]
    split <;> rfl
  | null => exact ⟨fun _ => "None", rfl⟩
  | bool b => exact ⟨fun _ => if b then "True" else "False", rfl⟩
  | float x => exact ⟨fun _ => x.text, rfl⟩
  | str s => exact ⟨fun _ => Text.quote s, rfl⟩

/-- Items are shown when each of them is. -/
theorem itemTexts_eq_ok_iff {vs : List Value} {room : Nat} :
    (∃ ts, itemTexts vs room = .ok ts) ↔ ∀ v ∈ vs, ∃ t, v.textWithin room = .ok t := by
  induction vs with
  | nil => simp [itemTexts]
  | cons v vs ih =>
    rw [itemTexts, List.forall_mem_cons, ← ih]
    cases v.textWithin room with
    | error e => simp [bind, Except.bind]
    | ok t => cases itemTexts vs room <;> simp [bind, Except.bind, pure, Except.pure]

theorem itemTexts_error {vs : List Value} {room : Nat} {e : Fault}
    (h : itemTexts vs room = .error e) : ∃ v ∈ vs, v.textWithin room = .error e := by
  induction vs with
  | nil => cases h
  | cons v vs ih =>
    rw [itemTexts] at h
    cases hv : v.textWithin room with
    | error e' =>
      rw [hv] at h
      cases h
      exact ⟨v, List.mem_cons_self, hv⟩
    | ok t =>
      rw [hv] at h
      cases hvs : itemTexts vs room with
      | ok ts =>
        rw [hvs] at h
        cases h
      | error e' =>
        rw [hvs] at h
        cases h
        obtain ⟨w, hw, hfails⟩ := ih hvs
        exact ⟨w, List.mem_cons_of_mem v hw, hfails⟩

/-- The text of a value fails at the depth that is out of reach, or at an obstacle before it. -/
theorem textWithin_error {v : Value} {room : Nat} {e : Fault} (h : v.textWithin room = .error e) :
    ∃ n w, v.ShowsAt n w ∧ (n = room ∧ e = depthFault ∨ n < room ∧ w.obstacle? = some e) := by
  induction room generalizing v with
  | zero =>
    rw [textWithin] at h
    cases h
    exact ⟨0, v, rfl, .inl ⟨rfl, rfl⟩⟩
  | succ room ih =>
    obtain ⟨frame, hframe⟩ := v.textWithin_eq room
    rw [hframe] at h
    cases hobstacle : v.obstacle? with
    | some e' =>
      rw [hobstacle] at h
      cases h
      exact ⟨0, v, rfl, .inr ⟨Nat.succ_pos room, hobstacle⟩⟩
    | none =>
      rw [hobstacle] at h
      cases hitems : itemTexts v.shown room with
      | ok ts =>
        rw [hitems] at h
        cases h
      | error e' =>
        rw [hitems] at h
        cases h
        obtain ⟨u, hu, hfails⟩ := itemTexts_error hitems
        obtain ⟨n, w, hw, hplace⟩ := ih hfails
        exact ⟨n + 1, w, ⟨u, hu, hw⟩, hplace.imp (And.imp_left (congrArg Nat.succ))
          (And.imp_left Nat.succ_lt_succ)⟩

/-- A value has a text exactly when nothing that it shows stands too deep or is an obstacle. -/
theorem textWithin_eq_ok_iff {v : Value} {room : Nat} :
    (∃ t, v.textWithin room = .ok t) ↔ ∀ n w, v.ShowsAt n w → n < room ∧ w.obstacle? = none := by
  induction room generalizing v with
  | zero =>
    refine iff_of_false ?_ fun h => absurd (h 0 v rfl).1 (Nat.lt_irrefl 0)
    rintro ⟨t, ht⟩
    rw [textWithin] at ht
    cases ht
  | succ room ih =>
    have hshown : (∃ t, v.textWithin (room + 1) = .ok t) ↔
        v.obstacle? = none ∧ ∃ ts, itemTexts v.shown room = .ok ts := by
      obtain ⟨frame, hframe⟩ := v.textWithin_eq room
      rw [hframe]
      cases v.obstacle? <;> cases itemTexts v.shown room <;> simp [Except.map]
    rw [hshown, itemTexts_eq_ok_iff]
    constructor
    · rintro ⟨hobstacle, hitems⟩ n w hw
      cases n with
      | zero =>
        cases hw
        exact ⟨Nat.succ_pos room, hobstacle⟩
      | succ n =>
        obtain ⟨u, hu, hw⟩ := hw
        exact (ih.1 (hitems u hu) n w hw).imp_left Nat.succ_lt_succ
    · intro h
      refine ⟨(h 0 v rfl).2, fun u hu => ih.2 fun n w hw => ?_⟩
      exact (h (n + 1) w ⟨u, hu, hw⟩).imp_left Nat.lt_of_succ_lt_succ

theorem hasText_iff {v : Value} :
    v.HasText ↔ ∀ n w, v.ShowsAt n w → n < depthLimit ∧ w.obstacle? = none :=
  textWithin_eq_ok_iff

/-- What a list shows of its items, a list of some of them shows too. -/
theorem HasText.of_subset {vs ws : List Value} {o o' : Origin} (h : (list o vs).HasText)
    (hsub : ws ⊆ vs) : (list o' ws).HasText := by
  rw [hasText_iff] at h ⊢
  intro n w hw
  cases n with
  | zero =>
    cases hw
    exact ⟨Nat.zero_lt_of_lt (h 0 _ rfl).1, rfl⟩
  | succ n =>
    obtain ⟨u, hu, hw⟩ := hw
    exact h (n + 1) w ⟨u, hsub hu, hw⟩

end RuleWalk.Value
