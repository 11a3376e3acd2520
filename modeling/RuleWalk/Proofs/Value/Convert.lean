import Mathlib.Data.List.Forall2
import RuleWalk.Proofs.Fault
import RuleWalk.Value.Worklist

/-!
# What a conversion shows

The loop that converts a value gives what the recursion says. A converted value reads like the value
it was made from: it has the same kind, and what is found under a name is the conversion of what was
found there, as long as the name is not taken by an operation of attribute nodes.
-/

namespace RuleWalk.Value

/-! ## The loop and the recursion -/

/-- What the frames make of a converted value, by recursion. -/
def close (field : Value) : List Frame → Value × Nat → Value × Nat
  | [], r => r
  | .items o done rest :: frames, (v, n) =>
    let r := convertedItems field rest n
    close field frames (list o (done.reverse ++ v :: r.1), r.2)
  | .entries o tag done name rest :: frames, (v, n) =>
    let r := convertedEntries field rest n
    close field frames (assemble o tag (done.reverse ++ (name, v) :: r.1), r.2)

/-- What is in focus, converted. -/
def Focus.outcome (field : Value) : Focus → Nat → Value × Nat
  | fresh v, n => converted field v n
  | ready v, n => (v, n)

theorem convertLoop_eq_close (field : Value) (focus : Focus) (frames : List Frame) (n : Nat) :
    convertLoop field focus frames n = close field frames (focus.outcome field n) := by
  fun_induction convertLoop field focus frames n with
  | case1 o frames n ih => simpa [Focus.outcome, converted, convertedItems] using ih
  | case2 o v vs frames n ih => simpa [Focus.outcome, converted, convertedItems, close] using ih
  | case3 o frames n ih =>
    have htag : tag? field [] = none := by cases field <;> rfl
    simpa [Focus.outcome, converted, htag] using ih
  | case4 o k v es frames n tag htag ih =>
    simpa [Focus.outcome, converted, convertedEntries, close, htag] using ih
  | case5 o k v es frames n htag ih => simpa [Focus.outcome, converted, htag] using ih
  | case6 v frames n hnil hcons hempty hentries ih =>
    -- Neither a list nor a mapping: it is kept.
    have hkept : converted field v n = (v, n) := by
      cases v with
      | list o items =>
        cases items with
        | nil => exact (hnil o rfl).elim
        | cons w ws => exact (hcons o w ws rfl).elim
      | dict o es =>
        cases es with
        | nil => exact (hempty o rfl).elim
        | cons e es => exact (hentries o e.1 e.2 es rfl).elim
      | _ => rfl
    rw [ih, Focus.outcome, Focus.outcome, hkept]
  | case7 v n => rfl
  | case8 v o done frames n ih => simpa [Focus.outcome, close, convertedItems] using ih
  | case9 v o done w ws frames n ih => simpa [Focus.outcome, close, convertedItems] using ih
  | case10 v o tag done k frames n ih => simpa [Focus.outcome, close, convertedEntries] using ih
  | case11 v o tag done k l w es frames n ih =>
    simpa [Focus.outcome, close, convertedEntries] using ih

/-- A conversion is the recursive one. -/
theorem convert_eq_converted (v field : Value) (n : Nat) :
    v.convert field n = converted field v n := convertLoop_eq_close field (.fresh v) [] n

/-- Where no converted mapping has an entry under a reserved name, nothing stands in the way. -/
theorem convertUnder_of_avoidReserved {v : Value} {field : String}
    (h : avoidReserved (.str field) [v] = true) (n : Nat) :
    v.convertUnder (.str field) n = .ok (v.convert (.str field) n) := by
  simp [convertUnder, checkKey, h]

/-- Where one has, the list of work says what comes of it. -/
theorem convertUnder_of_reserved {v : Value} {field : String}
    (h : avoidReserved (.str field) [v] = false) (n : Nat) :
    v.convertUnder (.str field) n = Worklist.convert (.str field) v n := by
  simp [convertUnder, checkKey, h]

/-! ## Twins -/

mutual

/-- The value is made of scalars, lists and mappings alone. -/
def isPlain : Value → Bool
  | tuple _ _ => false
  | node _ _ _ => false
  | method _ _ => false
  | list _ items => arePlain items
  | dict _ entries => entriesPlain entries
  | _ => true

def arePlain : List Value → Bool
  | [] => true
  | v :: vs => v.isPlain && arePlain vs

def entriesPlain : List (String × Value) → Bool
  | [] => true
  | (_, v) :: es => v.isPlain && entriesPlain es

end

/-- A plain value and its conversion, with serial numbers from some number on. -/
structure Twin (field : String) (v w : Value) : Prop where
  plain : v.isPlain = true
  conversion : ∃ n, w = (v.convert (.str field) n).1

variable {field : String} {v w : Value}

theorem Twin.eq_converted (h : Twin field v w) : ∃ n, w = (converted (.str field) v n).1 := by
  obtain ⟨n, rfl⟩ := h.conversion
  exact ⟨n, by rw [convert_eq_converted]⟩

theorem twin_converted (hv : v.isPlain = true) (n : Nat) :
    Twin field v (converted (.str field) v n).1 :=
  ⟨hv, n, by rw [convert_eq_converted]⟩

/-- A text is its own twin. -/
theorem twin_str (s : String) : Twin field (.str s) (.str s) := twin_converted rfl 0

theorem twin_null : Twin field .null .null := twin_converted rfl 0

/-- The items of a list are converted one by one. -/
theorem forall₂_twin_convertedItems {items : List Value} (h : arePlain items = true) (n : Nat) :
    List.Forall₂ (Twin field) items (convertedItems (.str field) items n).1 := by
  induction items generalizing n with
  | nil => exact .nil
  | cons v vs ih =>
    obtain ⟨hv, hvs⟩ := Bool.and_eq_true_iff.mp h
    exact .cons (twin_converted hv n) (ih hvs _)

/-- The entries of a mapping are converted under their names. -/
theorem lookup_twin_convertedEntries {entries : List (String × Value)}
    (h : entriesPlain entries = true) (name : String) (n : Nat) :
    Option.Rel (Twin field) (entries.lookup name)
      ((convertedEntries (.str field) entries n).1.lookup name) := by
  induction entries generalizing n with
  | nil => exact .none
  | cons e es ih =>
    obtain ⟨hv, hes⟩ := Bool.and_eq_true_iff.mp h
    rw [convertedEntries, List.lookup_cons, List.lookup_cons]
    cases name == e.1 with
    | true => exact .some (twin_converted hv n)
    | false => exact ih hes _

/-! ## Kinds and fields -/

theorem kind?_dict (o : Origin) (entries : List (String × Value)) :
    (dict o entries).kind? (.str field) =
      .ok (match tag? (.str field) entries with
        | some (.str s) => some s
        | _ => none) := by
  simp only [kind?, getField, tag?]
  rcases entries.lookup field with _ | x
  · rfl
  · cases x <;> first | rfl | skip
    simp only [Option.getD_some]
    split <;> rfl

theorem lookup_of_tag? {entries : List (String × Value)} {tag : Value}
    (h : tag? (.str field) entries = some tag) :
    ∃ s, s.isEmpty = false ∧ entries.lookup field = some (.str s) ∧ tag = .str s := by
  rw [tag?] at h
  split at h
  · next s hs =>
    cases hempty : s.isEmpty with
    | true => simp [hempty] at h
    | false => exact ⟨s, hempty, hs, by simpa [hempty] using h.symm⟩
  · cases h

/-- The field that is held apart has no part in what is found under another name. -/
theorem lookup_filter_ne {name other : String} (hne : name ≠ other)
    (entries : List (String × Value)) :
    (entries.filter fun e => e.1 != other).lookup name = entries.lookup name := by
  induction entries with
  | nil => rfl
  | cons e es ih =>
    by_cases he : e.1 = other
    · have hname : (name == e.1) = false := beq_false_of_ne (he ▸ hne)
      rw [List.filter_cons_of_neg (by simp [he]), List.lookup_cons, hname, ih]
    · rw [List.filter_cons_of_pos (by simp [he]), List.lookup_cons, List.lookup_cons, ih]

/-- What an assembled attribute node shows is what its entries hold. -/
theorem attr?_assemble (o : Origin) (tag : Value) (entries : List (String × Value))
    {name : String} (hname : name ∈ methodNames → (entries.lookup name).isSome) :
    (assemble o tag entries).attr? name =
      if name = "type" then some ((entries.lookup "type").getD tag) else entries.lookup name := by
  rw [assemble, attr?]
  split
  · rfl
  · next hne =>
    rw [lookup_filter_ne hne]
    cases hlookup : entries.lookup name with
    | none =>
      have hmethod : name ∉ methodNames := fun h => by simpa [hlookup] using hname h
      simp [hmethod]
    | some x => rfl

/-- The twin of a text is that text. -/
theorem Twin.eq_str {s : String} (h : Twin field (.str s) w) : w = .str s := by
  obtain ⟨n, rfl⟩ := h.eq_converted
  rfl

/-- A plain value with a kind is a mapping with a tag, and its twin is an attribute node. -/
theorem Twin.of_kind? {kind : String} (h : Twin field v w)
    (hkind : v.kind? (.str field) = .ok (some kind)) :
    ∃ o entries o' entries', v = dict o entries ∧ entries.lookup field = some (.str kind) ∧
      w = assemble o' (.str kind) entries' ∧
      ∀ name, Option.Rel (Twin field) (entries.lookup name) (entries'.lookup name) := by
  obtain ⟨n, rfl⟩ := h.eq_converted
  have hplain := h.plain
  cases v with
  | dict o entries =>
    rw [kind?_dict] at hkind
    cases htag : tag? (.str field) entries with
    | none => simp [htag] at hkind
    | some tag =>
      obtain ⟨s, -, hlookup, rfl⟩ := lookup_of_tag? htag
      obtain rfl : s = kind := by simpa [htag] using hkind
      refine ⟨o, entries, { o with serial := n }, (convertedEntries (.str field) entries (n + 1)).1,
        rfl, hlookup, by simp [converted, htag], fun name => ?_⟩
      exact lookup_twin_convertedEntries hplain name _
  | tuple => cases hplain
  | node => cases hplain
  | _ => simp [kind?, getField, attr?] at hkind

/-- What is found in the twin is the twin of what is found in the value, under the field that holds
the kind and under every name that attribute nodes do not use themselves. -/
theorem Twin.getField {kind name : String} (h : Twin field v w)
    (hkind : v.kind? (.str field) = .ok (some kind))
    (hname : name = field ∨ name ∉ methodNames ∧ name ≠ "type") :
    ∃ x y, v.getField (.str name) = .ok x ∧ w.getField (.str name) = .ok y ∧ Twin field x y := by
  obtain ⟨o, entries, o', entries', rfl, hlookup, rfl, hrel⟩ := h.of_kind? hkind
  have hread : (assemble o' (.str kind) entries').attr? name = entries'.lookup name := by
    obtain rfl | ⟨hmethod, htype⟩ := hname
    · -- The kind itself was converted with the other entries.
      obtain ⟨y, hy⟩ : ∃ y, entries'.lookup name = some y := by
        have hfound := hrel name
        rw [hlookup] at hfound
        generalize entries'.lookup name = found at hfound
        cases hfound
        exact ⟨_, rfl⟩
      rw [attr?_assemble _ _ _ fun _ => by simp [hy]]
      split
      · next htype => rw [← htype, hy, Option.getD_some]
      · rfl
    · rw [attr?_assemble _ _ _ fun hmem => absurd hmem hmethod, if_neg htype]
  refine ⟨(entries.lookup name).getD null, (entries'.lookup name).getD null, rfl, ?_, ?_⟩
  · rw [← hread]
    rfl
  · have hfound := hrel name
    generalize entries.lookup name = x at hfound ⊢
    generalize entries'.lookup name = y at hfound ⊢
    cases hfound with
    | none => exact twin_null
    | some hxy => exact hxy

theorem kind?_of_getField {s : String} (hv : v ≠ null) (hs : s.isEmpty = false)
    (h : v.getField (.str field) = .ok (.str s)) : v.kind? (.str field) = .ok (some s) := by
  cases v <;> simp_all [kind?]

/-- A value and its twin have the same kind. -/
theorem Twin.kind?_eq (h : Twin field v w) : w.kind? (.str field) = v.kind? (.str field) := by
  obtain ⟨n, rfl⟩ := h.eq_converted
  cases v with
  | dict o entries =>
    cases htag : tag? (.str field) entries with
    | none => simp [converted, htag]
    | some tag =>
      obtain ⟨s, hs, hlookup, rfl⟩ := lookup_of_tag? htag
      have hkind : (dict o entries).kind? (.str field) = .ok (some s) := by rw [kind?_dict, htag]
      obtain ⟨x, y, hx, hy, hxy⟩ := h.getField hkind (.inl rfl)
      obtain rfl : x = .str s := by
        rw [Value.getField, hlookup] at hx
        exact (Except.ok.inj hx).symm
      rw [hxy.eq_str] at hy
      rw [hkind]
      exact kind?_of_getField (by simp [converted, htag, assemble]) hs hy
  | _ => rfl

/-- A value and its twin are null together. -/
theorem Twin.isNull_eq (h : Twin field v w) : w.isNull = v.isNull := by
  obtain ⟨n, rfl⟩ := h.eq_converted
  cases v with
  | dict o entries =>
    cases htag : tag? (.str field) entries <;> simp [converted, htag, assemble, isNull]
  | _ => rfl

/-! ## Lists -/

/-- Related results, or one and the same fault, which is announced. -/
inductive Agree {α β : Type} (R : α → β → Prop) : Except Fault α → Except Fault β → Prop
  | ok {a : α} {b : β} (h : R a b) : Agree R (.ok a) (.ok b)
  | error {e : Fault} (he : e.escape? = none) : Agree R (.error e) (.error e)

theorem forall₂_twin_map_str {α : Type} (f : α → String) (l : List α) :
    List.Forall₂ (Twin field) (l.map fun a => .str (f a)) (l.map fun a => .str (f a)) := by
  induction l with
  | nil => exact .nil
  | cons a l ih => exact .cons (twin_str (f a)) ih

/-- Iterating over a value and over its twin gives twins, item by item. A mapping with a tag is the
exception: it has keys, but its twin has no items. -/
theorem Twin.iterate (h : Twin field v w)
    (htag : ∀ o entries, v = dict o entries → v.kind? (.str field) = .ok none) :
    Agree (List.Forall₂ (Twin field)) v.iterate w.iterate := by
  obtain ⟨n, rfl⟩ := h.eq_converted
  have hplain := h.plain
  cases v with
  | str s => exact .ok (forall₂_twin_map_str Char.toString s.toList)
  | list o items => exact .ok (forall₂_twin_convertedItems hplain _)
  | dict o entries =>
    have hnone : tag? (.str field) entries = none := by
      have hkind := htag o entries rfl
      cases hsome : tag? (.str field) entries with
      | none => rfl
      | some tag =>
        obtain ⟨s, -, -, rfl⟩ := lookup_of_tag? hsome
        simp [kind?_dict, hsome] at hkind
    rw [converted, hnone]
    exact .ok (forall₂_twin_map_str Prod.fst entries)
  | tuple => cases hplain
  | node => cases hplain
  | _ => exact .error rfl

/-- The items of a list field are twins, if no tagged mapping stands in place of the list. -/
theorem Twin.getList {kind name : String} (h : Twin field v w)
    (hkind : v.kind? (.str field) = .ok (some kind))
    (hname : name = field ∨ name ∉ methodNames ∧ name ≠ "type")
    (htag : ∀ o entries, v.getField (.str name) = .ok (dict o entries) →
      (dict o entries).kind? (.str field) = .ok none) :
    Agree (List.Forall₂ (Twin field)) (v.getList (.str name)) (w.getList (.str name)) := by
  obtain ⟨x, y, hx, hy, hxy⟩ := h.getField hkind hname
  rw [Value.getList, Value.getList, hx, hy]
  have hitems := hxy.iterate fun o entries hdict => hdict ▸ htag o entries (hdict ▸ hx)
  cases x with
  | null =>
    obtain rfl : y = null := isNull_iff.mp hxy.isNull_eq
    exact .ok .nil
  | _ =>
    have hnull := hxy.isNull_eq
    cases y <;> first | exact hitems | cases hnull

end RuleWalk.Value
