import RuleWalk.Proofs.Value.Structure

/-!
# Doing a list of work

While a list of work is done most of what can be reached is half made. `Sound` says how far each
container has come, and a step keeps it or fails with the fault of an attribute that cannot be set.
Each step does one container, so what is owed says when the list will be empty.
-/

namespace RuleWalk

namespace Cell

/-- Sets an attribute that can be set. -/
def settle (name : String) (r : Ref) (set : List (String × Ref)) : List (String × Ref) :=
  if name = "__dict__" then r.entries?.getD set else Value.assign name r set

/-- Sets one attribute after the other. -/
def settleAll (refs set : List (String × Ref)) : List (String × Ref) :=
  refs.foldl (fun set e => settle e.1 e.2 set) set

theorem settleAll_append (refs more set : List (String × Ref)) :
    settleAll (refs ++ more) set = settleAll more (settleAll refs set) :=
  List.foldl_append

/-- Where all are fields they are set as fields. -/
theorem settleAll_of_ne {refs : List (String × Ref)} (h : ∀ e ∈ refs, e.1 ≠ "__dict__")
    (set : List (String × Ref)) : settleAll refs set = Value.assignAll refs set := by
  induction refs generalizing set with
  | nil => rfl
  | cons e es ih =>
    obtain ⟨hfirst, hrest⟩ := List.forall_mem_cons.1 h
    rw [settleAll, List.foldl_cons, settle, if_neg hfirst]
    exact ih hrest _

end Cell

namespace Worklist

variable {field : String}

/-! ## How far a container has come -/

/-- The reference stands for a value, in the container at `place`: the value itself, which is kept,
or a container made from it, which came later. -/
def Stands (field : String) (sources : List Value) (place : Nat) (v : Value) : Ref → Prop
  | .kept w => w = v ∧ Cell.blank? (.str field) v = none
  | .made q => place < q ∧ sources[q]? = some v ∧ Cell.blank? (.str field) v ≠ none

/-- The cell is `blank` with some children put into it. -/
inductive Holds (field : String) (sources : List Value) (place : Nat) (blank : Cell) :
    List (Option String × Value) → Cell → Prop
  | nil : Holds field sources place blank [] blank
  | add {done : List (Option String × Value)} {cell cell' : Cell} {name : Option String} {v : Value}
      {r : Ref} (h : Holds field sources place blank done cell)
      (hr : Stands field sources place v r)
      (hadd : cell.add name (v.convertedType (.str field)) r = .ok cell') :
      Holds field sources place blank (done ++ [(name, v)]) cell'

theorem Stands.append {sources : List Value} {place : Nat} {v : Value} {r : Ref}
    (h : Stands field sources place v r) (more : List Value) :
    Stands field (sources ++ more) place v r := by
  cases r with
  | kept w => exact h
  | made q =>
    obtain ⟨hlt, hq, hblank⟩ := h
    have hbound : q < sources.length := (List.getElem?_eq_some_iff.mp hq).1
    exact ⟨hlt, by rw [List.getElem?_append_left hbound, hq], hblank⟩

theorem Holds.append {sources : List Value} {place : Nat} {blank cell : Cell}
    {done : List (Option String × Value)} (h : Holds field sources place blank done cell)
    (more : List Value) : Holds field (sources ++ more) place blank done cell := by
  induction h with
  | nil => exact .nil
  | add _ hr hadd ih => exact .add ih (hr.append more) hadd

/-- Each child that was put into a cell has a reference there. -/
theorem Holds.exists_stands {sources : List Value} {place : Nat} {blank cell : Cell}
    {done : List (Option String × Value)} (h : Holds field sources place blank done cell)
    {c : Option String × Value} (hc : c ∈ done) : ∃ r, Stands field sources place c.2 r := by
  induction h with
  | nil => cases hc
  | @add _ _ _ _ _ r _ hr _ ih =>
    rcases List.mem_append.mp hc with hc | hc
    · exact ih hc
    · obtain rfl := List.mem_singleton.mp hc
      exact ⟨r, hr⟩

/-- A reference has entries exactly where it stands for a mapping that is kept. -/
theorem Stands.entries? {sources : List Value} {place : Nat} {v : Value} {r : Ref}
    (h : Stands field sources place v r) :
    r.entries? = match v with
      | .dict _ es =>
        if (Value.tag? (.str field) es).isSome then none
        else some (es.map fun e => (e.1, .kept e.2))
      | _ => none := by
  cases r with
  | kept w =>
    obtain ⟨rfl, hblank⟩ := h
    cases w with
    | dict o es =>
      rw [Cell.blank?, Option.map_eq_none_iff] at hblank
      simp [Ref.entries?, Value.entries?, hblank]
    | _ => rfl
  | made q =>
    cases v with
    | dict o es =>
      have hsome : (Value.tag? (.str field) es).isSome = true := by
        have hblank := h.2.2
        rw [Cell.blank?, Ne, Option.map_eq_none_iff, ← Ne, Option.ne_none_iff_isSome] at hblank
        exact hblank
      simp [Ref.entries?, hsome]
    | _ => rfl

/-- An attribute is set unless something hinders it. -/
theorem Stands.setAttribute {sources : List Value} {place : Nat} {v : Value} {r : Ref}
    (h : Stands field sources place v r) (name : String) (set : List (String × Ref)) :
    Value.setAttribute name (v.convertedType (.str field)) r.entries? r set =
      match Value.hindrance? field (name, v) with
      | some e => .error e
      | none => .ok (Cell.settle name r set) := by
  unfold Value.setAttribute
  rw [Value.hindrance?, Cell.settle]
  by_cases hclass : name = "__class__"
  · simp [hclass]
  · by_cases hdict : name = "__dict__"
    · simp only [if_neg hclass, if_pos hdict, h.entries?]
      cases v with
      | dict o es => cases htag : Value.tag? (.str field) es <;> simp [htag]
      | _ => rfl
    · by_cases hweak : name = "__weakref__"
      · simp [hweak]
      · simp [hclass, hdict, hweak]

/-- What cannot be put into a container is hindered. -/
theorem Stands.hindrance?_of_add {sources : List Value} {place : Nat} {v : Value} {r : Ref}
    (h : Stands field sources place v r) {name : Option String} {cell : Cell} {e : Fault}
    (hadd : cell.add name (v.convertedType (.str field)) r = .error e) :
    ∃ a, name = some a ∧ Value.hindrance? field (a, v) = some e := by
  cases cell with
  | items path refs => cases name <;> cases hadd
  | attributes path refs =>
    cases name with
    | none => cases hadd
    | some a =>
      rw [Cell.add, h.setAttribute] at hadd
      refine ⟨a, rfl, ?_⟩
      cases hhindrance : Value.hindrance? field (a, v) with
      | none =>
        rw [hhindrance] at hadd
        cases hadd
      | some e' =>
        rw [hhindrance] at hadd
        cases hadd
        rfl

/-- What is put under a name is set there, and nothing hinders it. -/
theorem Stands.settle_of_add {sources : List Value} {place : Nat} {v : Value} {r : Ref}
    (h : Stands field sources place v r) {name : String} {path : Option String}
    {refs : List (String × Ref)} {cell : Cell}
    (hadd : (Cell.attributes path refs).add (some name) (v.convertedType (.str field)) r =
      .ok cell) :
    Value.hindrance? field (name, v) = none ∧
      cell = .attributes path (Cell.settle name r refs) := by
  rw [Cell.add, h.setAttribute] at hadd
  cases hhindrance : Value.hindrance? field (name, v) with
  | none =>
    rw [hhindrance] at hadd
    cases hadd
    exact ⟨rfl, rfl⟩
  | some e =>
    rw [hhindrance] at hadd
    cases hadd

/-! ## How much there is to do -/

/-- How many containers the conversion of a value makes. -/
def containers (field : String) (v : Value) : Nat := (Value.converted (.str field) v 0).2

mutual

/-- The serial numbers that a conversion takes do not depend on the first one. -/
theorem converted_snd : ∀ (v : Value) (n : Nat),
    (Value.converted (.str field) v n).2 = n + containers field v
  | .list o items, n => by
    have hzero := convertedItems_snd items 1
    rw [containers, Value.converted, Value.converted, hzero, convertedItems_snd items (n + 1)]
    omega
  | .dict o entries, n => by
    have hzero := convertedEntries_snd entries 1
    rw [containers, Value.converted, Value.converted]
    cases Value.tag? (.str field) entries with
    | none => rfl
    | some tag =>
      dsimp only
      rw [hzero, convertedEntries_snd entries (n + 1)]
      omega
  | .null, _ | .bool _, _ | .int _, _ | .float _, _ | .str _, _ | .tuple _ _, _ | .node _ _ _, _
  | .method _ _, _ => rfl

theorem convertedItems_snd : ∀ (items : List Value) (n : Nat),
    (Value.convertedItems (.str field) items n).2 =
      n + (Value.convertedItems (.str field) items 0).2
  | [], n => rfl
  | v :: vs, n => by
    rw [Value.convertedItems, Value.convertedItems, converted_snd v n, converted_snd v 0,
      convertedItems_snd vs (n + containers field v),
      convertedItems_snd vs (0 + containers field v)]
    omega

theorem convertedEntries_snd : ∀ (entries : List (String × Value)) (n : Nat),
    (Value.convertedEntries (.str field) entries n).2 =
      n + (Value.convertedEntries (.str field) entries 0).2
  | [], n => rfl
  | (k, v) :: es, n => by
    rw [Value.convertedEntries, Value.convertedEntries, converted_snd v n, converted_snd v 0,
      convertedEntries_snd es (n + containers field v),
      convertedEntries_snd es (0 + containers field v)]
    omega

end

/-- How many containers are made from all of the values. -/
def owed (field : String) : List Value → Nat
  | [] => 0
  | v :: vs => containers field v + owed field vs

theorem le_owed {v : Value} {vs : List Value} (h : v ∈ vs) :
    containers field v ≤ owed field vs := by
  induction vs with
  | nil => cases h
  | cons u vs ih =>
    rw [owed]
    rcases List.mem_cons.mp h with rfl | h
    · exact Nat.le_add_right _ _
    · exact Nat.le_add_left_of_le (ih h)

theorem owed_append (vs ws : List Value) :
    owed field (vs ++ ws) = owed field vs + owed field ws := by
  induction vs with
  | nil => rw [List.nil_append, owed, Nat.zero_add]
  | cons v vs ih => rw [List.cons_append, owed, owed, ih, Nat.add_assoc]

theorem owed_reverse (vs : List Value) : owed field vs.reverse = owed field vs := by
  induction vs with
  | nil => rfl
  | cons v vs ih =>
    rw [List.reverse_cons, owed_append, ih, owed, owed, owed]
    omega

theorem owed_items (items : List Value) :
    owed field items = (Value.convertedItems (.str field) items 0).2 := by
  induction items with
  | nil => rfl
  | cons v vs ih =>
    rw [owed, ih, Value.convertedItems, converted_snd v 0, Nat.zero_add]
    exact (convertedItems_snd vs _).symm

theorem owed_entries (entries : List (String × Value)) :
    owed field (entries.map Prod.snd) = (Value.convertedEntries (.str field) entries 0).2 := by
  induction entries with
  | nil => rfl
  | cons e es ih =>
    obtain ⟨k, v⟩ := e
    rw [List.map_cons, owed, ih, Value.convertedEntries, converted_snd v 0, Nat.zero_add]
    exact (convertedEntries_snd es _).symm

/-- A container is one, and those for its children come to it. -/
theorem containers_of_blank {v : Value} {blank : Cell}
    (h : Cell.blank? (.str field) v = some blank) :
    containers field v = 1 + owed field (v.children.map Prod.snd) := by
  cases v with
  | list o items =>
    have hchildren : (Value.list o items).children.map Prod.snd = items := by
      rw [Value.children, List.map_map]
      exact List.map_id _
    rw [hchildren, owed_items, containers, Value.converted]
    exact convertedItems_snd items 1
  | dict o entries =>
    have hchildren : (Value.dict o entries).children.map Prod.snd = entries.map Prod.snd := by
      rw [Value.children, List.map_map]
      rfl
    rw [hchildren, owed_entries, containers, Value.converted]
    cases htag : Value.tag? (.str field) entries with
    | none =>
      rw [Cell.blank?, htag] at h
      cases h
    | some tag => exact convertedEntries_snd entries 1
  | _ => cases h

theorem containers_of_kept {v : Value} (h : Cell.blank? (.str field) v = none) :
    containers field v = 0 := by
  cases v with
  | list o items => cases h
  | dict o entries =>
    rw [Cell.blank?, Option.map_eq_none_iff] at h
    rw [containers, Value.converted, h]
  | _ => rfl

/-! ## Filling a container -/

/-- New containers in the order in which they are made. -/
def numbered : Nat → List Value → List (Nat × Value)
  | _, [] => []
  | n, v :: vs => (n, v) :: numbered (n + 1) vs

theorem map_fst_numbered (n : Nat) (vs : List Value) :
    (numbered n vs).map Prod.fst = List.range' n vs.length := by
  induction vs generalizing n with
  | nil => rfl
  | cons v vs ih => rw [numbered, List.map_cons, ih, List.length_cons, List.range'_succ]

theorem map_snd_numbered (n : Nat) (vs : List Value) : (numbered n vs).map Prod.snd = vs := by
  induction vs generalizing n with
  | nil => rfl
  | cons v vs ih => rw [numbered, List.map_cons, ih]

theorem numbered_append (n : Nat) (vs ws : List Value) :
    numbered n (vs ++ ws) = numbered n vs ++ numbered (n + vs.length) ws := by
  induction vs generalizing n with
  | nil => rfl
  | cons v vs ih =>
    rw [List.cons_append, numbered, numbered, ih, List.length_cons, List.cons_append,
      Nat.add_assoc, Nat.add_comm 1]

theorem getElem?_of_mem_numbered {n : Nat} {vs : List Value} {e : Nat × Value}
    (h : e ∈ numbered n vs) : n ≤ e.1 ∧ vs[e.1 - n]? = some e.2 := by
  induction vs generalizing n with
  | nil => cases h
  | cons v vs ih =>
    rcases List.mem_cons.mp h with rfl | h
    · exact ⟨Nat.le_refl n, by simp⟩
    · obtain ⟨hle, hget⟩ := ih h
      have hshift : e.1 - n = e.1 - (n + 1) + 1 := by omega
      exact ⟨Nat.le_of_succ_le hle, by rw [hshift, List.getElem?_cons_succ, hget]⟩

/-- What filling the container at `place` with `rest` makes of `w`: the new containers, made from
`more`, are blank and stand on the list of work, and of the old ones only this one has changed. -/
structure Filled (field : String) (sources : List Value) (place : Nat)
    (rest : List (Option String × Value)) (w w' : Worklist) (more : List Value) : Prop where
  length : w'.cells.length = w.cells.length + more.length
  pending : w'.pending = (numbered w.cells.length more).reverse ++ w.pending
  frame : ∀ q < w.cells.length, q ≠ place → w'.cells[q]? = w.cells[q]?
  fresh : ∀ i v, more[i]? = some v → ∃ blank, Cell.blank? (.str field) v = some blank ∧
    w'.cells[w.cells.length + i]? = some blank
  target : ∀ blank done cell, w.cells[place]? = some cell →
    Holds field sources place blank done cell →
    ∃ cell', w'.cells[place]? = some cell' ∧
      Holds field (sources ++ more) place blank (done ++ rest) cell'
  children : ∀ v ∈ more, ∃ name, (name, v) ∈ rest
  owed_eq : owed field more = owed field (rest.map Prod.snd)

namespace Filled

variable {sources more more' : List Value} {place : Nat} {w w' w'' : Worklist}
  {done rest : List (Option String × Value)}

theorem refl : Filled field sources place [] w w [] where
  length := rfl
  pending := rfl
  frame _ _ _ := rfl
  fresh := by simp
  target := by
    intro blank done cell hcell hholds
    rw [List.append_nil, List.append_nil]
    exact ⟨cell, hcell, hholds⟩
  children := by simp
  owed_eq := rfl

theorem trans (h : Filled field sources place done w w' more)
    (h' : Filled field (sources ++ more) place rest w' w'' more')
    (hplace : place < w.cells.length) :
    Filled field sources place (done ++ rest) w w'' (more ++ more') where
  length := by rw [h'.length, h.length, List.length_append, Nat.add_assoc]
  pending := by
    rw [h'.pending, h.pending, h.length, numbered_append, List.reverse_append, List.append_assoc]
  frame := by
    intro q hq hne
    rw [h'.frame q (h.length ▸ Nat.lt_add_right _ hq) hne, h.frame q hq hne]
  fresh := by
    intro i v hv
    by_cases hi : i < more.length
    · rw [List.getElem?_append_left hi] at hv
      obtain ⟨blank, hblank, hcell⟩ := h.fresh i v hv
      have hnew : w.cells.length + i < w'.cells.length := h.length ▸ Nat.add_lt_add_left hi _
      exact ⟨blank, hblank, (h'.frame _ hnew (by omega)).trans hcell⟩
    · rw [List.getElem?_append_right (Nat.le_of_not_lt hi)] at hv
      obtain ⟨blank, hblank, hcell⟩ := h'.fresh _ v hv
      rw [h.length, Nat.add_assoc, Nat.add_sub_cancel' (Nat.le_of_not_lt hi)] at hcell
      exact ⟨blank, hblank, hcell⟩
  target := by
    intro blank before cell hcell hholds
    obtain ⟨cell', hcell', hholds'⟩ := h.target blank before cell hcell hholds
    rw [← List.append_assoc, ← List.append_assoc]
    exact h'.target blank _ cell' hcell' hholds'
  children := by
    intro v hv
    rcases List.mem_append.mp hv with hv | hv
    · obtain ⟨name, hname⟩ := h.children v hv
      exact ⟨name, List.mem_append_left _ hname⟩
    · obtain ⟨name, hname⟩ := h'.children v hv
      exact ⟨name, List.mem_append_right _ hname⟩
  owed_eq := by rw [owed_append, h.owed_eq, h'.owed_eq, List.map_append, owed_append]

end Filled

section Put

variable {sources : List Value} {place : Nat} {w : Worklist} {name : Option String} {v : Value}
  {cell cell' : Cell}

/-- A child that is kept makes no new container. -/
theorem filled_of_kept (hcell : w.cells[place]? = some cell)
    (hblank : Cell.blank? (.str field) v = none)
    (hadd : cell.add name (v.convertedType (.str field)) (.kept v) = .ok cell') :
    Filled field sources place [(name, v)] w { w with cells := w.cells.set place cell' } [] := by
  have hplace : place < w.cells.length := (List.getElem?_eq_some_iff.mp hcell).1
  constructor
  case length => simp
  case pending => rfl
  case frame =>
    intro q _ hne
    simp [Ne.symm hne]
  case fresh => simp
  case target =>
    intro blank done cell₀ hcell₀ hholds
    obtain rfl : cell = cell₀ := Option.some.inj (hcell.symm.trans hcell₀)
    rw [List.append_nil]
    have hstands : Stands field sources place v (.kept v) := ⟨rfl, hblank⟩
    exact ⟨cell', by simp [hplace], hholds.add hstands hadd⟩
  case children => simp
  case owed_eq => simp [owed, containers_of_kept hblank]

/-- Any other child makes one, which comes behind all that are there. -/
theorem filled_of_blank {blank : Cell} (hlength : w.cells.length = sources.length)
    (hcell : w.cells[place]? = some cell) (hblank : Cell.blank? (.str field) v = some blank)
    (hadd : cell.add name (v.convertedType (.str field)) (.made w.cells.length) = .ok cell') :
    Filled field sources place [(name, v)] w
      ⟨(w.cells ++ [blank]).set place cell', (w.cells.length, v) :: w.pending⟩ [v] := by
  have hplace : place < w.cells.length := (List.getElem?_eq_some_iff.mp hcell).1
  constructor
  case length => simp
  case pending => rfl
  case frame =>
    intro q hq hne
    simp [Ne.symm hne, List.getElem?_append_left hq]
  case fresh =>
    intro i u hu
    obtain ⟨rfl, rfl⟩ : i = 0 ∧ v = u := by
      cases i with
      | zero => exact ⟨rfl, Option.some.inj hu⟩
      | succ i => cases hu
    exact ⟨blank, hblank, by simp [Nat.ne_of_lt hplace]⟩
  case target =>
    intro blank' done cell₀ hcell₀ hholds
    obtain rfl : cell = cell₀ := Option.some.inj (hcell.symm.trans hcell₀)
    have hstands : Stands field (sources ++ [v]) place v (.made w.cells.length) :=
      ⟨hplace, by simp [hlength], by simp [hblank]⟩
    exact ⟨cell', by simp [Nat.lt_succ_of_lt hplace], (hholds.append [v]).add hstands hadd⟩
  case children =>
    intro u hu
    obtain rfl := List.mem_singleton.mp hu
    exact ⟨name, List.mem_singleton_self _⟩
  case owed_eq => rfl

/-- A child is put into its container, or it is hindered. -/
theorem put_cases (hlength : w.cells.length = sources.length) (hplace : place < w.cells.length)
    (name : Option String) (v : Value) :
    (∃ w' more, put (.str field) place (name, v) w = .ok w' ∧
        Filled field sources place [(name, v)] w w' more) ∨
      ∃ e a, put (.str field) place (name, v) w = .error e ∧ name = some a ∧
        Value.hindrance? field (a, v) = some e := by
  obtain ⟨cell, hcell⟩ : ∃ cell, w.cells[place]? = some cell := ⟨_, List.getElem?_eq_getElem hplace⟩
  cases hblank : Cell.blank? (.str field) v with
  | none =>
    have hput : put (.str field) place (name, v) w =
        (cell.add name (v.convertedType (.str field)) (.kept v)).map fun cell' =>
          { w with cells := w.cells.set place cell' } := by
      simp only [put, take, hblank, hcell]
    have hstands : Stands field sources place v (.kept v) := ⟨rfl, hblank⟩
    rw [hput]
    cases hadd : cell.add name (v.convertedType (.str field)) (.kept v) with
    | ok cell' => exact .inl ⟨_, [], rfl, filled_of_kept hcell hblank hadd⟩
    | error e =>
      obtain ⟨a, hname, hhindrance⟩ := hstands.hindrance?_of_add hadd
      exact .inr ⟨e, a, rfl, hname, hhindrance⟩
  | some blank =>
    have hput : put (.str field) place (name, v) w =
        (cell.add name (v.convertedType (.str field)) (.made w.cells.length)).map fun cell' =>
          ⟨(w.cells ++ [blank]).set place cell', (w.cells.length, v) :: w.pending⟩ := by
      simp only [put, take, hblank, List.getElem?_append_left hplace, hcell]
    have hstands : Stands field (sources ++ [v]) place v (.made w.cells.length) :=
      ⟨hplace, by simp [hlength], by simp [hblank]⟩
    rw [hput]
    cases hadd : cell.add name (v.convertedType (.str field)) (.made w.cells.length) with
    | ok cell' => exact .inl ⟨_, [v], rfl, filled_of_blank hlength hcell hblank hadd⟩
    | error e =>
      obtain ⟨a, hname, hhindrance⟩ := hstands.hindrance?_of_add hadd
      exact .inr ⟨e, a, rfl, hname, hhindrance⟩

/-- All children are put into their container, up to one that is hindered. -/
theorem fill_cases (hlength : w.cells.length = sources.length) (hplace : place < w.cells.length)
    (rest : List (Option String × Value)) :
    (∃ w' more, fill (.str field) place rest w = .ok w' ∧
        Filled field sources place rest w w' more) ∨
      ∃ e a v, fill (.str field) place rest w = .error e ∧ (some a, v) ∈ rest ∧
        Value.hindrance? field (a, v) = some e := by
  induction rest generalizing w sources with
  | nil => exact .inl ⟨w, [], rfl, .refl⟩
  | cons c rest ih =>
    obtain ⟨name, v⟩ := c
    rw [fill]
    obtain ⟨w', more, hok, hput⟩ | ⟨e, a, herror, rfl, hhindrance⟩ :=
      put_cases hlength hplace name v
    · rw [hok]
      have hlength' : w.cells.length + more.length = (sources ++ more).length := by
        rw [hlength, List.length_append]
      obtain ⟨w'', more', hok', hrest⟩ | ⟨e, a, u, herror, hmem, hhindrance⟩ :=
        ih (hput.length.trans hlength') (hput.length ▸ Nat.lt_add_right _ hplace)
      · exact .inl ⟨w'', more ++ more', hok', hput.trans hrest hplace⟩
      · exact .inr ⟨e, a, u, herror, List.mem_cons_of_mem _ hmem, hhindrance⟩
    · rw [herror]
      exact .inr ⟨e, a, v, rfl, List.mem_cons_self, hhindrance⟩

end Put

/-! ## The invariant -/

/-- What is put into a new container is converted with its source. -/
theorem mem_inner_of_mem_children {v u : Value} {name : Option String}
    (hblank : Cell.blank? (.str field) v ≠ none) (hu : (name, u) ∈ v.children) :
    u ∈ v.inner field := by
  cases v with
  | list o items =>
    obtain ⟨w, hw, heq⟩ := List.mem_map.mp hu
    cases heq
    exact hw
  | dict o entries =>
    rw [Cell.blank?, Ne, Option.map_eq_none_iff, ← Ne, Option.ne_none_iff_isSome] at hblank
    obtain ⟨e, he, heq⟩ := List.mem_map.mp hu
    cases heq
    rw [Value.inner, if_pos hblank]
    exact List.mem_map_of_mem he
  | _ => cases hu

/-- What is converted with a value is put into the container for it. -/
theorem exists_mem_children_of_mem_inner {v u : Value} (hu : u ∈ v.inner field) :
    Cell.blank? (.str field) v ≠ none ∧ ∃ name, (name, u) ∈ v.children := by
  cases v with
  | list o items => exact ⟨nofun, none, List.mem_map_of_mem hu⟩
  | dict o entries =>
    rw [Value.inner] at hu
    split at hu
    · next hsome =>
      obtain ⟨e, he, rfl⟩ := List.mem_map.mp hu
      refine ⟨?_, some e.1, List.mem_map.mpr ⟨e, he, rfl⟩⟩
      rw [Cell.blank?, Ne, Option.map_eq_none_iff, ← Ne, Option.ne_none_iff_isSome]
      exact hsome
    · cases hu
  | _ => cases hu

theorem hasDistinctKeys_of_meets {v u : Value} (hv : v.hasDistinctKeys = true)
    (h : Value.Meets field v u) : u.hasDistinctKeys = true := by
  induction h with
  | refl => exact hv
  | @tail u w _ hw ih =>
    cases u with
    | list o items =>
      rw [Value.hasDistinctKeys, Value.haveDistinctKeys_iff] at ih
      exact ih w hw
    | dict o entries =>
      rw [Value.inner] at hw
      split at hw
      · obtain ⟨e, he, rfl⟩ := List.mem_map.mp hw
        exact (Value.hasDistinctKeys_dict_iff.mp ih).2 e he
      · cases hw
    | _ => cases hw

/-- The containers that are not filled yet. -/
def places (w : Worklist) : List Nat := w.pending.map Prod.fst

namespace Filled

variable {sources more : List Value} {place : Nat} {rest : List (Option String × Value)}
  {w w' : Worklist}

theorem places_eq (h : Filled field sources place rest w w' more) :
    w'.places = (List.range' w.cells.length more.length).reverse ++ w.places := by
  rw [places, h.pending, List.map_append, List.map_reverse, map_fst_numbered, places]

theorem mem_places_iff (h : Filled field sources place rest w w' more) {q : Nat} :
    q ∈ w'.places ↔
      (w.cells.length ≤ q ∧ q < w.cells.length + more.length) ∨ q ∈ w.places := by
  rw [h.places_eq, List.mem_append, List.mem_reverse, List.mem_range'_1]

theorem nodup_places (h : Filled field sources place rest w w' more)
    (hold : ∀ q ∈ w.places, q < w.cells.length) (hnodup : w.places.Nodup) : w'.places.Nodup := by
  rw [h.places_eq, List.nodup_append]
  refine ⟨(List.reverse_perm _).nodup_iff.mpr List.nodup_range', hnodup, ?_⟩
  rintro q hnew _ hq rfl
  rw [List.mem_reverse, List.mem_range'_1] at hnew
  exact absurd (hold q hq) (Nat.not_lt.mpr hnew.1)

end Filled

/-- The container at `p` is made from `v`: it is blank as long as it is on the list of work, and
has all that belongs into it afterwards. -/
def MadeFrom (field : String) (sources : List Value) (w : Worklist) (p : Nat) (v : Value) : Prop :=
  ∃ blank cell, Cell.blank? (.str field) v = some blank ∧ w.cells[p]? = some cell ∧
    Holds field sources p blank (if p ∈ w.places then [] else v.children) cell

/-- Every container is made from its source, which is converted with `root`, and those on the list
of work are listed with it. -/
structure Sound (field : String) (root : Value) (sources : List Value) (w : Worklist) : Prop where
  length : w.cells.length = sources.length
  met : ∀ v ∈ sources, Value.Meets field root v
  pending : ∀ e ∈ w.pending, sources[e.1]? = some e.2
  nodup : w.places.Nodup
  cell : ∀ p v, sources[p]? = some v → MadeFrom field sources w p v

namespace Sound

variable {root : Value} {sources more : List Value} {w w' : Worklist} {place : Nat} {source : Value}
  {rest : List (Nat × Value)}

theorem lt_of_mem_places (h : Sound field root sources w) {p : Nat} (hp : p ∈ w.places) :
    p < w.cells.length := by
  obtain ⟨e, he, rfl⟩ := List.mem_map.mp hp
  rw [h.length]
  exact (List.getElem?_eq_some_iff.mp (h.pending e he)).1

theorem blank_ne (h : Sound field root sources w) {p : Nat} {v : Value}
    (hp : sources[p]? = some v) :
    Cell.blank? (.str field) v ≠ none := by
  obtain ⟨blank, -, hblank, -⟩ := h.cell p v hp
  simp [hblank]

/-- Filling the first container on the list of work takes it from blank to filled, and leaves the
others as they were. -/
theorem madeFrom_of_old (h : Sound field root sources w)
    (hpending : w.pending = (place, source) :: rest)
    (hfilled : Filled field sources place source.children { w with pending := rest } w' more)
    {q : Nat} {v : Value} (hq : sources[q]? = some v) :
    MadeFrom field (sources ++ more) w' q v := by
  have hplaces : w.places = place :: rest.map Prod.fst := by rw [places, hpending, List.map_cons]
  have hlt : q < w.cells.length := h.length ▸ (List.getElem?_eq_some_iff.mp hq).1
  have hold : q ∈ w'.places ↔ q ∈ rest.map Prod.fst := by
    rw [hfilled.mem_places_iff]
    exact or_iff_right fun hnew => Nat.not_lt.mpr hnew.1 hlt
  obtain ⟨blank, cell, hblank, hcell, hholds⟩ := h.cell q v hq
  simp only [hplaces] at hholds
  by_cases hqp : q = place
  · subst hqp
    have hsource : sources[q]? = some source := h.pending (q, source) (by simp [hpending])
    obtain rfl : v = source := Option.some.inj (hq.symm.trans hsource)
    rw [if_pos List.mem_cons_self] at hholds
    obtain ⟨cell', hcell', hholds'⟩ := hfilled.target blank [] cell hcell hholds
    refine ⟨blank, cell', hblank, hcell', ?_⟩
    rw [if_neg fun hmem => (List.nodup_cons.mp (hplaces ▸ h.nodup)).1 (hold.mp hmem)]
    exact hholds'
  · simp only [List.mem_cons, or_iff_right hqp, ← hold] at hholds
    exact ⟨blank, cell, hblank, (hfilled.frame q hlt hqp).trans hcell, hholds.append more⟩

/-- A new container is blank, and it is on the list of work. -/
theorem madeFrom_of_new (hlength : w.cells.length = sources.length)
    {children : List (Option String × Value)}
    (hfilled : Filled field sources place children w w' more) {i : Nat} {v : Value}
    (hi : more[i]? = some v) : MadeFrom field (sources ++ more) w' (sources.length + i) v := by
  obtain ⟨blank, hblank, hcell⟩ := hfilled.fresh i v hi
  have hbound : i < more.length := (List.getElem?_eq_some_iff.mp hi).1
  have hnew : w.cells.length + i ∈ w'.places :=
    hfilled.mem_places_iff.mpr (.inl ⟨Nat.le_add_right _ _, Nat.add_lt_add_left hbound _⟩)
  rw [← hlength]
  refine ⟨blank, blank, hblank, hcell, ?_⟩
  rw [if_pos hnew]
  exact .nil

/-- Filling the first container on the list of work, which is off it then, keeps `Sound`. -/
theorem filled (h : Sound field root sources w) (hpending : w.pending = (place, source) :: rest)
    (hfilled : Filled field sources place source.children { w with pending := rest } w' more) :
    Sound field root (sources ++ more) w' := by
  have hplaces : w.places = place :: rest.map Prod.fst := by rw [places, hpending, List.map_cons]
  have hsource : sources[place]? = some source := h.pending (place, source) (by simp [hpending])
  constructor
  case length => rw [hfilled.length, List.length_append, ← h.length]
  case met =>
    intro v hv
    rcases List.mem_append.mp hv with hv | hv
    · exact h.met v hv
    · obtain ⟨name, hname⟩ := hfilled.children v hv
      exact (h.met source (List.mem_of_getElem? hsource)).inner
        (mem_inner_of_mem_children (h.blank_ne hsource) hname)
  case pending =>
    intro e he
    rw [hfilled.pending, List.mem_append, List.mem_reverse] at he
    rcases he with hnew | hrest
    · obtain ⟨hle, hget⟩ := getElem?_of_mem_numbered hnew
      dsimp only at hle hget
      rw [h.length] at hle hget
      rw [List.getElem?_append_right hle, hget]
    · have hget := h.pending e (hpending ▸ List.mem_cons_of_mem _ hrest)
      rw [List.getElem?_append_left (List.getElem?_eq_some_iff.mp hget).1, hget]
  case nodup =>
    refine hfilled.nodup_places (fun q hq => ?_) (List.nodup_cons.mp (hplaces ▸ h.nodup)).2
    exact h.lt_of_mem_places (hplaces ▸ List.mem_cons_of_mem _ hq)
  case cell =>
    intro q v hq
    by_cases hlt : q < sources.length
    · rw [List.getElem?_append_left hlt] at hq
      exact h.madeFrom_of_old hpending hfilled hq
    · obtain ⟨i, rfl⟩ := Nat.exists_eq_add_of_le (Nat.le_of_not_lt hlt)
      rw [List.getElem?_append_right (Nat.le_of_not_lt hlt), Nat.add_sub_cancel_left] at hq
      exact madeFrom_of_new (w := { w with pending := rest }) h.length hfilled hq

/-- What hinders a child of a source hinders the conversion. -/
theorem hinders (h : Sound field root sources w) (hsource : sources[place]? = some source)
    {a : String} {v : Value} {e : Fault} (hmem : (some a, v) ∈ source.children)
    (hhindrance : Value.hindrance? field (a, v) = some e) : Value.Hinders field root e := by
  refine ⟨(a, v), ?_, hhindrance⟩
  have hblank := h.blank_ne hsource
  have hmet := h.met source (List.mem_of_getElem? hsource)
  cases source with
  | dict o entries =>
    rw [Cell.blank?, Ne, Option.map_eq_none_iff, ← Ne, Option.ne_none_iff_isSome] at hblank
    obtain ⟨entry, hentry, heq⟩ := List.mem_map.mp hmem
    cases heq
    exact ⟨o, entries, hmet, hblank, hentry⟩
  | list o items =>
    obtain ⟨u, -, heq⟩ := List.mem_map.mp hmem
    cases heq
  | _ => cases hmem

/-- One step keeps `Sound`, and one container less is owed; or it fails, and not without reason. -/
theorem advance (h : Sound field root sources w) (hpending : w.pending ≠ []) :
    (∃ w' more, w.advance (.str field) = .ok w' ∧ Sound field root (sources ++ more) w' ∧
        owed field (w.pending.map Prod.snd) = owed field (w'.pending.map Prod.snd) + 1) ∨
      ∃ e, w.advance (.str field) = .error e ∧ Value.Hinders field root e := by
  obtain ⟨⟨place, source⟩, rest, hpending⟩ := List.exists_cons_of_ne_nil hpending
  have hsource : sources[place]? = some source := h.pending (place, source) (by simp [hpending])
  have hplace : place < w.cells.length := h.length ▸ (List.getElem?_eq_some_iff.mp hsource).1
  have hadvance : w.advance (.str field) =
      fill (.str field) place source.children { w with pending := rest } := by
    rw [Worklist.advance, hpending]
  rw [hadvance]
  obtain ⟨w', more, hok, hfilled⟩ | ⟨e, a, v, herror, hmem, hhindrance⟩ :=
    @fill_cases field sources place { w with pending := rest } h.length hplace source.children
  · refine .inl ⟨w', more, hok, h.filled hpending hfilled, ?_⟩
    obtain ⟨blank, -, hblank, -⟩ := h.cell place source hsource
    rw [hpending, List.map_cons, owed, containers_of_blank hblank, hfilled.pending, List.map_append,
      List.map_reverse, map_snd_numbered, owed_append, owed_reverse, hfilled.owed_eq]
    dsimp only
    omega
  · exact .inr ⟨e, herror, h.hinders hsource hmem hhindrance⟩

/-- As long as something is on the list of work, something is owed. -/
theorem pending_eq_nil_iff (h : Sound field root sources w) :
    w.pending = [] ↔ owed field (w.pending.map Prod.snd) = 0 := by
  constructor
  · intro hnil
    rw [hnil, List.map_nil, owed]
  · intro hzero
    by_contra hpending
    obtain ⟨e, he⟩ := List.exists_mem_of_ne_nil _ hpending
    obtain ⟨blank, -, hblank, -⟩ := h.cell _ _ (h.pending e he)
    have hone := containers_of_blank hblank
    have hmem : e.2 ∈ w.pending.map Prod.snd := List.mem_map_of_mem he
    have hle : containers field e.2 ≤ owed field (w.pending.map Prod.snd) := le_owed hmem
    omega

/-- A run keeps `Sound`, and each step takes one off what is owed; or it fails, and not without
reason. -/
theorem run (h : Sound field root sources w) (j : Nat) :
    (∃ w' more, w.run (.str field) j = .ok w' ∧ Sound field root (sources ++ more) w' ∧
        owed field (w'.pending.map Prod.snd) = owed field (w.pending.map Prod.snd) - j) ∨
      ∃ e, w.run (.str field) j = .error e ∧ Value.Hinders field root e := by
  induction j generalizing w sources with
  | zero => exact .inl ⟨w, [], rfl, by rwa [List.append_nil], rfl⟩
  | succ j ih =>
    rw [Worklist.run]
    by_cases hpending : w.pending = []
    · have hstay : w.advance (.str field) = .ok w := by rw [Worklist.advance, hpending]
      have hzero := h.pending_eq_nil_iff.mp hpending
      rw [hstay]
      obtain ⟨w', more, hok, hsound, howed⟩ | herror := ih h
      · exact .inl ⟨w', more, hok, hsound, by omega⟩
      · exact .inr herror
    · obtain ⟨w', more, hok, hsound, howed⟩ | ⟨e, herror, hhinders⟩ := h.advance hpending
      · rw [hok]
        obtain ⟨w'', more', hok', hsound', howed'⟩ | herror := ih hsound
        · rw [List.append_assoc] at hsound'
          exact .inl ⟨w'', more ++ more', hok', hsound', by omega⟩
        · exact .inr herror
      · rw [herror]
        exact .inr ⟨e, rfl, hhinders⟩

end Sound

end Worklist

end RuleWalk
