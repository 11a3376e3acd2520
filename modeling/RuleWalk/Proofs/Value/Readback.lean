import RuleWalk.Proofs.Value.Worklist

/-!
# What a list of work comes to

When a list of work is empty, each container is filled and can be read. The first reference then
reads as a conversion of the value. The work can also come to an end before that, with the fault of
an attribute that cannot be set, and it does so if there is such an attribute at all.
-/

namespace RuleWalk

namespace Worklist

variable {field : String}

/-! ## What a filled container reads as -/

section ReadBack

variable {sources : List Value} {place : Nat} {path : Option String}

/-- A list holds one reference for each item. -/
theorem Holds.items {done : List (Option String × Value)} {cell : Cell}
    (h : Holds field sources place (.items path []) done cell) (hnames : ∀ c ∈ done, c.1 = none) :
    ∃ refs, cell = .items path refs ∧
      List.Forall₂ (fun c r => Stands field sources place c.2 r) done refs := by
  induction h with
  | nil => exact ⟨[], rfl, .nil⟩
  | @add done cell cell' name v r _ hr hadd ih =>
    obtain ⟨refs, rfl, hrefs⟩ := ih fun c hc => hnames c (List.mem_append_left _ hc)
    obtain rfl : name = none := hnames (name, v) (by simp)
    cases hadd
    exact ⟨refs ++ [r], rfl, List.rel_append hrefs (.cons hr .nil)⟩

/-- The reference stands for what an entry holds, and it can be set under its name. -/
def Settles (field : String) (sources : List Value) (place : Nat) (e : String × Value)
    (r : String × Ref) : Prop :=
  r.1 = e.1 ∧ Stands field sources place e.2 r.2 ∧ Value.hindrance? field e = none

/-- An attribute node holds its tag, and then what has been set, one attribute after the other. -/
theorem Holds.attributes {tag : Value} {entries : List (String × Value)} {cell : Cell}
    (h : Holds field sources place (.attributes path [("type", .kept tag)])
      (entries.map fun e => (some e.1, e.2)) cell) :
    ∃ refs : List (String × Ref),
      cell = .attributes path (Cell.settleAll refs [("type", .kept tag)]) ∧
      List.Forall₂ (Settles field sources place) entries refs := by
  generalize hdone : entries.map (fun e => (some e.1, e.2)) = done at h
  induction h generalizing entries with
  | nil =>
    obtain rfl := List.map_eq_nil_iff.mp hdone
    exact ⟨[], rfl, .nil⟩
  | @add done cell cell' name v r _ hr hadd ih =>
    obtain ⟨before, last, rfl, hbefore, hlast⟩ := List.map_eq_append_iff.mp hdone
    obtain ⟨e, rfl, he⟩ := List.map_eq_singleton_iff.mp hlast
    cases he
    obtain ⟨refs, rfl, hrefs⟩ := ih hbefore
    obtain ⟨hfree, rfl⟩ := hr.settle_of_add hadd
    refine ⟨refs ++ [(e.1, r)], ?_, List.rel_append hrefs (.cons ⟨rfl, hr, hfree⟩ .nil)⟩
    rw [Cell.settleAll_append]
    rfl

theorem read_kept (cells : List Cell) (n fuel : Nat) (v : Value) :
    read cells n fuel (.kept v) = v := by
  cases fuel <;> rfl

/-- What no container is made from is its own conversion. -/
theorem converts_of_blank?_eq_none {v : Value} (h : Cell.blank? (.str field) v = none) :
    Value.Converts field v v := by
  refine .kept ?_ ?_
  · rintro o items rfl
    cases h
  · rintro o entries rfl
    exact Option.map_eq_none_iff.mp h

/-- A reference reads as a conversion if the containers that came later do. -/
theorem Stands.converts {cells : List Cell} {n fuel : Nat} {v : Value} {r : Ref}
    (h : Stands field sources place v r)
    (hlater : ∀ q, place < q → sources[q]? = some v →
      Value.Converts field v (read cells n fuel (.made q))) :
    Value.Converts field v (read cells n fuel r) := by
  cases r with
  | kept w =>
    obtain ⟨rfl, hblank⟩ := h
    rw [read_kept]
    exact converts_of_blank?_eq_none hblank
  | made q => exact hlater q h.1 h.2.1

/-- Only a mapping without a tag can be set under `__dict__`. -/
theorem Settles.mapping {v : Value} {r : String × Ref}
    (h : Settles field sources place ("__dict__", v) r) :
    ∃ o es, v = .dict o es ∧ Value.tag? (.str field) es = none ∧ r = ("__dict__", .kept v) := by
  obtain ⟨name, r⟩ := r
  obtain ⟨rfl, hstands, hfree⟩ := h
  cases v with
  | dict o es =>
    have hnone : Value.tag? (.str field) es = none := by simpa [Value.hindrance?] using hfree
    refine ⟨o, es, rfl, hnone, ?_⟩
    cases r with
    | kept w => rw [hstands.1]
    | made q => exact absurd (by rw [Cell.blank?, hnone]; rfl) hstands.2.2
  | _ => simp [Value.hindrance?] at hfree

/-- The references that were set read as the conversion of a mapping with a tag. -/
theorem converts_settleAll {o o' : Origin} {tag : Value} {entries : List (String × Value)}
    {refs : List (String × Ref)} {read : Ref → Value} (hkept : ∀ v, read (.kept v) = v)
    (htag : Value.tag? (.str field) entries = some tag) (hnodup : (entries.map Prod.fst).Nodup)
    (hsettles : List.Forall₂ (Settles field sources place) entries refs)
    (hreads : ∀ e r, Settles field sources place e r → Value.Converts field e.2 (read r.2))
    (hpath : o'.path = o.path) :
    Value.Converts field (.dict o entries) (.ofAttributes o'
      ((Cell.settleAll refs [("type", .kept tag)]).map fun e => (e.1, read e.2))) := by
  have hentries {es : List (String × Value)} {rs : List (String × Ref)}
      (h : List.Forall₂ (Settles field sources place) es rs) :
      List.Forall₂ (Value.EntryConverts field) es (rs.map fun e => (e.1, read e.2)) := by
    rw [List.forall₂_map_right_iff]
    exact h.imp fun e r hr => ⟨hr.1, hreads e r hr⟩
  have hnames : refs.map Prod.fst = entries.map Prod.fst :=
    map_fst_eq_of_forall₂ (fun _ _ he => he.1) hsettles
  by_cases hdict : "__dict__" ∈ entries.map Prod.fst
  · -- What is set behind `__dict__` is set on the entries found there.
    obtain ⟨⟨_, v⟩, hmem, rfl⟩ := List.mem_map.mp hdict
    obtain ⟨before, after, rfl⟩ := List.append_of_mem hmem
    obtain ⟨refs₁, refs₂, -, hrest, rfl⟩ := forall₂_append_left hsettles
    obtain ⟨r, refs₃, hr, hafter, rfl⟩ := List.forall₂_cons_left_iff.mp hrest
    obtain ⟨inside, set, rfl, hset, rfl⟩ := hr.mapping
    rw [List.map_append, List.map_cons, List.nodup_append, List.nodup_cons] at hnodup
    obtain ⟨-, ⟨hlast, hnodup⟩, -⟩ := hnodup
    have hnames : refs₃.map Prod.fst = after.map Prod.fst :=
      map_fst_eq_of_forall₂ (fun _ _ he => he.1) hafter
    have hfields : ∀ e ∈ refs₃, e.1 ≠ "__dict__" := fun e he heq =>
      hlast (hnames ▸ heq ▸ List.mem_map_of_mem he)
    have hread : (Cell.settleAll (refs₁ ++ ("__dict__", .kept (.dict inside set)) :: refs₃)
        [("type", .kept tag)]).map (fun e => (e.1, read e.2)) =
        Value.assignAll (refs₃.map fun e => (e.1, read e.2)) set := by
      rw [Cell.settleAll_append, Cell.settleAll, List.foldl_cons]
      show (Cell.settleAll refs₃ (set.map fun e => (e.1, Ref.kept e.2))).map _ = _
      rw [Cell.settleAll_of_ne hfields, Value.map_assignAll, List.map_map]
      simp [Function.comp_def, hkept]
    rw [hread]
    exact .replaced htag hset hnodup (hentries hafter)
  · have hfields : ∀ e ∈ refs, e.1 ≠ "__dict__" := fun e he heq =>
      hdict (hnames ▸ heq ▸ List.mem_map_of_mem he)
    have hplain : ∀ e ∈ entries, e.1 ∉ Value.reservedNames := by
      intro e he
      obtain ⟨r, -, hr⟩ := exists_of_forall₂ hsettles he
      have hne : e.1 ≠ "__dict__" := fun heq => hdict (heq ▸ List.mem_map_of_mem he)
      exact Value.notMem_reservedNames hr.2.2 hne
    have hread : ((refs.map fun e => (e.1, read e.2)).map Prod.fst).Nodup := by
      rw [List.map_map]
      exact hnames ▸ hnodup
    rw [Cell.settleAll_of_ne hfields, Value.map_assignAll, List.map_singleton, hkept,
      Value.ofAttributes_assignAll hread]
    exact .assemble htag hnodup hplain (hentries hsettles) hpath

end ReadBack

/-- With nothing left on the list of work each container reads as the conversion of its source. The
induction is on the fuel: a container holds only such as came later, so that those behind it bound
how deep it can be. -/
theorem Sound.read {root : Value} {sources : List Value} {w : Worklist}
    (h : Sound field root sources w) (hroot : root.hasDistinctKeys = true) (hdone : w.pending = [])
    (n fuel : Nat) {p : Nat} {v : Value} (hp : sources[p]? = some v)
    (hfuel : w.cells.length ≤ p + fuel) :
    Value.Converts field v (Worklist.read w.cells n fuel (.made p)) := by
  induction fuel generalizing p v with
  | zero =>
    have hlt : p < sources.length := (List.getElem?_eq_some_iff.mp hp).1
    rw [← h.length] at hlt
    omega
  | succ fuel ih =>
    have hlater : ∀ u q, p < q → sources[q]? = some u →
        Value.Converts field u (Worklist.read w.cells n fuel (.made q)) := fun u q hq hu =>
      ih hu (by omega)
    obtain ⟨blank, cell, hblank, hcell, hholds⟩ := h.cell p v hp
    have hfilled : p ∉ w.places := by simp [places, hdone]
    rw [if_neg hfilled] at hholds
    have hdistinct := hasDistinctKeys_of_meets hroot (h.met v (List.mem_of_getElem? hp))
    rw [Worklist.read, hcell]
    cases v with
    | list o items =>
      cases hblank
      obtain ⟨refs, rfl, hrefs⟩ := hholds.items (by simp [Value.children])
      refine .list ?_ rfl
      rw [Value.children, List.forall₂_map_left_iff] at hrefs
      rw [List.forall₂_map_right_iff]
      exact hrefs.imp fun u r hr => hr.converts (hlater u)
    | dict o entries =>
      obtain ⟨tag, htag, rfl⟩ := Option.map_eq_some_iff.mp hblank
      obtain ⟨hnodup, -⟩ := Value.hasDistinctKeys_dict_iff.mp hdistinct
      obtain ⟨refs, rfl, hrefs⟩ := hholds.attributes
      exact converts_settleAll (read_kept w.cells n fuel) htag hnodup hrefs
        (fun e r hr => hr.2.1.converts (hlater e.2)) rfl
    | _ => cases hblank

/-- With nothing left on the list of work all that is converted with the root has a container, if
it gets one at all. -/
theorem Sound.mem_sources {root u : Value} {sources : List Value} {w : Worklist}
    (h : Sound field root sources w) (hdone : w.pending = [])
    (hroot : Cell.blank? (.str field) root ≠ none → root ∈ sources)
    (hu : Value.Meets field root u) (hblank : Cell.blank? (.str field) u ≠ none) : u ∈ sources := by
  induction hu with
  | refl => exact hroot hblank
  | @tail v u _ hu ih =>
    obtain ⟨hv, name, hchild⟩ := exists_mem_children_of_mem_inner hu
    obtain ⟨p, hp⟩ := List.mem_iff_getElem?.mp (ih hv)
    obtain ⟨blank, cell, -, -, hholds⟩ := h.cell p v hp
    rw [if_neg (by simp [places, hdone])] at hholds
    obtain ⟨r, hr⟩ := hholds.exists_stands hchild
    cases r with
    | kept => exact absurd hr.2 hblank
    | made q => exact List.mem_of_getElem? hr.2.1

/-- With nothing left on the list of work nothing stood in the way. -/
theorem Sound.not_hinders {root : Value} {sources : List Value} {w : Worklist}
    (h : Sound field root sources w) (hdone : w.pending = [])
    (hroot : Cell.blank? (.str field) root ≠ none → root ∈ sources) (fault : Fault) :
    ¬ Value.Hinders field root fault := by
  rintro ⟨e, ⟨o, entries, hmeets, hsome, he⟩, hfault⟩
  obtain ⟨tag, htag⟩ := Option.isSome_iff_exists.mp hsome
  have hblank : Cell.blank? (.str field) (.dict o entries) =
      some (.attributes o.path [("type", .kept tag)]) := by rw [Cell.blank?, htag]; rfl
  obtain ⟨p, hp⟩ := List.mem_iff_getElem?.mp
    (h.mem_sources hdone hroot hmeets (by simp [hblank]))
  obtain ⟨blank, cell, hblank', -, hholds⟩ := h.cell p _ hp
  obtain rfl := Option.some.inj (hblank.symm.trans hblank')
  rw [if_neg (by simp [places, hdone])] at hholds
  obtain ⟨refs, -, hrefs⟩ := hholds.attributes
  obtain ⟨r, -, hr⟩ := exists_of_forall₂ hrefs he
  rw [hr.2.2] at hfault
  cases hfault

/-- A value that is kept makes no work. -/
theorem start_of_kept {v : Value} (h : Cell.blank? (.str field) v = none) :
    start (.str field) v = (.kept v, {}) := by
  rw [start, take, h]

/-- Any other value makes the first container. -/
theorem start_of_blank {v : Value} {blank : Cell} (h : Cell.blank? (.str field) v = some blank) :
    start (.str field) v = (.made 0, ⟨[blank], [(0, v)]⟩) := by
  rw [start, take, h]
  rfl

theorem sound_empty (root : Value) : Sound field root [] {} where
  length := rfl
  met := by simp
  pending := by simp
  nodup := List.nodup_nil
  cell := by simp

theorem sound_first {v : Value} {blank : Cell} (h : Cell.blank? (.str field) v = some blank) :
    Sound field v [v] ⟨[blank], [(0, v)]⟩ where
  length := rfl
  met := by simpa using Value.Meets.refl v
  pending := by simp
  nodup := by simp [places]
  cell := by
    intro p u hp
    obtain ⟨rfl, rfl⟩ : p = 0 ∧ u = v := by
      cases p with
      | zero => exact ⟨rfl, (Option.some.inj hp).symm⟩
      | succ p => cases hp
    exact ⟨blank, blank, h, rfl, .nil⟩

/-- The work at the start is sound and as much as the value has containers, and what stands for the
value is of it. -/
theorem sound_start (field : String) (v : Value) :
    ∃ sources, Sound field v sources (start (.str field) v).2 ∧
      owed field ((start (.str field) v).2.pending.map Prod.snd) = containers field v ∧
      ((start (.str field) v).1 = .kept v ∧ Cell.blank? (.str field) v = none ∨
        (start (.str field) v).1 = .made 0 ∧ sources[0]? = some v) := by
  cases hblank : Cell.blank? (.str field) v with
  | none =>
    rw [start_of_kept hblank, containers_of_kept hblank]
    exact ⟨[], sound_empty v, rfl, .inl ⟨rfl, rfl⟩⟩
  | some blank =>
    rw [start_of_blank hblank]
    exact ⟨[v], sound_first hblank, rfl, .inr ⟨rfl, rfl⟩⟩

/-- After any number of steps the work is done if the conversion makes no more containers, and then
it has come to a conversion and nothing stood in its way; or it has failed, and not without
reason. -/
theorem run_start (field : String) {v : Value} (hv : v.hasDistinctKeys = true) (n j : Nat) :
    (∃ w, run (.str field) j (start (.str field) v).2 = .ok w ∧
        (w.pending = [] ↔ containers field v ≤ j) ∧
        (w.pending = [] → (∀ e, ¬ Value.Hinders field v e) ∧
          Value.Converts field v (read w.cells n w.cells.length (start (.str field) v).1))) ∨
      ∃ e, run (.str field) j (start (.str field) v).2 = .error e ∧ Value.Hinders field v e := by
  obtain ⟨sources, hsound, howed, hfirst⟩ := sound_start field v
  obtain ⟨w, more, hok, hsound', howed'⟩ | herror := hsound.run j
  · refine .inl ⟨w, hok, ?_, fun hdone => ?_⟩
    · rw [hsound'.pending_eq_nil_iff, howed', howed]
      exact Nat.sub_eq_zero_iff_le
    · obtain ⟨hkept, hblank⟩ | ⟨hmade, hzero⟩ := hfirst
      · refine ⟨hsound'.not_hinders hdone fun hne => absurd hblank hne, ?_⟩
        rw [hkept, read_kept]
        exact converts_of_blank?_eq_none hblank
      · have hsource : (sources ++ more)[0]? = some v := by
          rw [List.getElem?_append_left (List.getElem?_eq_some_iff.mp hzero).1, hzero]
        refine ⟨hsound'.not_hinders hdone fun _ => List.mem_of_getElem? hsource, ?_⟩
        rw [hmade]
        exact hsound'.read hv hdone n _ hsource (Nat.le_add_left _ _)
  · exact .inr herror

/-- The conversion takes up as many serial numbers as it makes containers. -/
theorem convert_zero_snd (field : String) (v : Value) :
    (v.convert (.str field) 0).2 = containers field v := by
  rw [Value.convert_eq_converted, containers]

/-- The conversion by a list of work comes to a conversion if nothing stands in its way. -/
theorem convert_cases (field : String) {v : Value} (hv : v.hasDistinctKeys = true) (n : Nat) :
    (∃ r, convert (.str field) v n = .ok r ∧ Value.Converts field v r.1 ∧
        ∀ e, ¬ Value.Hinders field v e) ∨
      ∃ e, convert (.str field) v n = .error e ∧ Value.Hinders field v e := by
  rw [convert, convert_zero_snd]
  obtain ⟨w, hok, hends, hdone⟩ | ⟨e, herror, hhinders⟩ :=
    run_start field hv n (containers field v)
  · obtain ⟨hfree, hconverts⟩ := hdone (hends.mpr (Nat.le_refl _))
    rw [hok]
    exact .inl ⟨_, rfl, hconverts, hfree⟩
  · rw [herror]
    exact .inr ⟨e, rfl, hhinders⟩

/-- Where the reserved names are avoided, the conversion is made by recursion. -/
theorem convertUnder_of_avoids {field : String} {v : Value} (h : Value.Avoids field v) (n : Nat) :
    v.convertUnder (.str field) n = .ok (Value.converted (.str field) v n) := by
  rw [Value.convertUnder_of_avoidReserved (Value.avoidReserved_iff.2 (by simpa using h)),
    Value.convert_eq_converted]

/-- The conversion comes to a conversion if nothing stands in its way, however it is made. -/
theorem convertUnder_cases (field : String) {v : Value} (hv : v.hasDistinctKeys = true) (n : Nat) :
    (∃ r, v.convertUnder (.str field) n = .ok r ∧ Value.IsConversion field v r.1 ∧
        ∀ e, ¬ Value.Hinders field v e) ∨
      ∃ e, v.convertUnder (.str field) n = .error e ∧ Value.Hinders field v e := by
  by_cases h : Value.Avoids field v
  · exact .inl ⟨_, convertUnder_of_avoids h n, (Value.converts_converted hv h n).isConversion,
      h.not_hinders⟩
  · have hreserved : Value.avoidReserved (.str field) [v] = false := by
      rw [← Bool.not_eq_true, Value.avoidReserved_iff]
      simpa using h
    rw [Value.convertUnder_of_reserved hreserved]
    obtain ⟨r, hok, hconverts, hfree⟩ | herror := convert_cases field hv n
    · exact .inl ⟨r, hok, hconverts.isConversion, hfree⟩
    · exact .inr herror

/-- The list of work is empty after as many steps as the conversion makes containers, and not
before, unless an attribute cannot be set and the work fails. What the first reference reads as is
then a conversion of the value. So is what the conversion gives, which fails if and only if there
is an attribute that cannot be set. Where the reserved names are avoided it does not fail, and what
it gives is made by recursion; the list of work comes to the same but for the identities of the new
containers. -/
theorem run_start_converts (field : String) {v : Value} (hv : v.hasDistinctKeys = true) (n : Nat) :
    let first := start (.str field) v
    let size := (v.convert (.str field) 0).2
    let result := fun w : Worklist => read w.cells n w.cells.length first.1
    (∀ j, (∃ w, run (.str field) j first.2 = .ok w ∧ (w.pending = [] ↔ size ≤ j) ∧
          (w.pending = [] → Value.IsConversion field v (result w))) ∨
        ∃ e, run (.str field) j first.2 = .error e ∧ Value.Hinders field v e) ∧
      (∀ r, v.convertUnder (.str field) n = .ok r → Value.IsConversion field v r.1) ∧
      (∀ e, v.convertUnder (.str field) n = .error e → Value.Hinders field v e) ∧
      ((∃ e, v.convertUnder (.str field) n = .error e) ↔ ∃ e, Value.Hinders field v e) ∧
      (Value.Avoids field v →
        v.convertUnder (.str field) n = .ok (Value.converted (.str field) v n) ∧
        ∃ w, run (.str field) size first.2 = .ok w ∧
          (result w).faceless = (Value.converted (.str field) v n).1.faceless) := by
  intro first size result
  have hsize : size = containers field v := convert_zero_snd field v
  have hcases := convertUnder_cases field hv n
  refine ⟨fun j => ?_, ?_, ?_, ?_, fun h => ⟨convertUnder_of_avoids h n, ?_⟩⟩
  · rw [hsize]
    obtain ⟨w, hok, hends, hdone⟩ | herror := run_start field hv n j
    · exact .inl ⟨w, hok, hends, fun hnil => (hdone hnil).2.isConversion⟩
    · exact .inr herror
  · intro r hr
    obtain ⟨r', hok, hconversion, -⟩ | ⟨e, herror, -⟩ := hcases
    · obtain rfl : r = r' := Except.ok.inj (hr.symm.trans hok)
      exact hconversion
    · rw [herror] at hr
      cases hr
  · intro e he
    obtain ⟨r, hok, -⟩ | ⟨e', herror, hhinders⟩ := hcases
    · rw [hok] at he
      cases he
    · obtain rfl : e = e' := Except.error.inj (he.symm.trans herror)
      exact hhinders
  · obtain ⟨r, hok, -, hfree⟩ | ⟨e, herror, hhinders⟩ := hcases
    · rw [hok]
      exact ⟨fun ⟨e, he⟩ => (by cases he), fun ⟨e, he⟩ => absurd he (hfree e)⟩
    · exact ⟨fun _ => ⟨e, hhinders⟩, fun _ => ⟨e, herror⟩⟩
  · rw [hsize]
    obtain ⟨w, hok, hends, hdone⟩ | ⟨e, -, hhinders⟩ := run_start field hv n (containers field v)
    · exact ⟨w, hok, (hdone (hends.mpr (Nat.le_refl _))).2.faceless_eq h n⟩
    · exact absurd hhinders (h.not_hinders e)

end Worklist

namespace Sample

/-- A mapping with another tag field and a `type`, around a list with a tuple, a mapping without a
tag and a mapping with one. -/
def mixed : Value :=
  .dict ⟨0, none⟩ [("kind", .str "Row"), ("cells", .list ⟨1, none⟩
    [.tuple ⟨2, none⟩ [.dict ⟨3, none⟩ [("kind", .str "Cell")]],
      .dict ⟨4, none⟩ [("line", .list ⟨5, none⟩ [])], .dict ⟨6, none⟩ [("kind", .str "Cell")]]),
    ("type", .list ⟨7, none⟩ [])]

/-- A mapping with a tag that has an entry under a reserved name. -/
def reserved : Value := .dict ⟨0, none⟩ [("type", .str "A"), ("__class__", .str "B")]

end Sample

namespace Worklist

/-- Four containers are made: the row, its cells, the tagged cell and the list under `type`. -/
theorem run_start_converts_mixed :
    Sample.mixed.hasDistinctKeys = true ∧ Value.Avoids "kind" Sample.mixed ∧
      (∃ w, run (.str "kind") 4 (start (.str "kind") Sample.mixed).2 = .ok w ∧ w.pending = []) ∧
      Sample.mixed.convertUnder (.str "kind") 8 =
        .ok (Value.converted (.str "kind") Sample.mixed 8) ∧
      Value.IsConversion "kind" Sample.mixed (Value.converted (.str "kind") Sample.mixed 8).1 := by
  have hdistinct : Sample.mixed.hasDistinctKeys = true := by decide +kernel
  have hcount : (Sample.mixed.convert (.str "kind") 0).2 = 4 := by decide +kernel
  have hnames : Value.avoidReserved (.str "kind") [Sample.mixed] = true := by decide +kernel
  have havoids : Value.Avoids "kind" Sample.mixed :=
    Value.avoidReserved_iff.1 hnames Sample.mixed List.mem_cons_self
  obtain ⟨hruns, hconversion, -, -, havoided⟩ := run_start_converts "kind" hdistinct 8
  obtain ⟨hconvert, -⟩ := havoided havoids
  refine ⟨hdistinct, havoids, ?_, hconvert, hconversion _ hconvert⟩
  obtain ⟨w, hok, hends, -⟩ | ⟨e, -, hhinders⟩ := hruns 4
  · exact ⟨w, hok, hends.mpr (Nat.le_of_eq hcount)⟩
  · exact absurd hhinders (havoids.not_hinders e)

/-- A mapping with a tag need not become an attribute node. -/
theorem convertUnder_reserved :
    Sample.reserved.hasDistinctKeys = true ∧
      Sample.reserved.convertUnder (.str "type") 1 = .error (.badClass "str") := by
  have hnames : Value.avoidReserved (.str "type") [Sample.reserved] = false := by decide +kernel
  have hcount : (Sample.reserved.convert (.str "type") 0).2 = 1 := by decide +kernel
  refine ⟨by decide +kernel, ?_⟩
  rw [Value.convertUnder_of_reserved hnames, convert, hcount]
  rfl

end Worklist

end RuleWalk
