import RuleWalk.Outline
import RuleWalk.Proofs.Value.Text
import RuleWalk.Proofs.Walk.Preorder

/-!
# Outlines

The level of a node is kept in a table under the identity of the node. Its entry is written when the
node is found among the children of another one, and read when the walk comes to it; all that is
below its elder siblings has been visited in between, and has entered its own levels. In a tree
without sharing no entry meets another, so each node is printed at its own depth. An outline ends
early in one case: at a mapping whose kind or name has no text.
-/

namespace RuleWalk

namespace Value

/-- A mapping that has an entry for its kind. -/
def HasType (v : Value) : Prop :=
  ∃ o entries kind, v = dict o entries ∧ entries.lookup "type" = some kind

/-- The text of a value in running text, or nothing where it has none. -/
def plainOr (v : Value) : String := v.plain.toOption.getD ""

/-- Why a value has no text in running text. -/
def plainFault? (v : Value) : Option Fault :=
  match v.plain with
  | .ok _ => none
  | .error e => some e

theorem plain_eq (v : Value) : v.plain = v.plainFault?.elim (.ok v.plainOr) .error := by
  rw [plainOr, plainFault?]
  cases v.plain <;> rfl

end Value

namespace Outline

variable {σ : Type}

/-! ## Lines -/

/-- Two blanks for each level. -/
def indent (level : Nat) : String := String.ofList (List.replicate (2 * level) ' ')

/-- The kind of a mapping and its name; a name that counts as false is left out. -/
def labels : Value → Value × Value
  | .dict _ entries =>
    let name := (entries.lookup "name").getD .null
    ((entries.lookup "type").getD .null, if name.truthy then name else .str "")
  | _ => (.null, .null)

/-- The two side by side. -/
def caption (v : Value) : String := (labels v).1.plainOr ++ " " ++ (labels v).2.plainOr

/-- Why there is no line for a mapping: its kind has no text, or else its name has none. -/
def blot? (v : Value) : Option Fault := (labels v).1.plainFault?.or (labels v).2.plainFault?

/-- What is printed for a place of a tree. -/
def lineAt (o : Occurrence) : String := Text.trimEnd (indent o.above.length ++ caption o.node)

theorem line_eq {v : Value} (htype : v.HasType) (level : Nat) :
    line level v = (blot? v).elim (.ok (Text.trimEnd (indent level ++ caption v))) .error := by
  obtain ⟨o, entries, kind, rfl, hkind⟩ := htype
  have hname : nameOf (.dict o entries) = .ok (labels (.dict o entries)).2 := by
    rw [nameOf, labels]
    cases entries.lookup "name" <;> rfl
  have hitem : Value.item (.dict o entries) (.str "type") =
      .ok (labels (.dict o entries)).1 := by
    simp [Value.item, Value.checkKey, labels, hkind]
  rw [line, hname, caption, blot?]
  simp only [bind, Except.bind, hitem, Value.plain_eq (labels (.dict o entries)).1,
    Value.plain_eq (labels (.dict o entries)).2]
  cases (labels (.dict o entries)).1.plainFault? with
  | some e => rfl
  | none =>
    cases (labels (.dict o entries)).2.plainFault? with
    | some e => rfl
    | none =>
      simp only [Option.elim, Option.none_or, pure, Except.pure, indent, String.append_assoc]

/-! ## Levels -/

theorem getElem?_place (l : Nat) (levels : Std.HashMap Nat Nat) (vs : List Value) (n : Nat) :
    (place l levels vs)[n]? =
      if n ∈ vs.filterMap Value.serial? then some l else levels[n]? := by
  induction vs generalizing levels with
  | nil => simp [place]
  | cons v vs ih =>
    show (place l _ vs)[n]? = _
    rw [ih]
    cases hserial : v.serial? with
    | none => simp only [hserial, List.filterMap_cons_none hserial]
    | some m =>
      simp only [hserial, List.filterMap_cons_some hserial, List.mem_cons]
      by_cases hmem : n ∈ vs.filterMap Value.serial?
      · rw [if_pos hmem, if_pos (.inr hmem)]
      · by_cases hm : n = m
        · rw [if_neg hmem, if_pos (.inl hm), hm, Std.HashMap.getElem?_insert_self]
        · rw [if_neg hmem, if_neg (not_or.2 ⟨hm, hmem⟩), Std.HashMap.getElem?_insert,
            if_neg (by simpa using Ne.symm hm)]

/-! ## Turns -/

/-- Where rules are pure, the children of a node are found again if they were found once. -/
theorem childrenOf_eq {scene s : Scene σ} (hrules : scene.registry.AllRules Rule.IsPure)
    (h : s.Alike scene) {v : Value} (hv : ∃ slots, (Scene.slotsOf v scene).result = .ok slots) :
    ∃ u es, Scene.childrenOf v s = ⟨.ok (scene.kids v), u, es⟩ ∧ u.Alike scene := by
  obtain ⟨slots, hslots⟩ := hv
  have hkids : scene.kids v = Scene.present slots := by
    rw [Scene.kids, hslots]
  have hs : Scene.slotsOf v s =
      ⟨.ok slots, (Scene.slotsOf v s).state, (Scene.slotsOf v s).entries⟩ := by
    rw [← hslots, ← Scene.slotsOf_result_congr h hrules]
  refine ⟨(Scene.slotsOf v s).state, (Scene.slotsOf v s).entries, ?_,
    (Scene.slotsOf_alike v s).trans h⟩
  rw [Scene.childrenOf, Act.bind_of_ok hs, hkids]
  simp [Outcome.after]

/-- A step takes the first node off the fringe and puts its children in its place. -/
theorem stepFrom_cons {scene s : Scene σ} (hrules : scene.registry.AllRules Rule.IsPure)
    (h : s.Alike scene) {v : Value} (hv : ∃ slots, (Scene.slotsOf v scene).result = .ok slots)
    (rest : List Value) :
    ∃ u es, stepFrom ⟨v :: rest, .absent⟩ s =
      ⟨.ok (some v, ⟨scene.kids v ++ rest, .absent⟩), u, es⟩ ∧ u.Alike scene := by
  obtain ⟨slots, hslots⟩ := hv
  have hexpand : (Walk.expand .absent v s).result = .ok slots := by
    rw [Walk.expand_absent, Scene.slotsOf_result_congr h hrules, hslots]
  have hfound : Walk.found .absent v s = scene.kids v := by
    rw [Walk.found, hexpand, Scene.kids, hslots]
  refine ⟨(Walk.expand .absent v s).state, (Walk.expand .absent v s).entries, ?_,
    (Walk.expand_alike .absent v s).trans h⟩
  rw [stepFrom, Walk.step_cons rfl]
  simp only [hexpand, hfound]
  rfl

/-- The places in `l` still have to be printed. Those on the fringe have their levels. -/
structure Due (scene : Scene σ) (l : List Occurrence) (p : Progress σ) (s : Scene σ) : Prop where
  alike : s.Alike scene
  ahead : ∃ waiting : List Occurrence,
    p.walk = ⟨waiting.map (·.node), .absent⟩ ∧
      Ahead (Occurrence.below scene.kids) waiting l ∧
      ∀ o ∈ waiting, levelOf p.levels o.node = .ok o.above.length
  expands : ∀ o ∈ l, ∃ slots, (Scene.slotsOf o.node scene).result = .ok slots
  types : ∀ o ∈ l, o.node.HasType
  distinct : ((l.map (·.node)).filterMap Value.serial?).Nodup

theorem levelOf_place_of_mem {v : Value} (htype : v.HasType) {vs : List Value} (hv : v ∈ vs)
    (l : Nat) (levels : Std.HashMap Nat Nat) : levelOf (place l levels vs) v = .ok l := by
  obtain ⟨o, entries, kind, rfl, -⟩ := htype
  have hmem : o.serial ∈ vs.filterMap Value.serial? := List.mem_filterMap.2 ⟨_, hv, rfl⟩
  rw [levelOf, Value.serial?]
  simp only [getElem?_place, if_pos hmem]

theorem levelOf_place_of_notMem {v : Value} {vs : List Value}
    (hv : ∀ n, v.serial? = some n → n ∉ vs.filterMap Value.serial?) (l : Nat)
    (levels : Std.HashMap Nat Nat) : levelOf (place l levels vs) v = levelOf levels v := by
  rw [levelOf, levelOf]
  cases hserial : v.serial? with
  | none => rfl
  | some n => simp only [getElem?_place, if_neg (hv n hserial)]

/-- Entering the levels of what is right below a place leaves those of the places that wait. -/
theorem levels_below {kids : Value → List Value} {o : Occurrence} {rest l : List Occurrence}
    {levels : Std.HashMap Nat Nat} (hahead : Ahead (Occurrence.below kids) (o.below kids ++ rest) l)
    (htype : ∀ o ∈ l, o.node.HasType)
    (hdistinct : ((l.map (·.node)).filterMap Value.serial?).Nodup)
    (hlevels : ∀ o ∈ rest, levelOf levels o.node = .ok o.above.length) :
    ∀ o' ∈ o.below kids ++ rest,
      levelOf (place (o.above.length + 1) levels (kids o.node)) o'.node = .ok o'.above.length := by
  have hfringe : (((o.below kids ++ rest).map (·.node)).filterMap Value.serial?).Nodup :=
    hdistinct.sublist ((hahead.sublist.map _).filterMap _)
  rw [List.map_append, o.map_node_below, List.filterMap_append, List.nodup_append] at hfringe
  intro o' ho'
  rcases List.mem_append.1 ho' with hbelow | hrest
  · obtain ⟨v, hv, rfl⟩ := List.mem_map.1 hbelow
    rw [levelOf_place_of_mem (htype _ (hahead.sublist.subset ho')) hv]
    simp
  · rw [levelOf_place_of_notMem, hlevels o' hrest]
    intro n hn hmem
    have hmem' : n ∈ (rest.map (·.node)).filterMap Value.serial? :=
      List.mem_filterMap.2 ⟨o'.node, List.mem_map_of_mem hrest, hn⟩
    exact hfringe.2.2 n hmem n hmem' rfl

namespace Due

variable {scene s : Scene σ} {l : List Occurrence} {o : Occurrence} {p : Progress σ}

/-- The next place has its level, which is the number of nodes above it. -/
theorem level (h : Due scene (o :: l) p s) :
    p.walk.fringe.head? = some o.node ∧ levelOf p.levels o.node = .ok o.above.length := by
  obtain ⟨waiting, hwalk, hahead, hlevels⟩ := h.ahead
  cases hahead with
  | next hnext =>
    rw [hwalk]
    exact ⟨rfl, hlevels o List.mem_cons_self⟩

/-- A turn prints the next place, unless there is no line for it. -/
theorem turn (hrules : scene.registry.AllRules Rule.IsPure) (h : Due scene (o :: l) p s)
    (printed : List String) :
    (∀ e, blot? o.node = some e → ∃ s' es, Outline.turn p ⟨s, printed⟩ =
      ⟨.error e, ⟨s', printed⟩, es⟩) ∧
    (blot? o.node = none → ∃ p' s' es, Outline.turn p ⟨s, printed⟩ =
      ⟨.ok (.again p'), ⟨s', lineAt o :: printed⟩, es⟩ ∧ Due scene l p' s') := by
  obtain ⟨waiting, hwalk, hahead, hlevels⟩ := h.ahead
  cases hahead with
  | @next _ rest _ hnext =>
    have hexpands := h.expands o List.mem_cons_self
    obtain ⟨u, es, hstep, hu⟩ := stepFrom_cons hrules h.alike hexpands (rest.map (·.node))
    obtain ⟨u', es', hchildren, hu'⟩ := childrenOf_eq hrules hu hexpands
    have hline := line_eq (h.types o List.mem_cons_self) o.above.length
    have hstep' : Page.onUnder (stepFrom p.walk) ⟨s, printed⟩ =
        ⟨.ok (some o.node, ⟨scene.kids o.node ++ rest.map (·.node), .absent⟩), ⟨u, printed⟩,
          es⟩ := by
      rw [hwalk, Page.onUnder, Act.zoom]
      simp only [List.map_cons, hstep]
    have hchildren' : Page.onUnder (Scene.childrenOf o.node) ⟨u, printed⟩ =
        ⟨.ok (scene.kids o.node), ⟨u', printed⟩, es'⟩ := by
      rw [Page.onUnder, Act.zoom]
      simp only [hchildren]
    constructor
    · intro e he
      refine ⟨u', es ++ es', ?_⟩
      rw [he] at hline
      rw [Outline.turn, Act.bind_of_ok hstep']
      dsimp only
      rw [hlevels o List.mem_cons_self, Act.ofExcept_ok_bind, Act.bind_of_ok hchildren', hline,
        Option.elim_some, Act.ofExcept_error_bind]
      simp [Outcome.after]
    · intro hnone
      rw [hnone] at hline
      refine ⟨⟨⟨scene.kids o.node ++ rest.map (·.node), .absent⟩,
        place (o.above.length + 1) p.levels (scene.kids o.node)⟩, u', es ++ es', ?_, hu', ?_, ?_,
        ?_, ?_⟩
      · rw [Outline.turn, Act.bind_of_ok hstep']
        dsimp only
        rw [hlevels o List.mem_cons_self, Act.ofExcept_ok_bind, Act.bind_of_ok hchildren', hline,
          Option.elim_none, Act.ofExcept_ok_bind, Page.print, Act.modify_bind]
        simp [Outcome.after, lineAt]
      · refine ⟨o.below scene.kids ++ rest, ?_, hnext, ?_⟩
        · rw [List.map_append, o.map_node_below]
        · exact levels_below hnext (fun o' ho' => h.types o' (List.mem_cons_of_mem o ho'))
            (h.distinct.sublist ((List.sublist_cons_self o l).map _ |>.filterMap _))
            fun o' ho' => hlevels o' (List.mem_cons_of_mem o ho')
      · intro o' ho'
        exact h.expands o' (List.mem_cons_of_mem o ho')
      · intro o' ho'
        exact h.types o' (List.mem_cons_of_mem o ho')
      · exact h.distinct.sublist ((List.sublist_cons_self o l).map _ |>.filterMap _)

/-- When nothing is due, a turn is the last one. -/
theorem turn_nil (h : Due scene [] p s) (printed : List String) :
    Outline.turn p ⟨s, printed⟩ = ⟨.ok (.done ()), ⟨s, printed⟩, []⟩ := by
  obtain ⟨waiting, hwalk, hahead, -⟩ := h.ahead
  cases hahead
  rw [Outline.turn, hwalk]
  rfl

/-- Turn after turn prints place after place, as long as there are lines for them. -/
theorem iterate (hrules : scene.registry.AllRules Rule.IsPure) (h : Due scene l p s)
    (printed : List String) {n : Nat} (hn : n ≤ l.length)
    (hclear : ∀ o ∈ l.take n, blot? o.node = none) :
    ∃ p' s' es, Act.iterate Outline.turn n p ⟨s, printed⟩ =
      ⟨.ok (.again p'), ⟨s', ((l.take n).map lineAt).reverse ++ printed⟩, es⟩ ∧
        Due scene (l.drop n) p' s' := by
  induction n generalizing l p s printed with
  | zero => exact ⟨p, s, [], rfl, h⟩
  | succ n ih =>
    cases l with
    | nil => cases hn
    | cons o l =>
      obtain ⟨hfirst, hrest⟩ := List.forall_mem_cons.1 hclear
      obtain ⟨p', s', es, hturn, hdue⟩ := (h.turn hrules printed).2 hfirst
      obtain ⟨p'', s'', es', hlater, hdue'⟩ :=
        ih hdue (lineAt o :: printed) (Nat.le_of_succ_le_succ hn) hrest
      refine ⟨p'', s'', es ++ es', ?_, hdue'⟩
      rw [Act.iterate_succ, Act.bind_of_ok hturn]
      dsimp only
      rw [hlater]
      simp [Outcome.after]

/-- With turns enough, all places are printed before the first that there is no line for. -/
theorem iterate_done (hrules : scene.registry.AllRules Rule.IsPure) (h : Due scene l p s)
    (printed : List String) {fuel : Nat} (hfuel : l.length < fuel) :
    ∃ s' es, Act.iterate Outline.turn fuel p ⟨s, printed⟩ =
      ⟨(l.findSome? fun o => blot? o.node).elim (.ok (.done ())) .error,
        ⟨s', ((l.takeWhile fun o => (blot? o.node).isNone).map lineAt).reverse ++ printed⟩,
        es⟩ := by
  induction l generalizing fuel p s printed with
  | nil =>
    obtain ⟨fuel, rfl⟩ : ∃ n, fuel = n + 1 := ⟨fuel - 1, by simp at hfuel; omega⟩
    refine ⟨s, [], ?_⟩
    rw [Act.iterate_succ, Act.bind_of_ok (h.turn_nil printed)]
    rfl
  | cons o l ih =>
    obtain ⟨fuel, rfl⟩ : ∃ n, fuel = n + 1 := ⟨fuel - 1, by simp at hfuel; omega⟩
    obtain ⟨hblot, hclear⟩ := h.turn hrules printed
    cases ho : blot? o.node with
    | some e =>
      obtain ⟨s', es, hturn⟩ := hblot e ho
      refine ⟨s', es, ?_⟩
      rw [Act.iterate_succ, Act.bind_apply_error hturn]
      simp [ho]
    | none =>
      obtain ⟨p', s', es, hturn, hdue⟩ := hclear ho
      obtain ⟨s'', es', hrest⟩ :=
        ih hdue (lineAt o :: printed) (Nat.lt_of_succ_lt_succ hfuel)
      refine ⟨s'', es ++ es', ?_⟩
      rw [Act.iterate_succ, Act.bind_of_ok hturn]
      dsimp only
      rw [hrest]
      simp [Outcome.after, ho]

end Due

/-- An outline before its first line: the root alone waits, at the top level. -/
def opening (root : Value) : Progress σ := ⟨⟨[root], .absent⟩, place 0 {} [root]⟩

/-- At its start, an outline has all places of the tree before it. -/
theorem due_opening {scene : Scene σ} {root : Value} (t : Unfolding scene.kids root)
    (hexpands : ∀ v ∈ t.preorder, ∃ slots, (Scene.slotsOf v scene).result = .ok slots)
    (htypes : ∀ v ∈ t.preorder, v.HasType)
    (hdistinct : (t.preorder.filterMap Value.serial?).Nodup) :
    Due scene t.occurrences (opening root) scene := by
  have hnode {o : Occurrence} (ho : o ∈ t.occurrences) : o.node ∈ t.preorder := by
    rw [← t.map_node_occurrences]
    exact List.mem_map_of_mem ho
  constructor
  case alike => exact .refl scene
  case ahead =>
    refine ⟨[⟨[], root⟩], rfl, t.ahead_occurrences, ?_⟩
    intro o ho
    cases List.mem_singleton.1 ho
    exact levelOf_place_of_mem (htypes root List.mem_cons_self) List.mem_cons_self 0 {}
  case expands => exact fun o ho => hexpands o.node (hnode ho)
  case types => exact fun o ho => htypes o.node (hnode ho)
  case distinct => rwa [t.map_node_occurrences]

theorem draw_of_kind {root : Value} {page : Page (Scene σ)} {kind : String}
    (hroot : page.under.registry.kindOf root = .ok (some kind)) (fuel : Nat) :
    draw root fuel page = (Act.iterate turn fuel (opening root) >>= fun _ => pure ()) page := by
  rw [draw, Act.get_bind, Walk.start_eq hroot, Act.ofExcept_ok_bind]
  rfl

theorem draw_of_no_kind {root : Value} {page : Page (Scene σ)}
    (hroot : ∀ kind, page.under.registry.kindOf root ≠ .ok (some kind)) (fuel : Nat) :
    ∃ e, draw root fuel page = ⟨.error e, page, []⟩ := by
  have hstart : ∃ e, Walk.start page.under.registry .absent root = .error e := by
    rw [Walk.start]
    split
    · exact ⟨_, rfl⟩
    · exact ⟨_, rfl⟩
    · next kind hkind => exact absurd hkind (hroot kind)
  obtain ⟨e, he⟩ := hstart
  refine ⟨e, ?_⟩
  rw [draw, Act.get_bind, he, Act.ofExcept_error_bind]

/-- The outline of a tree of mappings without sharing, where no rule fails: one line for each node,
in pre-order, indented by the number of nodes above it, up to the first node whose kind or name has
no text; there it ends with the fault of that text, and if there is none it is complete. Before each
turn, the level of the node that comes next is in the table, and it is that number. A root that is
no node is refused, and nothing is printed. -/
theorem draw_occurrences (root : Value) (page : Page (Scene σ))
    (hrules : page.under.registry.AllRules Rule.IsPure) (t : Unfolding page.under.kids root)
    (hexpands : ∀ v ∈ t.preorder, ∃ slots, (Scene.slotsOf v page.under).result = .ok slots)
    (htypes : ∀ v ∈ t.preorder, v.HasType)
    (hdistinct : (t.preorder.filterMap Value.serial?).Nodup) :
    let shown := t.occurrences.takeWhile fun o => (blot? o.node).isNone
    (∀ kind, page.under.registry.kindOf root = .ok (some kind) →
      (∀ fuel, t.occurrences.length < fuel → ∃ s es, draw root fuel page =
        ⟨(t.preorder.findSome? blot?).elim (.ok ()) .error,
          ⟨s, (shown.map lineAt).reverse ++ page.printed⟩, es⟩) ∧
      ∀ n (hn : n < t.occurrences.length), n ≤ shown.length → ∃ p s es,
        Act.iterate turn n (opening root) page =
          ⟨.ok (.again p), ⟨s, ((t.occurrences.take n).map lineAt).reverse ++ page.printed⟩, es⟩ ∧
        p.walk.fringe.head? = some t.occurrences[n].node ∧
        levelOf p.levels t.occurrences[n].node = .ok t.occurrences[n].above.length) ∧
    ((∀ kind, page.under.registry.kindOf root ≠ .ok (some kind)) →
      ∀ fuel, ∃ e, draw root fuel page = ⟨.error e, page, []⟩) := by
  intro shown
  refine ⟨fun kind hroot => ?_, draw_of_no_kind⟩
  have hdue := due_opening t hexpands htypes hdistinct
  constructor
  · intro fuel hfuel
    obtain ⟨s, es, hdone⟩ := hdue.iterate_done hrules page.printed hfuel
    refine ⟨s, es, ?_⟩
    rw [draw_of_kind hroot, Act.bind_apply, hdone, ← t.map_node_occurrences, List.findSome?_map]
    cases hblot : t.occurrences.findSome? fun o => blot? o.node <;>
      simp [Outcome.after, Function.comp_def, hblot, shown]
  · intro n hn hshown
    have hclear : ∀ o ∈ t.occurrences.take n, blot? o.node = none := by
      intro o ho
      have hlength : (t.occurrences.take n).length ≤ shown.length :=
        Nat.le_trans (List.length_take_le _ _) hshown
      have htake : t.occurrences.take n <+: shown :=
        List.prefix_of_prefix_length_le (List.take_prefix _ _) (List.takeWhile_prefix _) hlength
      simpa using List.all_eq_true.1 List.all_takeWhile o (htake.subset ho)
    obtain ⟨p, s, es, hrun, hnext⟩ := hdue.iterate hrules page.printed (Nat.le_of_lt hn) hclear
    rw [List.drop_eq_getElem_cons hn] at hnext
    exact ⟨p, s, es, hrun, hnext.level⟩

/-- The right part gets its level with the first line and is printed last. What is below the left
part is printed in between, one level deeper. -/
theorem draw_occurrences_nested :
    let deep : Value := Sample.node 2 "Name" [("name", .str "a")]
    let left : Value := Sample.node 1 "Pair" [("left", deep), ("right", Sample.name)]
    let right : Value := Sample.node 4 "Name" [("name", .str "b")]
    let root : Value := Sample.node 0 "Pair" [("left", left), ("right", right)]
    ∃ s es, draw root 6 (⟨⟨Sample.pairs, ()⟩, []⟩ : Page (Scene Unit)) =
      ⟨.ok (), ⟨s, ["  Name b", "    Name", "    Name a", "  Pair", "Pair"]⟩, es⟩ := by
  intro deep left right root
  let page : Page (Scene Unit) := ⟨⟨Sample.pairs, ()⟩, []⟩
  let t : Unfolding page.under.kids root :=
    { below := .cons left (.cons deep .nil (.cons Sample.name .nil .nil)) (.cons right .nil .nil)
      roots_below := rfl
      unfolds_below := ⟨rfl, ⟨rfl, trivial, rfl, trivial, trivial⟩, rfl, trivial, trivial⟩ }
  have htypes : ∀ v ∈ t.preorder, v.HasType := by
    show ∀ v ∈ [root, left, deep, Sample.name, right], v.HasType
    simp only [List.forall_mem_cons]
    exact ⟨⟨_, _, _, rfl, rfl⟩, ⟨_, _, _, rfl, rfl⟩, ⟨_, _, _, rfl, rfl⟩, ⟨_, _, _, rfl, rfl⟩,
      ⟨_, _, _, rfl, rfl⟩, List.forall_mem_nil _⟩
  have hexpands : ∀ v ∈ t.preorder, ∃ slots, (Scene.slotsOf v page.under).result = .ok slots :=
    fun v _ => Sample.pairs_slotsOf v ()
  obtain ⟨hdrawn, -⟩ := draw_occurrences root page Sample.pairs_isPure t
    hexpands htypes (by decide)
  obtain ⟨s, es, hdraw⟩ := (hdrawn "Pair" rfl).1 6 (by decide)
  have hclear : t.preorder.findSome? blot? = none := by rfl
  have hlines : ((t.occurrences.takeWhile fun o => (blot? o.node).isNone).map lineAt).reverse =
      ["  Name b", "    Name", "    Name a", "  Pair", "Pair"] := by
    decide +kernel
  rw [hclear, hlines] at hdraw
  exact ⟨s, es, hdraw⟩

end Outline

namespace Sample

/-- Lists inside each other. -/
def nested : Nat → Value
  | 0 => .null
  | depth + 1 => .list ⟨depth, none⟩ [nested depth]

theorem textWithin_nested (depth : Nat) :
    (nested depth).textWithin depth = .error Value.depthFault := by
  induction depth with
  | zero => rfl
  | succ depth ih =>
    rw [nested, Value.textWithin, Value.itemTexts, ih]
    rfl

end Sample

/-- A name that is nested too deep has no text. The outline ends there, and the right part of the
pair is not printed. -/
theorem Outline.draw_nested :
    let left : Value := Sample.node 1001 "Name" [("name", Sample.nested 1000)]
    let root : Value := Sample.node 1002 "Pair" [("left", left), ("right", Sample.name)]
    ∃ s es, draw root 4 (⟨⟨Sample.pairs, ()⟩, []⟩ : Page (Scene Unit)) =
      ⟨.error Value.depthFault, ⟨s, ["Pair"]⟩, es⟩ := by
  intro left root
  let page : Page (Scene Unit) := ⟨⟨Sample.pairs, ()⟩, []⟩
  let t : Unfolding page.under.kids root :=
    { below := .cons left .nil (.cons Sample.name .nil .nil)
      roots_below := rfl
      unfolds_below := ⟨rfl, trivial, rfl, trivial, trivial⟩ }
  have htypes : ∀ v ∈ t.preorder, v.HasType := by
    show ∀ v ∈ [root, left, Sample.name], v.HasType
    simp only [List.forall_mem_cons]
    exact ⟨⟨_, _, _, rfl, rfl⟩, ⟨_, _, _, rfl, rfl⟩, ⟨_, _, _, rfl, rfl⟩, List.forall_mem_nil _⟩
  have hexpands : ∀ v ∈ t.preorder, ∃ slots, (Scene.slotsOf v page.under).result = .ok slots :=
    fun v _ => Sample.pairs_slotsOf v ()
  have hdue := due_opening t hexpands htypes (by decide)
  obtain ⟨s, es, hdone⟩ :=
    hdue.iterate_done Sample.pairs_isPure [] (Nat.lt_succ_self 3)
  have hroot : blot? root = none := rfl
  have hleft : blot? left = some Value.depthFault := by
    have hlabels : labels left = (.str "Name", Sample.nested 1000) := rfl
    have hplain : (Sample.nested 1000).plain = .error Value.depthFault :=
      Sample.textWithin_nested 1000
    rw [blot?, hlabels, Value.plainFault?, Value.plainFault?, hplain]
    rfl
  have hplaces : t.occurrences = [⟨[], root⟩, ⟨[root], left⟩, ⟨[root], Sample.name⟩] := rfl
  have hended : t.occurrences.findSome? (fun o => blot? o.node) = some Value.depthFault := by
    rw [hplaces, List.findSome?_cons, hroot, List.findSome?_cons, hleft]
  have hshown : t.occurrences.takeWhile (fun o => (blot? o.node).isNone) = [⟨[], root⟩] := by
    rw [hplaces, List.takeWhile_cons, hroot, List.takeWhile_cons, hleft]
    rfl
  have hline : lineAt ⟨[], root⟩ = "Pair" := by decide +kernel
  refine ⟨s, es, ?_⟩
  rw [draw_of_kind rfl, Act.bind_apply, hdone, hended, hshown, List.map_singleton, hline]
  rfl

end RuleWalk
