import RuleWalk.Proofs.Plan.Narrowing
import RuleWalk.Proofs.Session.Store

/-!
# Searches

To search for the nodes that pass a test, or for those of some kinds, is to list a tree with that
test or these kinds put in the place of what the options say. So a search gives the nodes that the
other options ask for, as far as they pass; what the options themselves say about nodes to keep, or
about kinds, is lost. An option that replaces the filter as a whole hides the search from the run.
-/

namespace RuleWalk

variable {σ : Type}

/-! ## Kinds to look for -/

/-- A set of texts is made from the texts that are given. -/
theorem Value.distinct_map_str (seen names : List String) :
    ∃ members : List String,
      Value.distinct (seen.map .str) (names.map .str) = .ok (members.map .str) ∧
      ∀ k, k ∈ members ↔ k ∈ seen ∨ k ∈ names := by
  induction names generalizing seen with
  | nil => exact ⟨seen.reverse, by simp [Value.distinct], by simp⟩
  | cons k names ih =>
    have hkey : Value.checkKey (.str k) = .ok () := rfl
    simp only [List.map_cons, Value.distinct, hkey, Value.any_eq_str]
    cases hseen : seen.contains k with
    | true =>
      obtain ⟨members, hmembers, hmem⟩ := ih seen
      refine ⟨members, hmembers, fun j => ?_⟩
      have hk : k ∈ seen := List.contains_iff_mem.1 hseen
      rw [hmem, List.mem_cons]
      grind
    | false =>
      obtain ⟨members, hmembers, hmem⟩ := ih (k :: seen)
      refine ⟨members, hmembers, fun j => ?_⟩
      rw [hmem, List.mem_cons, List.mem_cons]
      grind

theorem Kinds.ofValue_tuple (origin : Origin) (names : List String) :
    ∃ members : List String,
      Kinds.ofValue (.tuple origin (names.map .str)) = .ok (.named (some members)) ∧
      ∀ k, k ∈ members ↔ k ∈ names := by
  obtain ⟨members, hmembers, hmem⟩ := Value.distinct_map_str [] names
  refine ⟨members, ?_, fun k => by simp [hmem]⟩
  rw [List.map_nil] at hmembers
  simp only [Kinds.ofValue, Value.iterate, hmembers]
  rfl

theorem Kinds.isNamed_congr {names names' : List String} (h : ∀ k, k ∈ names ↔ k ∈ names')
    (kind : Option String) : isNamed (some names) kind = isNamed (some names') kind := by
  cases kind with
  | none => rfl
  | some k =>
    rw [isNamed, isNamed, Bool.eq_iff_iff, List.contains_iff_mem, List.contains_iff_mem]
    exact h k

/-! ## Options and their configurations -/

/-- The option replaces the filter as a whole. -/
def Override.isFilter : Override σ → Bool
  | filter _ => true
  | _ => false

/-- The option replaces the limit. -/
def Override.isLimit : Override σ → Bool
  | limit _ => true
  | _ => false

namespace Options

variable {o : Options σ} {c : Config σ} {f : Filter σ}

/-- Some option replaces the filter as a whole. -/
def replacesFilter (o : Options σ) : Bool := o.extra.any Override.isFilter

/-- Another filter shows in the end, unless an option replaces it. -/
theorem foldlM_filtered (es : List (Override σ)) (c : Config σ) (f : Filter σ) :
    es.foldlM apply (c.filtered f) =
      (es.foldlM apply c).map fun d => if es.any Override.isFilter then d else d.filtered f := by
  induction es generalizing c with
  | nil => rfl
  | cons e es ih =>
    rw [List.foldlM_cons, List.foldlM_cons]
    cases e with
    | filter g =>
      have hsame : (es.foldlM apply { c with filter := g }).map (fun d => d) =
          es.foldlM apply { c with filter := g } := by
        cases es.foldlM apply { c with filter := g } <;> rfl
      exact hsame.symm
    | unknown name => rfl
    | limit l => exact ih { c with limit := l }
    | policy p => exact ih { c with policy := p }
    | progress h => exact ih { c with progress := h }
    | interval v => exact ih { c with interval := v }
    | checker v => exact ih { c with checker := some v }
    | idle => exact ih c

theorem foldlM_limit {es : List (Override σ)} (hes : es.any Override.isLimit = false)
    (c : Config σ) (l : Setting Value) :
    es.foldlM apply { c with limit := l } =
      (es.foldlM apply c).map fun d => { d with limit := l } := by
  induction es generalizing c with
  | nil => rfl
  | cons e es ih =>
    rw [List.any_cons, Bool.or_eq_false_iff] at hes
    have ih := ih hes.2
    rw [List.foldlM_cons, List.foldlM_cons]
    cases e with
    | limit l => cases hes.1
    | unknown name => rfl
    | filter f => exact ih { c with filter := f }
    | policy p => exact ih { c with policy := p }
    | progress h => exact ih { c with progress := h }
    | interval v => exact ih { c with interval := v }
    | checker v => exact ih { c with checker := some v }
    | idle => exact ih c

/-- The configuration before the options beyond the usual ones, with the given kinds. -/
def base (o : Options σ) (kinds : Kinds) : Config σ :=
  { filter := .given { kinds, keep := o.keep, drop := o.drop, prune := o.prune }
    limit := .given o.limit
    policy := .given (if o.skipErrors then .skip else .raise)
    report := o.report }

theorem config_eq_ok_iff :
    o.config = .ok c ↔
      ∃ kinds, Kinds.ofValue o.kinds = .ok kinds ∧ o.extra.foldlM apply (o.base kinds) = .ok c := by
  rw [config]
  cases Kinds.ofValue o.kinds with
  | error e =>
    refine iff_of_false ?_ ?_
    · rintro ⟨⟩
    · rintro ⟨_, ⟨⟩, _⟩
  | ok kinds => exact ⟨fun h => ⟨kinds, rfl, h⟩, by rintro ⟨_, ⟨⟩, h⟩; exact h⟩

/-- Unless an option replaces it, the filter is made of the usual options. -/
theorem filter_of_config (hconfig : o.config = .ok c) (hfilter : c.filter = .given f)
    (hreplaces : o.replacesFilter = false) :
    ∃ kinds, Kinds.ofValue o.kinds = .ok kinds ∧
      f = { kinds, keep := o.keep, drop := o.drop, prune := o.prune } := by
  obtain ⟨kinds, hkinds, hfold⟩ := config_eq_ok_iff.1 hconfig
  refine ⟨kinds, hkinds, ?_⟩
  have hfiltered := foldlM_filtered o.extra (o.base kinds)
    { kinds, keep := o.keep, drop := o.drop, prune := o.prune }
  have hbase : (o.base kinds).filtered
      { kinds, keep := o.keep, drop := o.drop, prune := o.prune } = o.base kinds := rfl
  rw [hbase, hfold, ← replacesFilter, hreplaces] at hfiltered
  have hc := Except.ok.inj hfiltered
  rw [hc] at hfilter
  exact (Setting.given.inj hfilter).symm

/-- Options that differ in the kinds and in the test to keep nodes by. -/
theorem config_filtered (hconfig : o.config = .ok c) {w : Value} {kinds : Kinds}
    (hkinds : Kinds.ofValue w = .ok kinds) (keep : Hook (Predicate σ)) :
    ({ o with kinds := w, keep } : Options σ).config =
      .ok (if o.replacesFilter then c
        else c.filtered { kinds, keep, drop := o.drop, prune := o.prune }) := by
  obtain ⟨kinds', -, hfold⟩ := config_eq_ok_iff.1 hconfig
  refine config_eq_ok_iff.2 ⟨kinds, hkinds, ?_⟩
  have hfiltered := foldlM_filtered o.extra (o.base kinds')
    { kinds, keep, drop := o.drop, prune := o.prune }
  rw [hfold] at hfiltered
  exact hfiltered

theorem config_limit (hextra : o.extra.any Override.isLimit = false) (hconfig : o.config = .ok c)
    (l : Value) :
    ({ o with limit := l } : Options σ).config = .ok { c with limit := .given l } := by
  obtain ⟨kinds, hkinds, hfold⟩ := config_eq_ok_iff.1 hconfig
  refine config_eq_ok_iff.2 ⟨kinds, hkinds, ?_⟩
  have hlimit := foldlM_limit hextra (o.base kinds) (.given l)
  rw [hfold] at hlimit
  exact hlimit

theorem isUnlimited_of_config (hextra : o.extra.any Override.isLimit = false)
    (hlimit : o.limit = .null) (hconfig : o.config = .ok c) : c.IsUnlimited := by
  have hself : ({ o with limit := .null } : Options σ) = o := by rw [← hlimit]
  have hsame := config_limit hextra hconfig .null
  rw [hself, hconfig] at hsame
  exact congrArg Config.limit (Except.ok.inj hsame)

end Options

namespace Config

variable {c : Config σ} {f : Filter σ}

theorem filtered_self (hfilter : c.filter = .given f) : c.filtered f = c := by
  rw [filtered, ← hfilter]

/-- With other kinds, and another function to keep nodes by, an accepted configuration is accepted
if the kinds are. -/
theorem check_filtered_iff (hcheck : c.check = .ok ()) (hfilter : c.filter = .given f)
    (kinds : Kinds) {keep : Hook (Predicate σ)} (hkeep : keep.isSound = true) :
    (c.filtered { f with kinds, keep }).check = .ok () ↔
      (c.filtered { f with kinds, keep }).kindProblems = .ok [] := by
  obtain ⟨hchecker, hlimit, hinterval, hpolicy, -, hhooks⟩ := (check_eq_ok_iff c).1 hcheck
  obtain ⟨-, hdrop, hprune, hreport⟩ := (hookProblems_iff hfilter).1 hhooks
  have hhooks' : (c.filtered { f with kinds, keep }).hookProblems = .ok [] :=
    (hookProblems_iff (f := { f with kinds, keep }) rfl).2 ⟨hkeep, hdrop, hprune, hreport⟩
  rw [check_eq_ok_iff]
  exact ⟨fun h => h.2.2.2.2.1, fun h => ⟨hchecker, hlimit, hinterval, hpolicy, h, hhooks'⟩⟩

theorem check_keep (hcheck : c.check = .ok ()) (hfilter : c.filter = .given f)
    {keep : Hook (Predicate σ)} (hkeep : keep.isSound = true) :
    (c.filtered { f with keep }).check = .ok () := by
  obtain ⟨-, -, -, -, hproblems, -⟩ := (check_eq_ok_iff c).1 hcheck
  refine (check_filtered_iff hcheck hfilter f.kinds hkeep).2 ?_
  rw [kindProblems, Config.kinds, hfilter] at hproblems
  exact hproblems

theorem check_kinds_iff (hcheck : c.check = .ok ()) (hfilter : c.filter = .given f)
    (names : Option (List String)) :
    (c.filtered { f with kinds := .named names }).check = .ok () ↔ "" ∉ names.getD [] := by
  obtain ⟨-, -, -, -, -, hhooks⟩ := (check_eq_ok_iff c).1 hcheck
  obtain ⟨hkeep, -⟩ := (hookProblems_iff hfilter).1 hhooks
  exact (check_filtered_iff hcheck hfilter (.named names) hkeep).trans (kindProblems_iff rfl rfl)

theorem check_limited (hcheck : c.check = .ok ()) (m : Nat) : (c.limited m).check = .ok () := by
  obtain ⟨hchecker, -, hinterval, hpolicy, hkinds, hhooks⟩ := (check_eq_ok_iff c).1 hcheck
  have hgiven : (c.limited m).limit = .given ((some m).elim .null fun n => .int n) := rfl
  have hlimit := limitProblems_eq_nil hgiven
  exact (check_eq_ok_iff (c.limited m)).2 ⟨hchecker, hlimit, hinterval, hpolicy, hkinds, hhooks⟩

end Config

/-- The options ask for the configuration `c` with the filter `f`, which is accepted, and set no
limit. The test to prune by is pure and never fails, the test to keep nodes by leaves the caller's
state alone as well, and so does the callback for progress. -/
structure Options.AsksFor (o : Options σ) (c : Config σ) (f : Filter σ) : Prop where
  config : o.config = .ok c
  check : c.check = .ok ()
  limit : o.limit = .null
  extra : o.extra.any Override.isLimit = false
  filter : c.filter = .given f
  keep : f.keep.All fun p => ∃ b, Predicate.Answers p b
  prune : f.prune.All fun p => p.IsPure ∧ p.NeverFails
  progress : c.progress.All Ticker.IsIdle

/-! ## Listings -/

namespace Session

variable {s : Session σ} {r : Nat} {o o' : Options σ} {c : Config σ} {f f' : Filter σ}
  {root : Value} {fuel : Nat}

/-- All that the options ask for, drawn to its end. -/
def listing (registry : Option Nat) (o : Options σ) (root : Value) (fuel : Nat) :
    Act Entry (Session σ) Drained := do
  let i ← traverse registry o root
  draw i none fuel

/-- A listing is drawn from the run that the options ask for. -/
theorem listing_matches {t : Run σ} (hconfig : o.config = .ok c) (hcheck : c.check = .ok ())
    (hr : r < s.registries.size) (hstart : Run.start c (s.scene r) root = .ok t) :
    (listing (some r) o root fuel s).Matches
      (Holds s.cursors.size s.plans.size (.run s.plans.size) c) some
      (drain (Run.next c fuel) none fuel t) := by
  have htraverse : traverse (some r) o root s =
      addCursor (.run s.plans.size t.walk true) (s.opened c r) :=
    planFor_beginRun hconfig hcheck hstart fun p w => addCursor (.run p w true)
  have hcarries := opened_carries hr hstart
  have hlive := Run.live_of_start hstart
  let s' : Session σ :=
    { s.opened c r with cursors := s.cursors.push (.run s.plans.size t.walk true) }
  have hopened : traverse (some r) o root s = ⟨.ok s.cursors.size, s', []⟩ := htraverse
  have hholds : Holds s.cursors.size s.plans.size (.run s.plans.size) c s' t :=
    { config := hcarries.config
      run := hcarries.run
      plan_lt := hcarries.plan_lt
      registry_lt := hcarries.registry_lt
      cursor := by simp [s', cursor, hlive]
      cursor_lt := by simp [s'] }
  rw [listing, Act.bind_of_ok hopened]
  exact simulates_drain (next_run_simulates s.cursors.size s.plans.size fuel c) none fuel s' t
    hholds

/-- A listing is what the run that the options ask for gives beat by beat. -/
theorem listing_eq_haul {t : Run σ} {n : Nat} (hconfig : o.config = .ok c)
    (hcheck : c.check = .ok ()) (hr : r < s.registries.size)
    (hstart : Run.start c (s.scene r) root = .ok t) (hn : n ≤ fuel)
    (hends : (Run.haul c n t).ending ≠ .pending) :
    (listing (some r) o root fuel s).result = .ok (Run.haul c n t) :=
  (listing_matches hconfig hcheck hr hstart).result.trans
    (Run.drain_haul (Run.live_of_start hstart) hn hn hends)

/-- Options that are refused list nothing. -/
theorem listing_refused (hconfig : o.config = .ok c) {e : Fault} (hcheck : c.check = .error e) :
    (listing (some r) o root fuel s).result = .error e := by
  have hplan : planFor (some r) o s = ⟨.error e, s, []⟩ := by
    rw [planFor, hconfig, Act.ofExcept_ok_bind, makePlan, registryOr, hcheck]
    rfl
  have htraverse : traverse (some r) o root s = ⟨.error e, s, []⟩ := by
    rw [traverse, Act.bind_apply_error hplan]
  rw [listing, Act.bind_apply_error htraverse]

/-- Where the filter that one set of options asks for narrows that of another, so does the listing.
With a limit, the first nodes of the narrower listing are given. -/
theorem listing_narrows {test : Value → Option String → Bool} (hr : r < s.registries.size)
    (hunlimited : c.IsUnlimited) (hprogress : c.progress.All Ticker.IsIdle)
    (hf : f.Narrows test f') (hprune : f.prune.All fun p => p.IsPure ∧ p.NeverFails)
    (hconfig : o.config = .ok (c.filtered f)) (hcheck : (c.filtered f).check = .ok ())
    (hconfig' : o'.config = .ok (c.filtered f')) (hcheck' : (c.filtered f').check = .ok ())
    (hextra : o'.extra.any Override.isLimit = false) {kind : String}
    (hroot : (s.registry r).kindOf root = .ok (some kind))
    (hrules : (s.registry r).AllRules Rule.IsPure)
    (t : Unfolding (fun v => if f.prune.heeded.holds s.user v then [] else (s.scene r).kids v) root)
    (hfuel : t.preorder.length < fuel) :
    ∃ d : Drained, (listing (some r) o root fuel s).result = .ok d ∧ d.ending ≠ .pending ∧
      (listing (some r) o' root fuel s).result = .ok (d.sift (Run.passes test (s.scene r))) ∧
      ∀ m : Nat, (listing (some r) { o' with limit := .int m } root fuel s).result =
        .ok ((d.sift (Run.passes test (s.scene r))).cap m) := by
  have hstart {g : Filter σ} {c : Config σ} (hc : c.filter = .given g) (hg : g.prune = f.prune) :
      Run.start c (s.scene r) root =
        .ok { toScene := s.scene r, walk := ⟨[root], f.prune.heeded⟩ } := by
    rw [← hg]
    exact Run.start_of_filter hc hroot
  -- All three runs begin alike, and none needs more beats than the wide one.
  let begun : Run σ := { toScene := s.scene r, walk := ⟨[root], f.prune.heeded⟩ }
  have hends : (Run.haul (c.filtered f) (t.preorder.length + 1) begun).ending ≠ .pending :=
    Run.haul_ends hunlimited (hprune.heeded.mono fun _ hp => hp.1) hrules
      (@Walk.Follows.start σ f.prune.heeded (s.scene r) root
        (hprune.heeded.mono fun _ hp => hp.2) hrules t)
  have hsift := Run.haul_sift hprogress hunlimited hf (Eq.refl begun.toStage) (.refl (s.scene r))
    (t.preorder.length + 1)
  have hends' : (Run.haul (c.filtered f') (t.preorder.length + 1) begun).ending ≠ .pending := by
    rw [hsift]
    exact hends
  refine ⟨Run.haul (c.filtered f) (t.preorder.length + 1) begun,
    listing_eq_haul hconfig hcheck hr (hstart rfl rfl) hfuel hends, hends, ?_, fun m => ?_⟩
  · rw [← hsift]
    exact listing_eq_haul hconfig' hcheck' hr (hstart rfl hf.prune) hfuel hends'
  · have hlimited := Run.haul_limited (c := c.filtered f') hunlimited m hends'
    have hends'' := Drained.cap_ending_ne hends' (m - begun.tally.processed)
    rw [← hlimited] at hends''
    have hlisted := listing_eq_haul (Options.config_limit hextra hconfig' (.int m))
      (Config.check_limited hcheck' m) hr (hstart rfl hf.prune) hfuel hends''
    rw [← hsift]
    exact hlisted.trans (congrArg Except.ok hlimited)

/-- Two sets of options that differ in the kinds and in the test to keep nodes by. The listings
differ accordingly, unless the filter is replaced as a whole. -/
theorem listing_search (test : Value → Option String → Bool) (keep keep' : Hook (Predicate σ))
    {w w' : Value} {kinds kinds' : Kinds} (ho : o.AsksFor c f) (hr : r < s.registries.size)
    {kind : String} (hroot : (s.registry r).kindOf root = .ok (some kind))
    (hrules : (s.registry r).AllRules Rule.IsPure)
    (t : Unfolding (fun v => if f.prune.heeded.holds s.user v then [] else (s.scene r).kids v) root)
    (hfuel : t.preorder.length < fuel)
    (hkinds : Kinds.ofValue w = .ok kinds) (hkinds' : Kinds.ofValue w' = .ok kinds')
    (hfilters : o.replacesFilter = false →
      let g : Filter σ := { kinds, keep, drop := f.drop, prune := f.prune }
      let g' : Filter σ := { kinds := kinds', keep := keep', drop := f.drop, prune := f.prune }
      g.Narrows test g' ∧ (c.filtered g).check = .ok () ∧ (c.filtered g').check = .ok ()) :
    let listed (o : Options σ) := (listing (some r) o root fuel s).result
    let passes v := o.replacesFilter || Run.passes test (s.scene r) v
    ∃ d : Drained, listed { o with kinds := w, keep } = .ok d ∧ d.ending ≠ .pending ∧
      listed { o with kinds := w', keep := keep' } = .ok (d.sift passes) ∧
      ∀ m : Nat, listed { o with kinds := w', keep := keep', limit := .int m } =
        .ok ((d.sift passes).cap m) := by
  intro listed passes
  have hunlimited := Options.isUnlimited_of_config ho.extra ho.limit ho.config
  have hconfig := Options.config_filtered ho.config hkinds keep
  have hconfig' := Options.config_filtered ho.config hkinds' keep'
  cases hreplaces : o.replacesFilter with
  | true =>
    have hpasses : passes = Run.passes (fun _ _ => true) (s.scene r) := by
      funext v
      simp [passes, hreplaces, Run.passes]
    rw [hpasses]
    rw [hreplaces, if_pos rfl, ← Config.filtered_self ho.filter] at hconfig hconfig'
    have hcheck := ho.check
    rw [← Config.filtered_self ho.filter] at hcheck
    exact listing_narrows hr hunlimited ho.progress f.narrows_refl ho.prune hconfig hcheck hconfig'
      hcheck ho.extra hroot hrules t hfuel
  | false =>
    have hpasses : passes = Run.passes test (s.scene r) := by
      funext v
      simp [passes, hreplaces]
    rw [hpasses]
    obtain ⟨_, _, rfl⟩ := Options.filter_of_config ho.config ho.filter hreplaces
    obtain ⟨hnarrows, hcheck, hcheck'⟩ := hfilters hreplaces
    rw [hreplaces, if_neg Bool.false_ne_true] at hconfig hconfig'
    exact listing_narrows hr hunlimited ho.progress hnarrows ho.prune hconfig hcheck hconfig'
      hcheck' ho.extra hroot hrules t hfuel

/-- A search for nodes that pass a test gives the nodes that the options ask for without a test of
their own, as far as they pass, in the same order and with the same end; a search for kinds gives
the nodes that the options ask for without kinds of their own, as far as they are of these kinds.
With a limit, the first of them are given. The empty text is refused among the kinds. A test that
counts as false is not asked, and then all nodes pass. Where an option replaces the filter as a
whole, a search gives all that is asked for. -/
theorem search_narrows (s : Session σ) {r : Nat} (hr : r < s.registries.size) (o : Options σ)
    (c : Config σ) (f : Filter σ) (ho : o.AsksFor c f) (root : Value) {kind : String}
    (hroot : (s.registry r).kindOf root = .ok (some kind))
    (hrules : (s.registry r).AllRules Rule.IsPure)
    (t : Unfolding (fun v => if f.prune.heeded.holds s.user v then [] else (s.scene r).kids v) root)
    (fuel : Nat) (hfuel : t.preorder.length < fuel) :
    let listed (o : Options σ) := (listing (some r) o root fuel s).result
    let found (d : Drained) (test : Value → Bool) := d.sift fun v => o.replacesFilter || test v
    let isOf (ks : List String) v := Kinds.isNamed (some ks) (Run.kindAt (s.scene r) v)
    (∀ p b truth, Predicate.Answers p b →
      ∃ d : Drained, listed { o with keep := .absent } = .ok d ∧ d.ending ≠ .pending ∧
        listed (o.finding (.live p truth)) = .ok (found d fun v => !truth || b v) ∧
        ∀ m : Nat, listed ({ o with limit := .int m }.finding (.live p truth)) =
          .ok ((found d fun v => !truth || b v).cap m)) ∧
    ∀ ks : List String,
      ("" ∉ ks →
        ∃ d : Drained, listed { o with kinds := .null } = .ok d ∧ d.ending ≠ .pending ∧
          listed (o.findingKinds (ks.map .str)) = .ok (found d (isOf ks)) ∧
          ∀ m : Nat, listed ({ o with limit := .int m }.findingKinds (ks.map .str)) =
            .ok ((found d (isOf ks)).cap m)) ∧
      ("" ∈ ks → o.replacesFilter = false →
        ∃ e, listed (o.findingKinds (ks.map .str)) = .error e) := by
  intro listed found isOf
  constructor
  · intro p b truth hp
    obtain ⟨kinds, hkinds, -⟩ := Options.config_eq_ok_iff.1 ho.config
    refine listing_search (fun v _ => !truth || b v) .absent (.live p truth) ho hr hroot hrules t
      hfuel hkinds hkinds fun hreplaces => ?_
    obtain ⟨kinds', hkinds', hf⟩ := Options.filter_of_config ho.config ho.filter hreplaces
    obtain rfl : kinds = f.kinds := by
      rw [hf]
      exact Except.ok.inj (hkinds.symm.trans hkinds')
    exact ⟨f.narrows_keep hp truth, Config.check_keep ho.check ho.filter rfl,
      Config.check_keep ho.check ho.filter rfl⟩
  · intro ks
    obtain ⟨names, hnames, hmem⟩ := Kinds.ofValue_tuple ⟨0, none⟩ ks
    have hcheck := Config.check_kinds_iff ho.check ho.filter
    constructor
    · intro hks
      have hisOf : isOf ks =
          Run.passes (fun _ kind => Kinds.isNamed (some names) kind) (s.scene r) :=
        funext fun v => (Kinds.isNamed_congr hmem _).symm
      rw [hisOf]
      refine listing_search (fun _ kind => Kinds.isNamed (some names) kind) o.keep o.keep ho hr
        hroot hrules t hfuel rfl hnames fun hreplaces => ?_
      obtain ⟨_, _, rfl⟩ := Options.filter_of_config ho.config ho.filter hreplaces
      exact ⟨Filter.narrows_kinds _ ho.keep names, (hcheck none).2 List.not_mem_nil,
        (hcheck (some names)).2 fun h => hks ((hmem "").1 h)⟩
    · intro hks hreplaces
      obtain ⟨_, _, rfl⟩ := Options.filter_of_config ho.config ho.filter hreplaces
      have hconfig := Options.config_filtered ho.config hnames o.keep
      rw [hreplaces, if_neg Bool.false_ne_true] at hconfig
      have hrefused := fun hok => (hcheck (some names)).1 hok ((hmem "").2 hks)
      generalize c.filtered _ = c' at hconfig hrefused
      cases hresult : c'.check with
      | ok u => exact absurd hresult hrefused
      | error e => exact ⟨e, listing_refused hconfig hresult⟩

/-- A torn pair beside a name, where failures are skipped. Of the three nodes that are listed, two
pass the test; the first of them is the torn pair, whose rule fails. -/
theorem search_narrows_tornHalf :
    let p : Predicate Unit := Toolkit.hasKind [.str "Torn", .str "Name"]
    let o : Options Unit :=
      { prune := .live (Toolkit.hasKind [.str "Fold"]), skipErrors := true,
        extra := [.interval (.int 2)] }
    let s : Session Unit := { registries := .ofList [Sample.tornPairs .value], user := () }
    let listed (o : Options Unit) := (listing (some 0) o Sample.tornHalf 4 s).result
    listed o = .ok ⟨[Sample.tornHalf, Sample.torn, Sample.name], .stop⟩ ∧
      listed (o.finding (.live p)) = .ok ⟨[Sample.torn, Sample.name], .stop⟩ ∧
      listed ({ o with limit := .int 1 }.finding (.live p)) = .ok ⟨[Sample.torn], .stop⟩ ∧
      listed (o.findingKinds [.str "Name"]) = .ok ⟨[Sample.name], .stop⟩ := by
  intro p o s listed
  let f : Filter Unit := { prune := .live (Toolkit.hasKind [.str "Fold"]) }
  let c : Config Unit := { filter := .given f, policy := .given .skip, interval := .int 2 }
  have ho : o.AsksFor c f :=
    { config := rfl
      check := rfl
      limit := rfl
      extra := rfl
      filter := rfl
      keep := trivial
      prune := ⟨Toolkit.hasKind_isPure _, Toolkit.hasKind_neverFails _⟩
      progress := trivial }
  let t : Unfolding (fun v => if f.prune.heeded.holds s.user v then [] else (s.scene 0).kids v)
      Sample.tornHalf :=
    { below := .cons Sample.torn .nil (.cons Sample.name .nil .nil)
      roots_below := rfl
      unfolds_below := ⟨rfl, trivial, rfl, trivial, trivial⟩ }
  have hhaul : Run.haul c 4
      { toScene := ⟨Sample.tornPairs .value, ()⟩, walk := ⟨[Sample.tornHalf], f.prune⟩ } =
      ⟨[Sample.tornHalf, Sample.torn, Sample.name], .stop⟩ := by rfl
  have hlisted : listed o = .ok ⟨[Sample.tornHalf, Sample.torn, Sample.name], .stop⟩ :=
    hhaul ▸ listing_eq_haul ho.config ho.check (by decide) rfl (Nat.le_refl 4)
      (by rw [hhaul]; rintro ⟨⟩)
  have hp : p.Answers ((Hook.live p).holds ()) :=
    Predicate.answers_holds (Toolkit.hasKind_isPure _) (Toolkit.hasKind_neverFails _)
      (fun v u => Act.ofExcept_state _ u) ()
  obtain ⟨htest, hkinds⟩ := search_narrows s (by decide) o c f ho Sample.tornHalf rfl
    (Sample.tornPairs_isPure .value) t 4 (by decide)
  obtain ⟨d, hd, -, hfound, hcapped⟩ := htest p _ true hp
  obtain rfl := Except.ok.inj (hlisted.symm.trans hd)
  obtain ⟨d, hd, -, hnamed, -⟩ := (hkinds ["Name"]).1 (by decide)
  obtain rfl := Except.ok.inj (hlisted.symm.trans hd)
  exact ⟨hlisted, hfound, hcapped 1, hnamed⟩

/-- What the options say about nodes to keep, or about kinds, does not narrow a search. -/
theorem search_forgets :
    let p : Predicate Unit := Toolkit.hasKind [.str "Pair", .str "Name"]
    let kept : Options Unit := { keep := .live (Toolkit.hasKind [.str "Pair"]) }
    let named : Options Unit := { kinds := .str "Pair" }
    let s : Session Unit := { registries := .ofList [Sample.pairs], user := () }
    let listed (o : Options Unit) := (listing (some 0) o Sample.halfPair 3 s).result
    (∃ c f, kept.AsksFor c f) ∧ (∃ c f, named.AsksFor c f) ∧ (∃ b, p.Answers b) ∧
      (s.registry 0).AllRules Rule.IsPure ∧
      Nonempty (Unfolding (fun v => (s.scene 0).kids v) Sample.halfPair) ∧
      listed kept = .ok ⟨[Sample.halfPair], .stop⟩ ∧
      listed (kept.finding (.live p)) = .ok ⟨[Sample.halfPair, Sample.name], .stop⟩ ∧
      listed named = .ok ⟨[Sample.halfPair], .stop⟩ ∧
      listed (named.findingKinds [.str "Pair", .str "Name"]) =
        .ok ⟨[Sample.halfPair, Sample.name], .stop⟩ := by
  intro p kept named s listed
  have hanswers (kinds : List Value) :
      ∃ b, Predicate.Answers (Toolkit.hasKind kinds : Predicate Unit) b :=
    ⟨_, Predicate.answers_holds (Toolkit.hasKind_isPure _) (Toolkit.hasKind_neverFails _)
      (fun v u => Act.ofExcept_state _ u) ()⟩
  let pairsOnly : Filter Unit := { keep := .live (Toolkit.hasKind [.str "Pair"]) }
  let pairKind : Filter Unit := { kinds := .oneOf [.str "Pair"] }
  have hkept : kept.AsksFor { filter := .given pairsOnly } pairsOnly :=
    ⟨rfl, rfl, rfl, rfl, rfl, hanswers _, trivial, trivial⟩
  have hnamed : named.AsksFor { filter := .given pairKind } pairKind :=
    ⟨rfl, rfl, rfl, rfl, rfl, trivial, trivial, trivial⟩
  let t : Unfolding (fun v => (s.scene 0).kids v) Sample.halfPair :=
    { below := .cons Sample.name .nil .nil
      roots_below := rfl
      unfolds_below := ⟨rfl, trivial, trivial⟩ }
  have hlisted {o : Options Unit} {c : Config Unit} {items : List Value}
      (hconfig : o.config = .ok c) (hcheck : c.check = .ok ()) (hprune : c.prune = .ok .absent)
      (hhaul : Run.haul c 3
        { toScene := ⟨Sample.pairs, ()⟩, walk := ⟨[Sample.halfPair], .absent⟩ } =
          ⟨items, .stop⟩) : listed o = .ok ⟨items, .stop⟩ := by
    rw [← hhaul]
    refine listing_eq_haul hconfig hcheck (by decide) ?_ (Nat.le_refl 3) ?_
    · rw [Run.start, hprune]
      rfl
    · rw [hhaul]
      rintro ⟨⟩
  refine ⟨⟨_, _, hkept⟩, ⟨_, _, hnamed⟩, hanswers _, ?_, ⟨t⟩, ?_⟩
  · exact Sample.pairs_isPure
  exact ⟨hlisted hkept.config hkept.check rfl rfl, hlisted rfl rfl rfl rfl,
    hlisted hnamed.config hnamed.check rfl rfl, hlisted rfl rfl rfl rfl⟩

end Session

end RuleWalk
