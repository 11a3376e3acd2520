import RuleWalk.Query
import RuleWalk.Registries

/-!
# Sessions

A session holds the registries, plans and lazy sequences of one caller, each under a number. One
registry is shared by everything that names none; it is made from the catalogue when it is first
needed. An operation touches the registry it is addressed to and no other.
-/

namespace RuleWalk

/-- A checked configuration with the registry it runs on. The incidents of runs that a later one
replaced are archived, the last first. -/
structure Plan (σ : Type) where
  config : Config σ
  registry : Nat
  tally : Tally := {}
  archive : List (List Incident) := []

namespace Plan

variable {σ : Type}

/-- Number of the log that new incidents go to. -/
def currentLog (p : Plan σ) : Nat := p.archive.length

/-- The incidents of one log, from first to last. -/
def incidents (p : Plan σ) (log : Nat) : List Incident :=
  if log = p.currentLog then p.tally.incidents.reverse
  else (p.archive.reverse[log]?.getD []).reverse

/-- Begins a new count and a new log. -/
def restart (p : Plan σ) : Plan σ :=
  { p with tally := {}, archive := p.tally.incidents :: p.archive }

end Plan

/-- A lazy sequence: a bare walk, a run of a plan, the leaves of a run, the leaves of a run that is
not begun, or one that is used up. -/
inductive Cursor (σ : Type) where
  | walk (registry : Nat) (w : Walk σ)
  | run (plan : Nat) (w : Walk σ) (live : Bool)
  | leaves (plan : Nat) (w : Walk σ) (live : Bool)
  | unopened (registry : Option Nat) (options : Options σ) (root : Value)
  | spent

structure Session (σ : Type) where
  registries : Registries σ := {}
  shared : Option Nat := none
  plans : Array (Plan σ) := #[]
  cursors : Array (Cursor σ) := #[]
  user : σ

namespace Session

variable {σ α : Type}

def registry (s : Session σ) (r : Nat) : Registry σ := s.registries.get r

def plan (s : Session σ) (p : Nat) : Plan σ := s.plans[p]?.getD ⟨{}, 0, {}, []⟩

def cursor (s : Session σ) (i : Nat) : Cursor σ := s.cursors[i]?.getD .spent

/-- The scene of a registry. -/
def scene (s : Session σ) (r : Nat) : Scene σ := ⟨s.registry r, s.user⟩

def putScene (s : Session σ) (r : Nat) (t : Scene σ) : Session σ :=
  { s with registries := s.registries.set r t.registry, user := t.user }

def putPlan (s : Session σ) (p : Nat) (q : Plan σ) : Session σ :=
  { s with plans := s.plans.setIfInBounds p q }

def putCursor (s : Session σ) (i : Nat) (c : Cursor σ) : Session σ :=
  { s with cursors := s.cursors.setIfInBounds i c }

/-- Acts on one registry and the caller's state. -/
def onScene (r : Nat) (m : Act Entry (Scene σ) α) : Act Entry (Session σ) α :=
  Act.zoom (fun s => s.scene r) (fun s t => s.putScene r t) m

/-- Acts on one registry alone. -/
def onRegistry (r : Nat) (m : Act Entry (Registry σ) α) : Act Entry (Session σ) α :=
  onScene r (Scene.onRegistry m)

/-- Acts on the caller's state alone. -/
def onUser (m : Act Entry σ α) : Act Entry (Session σ) α :=
  Act.zoom Session.user (fun s u => { s with user := u }) m

/-- A new registry and its number. -/
def addRegistry (r : Registry σ) : Act Entry (Session σ) Nat := fun s =>
  ⟨.ok s.registries.size, { s with registries := s.registries.push r }, []⟩

def addPlan (p : Plan σ) : Act Entry (Session σ) Nat := fun s =>
  ⟨.ok s.plans.size, { s with plans := s.plans.push p }, []⟩

def addCursor (c : Cursor σ) : Act Entry (Session σ) Nat := fun s =>
  ⟨.ok s.cursors.size, { s with cursors := s.cursors.push c }, []⟩

/-- A new registry with a copy of the catalogue. -/
def standardRegistry (kindField : Value) : Act Entry (Session σ) Nat := fun s =>
  addRegistry (s.registries.standard kindField) s

/-- The shared registry, made when it is first needed. -/
def sharedRegistry : Act Entry (Session σ) Nat := fun s =>
  match s.shared with
  | some r => ⟨.ok r, s, []⟩
  | none =>
    ⟨.ok s.registries.size,
      { s with
        registries := s.registries.push (s.registries.standard (.str "type"))
        shared := some s.registries.size }, []⟩

/-- The given registry, or the shared one. -/
def registryOr : Option Nat → Act Entry (Session σ) Nat
  | some r => pure r
  | none => sharedRegistry

/-- A registry made from a table of rules. -/
def makeRegistry (kindField : Value) (table : List (Value × Candidate σ)) :
    Act Entry (Session σ) Nat := fun s =>
  match Registry.fill table (.empty kindField) with
  | ⟨.ok (), r, es⟩ =>
    ⟨.ok s.registries.size, { s with registries := s.registries.push r }, es⟩
  | ⟨.error e, _, es⟩ => ⟨.error e, s, es⟩

/-- A copy of a registry. -/
def copyRegistry (r : Nat) : Act Entry (Session σ) Nat := fun s =>
  match (s.registry r).copy with
  | ⟨.ok (), q, es⟩ =>
    ⟨.ok s.registries.size, { s with registries := s.registries.push q }, es⟩
  | ⟨.error e, _, es⟩ => ⟨.error e, s, es⟩

/-- A bare walk. -/
def startWalk (registry : Option Nat) (prune : Hook (Predicate σ)) (root : Value) :
    Act Entry (Session σ) Nat := do
  let r ← registryOr registry
  let s ← Act.get
  let w ← Act.ofExcept (Walk.start (s.registry r) prune root)
  addCursor (.walk r w)

/-- Acts on a bare walk. -/
def onWalk (i r : Nat) (w : Walk σ) (m : Act Entry (Stage σ) α) : Act Entry (Session σ) α :=
  Act.zoom (fun s => ⟨s.scene r, w⟩)
    (fun s t => (s.putScene r t.toScene).putCursor i (.walk r t.walk)) m

/-- One step of a bare walk. -/
def stepWalk (i : Nat) : Act Entry (Session σ) (Option Value) := fun s =>
  match s.cursor i with
  | .walk r w => onWalk i r w Walk.step s
  | _ => ⟨.ok none, s, []⟩

/-- A plan for a configuration. -/
def makePlan (config : Config σ) (registry : Option Nat) : Act Entry (Session σ) Nat := do
  let r ← registryOr registry
  Act.ofExcept config.check
  addPlan { config, registry := r }

/-- The run of a plan, when its walk is `w`. -/
def run (s : Session σ) (p : Nat) (w : Walk σ) (live : Bool) : Run σ :=
  { toScene := s.scene (s.plan p).registry, walk := w, tally := (s.plan p).tally, live }

/-- Acts on a run of a plan. -/
def onRun (i p : Nat) (w : Walk σ) (live : Bool) (make : Walk σ → Bool → Cursor σ)
    (m : Act Entry (Run σ) α) : Act Entry (Session σ) α :=
  Act.zoom (fun s => s.run p w live)
    (fun s t =>
      ((s.putScene (s.plan p).registry t.toScene).putPlan p
        { s.plan p with tally := t.tally }).putCursor i (make t.walk t.live)) m

/-- Begins a run of a plan; the root is looked at, the walk waits. -/
def beginRun (p : Nat) (root : Value) : Act Entry (Session σ) (Walk σ) := do
  let s ← Act.get
  let q := s.plan p
  let t ← Act.ofExcept (Run.start q.config (s.scene q.registry) root)
  Act.modify fun s => s.putPlan p q.restart
  return t.walk

/-- A new run of a plan as a lazy sequence. -/
def execute (p : Nat) (root : Value) : Act Entry (Session σ) Nat := do
  let w ← beginRun p root
  addCursor (.run p w true)

/-- The plan that options ask for. -/
def planFor (registry : Option Nat) (options : Options σ) : Act Entry (Session σ) Nat := do
  let config ← Act.ofExcept options.config
  makePlan config registry

/-- The nodes that options ask for as a lazy sequence. -/
def traverse (registry : Option Nat) (options : Options σ) (root : Value) :
    Act Entry (Session σ) Nat := do
  let p ← planFor registry options
  execute p root

/-- The leaves among them. Nothing happens before the first request. -/
def leaves (registry : Option Nat) (options : Options σ) (root : Value) :
    Act Entry (Session σ) Nat := addCursor (.unopened registry options root)

/-- Runs a query to its end. -/
def runThrough (registry : Option Nat) (options : Options σ) (root : Value)
    (m : Config σ → Act Entry (Run σ) α) : Act Entry (Session σ) α := do
  let p ← planFor registry options
  let w ← beginRun p root
  let i ← addCursor .spent
  let s ← Act.get
  onRun i p w true (fun _ _ => .spent) (m (s.plan p).config)

def count (registry : Option Nat) (options : Options σ) (root : Value) (fuel : Nat) :
    Act Entry (Session σ) Nat := runThrough registry options root fun c => Run.count c fuel

/-- The statistic of a tree, with the counted kinds that have no rule. -/
def census (registry : Option Nat) (options : Options σ) (root : Value) (fuel : Nat) :
    Act Entry (Session σ) (Census × List String) := do
  let r ← registryOr registry
  let c ← runThrough (some r) options.watching root fun c => Run.census c fuel
  let s ← Act.get
  return (c, c.unknownKinds (s.registry r))

/-- Opens the leaves of a run and gives the first. -/
def openLeaves (i : Nat) (registry : Option Nat) (options : Options σ) (root : Value) (fuel : Nat) :
    Act Entry (Session σ) Delivery := do
  Act.modify fun s => s.putCursor i .spent
  let p ← planFor registry options.watching
  let w ← beginRun p root
  let s ← Act.get
  onRun i p w true (.leaves p) (Run.nextLeaf (s.plan p).config fuel)

/-- The next node of a lazy sequence. -/
def next (i fuel : Nat) : Act Entry (Session σ) Delivery := fun s =>
  match s.cursor i with
  | .walk r w => onWalk i r w Walk.next s
  | .run p w live => onRun i p w live (.run p) (Run.next (s.plan p).config fuel) s
  | .leaves p w live => onRun i p w live (.leaves p) (Run.nextLeaf (s.plan p).config fuel) s
  | .unopened registry options root => openLeaves i registry options root fuel s
  | .spent => ⟨.ok .stop, s, []⟩

/-- Draws from a lazy sequence. -/
def draw (i : Nat) (limit : Option Nat) (fuel : Nat) : Act Entry (Session σ) Drained :=
  drain (next i fuel) limit fuel

/-- The summary of a plan. -/
def summary (s : Session σ) (p : Nat) : Except Fault Summary :=
  let q := s.plan p
  Summary.of q.config (s.registry q.registry) q.tally

end Session

end RuleWalk
