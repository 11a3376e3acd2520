import RuleWalk.Value.Access

/-!
# Conversion to attribute nodes

Every tagged mapping becomes an attribute node and every list a new list of converted items; all
else, untagged mappings with their contents included, is kept. `converted` says so by recursion.
`convert` runs with the containers under construction held in a list of frames, so that the depth
of a value costs no stack. Both take every entry of a mapping for a field; the names that are none
are seen to in `RuleWalk.Value.Worklist`.

New containers take their serial numbers from a supply, in the order in which they are met, and the
path of what they were made from.
-/

namespace RuleWalk.Value

/-- The tag of a mapping under `field`. Only a text names a field. -/
def tag? (field : Value) (entries : List (String × Value)) : Option Value :=
  match field with
  | str name =>
    match entries.lookup name with
    | some (str s) => if s.isEmpty then none else some (str s)
    | _ => none
  | _ => none

/-- The attribute node made from converted entries: an entry `type` replaces the tag. -/
def assemble (origin : Origin) (tag : Value) (entries : List (String × Value)) : Value :=
  node origin ((entries.lookup "type").getD tag) (entries.filter fun e => e.1 != "type")

mutual

/-- The converted value and the next free serial number. -/
def converted (field : Value) : Value → Nat → Value × Nat
  | list o items, n =>
    let r := convertedItems field items (n + 1)
    (list { o with serial := n } r.1, r.2)
  | dict o entries, n =>
    match tag? field entries with
    | some tag =>
      let r := convertedEntries field entries (n + 1)
      (assemble { o with serial := n } tag r.1, r.2)
    | none => (dict o entries, n)
  | v, n => (v, n)

def convertedItems (field : Value) : List Value → Nat → List Value × Nat
  | [], n => ([], n)
  | v :: vs, n =>
    let r := converted field v n
    let rs := convertedItems field vs r.2
    (r.1 :: rs.1, rs.2)

def convertedEntries (field : Value) : List (String × Value) → Nat → List (String × Value) × Nat
  | [], n => ([], n)
  | (k, v) :: es, n =>
    let r := converted field v n
    let rs := convertedEntries field es r.2
    ((k, r.1) :: rs.1, rs.2)

end

/-- A container part way through: what is done, in reverse, and what is still to do. -/
inductive Frame where
  | items (origin : Origin) (done : List Value) (rest : List Value)
  | entries (origin : Origin) (tag : Value) (done : List (String × Value)) (name : String)
      (rest : List (String × Value))

/-- A value to be converted, or one that is. -/
inductive Focus where
  | fresh (v : Value)
  | ready (v : Value)

/-- What a frame still has to do. -/
noncomputable def Frame.pending : Frame → Nat
  | items _ _ rest => 2 * sizeOf rest
  | entries _ _ _ _ rest => 2 * sizeOf rest

/-- What a stack of frames still has to do. -/
noncomputable def Frame.pendingAll : List Frame → Nat
  | [] => 0
  | f :: fs => f.pending + pendingAll fs

noncomputable def Focus.pending : Focus → Nat
  | fresh v => 2 * sizeOf v + 1
  | ready _ => 0

/-- Converts what is in focus and completes the frames around it, the innermost first. -/
def convertLoop (field : Value) : Focus → List Frame → Nat → Value × Nat
  | .fresh (list o []), frames, n => convertLoop field (.ready (list { o with serial := n } [])) frames (n + 1)
  | .fresh (list o (v :: vs)), frames, n =>
    convertLoop field (.fresh v) (.items { o with serial := n } [] vs :: frames) (n + 1)
  | .fresh (dict o []), frames, n => convertLoop field (.ready (dict o [])) frames n
  | .fresh (dict o ((k, v) :: es)), frames, n =>
    match tag? field ((k, v) :: es) with
    | some tag =>
      convertLoop field (.fresh v) (.entries { o with serial := n } tag [] k es :: frames) (n + 1)
    | none => convertLoop field (.ready (dict o ((k, v) :: es))) frames n
  | .fresh v, frames, n => convertLoop field (.ready v) frames n
  | .ready v, [], n => (v, n)
  | .ready v, .items o done [] :: frames, n =>
    convertLoop field (.ready (list o (v :: done).reverse)) frames n
  | .ready v, .items o done (w :: ws) :: frames, n =>
    convertLoop field (.fresh w) (.items o (v :: done) ws :: frames) n
  | .ready v, .entries o tag done k [] :: frames, n =>
    convertLoop field (.ready (assemble o tag ((k, v) :: done).reverse)) frames n
  | .ready v, .entries o tag done k ((l, w) :: es) :: frames, n =>
    convertLoop field (.fresh w) (.entries o tag ((k, v) :: done) l es :: frames) n
termination_by focus frames => focus.pending + Frame.pendingAll frames
decreasing_by
  all_goals simp only [Focus.pending, Frame.pending, Frame.pendingAll, list.sizeOf_spec,
    dict.sizeOf_spec, List.cons.sizeOf_spec, List.nil.sizeOf_spec, Prod.mk.sizeOf_spec]
  all_goals omega

/-- The conversion of a value with serial numbers from `n` on. -/
def convert (v field : Value) (n : Nat) : Value × Nat :=
  convertLoop field (.fresh v) [] n

mutual

/-- Whether a mapping stands in a value with nothing but lists around it. -/
def showsMapping : Value → Bool
  | dict _ _ => true
  | list _ items => showsMappings items
  | _ => false

def showsMappings : List Value → Bool
  | [] => false
  | v :: vs => showsMapping v || showsMappings vs

end

end RuleWalk.Value
