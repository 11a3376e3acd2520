import RuleWalk.Value.Access

/-!
# Equality and order of values

Numbers are compared by what they stand for, texts by code points, lists and tuples item by item,
mappings without regard to order, and attribute nodes by identity, as are their methods. Only
numbers, texts, lists and tuples are ordered, each among themselves.
-/

namespace RuleWalk

/-- Whether an order test holds of two things that compare as given. -/
def Relation.holds : Relation → Ordering → Bool
  | less, o => o == .lt
  | atMost, o => o != .gt

/-- Whether an order test holds of two numbers. -/
def Relation.holdsOf (r : Relation) (x y : Quantity) : Bool :=
  match x.compare? y with
  | some o => r.holds o
  | none => false

namespace Value

mutual

def eq : Value → Value → Bool
  | null, null => true
  | str s, str t => s == t
  | list _ xs, list _ ys => eqItems xs ys
  | tuple _ xs, tuple _ ys => eqItems xs ys
  | dict _ es, dict _ fs => es.length == fs.length && eqEntries es fs
  | node o _ _, node p _ _ => o.serial == p.serial
  | method a m, method b n => m == n && (m == classMethod || a.serial? == b.serial?)
  | a, b =>
    match a.quantity?, b.quantity? with
    | some x, some y => x.compare? y == some .eq
    | _, _ => false

def eqItems : List Value → List Value → Bool
  | [], [] => true
  | x :: xs, y :: ys => eq x y && eqItems xs ys
  | _, _ => false

/-- Every entry of the first mapping is in the second. -/
def eqEntries : List (String × Value) → List (String × Value) → Bool
  | [], _ => true
  | (k, v) :: es, fs =>
    (match fs.lookup k with
      | some w => eq v w
      | none => false) && eqEntries es fs

end

mutual

/-- An order test; lists are ordered by the first items that differ. -/
def test (r : Relation) : Value → Value → Except Fault Bool
  | str s, str t => .ok (r.holds (compare s t))
  | list _ xs, list _ ys => testItems r xs ys
  | tuple _ xs, tuple _ ys => testItems r xs ys
  | a, b =>
    match a.quantity?, b.quantity? with
    | some x, some y => .ok (r.holdsOf x y)
    | _, _ => .error (.notOrdered r a.typeName b.typeName)

def testItems (r : Relation) : List Value → List Value → Except Fault Bool
  | [], [] => .ok (r.holds .eq)
  | [], _ :: _ => .ok true
  | _ :: _, [] => .ok false
  | x :: xs, y :: ys => if eq x y then testItems r xs ys else test r x y

end

/-- The members of a set given in the order of their arrival; of equal ones the first stays. -/
def distinct : List Value → List Value → Except Fault (List Value)
  | seen, [] => .ok seen.reverse
  | seen, v :: vs =>
    match checkKey v with
    | .error e => .error e
    | .ok () => if seen.any (eq v) then distinct seen vs else distinct (v :: seen) vs

/-- Puts a value behind all that are not greater, searching from the end of `sorted`, which is
given in decreasing order. -/
def insertSorted (v : Value) : List Value → Except Fault (List Value)
  | [] => .ok [v]
  | w :: ws =>
    match test .less v w with
    | .error e => .error e
    | .ok false => .ok (v :: w :: ws)
    | .ok true => (insertSorted v ws).map (w :: ·)

/-- The values in increasing order, unless two of them have none. -/
def sort (vs : List Value) : Except Fault (List Value) :=
  (vs.foldlM (fun sorted v => insertSorted v sorted) []).map List.reverse

/-- Whether `part` stands somewhere in the given characters. -/
def holdsPart (part : List Char) : List Char → Bool
  | [] => part.isEmpty
  | c :: cs => part.isPrefixOf (c :: cs) || holdsPart part cs

/-- Whether a member that equals `v` is in a container: a text holds its parts, a mapping its
keys. -/
def member (v container : Value) : Except Fault Bool :=
  match container with
  | str s =>
    match v with
    | str t => .ok (holdsPart t.toList s.toList)
    | _ => .error (.notText v.typeName)
  | list _ items => .ok (items.any (eq v))
  | tuple _ items => .ok (items.any (eq v))
  | dict _ entries => (checkKey v).map fun _ => entries.any fun e => eq v (str e.1)
  | _ => .error (.notContainer container.typeName)

end Value

end RuleWalk
