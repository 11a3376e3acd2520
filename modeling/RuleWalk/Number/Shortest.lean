import RuleWalk.Number.Double

/-!
# The shortest decimal text of a double

Among the decimals that read back as a given finite double, the text uses one with the fewest
digits, and of those the nearest to it. The search goes through the decimal grids from coarse to
fine and tests the two neighbours of the number on each.
-/

namespace RuleWalk

namespace Binary64

/-- A number between two bounds, all three counted in units of `2 ^ unit`. -/
structure Interval where
  value : Nat
  low : Nat
  high : Nat
  closed : Bool
  unit : Int

/-- The reals that round to the given double, in quarters of its last place. -/
def interval (x : Binary64) : Interval where
  value := 4 * x.significand
  low := 4 * x.significand -
    if x.significand = Nat.pow 2 (precision - 1) ∧ leastExponent < x.exponent then 1 else 2
  high := 4 * x.significand + 2
  closed := x.significand % 2 == 0
  unit := x.exponent - 2

/-- Whether `point` lies between the bounds, all on one scale. -/
def Interval.holds (i : Interval) (scale point : Nat) : Bool :=
  if i.closed then i.low * scale ≤ point && point ≤ i.high * scale
  else i.low * scale < point && point < i.high * scale

/-- The best multiple of `10 ^ g` inside the interval, if there is one. -/
def Interval.onGrid (i : Interval) (g : Int) : Option Nat :=
  let step := Nat.pow 10 g.toNat * Nat.pow 2 (-i.unit).toNat
  let scale := Nat.pow 2 i.unit.toNat * Nat.pow 10 (-g).toNat
  let v := i.value * scale
  let below := v / step
  match i.holds scale (below * step), i.holds scale ((below + 1) * step) with
  | true, true =>
    match compare (2 * (v % step)) step with
    | .lt => some below
    | .gt => some (below + 1)
    | .eq => some (if below % 2 = 0 then below else below + 1)
  | true, false => some below
  | false, true => some (below + 1)
  | false, false => none

/-- Decimal exponent of the leading digit of `num / den`. -/
def leadingExponent (num den : Nat) : Int :=
  if den ≤ num then (Nat.toDigits 10 (num / den)).length - 1
  else
    let w := (Nat.toDigits 10 (den / num)).length
    if den ≤ num * Nat.pow 10 (w - 1) then -((w : Int) - 1) else -(w : Int)

/-- Tries the grids with `n`, `n + 1`, … digits, at most `fuel` of them. -/
def Interval.search (i : Interval) (lead : Int) : Nat → Nat → Nat × Int
  | 0, _ => (i.value, 0)
  | fuel + 1, n =>
    let g := lead - n + 1
    match i.onGrid g with
    | some d => (d, g)
    | none => i.search lead fuel (n + 1)

/-- Digits and decimal exponent of the shortest decimal that reads back. -/
def shortest (x : Binary64) : Nat × Int :=
  let (n, d) := ratio { x with negative := false }
  x.interval.search (leadingExponent n.natAbs d) 17 1

def zeros (n : Nat) : List Char := List.replicate n '0'

/-- The digits of `n` without trailing zeros, and how many zeros were dropped. -/
def significantDigits (n : Nat) : List Char × Nat :=
  let ds := (Nat.toDigits 10 n).reverse
  let kept := ds.dropWhile (· == '0')
  (kept.reverse, ds.length - kept.length)

/-- An exponent is signed and has at least two digits. -/
def exponentText (e : Int) : List Char :=
  let ds := Nat.toDigits 10 e.natAbs
  (if e < 0 then '-' else '+') :: (if ds.length < 2 then '0' :: ds else ds)

/-- Digits `ds` with the decimal point after place `p`: positional from `0.0001` up to sixteen
places before the point, with an exponent otherwise. -/
def layout (ds : List Char) (p : Int) : List Char :=
  if -4 < p ∧ p ≤ 16 then
    if p ≤ 0 then '0' :: '.' :: zeros (-p).toNat ++ ds
    else if (ds.length : Int) ≤ p then ds ++ zeros (p.toNat - ds.length) ++ ['.', '0']
    else ds.take p.toNat ++ '.' :: ds.drop p.toNat
  else
    let mantissa := match ds with
      | d :: e :: rest => d :: '.' :: e :: rest
      | ds => ds
    mantissa ++ 'e' :: exponentText (p - 1)

def text (x : Binary64) : String :=
  let body :=
    if x.isZero then ['0', '.', '0']
    else
      let (d, g) := x.shortest
      let (ds, dropped) := significantDigits d
      layout ds (ds.length + dropped + g)
  String.ofList (if x.negative then '-' :: body else body)

end Binary64

def Double.text : Double → String
  | finite x => x.text
  | infinite negative => if negative then "-inf" else "inf"
  | notANumber => "nan"

end RuleWalk
