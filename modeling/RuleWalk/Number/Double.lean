/-!
# Double-precision numbers, held exactly

A finite number is a sign, a significand below `2 ^ 53` and a power of two from `-1074` to `971`.
Beside the finite numbers there are two infinities, to which a number outside the range is rounded,
and one double that is no number. Comparisons and divisibility are decided on exact fractions, never
by rounded arithmetic.
-/

namespace RuleWalk

/-- The number `± significand * 2 ^ exponent`; the sign also tells the two zeros apart. -/
structure Binary64 where
  negative : Bool
  significand : Nat
  exponent : Int
deriving DecidableEq, Repr, Inhabited

/-- A double: finite, infinite, or no number. -/
inductive Double where
  | finite (x : Binary64)
  | infinite (negative : Bool)
  | notANumber
deriving DecidableEq, Repr, Inhabited

/-- What a number stands for when it is compared. -/
inductive Quantity where
  | fraction (num : Int) (den : Nat)
  | infinite (negative : Bool)
  | undefined
deriving DecidableEq, Repr, Inhabited

namespace Quantity

/-- Order of two quantities, fractions having positive denominators. What is undefined is neither
less than anything, nor equal to it, nor greater. -/
def compare? : Quantity → Quantity → Option Ordering
  | undefined, _ => none
  | _, undefined => none
  | fraction a b, fraction c d => some (compare (a * d) (c * b))
  | fraction _ _, infinite negative => some (if negative then .gt else .lt)
  | infinite negative, fraction _ _ => some (if negative then .lt else .gt)
  | infinite a, infinite b => some (compare b a)

end Quantity

namespace Binary64

/-- Exponent of the finest grid. -/
def leastExponent : Int := -1074

/-- Exponent of the coarsest grid. -/
def greatestExponent : Int := 971

/-- Bits of a full significand. -/
def precision : Nat := 53

def zero (negative : Bool) : Binary64 := ⟨negative, 0, leastExponent⟩

/-- The exact value as a fraction. -/
def ratio (x : Binary64) : Int × Nat :=
  let n : Int := if x.negative then -x.significand else x.significand
  if 0 ≤ x.exponent then (n * (Nat.pow 2 x.exponent.toNat : Nat), 1) else (n, Nat.pow 2 (-x.exponent).toNat)

def isZero (x : Binary64) : Bool := x.significand == 0

@[simp] theorem isZero_zero (b : Bool) : (zero b).isZero = true := rfl

end Binary64

namespace Double

open Binary64

/-- Quotient rounded to the nearest integer, a half going to the even neighbour. -/
def roundDiv (num den : Nat) : Nat :=
  if 2 * (num % den) < den ∨ (2 * (num % den) = den ∧ num / den % 2 = 0) then num / den
  else num / den + 1

/-- The fraction `num / den` divided by `base ^ e`. -/
def shift (base num den : Nat) (e : Int) : Nat × Nat :=
  if 0 ≤ e then (num, den * Nat.pow base e.toNat) else (num * Nat.pow base (-e).toNat, den)

/-- The double with the given parts, an infinity if the exponent is out of range. -/
def ofParts (negative : Bool) (significand : Nat) (exponent : Int) : Double :=
  if greatestExponent < exponent then infinite negative else finite ⟨negative, significand, exponent⟩

/-- The double nearest to `num / den`. -/
def nearest (negative : Bool) (num den : Nat) : Double :=
  if num = 0 then finite (zero negative) else
  let guess : Int := (num.log2 : Int) - den.log2
  let (a, b) := shift 2 num den guess
  let top := if b ≤ a then guess else guess - 1
  let e := max (top - (precision - 1 : Nat)) leastExponent
  let (a, b) := shift 2 num den e
  let m := roundDiv a b
  if m = Nat.pow 2 precision then ofParts negative (Nat.pow 2 (precision - 1)) (e + 1)
  else ofParts negative m e

/-- Decimal exponents beyond this bound are outside the range of doubles. -/
def decimalReach : Int := 400

/-- The double nearest to `± digits * 10 ^ e`. -/
def ofDecimal (negative : Bool) (digits : Nat) (e : Int) : Double :=
  let width : Int := (Nat.toDigits 10 digits).length
  if digits = 0 ∨ width + e < -decimalReach then finite (zero negative)
  else
    let (den, num) := shift 10 1 digits (min e (decimalReach - width))
    nearest negative num den

def quantity : Double → Quantity
  | finite x => .fraction x.ratio.1 x.ratio.2
  | infinite negative => .infinite negative
  | notANumber => .undefined

def isZero : Double → Bool
  | finite x => x.isZero
  | _ => false

end Double

end RuleWalk
