import SlimSvg.Number.Decimal

namespace SlimSvg
namespace Number

/-!
# The shortest decimal of a binary number

Of all decimals that read back to a value, the one with the fewest digits is
written, and of several with as few digits the one nearest to the value; between
two equally near ones the greater is taken.  The search walks the decimal grids
from coarse to fine and asks the reader itself whether a point reads back, so
the answer reads back by construction; the exact expansion of the value, which
always reads back, ends the search.
-/

/-- The exact expansion of `mantissa · 2 ^ exponent`: a half is five tenths. -/
def exactDecimal (mantissa : Nat) (exponent : Int) : Nat × Int :=
  if 0 ≤ exponent then (mantissa * Nat.pow 2 exponent.toNat, 0)
  else (mantissa * Nat.pow 5 (-exponent).toNat, exponent)

/-- The number of digits before the point of `num / den`; the fraction is at
least one tenth of `10 ^ order` and below `10 ^ order`. -/
def decimalOrder (num den : Nat) : Int :=
  if den ≤ num then ((digitsOf (num / den)).length : Int)
  else 1 - ((digitsOf (den / num)).length : Int) +
    (if num * Nat.pow 10 ((digitsOf (den / num)).length - 1) < den then 0 else 1)

/-- The point of the grid `10 ^ unit` that stands for `num / den`, if one of
the two neighbours of the fraction on the grid reads back to the value. -/
def gridPoint? (p : Precision) (target : Binary) (num den : Nat) (unit : Int) : Option Nat :=
  let (n, d) :=
    if 0 ≤ unit then (num, den * Nat.pow 10 unit.toNat) else (num * Nat.pow 10 (-unit).toNat, den)
  let low := n / d
  let readsBack (k : Nat) : Bool := (Decimal.mk false k unit).toBinary p == target
  match readsBack low, readsBack (low + 1) with
  | true, true => some (if 2 * (n % d) < d then low else low + 1)
  | true, false => some low
  | false, true => some (low + 1)
  | false, false => none

/-- The first grid with a point that reads back, from a number of digits upward. -/
def searchGrids (p : Precision) (target : Binary) (num den : Nat) (order : Int) (exact : Nat × Int) :
    (remaining digits : Nat) → Nat × Int
  | 0, _ => exact
  | remaining + 1, digits =>
    let unit := order - (digits : Int)
    match gridPoint? p target num den unit with
    | some k => (k, unit)
    | none => searchGrids p target num den order exact remaining (digits + 1)

/-- The same decimal without zeros at its end. -/
def dropZeros (digits : Nat) (exponent : Int) : Nat × Int :=
  if h : digits = 0 then (0, 0)
  else if digits % 10 = 0 then dropZeros (digits / 10) (exponent + 1)
  else (digits, exponent)
termination_by digits
decreasing_by omega

/-- The most digits that a value of 53 significant bits can need. -/
def maxDigits : Nat := 17

/-- Digits and exponent of the shortest decimal of the positive value
`mantissa · 2 ^ exponent`. -/
def shortestDigits (p : Precision) (mantissa : Nat) (exponent : Int) : Nat × Int :=
  let (num, den) := asRatio mantissa exponent
  let (digits, unit) :=
    searchGrids p (Binary.finite false mantissa exponent) num den (decimalOrder num den)
      (exactDecimal mantissa exponent) maxDigits 1
  dropZeros digits unit

end Number
end SlimSvg
