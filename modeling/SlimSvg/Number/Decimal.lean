import SlimSvg.Number.Binary
import SlimSvg.Text.LowerCase

namespace SlimSvg
namespace Number

/-!
# Decimal text

A decimal is what the digits of a number say, before any rounding.  Reading a
number is reading a decimal and taking the nearest binary value; the order of
magnitude is looked at first, so that a huge exponent is never expanded.
-/

/-- The value `± digits · 10 ^ exponent`. -/
structure Decimal where
  negative : Bool
  digits : Nat
  exponent : Int
deriving DecidableEq, Repr, Inhabited

/-- The decimal digits of a number, the most significant first. -/
def digitsOf (n : Nat) : List Char :=
  Nat.toDigits 10 n

/-- The value of a row of digits. -/
def digitsValue (ds : List Char) : Nat :=
  ds.foldl (fun n d => 10 * n + (d.toNat - '0'.toNat)) 0

namespace Decimal

/-- The nearest binary value.  A decimal with `k` digits before its point is at
least `8 ^ (k - 1)`, and one with `k` zeros behind its point is below `8 ^ (-k)`. -/
def toBinary (p : Precision) (d : Decimal) : Binary :=
  if d.digits = 0 then Binary.zero d.negative
  else
    let order : Int := ((digitsOf d.digits).length : Int) + d.exponent
    if 1 < order ∧ p.top ≤ 3 * (order - 1) then Binary.infinite d.negative
    else if order < 0 ∧ 3 * order < p.least then Binary.zero d.negative
    else if 0 ≤ d.exponent then
      Binary.ofRatio p d.negative (d.digits * Nat.pow 10 d.exponent.toNat) 1
    else Binary.ofRatio p d.negative d.digits (Nat.pow 10 (-d.exponent).toNat)

/-- A sign in front of a number, and what follows it. -/
def splitSign : List Char → Bool × List Char
  | '-' :: rest => (true, rest)
  | '+' :: rest => (false, rest)
  | cs => (false, cs)

/-- The exponent of a number, given what follows its mantissa. -/
def readExponent? : List Char → Option Int
  | [] => some 0
  | c :: rest =>
    if c == 'e' || c == 'E' then
      let (negative, ds) := splitSign rest
      if ds.isEmpty || !ds.all Char.isDigit then none
      else some (if negative then -(digitsValue ds : Int) else digitsValue ds)
    else none

/-- Read an optional sign, digits with at most one point among or around them,
and an optional exponent. -/
def read? (cs : List Char) : Option Decimal :=
  let (negative, body) := splitSign cs
  let whole := body.takeWhile Char.isDigit
  let (fraction, rest) :=
    match body.dropWhile Char.isDigit with
    | '.' :: after => (after.takeWhile Char.isDigit, after.dropWhile Char.isDigit)
    | rest => ([], rest)
  if whole.isEmpty && fraction.isEmpty then none
  else
    (readExponent? rest).map fun exponent =>
      ⟨negative, digitsValue (whole ++ fraction), exponent - (fraction.length : Int)⟩

end Decimal

/-- Read a number with 53 significant bits: a decimal, or one of the words
`inf`, `infinity` and `nan` in any case after an optional sign. -/
def Binary.read? (s : String) : Option Binary :=
  match Decimal.read? s.toList with
  | some d => some (d.toBinary double)
  | none =>
    let (negative, word) := Decimal.splitSign s.toList
    let word := Text.toAsciiLower (String.ofList word)
    if word == "inf" || word == "infinity" then some (Binary.infinite negative)
    else if word == "nan" then some Binary.nan
    else none

end Number
end SlimSvg
