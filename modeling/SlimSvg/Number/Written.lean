import SlimSvg.Number.Shortest
import SlimSvg.Number.Decimal
import SlimSvg.Text.Space

namespace SlimSvg
namespace Number

/-!
# Written numbers

A number is written positionally, never with an exponent.  The plain form keeps
the zero before the point and names the values that are no numbers; the compact
form, used inside attributes, drops that zero and writes `0` for every value
without a finite nonzero size.  In a list two compact numbers are separated only
where the second would otherwise be read as a part of the first.
-/

/-- The digits of `digits · 10 ^ exponent` around their point. -/
def positional (digits : Nat) (exponent : Int) : List Char :=
  let ds := digitsOf digits
  if 0 ≤ exponent then ds ++ List.replicate exponent.toNat '0'
  else
    let places := (-exponent).toNat
    if places < ds.length then
      ds.take (ds.length - places) ++ '.' :: ds.drop (ds.length - places)
    else '0' :: '.' :: (List.replicate (places - ds.length) '0' ++ ds)

/-- The size of a finite value, without its sign. -/
def magnitude (mantissa : Nat) (exponent : Int) : List Char :=
  if mantissa = 0 then ['0']
  else
    let (digits, unit) := shortestDigits double mantissa exponent
    positional digits unit

/-- A sign is written only before negative values. -/
def signed (negative : Bool) (cs : List Char) : List Char :=
  if negative then '-' :: cs else cs

/-- The plain form. -/
def Binary.plain : Binary → String
  | .nan => "NaN"
  | .infinite negative => String.ofList (signed negative ['i', 'n', 'f'])
  | .finite negative m e => String.ofList (signed negative (magnitude m e))

/-- A fraction loses the zero before its point. -/
def dropLeadingZero : List Char → List Char
  | '0' :: '.' :: rest => '.' :: rest
  | cs => cs

/-- The compact form. -/
def Binary.compactChars : Binary → List Char
  | .finite negative m e =>
    if m = 0 then ['0'] else signed negative (dropLeadingZero (magnitude m e))
  | _ => ['0']

/-- The compact form. -/
def Binary.compact (x : Binary) : String :=
  String.ofList x.compactChars

/-! ## Lists of numbers -/

/-- The characters that may stand inside an unsigned number. -/
def isNumberChar (c : Char) : Bool :=
  c.isDigit || c == '.'

/-- Whether a number must be set off from the text before it.  A minus sign
starts a new number by itself, and so does a point when the number before has
one already. -/
def needsBlank (before next : List Char) : Bool :=
  match before.reverse.takeWhile isNumberChar with
  | [] => false
  | number =>
    match next with
    | '-' :: _ => false
    | '.' :: _ => !number.contains '.'
    | _ => true

/-- The text of numbers in a row, after a text that may end with a number.  Only
the end of that text matters, so of each number the next one sees no more than
the number itself. -/
def writeNumbers : (before : List Char) → List Binary → List Char
  | _, [] => []
  | before, x :: rest =>
    let next := x.compactChars
    (if needsBlank before next then ' ' :: next else next) ++ writeNumbers next rest

/-! ## Nothing in any unit

Whether a size or an opacity is zero can be said without knowing its unit.
-/

/-- The letters of units and the percent sign. -/
def isUnitChar (c : Char) : Bool :=
  c.isAlpha || c == '%'

/-- Whether a text is a number equal to zero, with any unit behind it. -/
def isZeroText (s : String) : Bool :=
  let digits := Text.dropSuffix isUnitChar (Text.trimChars s.toList)
  match Binary.read? (String.ofList digits) with
  | some x => x.isZero
  | none => false

end Number
end SlimSvg
