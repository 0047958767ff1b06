import SlimSvg.Value.Cached
import SlimSvg.Value.Scan

namespace SlimSvg

/-!
# Numbers, fractions and lengths

The four value types that are one number: a plain number, a number that may be a
percentage, a number between zero and one, and a number with a unit.  They share
the reader of a number with a unit and differ in which units they accept and
what they keep of them.
-/

open Number

/-- The units of a length. -/
inductive LengthUnit where
  | none | em | ex | px | inch | cm | mm | pt | pc | percent
deriving DecidableEq, Repr

namespace LengthUnit

def suffix : LengthUnit → String
  | none => ""
  | em => "em"
  | ex => "ex"
  | px => "px"
  | inch => "in"
  | cm => "cm"
  | mm => "mm"
  | pt => "pt"
  | pc => "pc"
  | percent => "%"

def all : List LengthUnit :=
  [none, em, ex, px, inch, cm, mm, pt, pc, percent]

/-- The unit with exactly this spelling. -/
def ofSuffix? (suffix : String) : Option LengthUnit :=
  all.find? fun unit => unit.suffix == suffix

end LengthUnit

/-- A number with a unit. -/
structure Length where
  number : Binary
  unit : LengthUnit
deriving DecidableEq, Repr

namespace Length

/-- Read a number and the unit directly behind it; nothing may follow. -/
def readExact? (s : String) : Option Length := do
  let (number, rest) ← Value.scanNumber? s.toList
  let unit ← LengthUnit.ofSuffix? (String.ofList rest)
  some ⟨number, unit⟩

/-- Whether the length is zero in any unit. -/
def isZero (l : Length) : Bool :=
  l.number.isZero

/-- A zero needs no unit, except that zero percent is not a plain zero. -/
def write (l : Length) : String :=
  if l.isZero && l.unit != .percent then l.number.compact
  else l.number.compact ++ l.unit.suffix

instance : TextForm Length where
  read? s := readExact? (Text.trim s)
  write := write

end Length

/-- A number without a unit. -/
structure Numeral where
  number : Binary
deriving DecidableEq, Repr

namespace Numeral

def read? (s : String) : Option Numeral := do
  let (number, rest) ← Value.scanNumber? s.toList
  if (Value.skipSpaces rest).isEmpty then some ⟨number⟩ else none

instance : TextForm Numeral where
  read? := read?
  write n := n.number.compact

end Numeral

/-- A number that may be a percentage. -/
structure Percentage where
  number : Binary
  isPercent : Bool
deriving DecidableEq, Repr

namespace Percentage

def read? (s : String) : Option Percentage := do
  let length ← Length.readExact? s
  match length.unit with
  | .none => some ⟨length.number, false⟩
  | .percent => some ⟨length.number, true⟩
  | _ => none

def write (p : Percentage) : String :=
  if p.isPercent then p.number.compact ++ "%" else p.number.compact

instance : TextForm Percentage where
  read? := read?
  write := write

end Percentage

/-- A number between zero and one. -/
structure Fraction where
  number : Binary
deriving DecidableEq, Repr

namespace Fraction

def one : Binary := Binary.ofNat double 1
def hundred : Binary := Binary.ofNat double 100

/-- A percentage is divided by one hundred, and what lies outside of the unit
interval moves to its nearer end. -/
def ofPercentage (p : Percentage) : Fraction :=
  let n := if p.isPercent then Binary.div double p.number hundred else p.number
  ⟨n.clamp (Binary.zero false) one⟩

instance : TextForm Fraction where
  read? s := (Percentage.read? s).map ofPercentage
  write f := f.number.compact

end Fraction

end SlimSvg
