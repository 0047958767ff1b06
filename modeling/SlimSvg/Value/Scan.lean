import SlimSvg.Text.Space
import SlimSvg.Number.Written

namespace SlimSvg
namespace Value

/-!
# Numbers inside longer values

A number at the front of a text is cut off by a grammar that is a little wider
than that of numbers: the text is cut first and read afterwards, so a cut piece
that is no number, or one without a finite value, makes the scan fail.  An `e`
begins an exponent unless the unit `em` or `ex` follows.
-/

open Number

/-- The text without blanks at its front. -/
def skipSpaces (cs : List Char) : List Char :=
  cs.dropWhile Text.isXmlSpace

/-- The exponent at the front of a text, possibly empty, and what follows it. -/
def splitExponent? : List Char → Option (List Char × List Char)
  | [] => some ([], [])
  | c :: rest =>
    if c == 'e' || c == 'E' then
      match rest with
      | [] => none
      | d :: after =>
        if d == 'm' || d == 'x' then some ([], c :: rest)
        else if d == '+' || d == '-' then
          some (c :: d :: after.takeWhile Char.isDigit, after.dropWhile Char.isDigit)
        else if d.isDigit then
          some (c :: rest.takeWhile Char.isDigit, rest.dropWhile Char.isDigit)
        else none
    else some ([], c :: rest)

/-- The sign at the front of a text, possibly empty, and what follows it. -/
def splitSign : List Char → List Char × List Char
  | '+' :: rest => (['+'], rest)
  | '-' :: rest => (['-'], rest)
  | cs => ([], cs)

/-- The point with its digits at the front of a text, and what follows them. -/
def splitFraction : List Char → List Char × List Char
  | '.' :: rest => ('.' :: rest.takeWhile Char.isDigit, rest.dropWhile Char.isDigit)
  | cs => ([], cs)

/-- The text of a number at the front, and what follows it. -/
def splitNumber? (cs : List Char) : Option (List Char × List Char) :=
  let (sign, body) := splitSign cs
  if (body.head?.map isNumberChar).getD false then
    let whole := body.takeWhile Char.isDigit
    let (fraction, rest) := splitFraction (body.dropWhile Char.isDigit)
    (splitExponent? rest).map fun (exponent, rest) =>
      (sign ++ whole ++ fraction ++ exponent, rest)
  else none

/-- The finite number at the front of a text, after blanks. -/
def scanNumber? (cs : List Char) : Option (Binary × List Char) := do
  let (lexeme, rest) ← splitNumber? (skipSpaces cs)
  let decimal ← Decimal.read? lexeme
  let number := decimal.toBinary double
  if number.isFinite then some (number, rest) else none

/-- Blanks and at most one comma. -/
def skipSeparator (cs : List Char) : List Char :=
  match skipSpaces cs with
  | ',' :: rest => rest
  | rest => rest

/-- A number with the separator behind it. -/
def scanListNumber? (cs : List Char) : Option (Binary × List Char) :=
  (scanNumber? cs).map fun (number, rest) => (number, skipSeparator rest)

/-- So many numbers with their separators. -/
def scanListNumbers? : Nat → List Char → Option (List Binary × List Char)
  | 0, cs => some ([], cs)
  | n + 1, cs => do
    let (number, rest) ← scanListNumber? cs
    let (numbers, rest) ← scanListNumbers? n rest
    some (number :: numbers, rest)

end Value
end SlimSvg
