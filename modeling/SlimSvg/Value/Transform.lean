import SlimSvg.Value.Cached
import SlimSvg.Value.Scan

namespace SlimSvg

/-!
# Transform lists

A rotation about a point is read as three steps, a move of the point into the
origin and back around a plain rotation.  Such a group is put together again
after reading, whether it was written as one function or as three, and each
function is written with the fewest arguments.
-/

open Number

/-- One function of a transform list.  A plain rotation has the centre zero. -/
inductive TransformItem where
  | matrix (a b c d e f : Binary)
  | translate (tx ty : Binary)
  | scale (sx sy : Binary)
  | rotate (angle cx cy : Binary)
  | skewX (angle : Binary)
  | skewY (angle : Binary)
deriving DecidableEq, Repr

namespace TransformItem

/-- The name and the arguments that have to be written. -/
def parts : TransformItem → String × List Binary
  | matrix a b c d e f => ("matrix", [a, b, c, d, e, f])
  | translate tx ty => ("translate", if ty.isZero then [tx] else [tx, ty])
  | scale sx sy => ("scale", if sx.eq sy then [sx] else [sx, sy])
  | rotate angle cx cy =>
    ("rotate", if cx.isZero && cy.isZero then [angle] else [angle, cx, cy])
  | skewX angle => ("skewX", [angle])
  | skewY angle => ("skewY", [angle])

def write (item : TransformItem) : List Char :=
  item.parts.1.toList ++ '(' :: writeNumbers [] item.parts.2 ++ [')']

end TransformItem

structure TransformList where
  items : List TransformItem
deriving DecidableEq, Repr

namespace TransformList

/-! ## Reading -/

def isNameChar (c : Char) : Bool :=
  c.isAlphanum || c == '-' || c == '_'

/-- Whether the closing parenthesis is next, after blanks. -/
def atEnd (cs : List Char) : Bool :=
  (Value.skipSpaces cs).head? == some ')'

/-- The arguments of a function, as primitive steps. -/
def scanArguments? (name : String) (cs : List Char) : Option (List TransformItem × List Char) := do
  let zero := Binary.zero false
  if name == "matrix" then
    let ([a, b, c, d, e, f], rest) ← Value.scanListNumbers? 6 cs | none
    some ([.matrix a b c d e f], rest)
  else if name == "translate" then
    let (tx, rest) ← Value.scanListNumber? cs
    if atEnd rest then some ([.translate tx zero], rest)
    else
      let (ty, rest) ← Value.scanListNumber? rest
      some ([.translate tx ty], rest)
  else if name == "scale" then
    let (sx, rest) ← Value.scanListNumber? cs
    if atEnd rest then some ([.scale sx sx], rest)
    else
      let (sy, rest) ← Value.scanListNumber? rest
      some ([.scale sx sy], rest)
  else if name == "rotate" then
    let (angle, rest) ← Value.scanListNumber? cs
    if atEnd rest then some ([.rotate angle zero zero], rest)
    else
      let ([cx, cy], rest) ← Value.scanListNumbers? 2 rest | none
      some ([.translate cx cy, .rotate angle zero zero, .translate cx.neg cy.neg], rest)
  else if name == "skewX" then
    let (angle, rest) ← Value.scanListNumber? cs
    some ([.skewX angle], rest)
  else if name == "skewY" then
    let (angle, rest) ← Value.scanListNumber? cs
    some ([.skewY angle], rest)
  else none

/-- The primitive steps of the function at the front of a text. -/
def scanFunction? (cs : List Char) : Option (List TransformItem × List Char) := do
  let name := String.ofList (cs.takeWhile isNameChar)
  let rest ← ['('].isPrefixOf? (Value.skipSpaces (cs.dropWhile isNameChar))
  let (steps, rest) ← scanArguments? name rest
  let rest ← [')'].isPrefixOf? (Value.skipSpaces rest)
  some (steps, Value.skipSeparator rest)

/-- The primitive steps of a text; every function takes at least one character. -/
def scanSteps? : (bound : Nat) → List Char → Option (List TransformItem)
  | bound, cs =>
    match Value.skipSpaces cs with
    | [] => some []
    | cs =>
      match bound with
      | 0 => none
      | bound + 1 => do
        let (steps, rest) ← scanFunction? cs
        let more ← scanSteps? bound rest
        some (steps ++ more)

/-- Put rotations about a point together again. -/
def collapse : List TransformItem → List TransformItem
  | .translate cx cy :: .rotate angle rx ry :: .translate tx ty :: rest =>
    if rx.isZero && ry.isZero && tx.eq cx.neg && ty.eq cy.neg then
      .rotate angle cx cy :: collapse rest
    else .translate cx cy :: collapse (.rotate angle rx ry :: .translate tx ty :: rest)
  | item :: rest => item :: collapse rest
  | [] => []

/-- The primitive steps behind the items of a list. -/
def steps (items : List TransformItem) : List TransformItem :=
  items.flatMap fun
    | .rotate angle cx cy =>
      if cx.isZero && cy.isZero then [.rotate angle cx cy]
      else
        [.translate cx cy, .rotate angle (Binary.zero false) (Binary.zero false),
          .translate cx.neg cy.neg]
    | item => [item]

def read? (s : String) : Option TransformList :=
  (scanSteps? s.toList.length s.toList).map fun steps => ⟨collapse steps⟩

def write (l : TransformList) : String :=
  String.ofList (l.items.flatMap TransformItem.write)

instance : TextForm TransformList where
  read? := read?
  write := write

end TransformList

end SlimSvg
