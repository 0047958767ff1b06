import SlimSvg.Value.Cached
import SlimSvg.Value.Scan

namespace SlimSvg

/-!
# Path data

Path data is a list of segments, each with the letter of its command.  The
grammar lets a letter be left out when it repeats and reads the numbers after a
move as lines; the segments are what remains when both habits are undone, and
they are kept as written, absolute or relative.
-/

open Number

/-- The ten commands of a path. -/
inductive PathCommand where
  | move | line | horizontal | vertical | curve | smoothCurve
  | quadratic | smoothQuadratic | arc | close
deriving DecidableEq, Repr

namespace PathCommand

/-- The letter of the relative form. -/
def letter : PathCommand → Char
  | move => 'm'
  | line => 'l'
  | horizontal => 'h'
  | vertical => 'v'
  | curve => 'c'
  | smoothCurve => 's'
  | quadratic => 'q'
  | smoothQuadratic => 't'
  | arc => 'a'
  | close => 'z'

def all : List PathCommand :=
  [move, line, horizontal, vertical, curve, smoothCurve, quadratic, smoothQuadratic, arc, close]

/-- The command of a letter, and whether the letter is the absolute form. -/
def ofLetter? (c : Char) : Option (PathCommand × Bool) :=
  (all.find? fun command => command.letter == c.toLower).map fun command => (command, c.isUpper)

end PathCommand

/-- What a segment draws; the fields are the arguments in written order. -/
inductive PathAction where
  | move (x y : Binary)
  | line (x y : Binary)
  | horizontal (x : Binary)
  | vertical (y : Binary)
  | curve (x₁ y₁ x₂ y₂ x y : Binary)
  | smoothCurve (x₂ y₂ x y : Binary)
  | quadratic (x₁ y₁ x y : Binary)
  | smoothQuadratic (x y : Binary)
  | arc (rx ry rotation : Binary) (large sweep : Bool) (x y : Binary)
  | close
deriving DecidableEq, Repr

namespace PathAction

def command : PathAction → PathCommand
  | move .. => .move
  | line .. => .line
  | horizontal .. => .horizontal
  | vertical .. => .vertical
  | curve .. => .curve
  | smoothCurve .. => .smoothCurve
  | quadratic .. => .quadratic
  | smoothQuadratic .. => .smoothQuadratic
  | arc .. => .arc
  | close => .close

/-- A flag as the number that is written for it. -/
def flag (b : Bool) : Binary :=
  if b then .finite false 1 0 else .finite false 0 0

/-- The arguments as they are written. -/
def arguments : PathAction → List Binary
  | move x y => [x, y]
  | line x y => [x, y]
  | horizontal x => [x]
  | vertical y => [y]
  | curve x₁ y₁ x₂ y₂ x y => [x₁, y₁, x₂, y₂, x, y]
  | smoothCurve x₂ y₂ x y => [x₂, y₂, x, y]
  | quadratic x₁ y₁ x y => [x₁, y₁, x, y]
  | smoothQuadratic x y => [x, y]
  | arc rx ry rotation large sweep x y => [rx, ry, rotation, flag large, flag sweep, x, y]
  | close => []

end PathAction

/-- A segment in its absolute or relative form. -/
structure PathSegment where
  absolute : Bool
  action : PathAction
deriving DecidableEq, Repr

namespace PathSegment

/-- The letter of the segment's command. -/
def letter (s : PathSegment) : Char :=
  if s.absolute then s.action.command.letter.toUpper else s.action.command.letter

end PathSegment

structure PathData where
  segments : List PathSegment
deriving DecidableEq, Repr

namespace PathData

/-! ## Reading -/

/-- A flag with at most one comma directly behind it. -/
def scanFlag? (cs : List Char) : Option (Bool × List Char) :=
  let after (rest : List Char) : List Char :=
    match rest with
    | ',' :: rest => Value.skipSpaces rest
    | rest => Value.skipSpaces rest
  match Value.skipSpaces cs with
  | '0' :: rest => some (false, after rest)
  | '1' :: rest => some (true, after rest)
  | _ => none

/-- The arguments of a command. -/
def scanAction? (command : PathCommand) (cs : List Char) : Option (PathAction × List Char) :=
  match command with
  | .move => do
    let ([x, y], rest) ← Value.scanListNumbers? 2 cs | none
    some (.move x y, rest)
  | .line => do
    let ([x, y], rest) ← Value.scanListNumbers? 2 cs | none
    some (.line x y, rest)
  | .horizontal => do
    let (x, rest) ← Value.scanListNumber? cs
    some (.horizontal x, rest)
  | .vertical => do
    let (y, rest) ← Value.scanListNumber? cs
    some (.vertical y, rest)
  | .curve => do
    let ([x₁, y₁, x₂, y₂, x, y], rest) ← Value.scanListNumbers? 6 cs | none
    some (.curve x₁ y₁ x₂ y₂ x y, rest)
  | .smoothCurve => do
    let ([x₂, y₂, x, y], rest) ← Value.scanListNumbers? 4 cs | none
    some (.smoothCurve x₂ y₂ x y, rest)
  | .quadratic => do
    let ([x₁, y₁, x, y], rest) ← Value.scanListNumbers? 4 cs | none
    some (.quadratic x₁ y₁ x y, rest)
  | .smoothQuadratic => do
    let ([x, y], rest) ← Value.scanListNumbers? 2 cs | none
    some (.smoothQuadratic x y, rest)
  | .arc => do
    let ([rx, ry, rotation], rest) ← Value.scanListNumbers? 3 cs | none
    let (large, rest) ← scanFlag? rest
    let (sweep, rest) ← scanFlag? rest
    let ([x, y], rest) ← Value.scanListNumbers? 2 rest | none
    some (.arc rx ry rotation large sweep x y, rest)
  | .close => some (.close, cs)

/-- Whether a segment without a letter may begin with this character. -/
def startsNumber (c : Char) : Bool :=
  isNumberChar c || c == '-' || c == '+'

/-- The command of the segment at the front of a text, given the command before
it; then what follows the letter, and the command that the next segment repeats.
A path begins with a move, nothing repeats after the end of a figure, and a
repeated move is a line. -/
def scanCommand? (previous : Option (PathCommand × Bool)) (cs : List Char) :
    Option ((PathCommand × Bool) × (PathCommand × Bool) × List Char) :=
  match cs with
  | [] => none
  | c :: rest =>
    match PathCommand.ofLetter? c, previous with
    | some (command, absolute), none =>
      if command == .move then some ((command, absolute), (command, absolute), rest) else none
    | some (command, absolute), some _ =>
      some ((command, absolute), (command, absolute), rest)
    | none, none => none
    | none, some (command, absolute) =>
      if !startsNumber c then none
      else
        match command with
        | .close => none
        | .move => some ((.line, absolute), (.move, absolute), cs)
        | command => some ((command, absolute), (command, absolute), cs)

/-- The segments of a text, of which every one takes at least one character. -/
def scanSegments? : (bound : Nat) → Option (PathCommand × Bool) → List Char →
    Option (List PathSegment)
  | bound, previous, cs =>
    match Value.skipSpaces cs with
    | [] => some []
    | cs =>
      match bound with
      | 0 => none
      | bound + 1 => do
        let ((command, absolute), again, rest) ← scanCommand? previous cs
        let (action, rest) ← scanAction? command rest
        let segments ← scanSegments? bound (some again) rest
        some (⟨absolute, action⟩ :: segments)

def read? (s : String) : Option PathData :=
  (scanSegments? s.toList.length none s.toList).map PathData.mk

/-! ## Writing -/

/-- Whether the letter of a segment can be left out after another one. -/
def isImplied (previous : Option Char) (letter : Char) : Bool :=
  previous == some letter && letter.toLower != 'm' && letter.toLower != 'z'

/-- The text of segments, given the letter of the one before them and the number
at its end. -/
def writeSegments : (previous : Option Char) → (number : List Char) → List PathSegment → List Char
  | _, _, [] => []
  | previous, number, s :: rest =>
    let implied := isImplied previous s.letter
    let number := if implied then number else []
    let numbers := s.action.arguments
    let last :=
      match numbers.getLast? with
      | some x => x.compactChars
      | none => number
    (if implied then [] else [s.letter]) ++ writeNumbers number numbers
      ++ writeSegments (some s.letter) last rest

def write (d : PathData) : String :=
  String.ofList (writeSegments none [] d.segments)

instance : TextForm PathData where
  read? := read?
  write := write

end PathData

end SlimSvg
