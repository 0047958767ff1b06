import SlimSvg.Text.LowerCase
import SlimSvg.Text.Search
import SlimSvg.Xml.Fault

namespace SlimSvg
namespace Xml

/-!
# Reading from the front

A cursor is the part of a text that is still to be read, together with the
number of characters before it.  The text of an entity is read with a cursor of
its own, whose numbers point to the place where the entity was declared.
-/

/-! ## Characters

Which characters may stand in a document, in a name, and at the start of one.
-/

/-- Whether a character may stand in a document. -/
def isXmlChar (c : Char) : Bool :=
  if c.toNat < 0x20 then c == '\t' || c == '\n' || c == '\r'
  else c.toNat != 0xFFFE && c.toNat != 0xFFFF

/-- The characters beyond ASCII that may begin a name. -/
def nameStartRanges : List (Nat × Nat) :=
  [(0xC0, 0xD6), (0xD8, 0xF6), (0xF8, 0x2FF), (0x370, 0x37D), (0x37F, 0x1FFF),
    (0x200C, 0x200D), (0x2070, 0x218F), (0x2C00, 0x2FEF), (0x3001, 0xD7FF),
    (0xF900, 0xFDCF), (0xFDF0, 0xFFFD), (0x10000, 0xEFFFF)]

/-- The characters beyond ASCII that may only go on a name. -/
def nameExtraRanges : List (Nat × Nat) :=
  [(0xB7, 0xB7), (0x300, 0x36F), (0x203F, 0x2040)]

/-- Whether a character may begin a name. -/
def isNameStart (c : Char) : Bool :=
  c.isAlpha || c == ':' || c == '_' || Text.inRanges nameStartRanges c.toNat

/-- Whether a character may go on a name. -/
def isNameChar (c : Char) : Bool :=
  isNameStart c || c.isDigit || c == '-' || c == '.' || Text.inRanges nameExtraRanges c.toNat

/-! ## Cursors -/

structure Cursor where
  rest : List Char
  offset : Nat
deriving DecidableEq, Repr

/-- A step of reading: it moves the cursor or refuses the text. -/
abbrev Scan := StateT Cursor (Except Fault)

namespace Scan

/-! ### Looking and moving -/

/-- The place of the cursor. -/
def offset : Scan Nat := do
  return (← get).offset

/-- The characters to be read. -/
def rest : Scan (List Char) := do
  return (← get).rest

def atEnd : Scan Bool := do
  return (← rest).isEmpty

/-- Refuse the text at some place. -/
def failAt {α : Type} (offset : Nat) (cause : FaultCause) : Scan α :=
  throw ⟨cause, offset⟩

/-- Refuse the text at the cursor. -/
def fail {α : Type} (cause : FaultCause) : Scan α := do
  failAt (← offset) cause

/-- Pass so many characters. -/
def skip (n : Nat) : Scan Unit :=
  modify fun c => ⟨c.rest.drop n, c.offset + n⟩

/-- Whether the rest begins with a text. -/
def looksAt (text : String) : Scan Bool := do
  return text.toList.isPrefixOf (← rest)

/-- The next character; the text may not end here. -/
def peek : Scan Char := do
  match ← rest with
  | c :: _ => return c
  | [] => fail .endOfText

/-- The longest run of characters of a class. -/
def takeWhile (p : Char → Bool) : Scan (List Char) := do
  let run := (← rest).takeWhile p
  skip run.length
  return run

def skipSpaces : Scan Unit := do
  let _ ← takeWhile Text.isXmlSpace

/-- Whether a blank comes next. -/
def looksAtSpace : Scan Bool := do
  return ((← rest).head?.map Text.isXmlSpace).getD false

/-! ### Requiring -/

/-- Pass one character. -/
def expectChar (expected : Char) : Scan Unit := do
  let c ← peek
  if c == expected then skip 1 else fail (.expectedChar expected c)

/-- Pass a text. -/
def expectText (text : String) : Scan Unit := do
  if ← looksAt text then skip text.length else fail (.expectedText text)

/-- Pass at least one blank. -/
def expectSpaces : Scan Unit := do
  let c ← peek
  if Text.isXmlSpace c then skipSpaces else fail (.expectedWords "a whitespace" c)

/-- Pass a quotation mark and tell which one it was. -/
def expectQuote : Scan Char := do
  let c ← peek
  if c == '\'' || c == '"' then
    skip 1
    return c
  else fail (.expectedWords "a quote" c)

/-- The characters before the first place at which the rest of the text has a
property.  A character that may not stand in a document ends them too. -/
def charsUntil (stop : List Char → Bool) : List Char → List Char × Option Char
  | [] => ([], none)
  | c :: cs =>
    if !isXmlChar c then ([], some c)
    else if stop (c :: cs) then ([], none)
    else
      let (run, bad) := charsUntil stop cs
      (c :: run, bad)

/-- Pass the characters before the first place at which the rest of the text has
a property. -/
def takeUntil (stop : List Char → Bool) : Scan (List Char) := do
  let (run, bad) := charsUntil stop (← rest)
  skip run.length
  match bad with
  | some c => fail (.invalidChar c)
  | none => return run

/-- Pass the characters before a text, or all of them. -/
def takeBefore (text : String) : Scan (List Char) :=
  takeUntil fun rest => text.toList.isPrefixOf rest

/-! ### Names -/

/-- Pass a name; at the end of the text the name is empty. -/
def skipName : Scan (List Char) := do
  match ← rest with
  | [] => return []
  | c :: _ => if isNameStart c then takeWhile isNameChar else fail .invalidName

/-- Pass a name. -/
def name : Scan String := do
  let start ← offset
  let run ← skipName
  if run.isEmpty then failAt start .invalidName else return String.ofList run

/-- A name with the prefix before its colon; without a colon the prefix is empty. -/
structure QName where
  pre : String
  localName : String
deriving DecidableEq, Repr

/-- The name as it is written. -/
def QName.write (q : QName) : String :=
  if q.pre.isEmpty then q.localName else q.pre ++ ":" ++ q.localName

/-- Pass a name that may have a prefix.  Nothing stands before a leading colon,
and that counts as no prefix. -/
def qualifiedName : Scan QName := do
  let start ← offset
  let run := (← rest).takeWhile isNameChar
  let startsWell (part : List Char) : Bool :=
    match part with
    | [] => true
    | c :: _ => isNameStart c
  let finish (pre localPart : List Char) : Scan QName := do
    skip run.length
    if startsWell pre && startsWell localPart && !localPart.isEmpty then
      return ⟨String.ofList pre, String.ofList localPart⟩
    else failAt start .invalidName
  match Text.splitAt ':' run with
  | [whole] => finish [] whole
  | [pre, localPart] => finish pre localPart
  | _ => failAt start .invalidName

end Scan

end Xml
end SlimSvg
