import SlimSvg.Xml.Cursor

namespace SlimSvg
namespace Xml

/-!
# Pieces of character data

The text between two tags and the value of an attribute are sequences of
characters and references.  Cutting them into pieces comes first; what a piece
stands for depends on where it stands.  A reference that cannot be read ends the
sequence, so the pieces before it still have their effects.
-/

inductive Piece where
  /-- A character that stands for itself. -/
  | char (c : Char)
  /-- A reference to a character, with its place. -/
  | charReference (c : Char) (start : Nat)
  /-- A reference to an entity, with its place and the place behind it. -/
  | entity (name : String) (start after : Nat)
  /-- An ampersand that begins no reference. -/
  | malformed (start : Nat)
deriving DecidableEq, Repr

namespace Piece

/-- What a reference refers to. -/
inductive Target where
  | char (c : Char)
  | entity (name : String)
deriving DecidableEq, Repr

/-- The value of a digit in any base up to sixteen. -/
def digitValue (c : Char) : Nat :=
  if c.isDigit then c.toNat - '0'.toNat else c.toLower.toNat - 'a'.toNat + 10

def isHexDigit (c : Char) : Bool :=
  c.isDigit || ('a' ≤ c.toLower && c.toLower ≤ 'f')

/-- The character with a code point.  A surrogate is replaced. -/
def charOfCode (n : Nat) : Char :=
  if n.isValidChar then Char.ofNat n else '\uFFFD'

/-- The character that some digits refer to. -/
def charOfDigits? (base : Nat) (digits : List Char) : Option Char :=
  let n := digits.foldl (fun n d => n * base + digitValue d) 0
  if digits.isEmpty || Nat.pow 2 32 ≤ n then none
  else
    let c := charOfCode n
    if isXmlChar c then some c else none

/-- The character that is known by a name without a declaration. -/
def namedChar? (name : String) : Option Char :=
  match name with
  | "quot" => some '"'
  | "amp" => some '&'
  | "apos" => some '\''
  | "lt" => some '<'
  | "gt" => some '>'
  | _ => none

/-- What stands between an ampersand and a semicolon. -/
def targetOf? : List Char → Option Target
  | '#' :: 'x' :: digits =>
    if digits.all isHexDigit then (charOfDigits? 16 digits).map .char else none
  | '#' :: digits =>
    if digits.all Char.isDigit then (charOfDigits? 10 digits).map .char else none
  | [] => none
  | c :: cs =>
    if isNameStart c && cs.all isNameChar then
      let name := String.ofList (c :: cs)
      match namedChar? name with
      | some c => some (.char c)
      | none => some (.entity name)
    else none

/-- Cut a text with a place into pieces. -/
def cut (offset : Nat) : List Char → List Piece
  | [] => []
  | '&' :: rest =>
    let body := rest.takeWhile (· != ';')
    let after := offset + body.length + 2
    match rest.dropWhile (· != ';') with
    | [] => [malformed offset]
    | _ :: _ =>
      match targetOf? body with
      | none => [malformed offset]
      | some (.char c) => charReference c offset :: cut after (rest.drop (body.length + 1))
      | some (.entity name) => entity name offset after :: cut after (rest.drop (body.length + 1))
  | c :: rest => char c :: cut (offset + 1) rest
termination_by cs => cs.length
decreasing_by
  all_goals simp only [List.length_drop, List.length_cons]
  all_goals omega

end Piece

/-! ## Line ends -/

/-- Add a character to a text that is held from its end.  A carriage return
becomes a line feed, together with a line feed behind it if there is one; this
is known when the next character comes, or at once at the end of the text. -/
def pushNormalized (isLast : Bool) (c : Char) (buffer : List Char) : List Char :=
  match buffer with
  | '\r' :: before =>
    if isLast && c == '\r' then '\n' :: '\n' :: before
    else if c == '\n' then '\n' :: before
    else c :: '\n' :: before
  | buffer => (if isLast && c == '\r' then '\n' else c) :: buffer

/-- A text without references in which all lines end in line feeds. -/
def normalizeLineEnds (cs : List Char) : List Char :=
  go [] cs
where
  go (buffer : List Char) : List Char → List Char
    | [] => buffer.reverse
    | c :: rest => go (pushNormalized rest.isEmpty c buffer) rest

/-! ## Entities -/

/-- The declared entities; of two with one name the first counts. -/
abbrev Entities := List (String × Cursor)

/-- How deep references may stand in the texts of entities. -/
def entityDepth : Nat := 10

/-- How many references may stand in the texts of entities below one reference. -/
def entityReferences : Nat := 255

/-! ## Attribute values -/

/-- All blanks of an attribute value are spaces. -/
def attributeBlank (c : Char) : Char :=
  if c == '\n' || c == '\r' || c == '\t' then ' ' else c

/-- What pieces stand for in an attribute, with the number of references that
were counted so far.  `expand` reads the text of an entity. -/
def attributeChars (entities : Entities) (inEntity : Bool)
    (expand : (after : Nat) → Cursor → Nat → Except Fault (List Char × Nat)) :
    List Piece → Nat → Except Fault (List Char × Nat)
  | [], count => .ok ([], count)
  | .char c :: rest, count => do
    let (text, count) ← attributeChars entities inEntity expand rest count
    if c == '\r' && rest.head? == some (.char '\n') then return (text, count)
    else return (attributeBlank c :: text, count)
  | .charReference c start :: rest, count => do
    if inEntity && c == '<' then throw ⟨.lessInAttribute, start⟩
    let (text, count) ← attributeChars entities inEntity expand rest count
    return ((if inEntity then attributeBlank c else c) :: text, count)
  | .entity name start after :: rest, count => do
    match entities.lookup name with
    | none => throw ⟨.unknownEntity name, start⟩
    | some cursor =>
      if inEntity && count == entityReferences then throw ⟨.entityLoop, after⟩
      let (inner, count) ← expand after cursor (if inEntity then count + 1 else count)
      let (text, count) ←
        attributeChars entities inEntity expand rest (if inEntity then count else 0)
      return (inner ++ text, count)
  | .malformed start :: _, _ => .error ⟨.malformedReference, start⟩

/-- The text of an entity inside of an attribute, at most so many levels deep. -/
def expandAttribute (entities : Entities) :
    Nat → (after : Nat) → Cursor → Nat → Except Fault (List Char × Nat)
  | 0, after, _, _ => .error ⟨.entityLoop, after⟩
  | levels + 1, _, cursor, count =>
    attributeChars entities true (expandAttribute entities levels)
      (Piece.cut cursor.offset cursor.rest) count

end Xml
end SlimSvg
