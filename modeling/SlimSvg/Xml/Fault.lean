import SlimSvg.Text.Quoted

namespace SlimSvg
namespace Xml

/-!
# What can be wrong with a document

Each reason for refusing a text is a constructor, so that a statement about
refusals names the rule that is broken.  The wording is kept apart in
`FaultCause.message`.
-/

/-! ## Positions

A reader counts the characters that it has passed.  People count lines and
columns; a position in their terms is computed only when it is shown.
-/

/-- A line and a column, both counted from one. -/
structure Position where
  line : Nat
  column : Nat
deriving DecidableEq, Repr

namespace Position

def start : Position := ⟨1, 1⟩

/-- The position behind one more character. -/
def advance (p : Position) (c : Char) : Position :=
  if c == '\n' then ⟨p.line + 1, 1⟩ else ⟨p.line, p.column + 1⟩

/-- The position behind so many characters of a text. -/
def ofOffset (text : List Char) (offset : Nat) : Position :=
  (text.take offset).foldl advance start

/-- A position as it stands in messages. -/
def write (p : Position) : String :=
  toString p.line ++ ":" ++ toString p.column

end Position

/-! ## Reasons -/

inductive FaultCause where
  /-- The text has no element at all. -/
  | noRoot
  /-- The text ends before the first element does. -/
  | unclosedRoot
  /-- The text ends inside of a tag or a declaration. -/
  | endOfText
  | closeTag (expected actual : String)
  /-- An entity closes an element that it did not open. -/
  | closeTagInEntity
  /-- No element is open where one is closed, since an entity closed the last one. -/
  | nothingToClose
  | invalidName
  | unknownToken
  /-- Another character is required. -/
  | expectedChar (expected actual : Char)
  /-- Something described in words is required. -/
  | expectedWords (words : String) (actual : Char)
  | expectedText (text : String)
  | duplicateAttribute (name : String)
  | duplicateNamespace (name : String)
  | unknownNamespace (pre : String)
  /-- An element has the prefix of namespace declarations. -/
  | reservedElementPrefix
  /-- The namespace of namespace declarations is declared. -/
  | reservedNamespace
  /-- The prefix `xml` is bound to another namespace. -/
  | xmlPrefixRebound
  /-- The namespace of `xml` is bound to another prefix. -/
  | xmlNamespaceRebound
  | unknownEntity (name : String)
  | malformedReference
  | entityLoop
  /-- A reference inside of an entity puts the start of a tag into an attribute. -/
  | lessInAttribute
  | invalidComment
  /-- The end of a character data section stands in a text. -/
  | sectionEndInText
  | invalidChar (c : Char)
  | misplacedDeclaration
  | invalidExternalId
deriving DecidableEq, Repr

/-- A reason with the place at which it was found, given by the number of
characters before it. -/
structure Fault where
  cause : FaultCause
  offset : Nat
deriving DecidableEq, Repr

namespace FaultCause

/-- A character beyond ASCII is shown by the first byte of its encoding. -/
def shownByte (c : Char) : Char :=
  match (String.singleton c).toUTF8.toList with
  | b :: _ => Char.ofNat b.toNat
  | [] => c

def quotedByte (c : Char) : String :=
  "'" ++ String.singleton (shownByte c) ++ "'"

/-- The words for a reason at a position. -/
def message (cause : FaultCause) (p : Position) : String :=
  let place := " at " ++ p.write
  match cause with
  | noRoot => "the document does not have a root node"
  | unclosedRoot => "the root node was opened but never closed"
  | endOfText => "unexpected end of stream"
  | closeTag expected actual => "expected '" ++ expected ++ "' tag, not '" ++ actual ++ "'" ++ place
  | closeTagInEntity => "unexpected close tag" ++ place
  | nothingToClose => "no element is open at the close tag" ++ place
  | invalidName => "invalid name token" ++ place
  | unknownToken => "unknown token" ++ place
  | expectedChar expected actual =>
    "expected " ++ quotedByte expected ++ " not " ++ quotedByte actual ++ place
  | expectedWords words actual => "expected " ++ words ++ " not " ++ quotedByte actual ++ place
  | expectedText text => "expected '" ++ text ++ "'" ++ place
  | duplicateAttribute name => "attribute '" ++ name ++ "'" ++ place ++ " is already defined"
  | duplicateNamespace name => "namespace '" ++ name ++ "'" ++ place ++ " is already defined"
  | unknownNamespace pre => "an unknown namespace prefix '" ++ pre ++ "'" ++ place
  | reservedElementPrefix => "the 'xmlns' prefix is used" ++ place ++ ", but it must not be"
  | reservedNamespace => "the 'xmlns' URI is used" ++ place ++ ", but it must not be declared"
  | xmlPrefixRebound => "'xml' namespace prefix mapped to wrong URI" ++ place
  | xmlNamespaceRebound => "the 'xml' namespace URI is used for not 'xml' prefix" ++ place
  | unknownEntity name => "unknown entity reference '" ++ name ++ "'" ++ place
  | malformedReference => "malformed entity reference" ++ place
  | entityLoop => "a possible entity reference loop is detected" ++ place
  | lessInAttribute => "unescaped '<' found" ++ place
  | invalidComment => "comment" ++ place ++ " contains '--'"
  | sectionEndInText => "']]>'" ++ place ++ " is not allowed inside a character data"
  | invalidChar c => "a non-XML character " ++ Text.quotedChar c ++ " found" ++ place
  | misplacedDeclaration => "unexpected XML declaration" ++ place
  | invalidExternalId => "invalid ExternalID" ++ place

/-- Whether a reason has no place of its own. -/
def isGlobal : FaultCause → Bool
  | noRoot | unclosedRoot | endOfText => true
  | _ => false

end FaultCause

namespace Fault

/-- The place of a fault in a text. -/
def position (fault : Fault) (text : List Char) : Position :=
  if fault.cause.isGlobal then .start else .ofOffset text fault.offset

/-- What is said about a fault in a text. -/
def message (fault : Fault) (text : List Char) : String :=
  fault.cause.message (fault.position text)

end Fault

end Xml
end SlimSvg
