import SlimSvg.Xml.Builder

namespace SlimSvg
namespace Xml

/-!
# Comments, instructions and declarations

The parts of a document that are no elements.  Of a document type declaration
only its entities matter, and the comments and instructions inside of it, which
become nodes of the document.
-/

namespace Scan

/-- An attribute as it is written: its name, and its value with the place of the
value. -/
def writtenAttribute : Scan (QName × Cursor) := do
  let name ← qualifiedName
  skipSpaces
  expectChar '='
  skipSpaces
  let quote ← expectQuote
  let start ← offset
  let value ← takeUntil fun rest => rest.head? == some quote || rest.head? == some '<'
  expectChar quote
  return (name, ⟨value, start⟩)

/-! ## The XML declaration -/

/-- Pass the blanks in front of a part of the declaration. -/
def declarationSpaces : Scan Unit := do
  if ← looksAtSpace then skipSpaces
  else if ← looksAt "?>" then return ()
  else if ← atEnd then return ()
  else fail (.expectedWords "a whitespace" (← peek))

/-- Pass the XML declaration. -/
def declaration : Scan Unit := do
  skip 5
  declarationSpaces
  unless ← looksAt "version" do fail (.expectedText "version")
  let _ ← writtenAttribute
  declarationSpaces
  if ← looksAt "encoding" then
    let _ ← writtenAttribute
    declarationSpaces
  if ← looksAt "standalone" then
    let _ ← writtenAttribute
  skipSpaces
  expectText "?>"

/-! ## External identifiers -/

/-- Pass a text between quotation marks. -/
def quotedText : Scan Unit := do
  let quote ← expectQuote
  let _ ← takeWhile (· != quote)
  expectChar quote

/-- Pass the reference to another document, if there is one. -/
def externalId : Scan Bool := do
  let isSystem ← looksAt "SYSTEM"
  let isPublic ← looksAt "PUBLIC"
  if isSystem || isPublic then
    skip 6
    expectSpaces
    quotedText
    if isPublic then
      expectSpaces
      quotedText
    return true
  else return false

/-- The text of an entity; an entity in another document has none. -/
def entityText (isGeneral : Bool) : Scan (Option Cursor) := do
  let c ← peek
  if c == '"' || c == '\'' then
    skip 1
    let start ← offset
    let value ← takeWhile (· != c)
    expectChar c
    return some ⟨value, start⟩
  else if c == 'S' || c == 'P' then
    unless ← externalId do fail .invalidExternalId
    if isGeneral then
      skipSpaces
      if ← looksAt "NDATA" then
        skip 5
        expectSpaces
        let _ ← skipName
    return none
  else fail (.expectedWords "a quote, SYSTEM or PUBLIC" c)

end Scan

namespace Build

/-! ## Comments and instructions -/

/-- Read a comment.  Two hyphens may not stand inside of it. -/
def comment : Build Unit := do
  let start ← Scan.offset
  Scan.skip 4
  let text ← Scan.takeBefore "-->"
  Scan.expectText "-->"
  if Text.hasPiece ['-', '-'] text || text.getLast? == some '-' then
    Scan.failAt start .invalidComment
  modify fun b => b.appendOther (.comment (String.ofList text)) start

/-- Read an instruction. -/
def instruction : Build Unit := do
  if ← Scan.looksAt "<?xml " then Scan.fail .misplacedDeclaration
  let start ← Scan.offset
  Scan.skip 2
  let target ← Scan.name
  Scan.skipSpaces
  let value ← Scan.takeBefore "?>"
  Scan.expectText "?>"
  modify fun b => b.appendOther (.instruction target (String.ofList value)) start

/-- Read comments and instructions with the blanks before them; each takes at
least one character. -/
def miscellaneous : (bound : Nat) → Build Unit
  | 0 => return ()
  | bound + 1 => do
    Scan.skipSpaces
    if ← Scan.looksAt "<!--" then
      comment
      miscellaneous bound
    else if ← Scan.looksAt "<?" then
      instruction
      miscellaneous bound

/-! ## Document type declarations -/

/-- Read the declaration of an entity. -/
def entityDeclaration : Build Unit := do
  Scan.skip 8
  Scan.expectSpaces
  let isParameter ← Scan.looksAt "%"
  if isParameter then
    Scan.skip 1
    Scan.expectSpaces
  let name ← Scan.name
  Scan.expectSpaces
  if let some value ← Scan.entityText !isParameter then
    modify fun b => { b with entities := b.entities ++ [(name, value)] }
  Scan.skipSpaces
  Scan.expectChar '>'

/-- Whether a declaration comes next of which nothing is used. -/
def looksAtUnused : Scan Bool := do
  return (← Scan.looksAt "<!ELEMENT") || (← Scan.looksAt "<!ATTLIST")
    || (← Scan.looksAt "<!NOTATION")

/-- Read the declarations up to the closing bracket; each takes at least one
character. -/
def internalSubset (doctypeStart : Nat) : (bound : Nat) → Build Unit
  | 0 => return ()
  | bound + 1 => do
    if ← Scan.atEnd then return ()
    Scan.skipSpaces
    if ← Scan.looksAt "<!ENTITY" then
      entityDeclaration
      internalSubset doctypeStart bound
    else if ← Scan.looksAt "<!--" then
      comment
      internalSubset doctypeStart bound
    else if ← Scan.looksAt "<?" then
      instruction
      internalSubset doctypeStart bound
    else if ← Scan.looksAt "]" then
      Scan.skip 1
      Scan.skipSpaces
      let c ← Scan.peek
      if c == '>' then Scan.skip 1 else Scan.fail (.expectedWords "'>'" c)
    else if ← looksAtUnused then
      let _ ← Scan.takeWhile (· != '>')
      if ← Scan.atEnd then Scan.failAt doctypeStart .unknownToken
      Scan.skip 1
      internalSubset doctypeStart bound
    else Scan.fail .unknownToken

/-- Read a document type declaration. -/
def doctype : Build Unit := do
  let start ← Scan.offset
  Scan.skip 9
  Scan.expectSpaces
  let _ ← Scan.skipName
  Scan.skipSpaces
  let _ ← Scan.externalId
  Scan.skipSpaces
  let c ← Scan.peek
  if c == '[' then
    Scan.skip 1
    internalSubset start (← Scan.rest).length.succ
  else if c == '>' then Scan.skip 1
  else Scan.fail (.expectedWords "'[' or '>'" c)

end Build

end Xml
end SlimSvg
