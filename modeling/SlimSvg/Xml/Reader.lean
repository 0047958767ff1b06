import SlimSvg.Xml.Doctype

namespace SlimSvg
namespace Xml

/-!
# Reading documents

The content of an element is read by one loop that knows how many elements are
open in the text at hand.  The text of an entity is such a text of its own, with
one element open from the start: an end tag that closes it ends the reading of
the entity, wherever it stands.
-/

namespace Build

/-- The pieces at hand stand for characters or for the texts of entities.
`expand` reads the text of an entity; `verbatim` says that the next character
follows a reference and is no part of a line end. -/
def characterData (inEntity : Bool) (expand : (after : Nat) → Cursor → Build Unit)
    (offset : Nat) : List Piece → (verbatim : Bool) → (buffer : List Char) → Build Unit
  | [], _, buffer => flush buffer
  | .char c :: rest, verbatim, buffer =>
    characterData inEntity expand offset rest false
      (if verbatim then c :: buffer else pushNormalized rest.isEmpty c buffer)
  | .charReference c _ :: rest, _, buffer =>
    if inEntity then
      characterData inEntity expand offset rest false (pushNormalized rest.isEmpty c buffer)
    else characterData inEntity expand offset rest true (c :: buffer)
  | .entity name start after :: rest, _, buffer => do
    match (← get).entities.lookup name with
    | none => Scan.failAt start (.unknownEntity name)
    | some cursor =>
      flush buffer
      if inEntity then
        let count := (← get).references
        if count == entityReferences then Scan.failAt after .entityLoop
        modify fun b => { b with references := count + 1 }
      expand after cursor
      unless inEntity do modify fun b => { b with references := 0 }
      characterData inEntity expand offset rest false []
  | .malformed start :: _, _, _ => Scan.failAt start .malformedReference
where
  /-- Add the characters that were collected, if there are any. -/
  flush (buffer : List Char) : Build Unit :=
    unless buffer.isEmpty do modify fun b => b.appendText buffer.reverse offset

/-- Read the text before the next tag. -/
def text (inEntity : Bool) (expand : (after : Nat) → Cursor → Build Unit) : Build Unit := do
  let start ← Scan.offset
  let run ← Scan.takeBefore "<"
  if Text.hasPiece [']', ']', '>'] run then Scan.fail .sectionEndInText
  characterData inEntity expand start (Piece.cut start run) false []

/-- Read a character data section. -/
def characterSection : Build Unit := do
  let start ← Scan.offset
  Scan.skip 9
  let run ← Scan.takeBefore "]]>"
  Scan.expectText "]]>"
  modify fun b => b.appendText (normalizeLineEnds run) start

/-- Read the attributes and the end of a start tag, and tell whether an element
was opened; each attribute takes at least one character. -/
def attributes (levels : Nat) : (bound : Nat) → Build Bool
  | 0 => return false
  | bound + 1 => do
    if ← Scan.atEnd then return false
    let spaced ← Scan.looksAtSpace
    Scan.skipSpaces
    let start ← Scan.offset
    match ← Scan.peek with
    | '/' =>
      Scan.skip 1
      Scan.expectChar '>'
      endTag true
      return false
    | '>' =>
      Scan.skip 1
      endTag false
      return true
    | c =>
      unless spaced do Scan.fail (.expectedWords "a whitespace" c)
      let (name, value) ← Scan.writtenAttribute
      let b ← get
      let inEntity := levels < entityDepth
      let (chars, count) ←
        liftExcept (attributeChars b.entities inEntity (expandAttribute b.entities levels)
          (Piece.cut value.offset value.rest) b.references)
      modify fun b => { b with references := count }
      addAttribute name (String.ofList chars) start
      attributes levels bound
where
  /-- Carry a refusal over. -/
  liftExcept {α : Type} (result : Except Fault α) : Build α :=
    match result with
    | .ok a => return a
    | .error fault => throw fault

/-- Read a start tag, and tell whether an element was opened. -/
def startTag (levels : Nat) : Build Bool := do
  let start ← Scan.offset
  Scan.skip 1
  let name ← Scan.qualifiedName
  beginTag name start
  attributes levels (← Scan.rest).length.succ

/-- Read an end tag. -/
def endTagText : Build Unit := do
  let start ← Scan.offset
  Scan.skip 2
  let name ← Scan.qualifiedName
  Scan.skipSpaces
  Scan.expectChar '>'
  closeTag name start

/-- Read content until so many elements are closed or the text ends; each step
takes at least one character. -/
def content (levels : Nat) (expand : (after : Nat) → Cursor → Build Unit) :
    (bound openCount : Nat) → Build Unit
  | 0, _ => return ()
  | _, 0 => return ()
  | bound + 1, openCount + 1 => do
    match ← Scan.rest with
    | [] => return ()
    | '<' :: '!' :: _ =>
      if ← Scan.looksAt "<!--" then comment
      else if ← Scan.looksAt "<![CDATA[" then characterSection
      else Scan.fail .unknownToken
      content levels expand bound (openCount + 1)
    | '<' :: '?' :: _ =>
      instruction
      content levels expand bound (openCount + 1)
    | '<' :: '/' :: _ =>
      endTagText
      content levels expand bound openCount
    | ['<'] => Scan.fail .unknownToken
    | '<' :: _ =>
      let opened ← startTag levels
      content levels expand bound (if opened then openCount + 2 else openCount + 1)
    | _ =>
      text (levels < entityDepth) expand
      content levels expand bound (openCount + 1)

/-- Read the text of an entity as content, at most so many levels deep. -/
def expandContent : (levels : Nat) → (after : Nat) → Cursor → Build Unit
  | 0, after, _ => Scan.failAt after .entityLoop
  | levels + 1, _, cursor => do
    let outerCursor ← liftM (m := Scan) get
    let outerTag := (← get).tag
    modify fun b => { b with tag := none }
    liftM (m := Scan) (set cursor)
    content levels (expandContent levels) cursor.rest.length.succ 1
    liftM (m := Scan) (set outerCursor)
    modify fun b => { b with tag := outerTag }

/-- Read the root element with everything in it. -/
def rootElement : Build Unit := do
  let opened ← startTag entityDepth
  if opened then
    content entityDepth (expandContent entityDepth) (← Scan.rest).length.succ 1

/-- Read a whole document. -/
def document : Build Unit := do
  if (← Scan.rest).head? == some '\uFEFF' then Scan.skip 1
  if ← Scan.looksAt "<?xml " then Scan.declaration
  let bound := (← Scan.rest).length.succ
  miscellaneous bound
  Scan.skipSpaces
  if ← Scan.looksAt "<!DOCTYPE" then
    doctype
    miscellaneous bound
  Scan.skipSpaces
  if ← Scan.looksAt "<" then rootElement
  miscellaneous bound
  unless ← Scan.atEnd do Scan.fail .unknownToken

end Build

/-- The nodes below the root of a document, each with its place. -/
def read (text : List Char) : Except Fault (List PlacedNode) := do
  let ((_, b), _) ← (Build.document.run Builder.start).run ⟨text, 0⟩
  if !b.openElements.isEmpty then throw ⟨.unclosedRoot, 0⟩
  if b.finished.all fun placed => !placed.node.isElement then throw ⟨.noRoot, 0⟩
  return b.finished.reverse

end Xml
end SlimSvg
