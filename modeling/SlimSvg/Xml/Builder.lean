import SlimSvg.Xml.Node
import SlimSvg.Xml.Piece

namespace SlimSvg
namespace Xml

/-!
# Building a tree from tags

The reader passes through a document from left to right; the builder keeps the
elements that are not closed yet.  The text of an entity is read like a part of
the document, so it may close an element that it did not open; the stack of open
elements belongs to the builder for this reason and not to the reader.
-/

/-- An element that is not closed yet; its last child comes first. -/
structure OpenElement where
  tag : StartTag
  offset : Nat
  children : List Node
deriving Repr

/-- The name of a start tag that is not finished. -/
structure PendingTag where
  name : Scan.QName
  offset : Nat
deriving DecidableEq, Repr

/-- An attribute whose prefix is not resolved yet. -/
structure PendingAttribute where
  name : Scan.QName
  value : String
  offset : Nat
deriving DecidableEq, Repr

/-- A node below the root with its place. -/
structure PlacedNode where
  offset : Nat
  node : Node
deriving Repr

structure Builder where
  /-- The finished nodes below the root, the last one first. -/
  finished : List PlacedNode
  /-- The open elements, the innermost one first. -/
  openElements : List OpenElement
  tag : Option PendingTag
  attributes : List PendingAttribute
  declared : Namespaces
  /-- Whether the last node may still grow. -/
  afterText : Bool
  entities : Entities
  /-- The references counted below the current one. -/
  references : Nat
deriving Repr

/-- A step that reads and builds. -/
abbrev Build := StateT Builder Scan

namespace Builder

def start : Builder :=
  ⟨[], [], none, [], [], false, [], 0⟩

/-- Put a node behind the last one. -/
def append (b : Builder) (node : Node) (offset : Nat) : Builder :=
  match b.openElements with
  | inner :: outer =>
    { b with openElements := { inner with children := node :: inner.children } :: outer }
  | [] => { b with finished := ⟨offset, node⟩ :: b.finished }

/-- Add text to the last node. -/
def extendText (b : Builder) (text : String) : Builder :=
  match b.openElements, b.finished with
  | inner :: outer, _ =>
    match inner.children with
    | .text before :: rest =>
      { b with openElements := { inner with children := .text (before ++ text) :: rest } :: outer }
    | _ => b
  | [], ⟨offset, .text before⟩ :: rest =>
    { b with finished := ⟨offset, .text (before ++ text)⟩ :: rest }
  | _, _ => b

/-- Add text behind the last node, or to it. -/
def appendText (b : Builder) (text : List Char) (offset : Nat) : Builder :=
  let text := String.ofList text
  let b := if b.afterText then b.extendText text else b.append (.text text) offset
  { b with afterText := true }

/-- Put a node that is no text behind the last one. -/
def appendOther (b : Builder) (node : Node) (offset : Nat) : Builder :=
  { b.append node offset with afterText := false }

/-- The namespaces in force outside of the current tag. -/
def outerNamespaces (b : Builder) : Namespaces :=
  match b.openElements with
  | inner :: _ => inner.tag.namespaces
  | [] => []

/-- Close the innermost element. -/
def closeInner (b : Builder) : Builder :=
  match b.openElements with
  | inner :: outer =>
    { b with openElements := outer }.append
      (.element inner.tag inner.children.reverse) inner.offset
  | [] => b

end Builder

namespace Build

/-! ## Attributes -/

/-- Add a declaration of a namespace, or an attribute. -/
def addAttribute (name : Scan.QName) (value : String) (offset : Nat) : Build Unit := do
  let b ← get
  let isXml := value == Vocabulary.xmlNamespace
  let isXmlns := value == Vocabulary.xmlnsNamespace
  if name.pre == "xmlns" then
    if isXmlns then Scan.failAt offset .reservedNamespace
    if name.localName == "xml" then
      unless isXml do Scan.failAt offset .xmlPrefixRebound
    else if isXml then Scan.failAt offset .xmlNamespaceRebound
    if b.declared.declares (some name.localName) then
      Scan.failAt offset (.duplicateNamespace name.localName)
    unless isXml do
      modify fun b => { b with declared := b.declared ++ [⟨some name.localName, value⟩] }
  else if name.localName == "xmlns" then
    if isXml then Scan.failAt offset .xmlNamespaceRebound
    if isXmlns then Scan.failAt offset .reservedNamespace
    modify fun b => { b with declared := b.declared ++ [⟨none, value⟩] }
  else
    modify fun b => { b with attributes := b.attributes ++ [⟨name, value, offset⟩] }

/-- The namespace that a written prefix stands for. -/
def resolve (namespaces : Namespaces) (pre : String) (offset : Nat) : Build (Option String) := do
  if pre.isEmpty then return namespaces.uri? none
  else
    match namespaces.uri? (some pre) with
    | some uri => return some uri
    | none => Scan.failAt offset (.unknownNamespace pre)

/-- Resolve the prefixes of attributes; no two of them may have one name. -/
def resolveAttributes (namespaces : Namespaces) :
    List NamedValue → List PendingAttribute → Build (List NamedValue)
  | done, [] => return done.reverse
  | done, a :: rest => do
    let uri ←
      if a.name.pre == "xml" then pure (some Vocabulary.xmlNamespace)
      else if a.name.pre.isEmpty then pure none
      else resolve namespaces a.name.pre a.offset
    if done.any fun d => d.uri == uri && d.localName == a.name.localName then
      Scan.failAt a.offset (.duplicateAttribute a.name.localName)
    resolveAttributes namespaces (⟨uri, a.name.localName, a.value⟩ :: done) rest

/-- Take the attributes and declarations that were read since the last tag. -/
def takeAttributes : Build (Namespaces × List NamedValue) := do
  let b ← get
  let namespaces := b.declared.inherit b.outerNamespaces
  let attributes ← resolveAttributes namespaces [] b.attributes
  modify fun b => { b with attributes := [], declared := [] }
  return (namespaces, attributes)

/-! ## Tags -/

/-- Begin a start tag.  It ends the text before it, even if the tag itself is
never finished. -/
def beginTag (name : Scan.QName) (offset : Nat) : Build Unit := do
  if name.pre == "xmlns" then Scan.failAt (offset + 1) .reservedElementPrefix
  modify fun b => { b with tag := some ⟨name, offset⟩, afterText := false }

/-- End a start tag, and the element too if it is empty. -/
def endTag (isEmpty : Bool) : Build Unit := do
  match (← get).tag with
  | none => return ()
  | some tag =>
    let (namespaces, attributes) ← takeAttributes
    let uri ← resolve namespaces tag.name.pre (tag.offset + 1)
    let startTag : StartTag := ⟨tag.name.pre, tag.name.localName, uri, namespaces, attributes⟩
    modify fun b =>
      if isEmpty then b.appendOther (.element startTag []) tag.offset
      else { b with openElements := ⟨startTag, tag.offset, []⟩ :: b.openElements }

/-- Close the innermost element by an end tag. -/
def closeTag (name : Scan.QName) (offset : Nat) : Build Unit := do
  if (← get).tag.isNone then Scan.failAt offset .closeTagInEntity
  let _ ← takeAttributes
  match (← get).openElements with
  | [] => Scan.failAt offset .nothingToClose
  | inner :: _ =>
    let opened : Scan.QName := ⟨inner.tag.writtenPrefix, inner.tag.localName⟩
    if name != opened then Scan.failAt offset (.closeTag opened.write name.write)
    modify fun b => { b.closeInner with afterText := false }

end Build

end Xml
end SlimSvg
