import SlimSvg.Plugin.Basic
import SlimSvg.Css.Cascade
import SlimSvg.Cleanup.Link

namespace SlimSvg
namespace Cleanup

/-!
# Parts that are not drawn

What says nothing about the picture is taken away: declarations and other parts
that are never drawn, elements that hold nothing, and elements that are hidden.
-/

/-! ## Declarations, comments and metadata

Declarations, comments and metadata say nothing about the picture.  A comment
that begins with an exclamation mark is a legal notice; it is kept unless the
user says otherwise.  Of the instructions only the XML declaration goes.
-/

/-- Take away a node if its content has a property. -/
def discardIf (gone : NodeContent → Bool) (node : NodeId) : Visit Unit Unit :=
  Visit.editDocument fun doc => if gone (doc.content node) then doc.detach node else doc

/-- Whether a comment is a legal notice. -/
def isNotice : NodeContent → Bool
  | .comment text => Text.startsWith text "!"
  | _ => false

def isXmlDeclaration : NodeContent → Bool
  | .instruction name _ => name == "xml"
  | _ => false

def removeDoctype : Plugin :=
  .always "removeDoctype" fun _ =>
    .visiting { doctype := fun node _ => discardIf (fun _ => true) node } ()

def removeXmlDeclaration : Plugin :=
  .always "removeXMLProcInst" fun _ =>
    .visiting { instruction := fun node _ => discardIf isXmlDeclaration node } ()

def removeComments : Plugin :=
  .always "removeComments" fun p =>
    let keepNotices := p.truth "preserveLegal" true
    .visiting
      { comment := fun node _ => discardIf (fun c => !(keepNotices && isNotice c)) node } ()

/-- Take away metadata without looking into it. -/
def enterMetadata (node : NodeId) : Visit Unit VisitFlow := do
  let doc ← Visit.document
  if doc.hasName node "metadata" then
    Visit.editDocument fun doc => doc.detach node
    return .skip
  return .descend

def removeMetadata : Plugin :=
  .always "removeMetadata" fun _ =>
    .visiting { enter := fun node _ => enterMetadata node } ()

/-! ## Elements that hold nothing

Texts and containers without children are taken away when they are left, so one
that loses its last child on the way is taken away too.
-/

/-- Take away a node on leaving it if it is found to hold nothing. -/
def dropVacant (vacant : Document → NodeId → List NodeId → Bool) : DocumentEdit :=
  .visiting
    { exit := fun node ancestors =>
        Visit.editDocument fun doc => if vacant doc node ancestors then doc.detach node else doc }
    ()

/-! ### Texts -/

/-- Whether a text has no content or a text reference no target. -/
def isVacantText (doc : Document) (node : NodeId) : Bool :=
  match doc.element? node with
  | none => false
  | some e =>
    if e.hasName "text" || e.hasName "tspan" then (doc.children node).isEmpty
    else e.hasName "tref" && e.href?.isNone

def removeEmptyText : Plugin :=
  .always "removeEmptyText" fun _ => dropVacant fun doc node _ => isVacantText doc node

/-! ### Containers -/

/-- Whether a container has a use although it has no children: a pattern or a
mask can be referred to, and a filter needs no input. -/
def isUsedWithoutChildren (e : Element) : Bool :=
  (e.name == "pattern" && !e.attributes.items.isEmpty)
    || (e.name == "mask" && e.id?.isSome)
    || (e.name == "g" && e.hasAttribute "filter")

/-- Whether a container may go.  The root element stays, and so do the children
of a switch, of which the first that fits is drawn. -/
def isVacantContainer (doc : Document) (node : NodeId) (ancestors : List NodeId) : Bool :=
  match doc.element? node, ancestors.getLast? with
  | some e, some parent =>
    e.isSvg && Vocabulary.isContainer e.name && (doc.children node).isEmpty
      && !isUsedWithoutChildren e && !doc.hasName parent "switch"
  | _, _ => false

def removeEmptyContainers : Plugin :=
  .always "removeEmptyContainers" fun _ => dropVacant isVacantContainer

/-! ## Elements that are never drawn

Elements that are not displayed, that are fully transparent, or shapes without an
extent are taken away, unless something inside them is referred to.  Nothing is
taken from definitions, which are drawn elsewhere.
-/

/-- Whether a shape has no extent in one direction, or no outline. -/
def isWithoutExtent (e : Element) (style : Css.ComputedStyle) : Bool :=
  match e.name with
  | "circle" => style.isZero "r"
  | "ellipse" => style.isZero "rx" || style.isZero "ry"
  | "rect" | "image" => style.isZero "width" || style.isZero "height"
  | "path" => !style.has "d" || style.text? "d" == some ""
  | "polyline" | "polygon" =>
    match e.attribute? "points" with
    | some value => value.isBlank
    | none => true
  | _ => false

/-- Whether an element with a style is not drawn. -/
def isHidden (e : Element) (style : Css.ComputedStyle) : Bool :=
  style.text? "display" == some "none" || style.isZero "opacity" || isWithoutExtent e style

/-- What is remembered on the way: styles, and the hidden elements, the last one
first. -/
structure HiddenSearch where
  memo : Css.Styles.Memo
  found : List NodeId

/-- Look at an element.  Nothing is looked for in definitions, and nothing more in
an element that is hidden already. -/
def enterHidden (styles : Css.Styles) (node : NodeId) (ancestors : List NodeId) :
    Visit HiddenSearch VisitFlow := do
  let doc ← Visit.document
  let some e := doc.element? node | return .descend
  if !e.isSvg || Vocabulary.isNonRendering e.name then return .skip
  if ancestors.isEmpty then return .descend
  let search ← Visit.state
  let (style, memo) := styles.computedStyle doc node search.memo
  if isHidden e style then
    Visit.editState fun _ => ⟨memo, node :: search.found⟩
    return .skip
  Visit.editState fun _ => { search with memo := memo }
  return .descend

/-- Whether an id of an element or of something inside it is among some ids. -/
def holdsId (doc : Document) (ids : List String) (node : NodeId) : Bool :=
  ((doc.descendants node).filterMap doc.element?).any fun e => e.id?.any ids.contains

/-- Take an element away, unless it holds one of some ids. -/
def takeUnreferenced (ids : List String) (doc : Document) (node : NodeId) : Document :=
  if holdsId doc ids node then doc else doc.detach node

/-- Take away one after the other the hidden elements to which nothing refers, not even
something inside another one.  The references are collected before the first one goes. -/
def exitHidden (styles : Css.Styles) : Visit HiddenSearch Unit := do
  let search ← Visit.state
  Visit.editDocument fun doc =>
    search.found.reverse.foldl (takeUnreferenced (Link.idsOf doc ++ styles.derived.referencedIds)) doc

/-- With combinators a rule may ask for the element that is taken away. -/
def removeHiddenElements : Plugin where
  name := "removeHiddenElems"
  prepare situation _ := do
    let styles ← situation.summary.stillStyles?
    if styles.derived.features.combinators then none
    else
      some (.visiting { enter := enterHidden styles, exitRoot := exitHidden styles } ⟨[], []⟩)

end Cleanup
end SlimSvg
