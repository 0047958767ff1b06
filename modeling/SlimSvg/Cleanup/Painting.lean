import SlimSvg.Css.Cascade
import SlimSvg.Plugin.Basic
import SlimSvg.Cleanup.Link

namespace SlimSvg
namespace Cleanup

/-!
# Strokes and fills that are not painted

The attributes of a stroke or a fill are of no use on a shape that does not paint
it.  Where the paint would come back by inheritance it is set to `none` instead.
Shapes with an id, with a style attribute or with a rule for their paint are left
alone, and so are shapes whose paint is not known.
-/

/-- Which paints are looked at. -/
structure PaintPolicy where
  stroke : Bool
  fill : Bool
  /-- Take away shapes that paint neither. -/
  removeUnpainted : Bool
deriving Repr

namespace PaintPolicy

def ofParameters (p : Parameters) : PaintPolicy where
  stroke := p.truth "stroke" true
  fill := p.truth "fill" true
  removeUnpainted := p.truth "removeNone" false

end PaintPolicy

/-! ## What is painted -/

/-- A stroke is painted only if it is asked for. -/
def paintsStroke (style : Css.ComputedStyle) : Bool :=
  (style.text? "stroke").any (· != "none")
    && !style.isZero "stroke-opacity" && !style.isZero "stroke-width"

/-- A fill is painted unless it is refused. -/
def paintsFill (style : Css.ComputedStyle) : Bool :=
  style.text? "fill" != some "none" && !style.isZero "fill-opacity"

/-- Whether a shape has a marker at its end, which grows with the stroke. -/
def hasMarker (style : Css.ComputedStyle) : Bool :=
  (style.text? "marker-end").any (· != "none")

/-! ## What is done about it -/

/-- What becomes of one paint of a shape. -/
inductive PaintEdit where
  | keep
  /-- Take its attributes away. -/
  | drop
  /-- Take its attributes away and set it to `none`. -/
  | disable
deriving DecidableEq, Repr

/-- The edit of a stroke, given the style of the shape and of its parent. -/
def strokeEdit (style parent : Css.ComputedStyle) (reusable : Bool) : PaintEdit :=
  if paintsStroke style then .keep
  else if hasMarker style && !style.isZero "stroke-width" then .keep
  else
    let comesBack := (parent.get? "stroke").any fun value => value.text? != some "none"
    if reusable || comesBack then .disable else .drop

/-- The edit of a fill, given the style of the shape. -/
def fillEdit (style : Css.ComputedStyle) : PaintEdit :=
  if paintsFill style then .keep
  else if style.text? "fill" == some "none" then .drop
  else .disable

structure PaintEdits where
  stroke : PaintEdit
  fill : PaintEdit
deriving DecidableEq, Repr

namespace PaintEdits

def make (policy : PaintPolicy) (style parent : Css.ComputedStyle) (reusable : Bool) :
    PaintEdits where
  stroke := if policy.stroke then strokeEdit style parent reusable else .keep
  fill := if policy.fill then fillEdit style else .keep

/-- Whether nothing is left to paint. -/
def paintsNothing (edits : PaintEdits) : Bool :=
  edits.stroke != .keep && edits.fill != .keep

/-- Take away the attributes of a paint that begin in some way. -/
def editPaint (edit : PaintEdit) (name start : String) (e : Element) : Element :=
  let bare : Element :=
    { e with attributes := e.attributes.retain fun a => !Text.startsWith a.name start }
  match edit with
  | .keep => e
  | .drop => bare
  | .disable => bare.setAttribute name "none"

/-- All attributes of a stroke are taken away, but of a fill only the details. -/
def apply (edits : PaintEdits) (e : Element) : Element :=
  editPaint edits.fill "fill" "fill-" (editPaint edits.stroke "stroke" "stroke" e)

end PaintEdits

/-! ## The plugin -/

def isPaintProperty (name : String) : Bool :=
  Text.startsWith name "stroke" || Text.startsWith name "fill"

/-- Whether the paint of an element is said by attributes and inheritance alone. -/
def isPlainlyPainted (styles : Css.Styles) (doc : Document) (node : NodeId) (e : Element) : Bool :=
  e.isSvg && e.id?.isNone && !e.hasAttribute "style"
    && !(styles.ruleStyle doc node).entries.any fun (name, _) => isPaintProperty name

/-- Whether every paint property that is set has a known value. -/
def isPaintKnown (style : Css.ComputedStyle) : Bool :=
  style.entries.all fun (name, value) => !isPaintProperty name || value.text?.isSome

/-- The edits for a shape, if its paint is known. -/
def paintEdits? (policy : PaintPolicy) (styles : Css.Styles) (doc : Document) (node : NodeId)
    (ancestors : List NodeId) (memo : Css.Styles.Memo) :
    Option PaintEdits × Css.Styles.Memo :=
  match doc.element? node with
  | none => (none, memo)
  | some e =>
    if !isPlainlyPainted styles doc node e then (none, memo)
    else
      let (style, memo) := styles.computedStyle doc node memo
      if !isPaintKnown style then (none, memo)
      else
        let (parent, memo) := styles.parentStyle doc ancestors memo
        (some (.make policy style parent (isReusable doc ancestors)), memo)

def enterPainted (policy : PaintPolicy) (styles : Css.Styles) (node : NodeId)
    (ancestors : List NodeId) : Visit Css.Styles.Memo VisitFlow := do
  let doc ← Visit.document
  let isShape := (doc.element? node).any fun e => Vocabulary.isShape e.name
  if !isShape then return .descend
  let (edits?, memo) := paintEdits? policy styles doc node ancestors (← Visit.state)
  Visit.editState fun _ => memo
  let some edits := edits? | return .descend
  if policy.removeUnpainted && edits.paintsNothing then
    Visit.editDocument fun doc => doc.detach node
    return .skip
  Visit.editDocument fun doc => doc.modifyElement node edits.apply
  return .descend

def removeUnpaintedAttributes : Plugin where
  name := "removeUselessStrokeAndFill"
  prepare situation p :=
    situation.summary.stillStyles?.map fun styles =>
      .visiting { enter := enterPainted (.ofParameters p) styles } []

end Cleanup
end SlimSvg
