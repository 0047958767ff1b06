import SlimSvg.Plugin.Basic
import SlimSvg.Css.StyleEdits

namespace SlimSvg
namespace Cleanup

/-!
# Shortest forms

Values, style attributes and style sheets say the same in their shortest forms.
-/

/-! ## Values

A typed value is written in its shortest form; a text that is no value of its
type is trimmed.  Colours can be shortened alone.
-/

def minifyValue (_name : String) (value : AttributeValue) : AttributeValue :=
  value.minify

def minifyPaint (_name : String) (value : AttributeValue) : AttributeValue :=
  if value.isPaint then value.minify else value

/-- Change the typed values of all elements. -/
def mapValues (f : String → AttributeValue → AttributeValue) : DocumentEdit :=
  .whole fun doc => doc.mapElements fun e => { e with attributes := e.attributes.mapValues f }

def convertColors : Plugin :=
  .always "convertColors" fun _ => mapValues minifyPaint

def minifyValues : Plugin :=
  .always "minifyValues" fun _ => mapValues minifyValue

/-! ## Style sheets and style attributes

All sheets are merged into the first one, and declarations are written in their
shortest form.  Both need sheets that are understood and a document that no
script can change.
-/

def mergeStyles : Plugin where
  name := "mergeStyles"
  prepare situation _ :=
    situation.summary.reliableStyles?.map fun styles =>
      .withStyles fun doc => (styles.merge doc).2

/-- Shorten the style attribute of an element, or take it away if it sets
nothing. -/
def shortenInline (e : Element) : Element :=
  match e.attribute? "style" with
  | none => e
  | some value =>
    let value := value.minify
    match value.declarations? with
    | some block =>
      if block.isEmpty then e.removeAttribute "style"
      else { e with attributes := e.attributes.insert "style" value }
    | none => { e with attributes := e.attributes.insert "style" value }

def minifyStyles : Plugin where
  name := "minifyStyles"
  prepare situation p :=
    situation.summary.reliableStyles?.map fun styles =>
      .withStyles fun doc =>
        styles.minify (doc.mapElements shortenInline) (p.truth "removeUnused" true)

end Cleanup
end SlimSvg
