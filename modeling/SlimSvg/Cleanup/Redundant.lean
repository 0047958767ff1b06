import SlimSvg.Css.Cascade
import SlimSvg.Plugin.Basic
import SlimSvg.Cleanup.Link

namespace SlimSvg
namespace Cleanup

/-!
# Attributes that say what holds anyway

A presentation attribute is redundant if it gives the initial value where nothing
else would be inherited, or the value that would be inherited.  Attributes that a
rule overrides or tests are left alone, and so are elements with an id, for they
may be drawn elsewhere.
-/

/-- Which redundant attributes go. -/
structure RedundancyPolicy where
  /-- Those with the initial value. -/
  initial : Bool
  /-- Those with the inherited value. -/
  inherited : Bool
deriving Repr

namespace RedundancyPolicy

def ofParameters (p : Parameters) : RedundancyPolicy where
  initial := p.truth "defaultAttrs" true
  inherited := p.truth "uselessOverrides" true

end RedundancyPolicy

/-- Where an element stands. -/
structure Inheritance where
  /-- The style of the parent. -/
  parent : Css.ComputedStyle
  /-- Whether the element can be drawn with another parent too. -/
  reusable : Bool

namespace Inheritance

/-- What an element inherits for a property. -/
def get? (place : Inheritance) (name : String) : Option Css.ComputedValue :=
  if Vocabulary.isInheritable name then place.parent.get? name else none

/-- Whether a property that is not set has its initial value for sure. -/
def isInitial (place : Inheritance) (name : String) : Bool :=
  (place.get? name).isNone && !(Vocabulary.isInheritable name && place.reusable)

/-- Whether a value is the initial one and nothing else would be inherited. -/
def repeatsInitial (place : Inheritance) (a : Attribute) : Bool :=
  place.isInitial a.name &&
    match Vocabulary.defaultValue? a.name with
    | some text => AttributeValue.ofProperty a.name text == a.value
    | none => false

/-- Whether a value is the inherited one. -/
def repeatsParent (place : Inheritance) (a : Attribute) : Bool :=
  match place.get? a.name with
  | some (.known text) => AttributeValue.ofProperty a.name text == a.value
  | _ => false

def isRedundant (place : Inheritance) (policy : RedundancyPolicy) (a : Attribute) : Bool :=
  (policy.initial && place.repeatsInitial a) || (policy.inherited && place.repeatsParent a)

end Inheritance

/-- Whether style sheets set a property of an element or test its attribute. -/
def isRuled (styles : Css.Styles) (ruled : Css.ComputedStyle) (name : String) : Bool :=
  ruled.has name || styles.testsAttribute (some name)

/-- The element without its redundant attributes. -/
def dropRedundant (policy : RedundancyPolicy) (styles : Css.Styles) (ruled : Css.ComputedStyle)
    (place : Inheritance) (e : Element) : Element :=
  { e with
    attributes := e.attributes.retain fun a =>
      !(Vocabulary.isPresentation a.name && !isRuled styles ruled a.name
        && place.isRedundant policy a) }

/-- Drop redundant attributes on entering an element.  Parents come first, so what
an element inherits is seen as it is afterwards. -/
def enterRedundant (policy : RedundancyPolicy) (styles : Css.Styles) (node : NodeId)
    (ancestors : List NodeId) : Visit Css.Styles.Memo VisitFlow := do
  let doc ← Visit.document
  if let some e := doc.element? node then
    if e.isSvg && e.id?.isNone then
      let (parent, memo) := styles.parentStyle doc ancestors (← Visit.state)
      Visit.editState fun _ => memo
      let place : Inheritance := ⟨parent, isReusable doc ancestors⟩
      let ruled := styles.ruleStyle doc node
      Visit.editDocument fun doc =>
        doc.modifyElement node (dropRedundant policy styles ruled place)
  return .descend

def removeRedundantAttributes : Plugin where
  name := "removeUnknownsAndDefaults"
  prepare situation p :=
    situation.summary.reliableStyles?.map fun styles =>
      .visiting { enter := enterRedundant (.ofParameters p) styles } []

end Cleanup
end SlimSvg
