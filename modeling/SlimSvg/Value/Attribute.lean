import SlimSvg.Value.Declarations
import SlimSvg.Vocabulary

namespace SlimSvg

/-!
# Attribute values

The value of an attribute is a property value or one of the types that only
attributes have.  The type follows from the names of the element and of the
attribute; two values are equal when their shortest texts are.
-/

inductive AttributeValue where
  | property (v : PropertyValue)
  | percentage (v : Cached Percentage)
  | pathData (v : Cached PathData)
  | classList (v : Cached ClassList)
  | style (v : Cached Declarations)
  | stopOffset (v : Cached Fraction)
deriving Repr

namespace AttributeValue

/-- The value of an attribute that has the type of the property of its name. -/
def ofProperty (name text : String) : AttributeValue :=
  property (.ofText name text)

/-- The value of an attribute of an element. -/
def ofAttribute (element name text : String) : AttributeValue :=
  match name with
  | "class" => classList (.ofText text)
  | "style" => style (.ofText text)
  | "href" => property (.url (.ofText text))
  | "stroke-miterlimit" | "pathLength" => property (.number (.ofText text))
  | "startOffset" => percentage (.ofText text)
  | "gradientTransform" | "patternTransform" => property (.transform (.ofText text))
  | "d" =>
    if element == "path" || element == "glyph" || element == "missing-glyph" then
      pathData (.ofText text)
    else property (.generic text)
  | "x" | "y" | "width" | "height" | "cx" | "cy" | "r" | "rx" | "ry" | "x1" | "y1" | "x2" | "y2"
  | "fx" | "fy" | "fr" => property (.lengthPercentage (.ofText text))
  | "offset" => if element == "stop" then stopOffset (.ofText text) else ofProperty name text
  | "dx" | "dy" =>
    -- Inside text these two are lists.
    if Vocabulary.isTextContent element then ofProperty name text
    else property (.lengthPercentage (.ofText text))
  | _ => ofProperty name text

def text : AttributeValue → String
  | property v => v.text
  | percentage v => v.text
  | pathData v => v.text
  | classList v => v.text
  | style v => v.text
  | stopOffset v => v.text

def minified : AttributeValue → String
  | property v => v.minified
  | percentage v => v.minified
  | pathData v => v.minified
  | classList v => v.minified
  | style v => v.minified
  | stopOffset v => v.minified

/-- Make the shortest text the text of the value. -/
def minify : AttributeValue → AttributeValue
  | property v => property v.minify
  | percentage v => percentage v.minify
  | pathData v => pathData v.minify
  | classList v => classList v.minify
  | style v => style v.minify
  | stopOffset v => stopOffset v.minify

instance : BEq AttributeValue where
  beq v w := v.minified == w.minified

/-- Whether the text has nothing besides white space. -/
def isBlank (v : AttributeValue) : Bool :=
  Text.isBlank v.text

/-- Whether the text refers to a custom property. -/
def hasVariable (v : AttributeValue) : Bool :=
  Text.hasVariable v.text

/-! ## Typed views -/

/-- The declarations of a style value. -/
def declarations? : AttributeValue → Option Declarations
  | style v => v.parsed
  | _ => none

/-- Whether the value is of the type paint, valid or not. -/
def isPaint : AttributeValue → Bool
  | property (.paint _) => true
  | _ => false

/-- The id of the element that the value refers to. -/
def referencedId? (v : AttributeValue) : Option String :=
  match v with
  | property (.url r) => r.parsed.bind Reference.id?
  | property (.paint p) =>
    match p.parsed with
    | some (.server id _) => some id
    | _ => none
  | v => (Reference.idsIn v.text).head?

/-- Edit the class names of a class list. -/
def editClasses? (f : ClassList → ClassList) : AttributeValue → Option AttributeValue
  | classList v => v.parsed.map fun _ => classList (v.edit f)
  | _ => none

/-- Edit the declarations of a style value. -/
def editDeclarations? (f : Declarations → Declarations) : AttributeValue → Option AttributeValue
  | style v => v.parsed.map fun _ => style (v.edit f)
  | _ => none

/-- Edit the reference of a reference value. -/
def editReference? (f : Reference → Reference) : AttributeValue → Option AttributeValue
  | property (.url v) => v.parsed.map fun _ => property (.url (v.edit f))
  | _ => none

end AttributeValue

end SlimSvg
