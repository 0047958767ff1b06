import SlimSvg.Text.Search

namespace SlimSvg
namespace Vocabulary

/-!
# Names of SVG

Which elements and attributes have which role.  The tables are lists, so that
every question about a name is a membership test.
-/

/-! ## Namespaces -/

def svgNamespace : String := "http://www.w3.org/2000/svg"
def xlinkNamespace : String := "http://www.w3.org/1999/xlink"
def xmlNamespace : String := "http://www.w3.org/XML/1998/namespace"
/-- The namespace of namespace declarations. -/
def xmlnsNamespace : String := "http://www.w3.org/2000/xmlns/"

/-! ## Properties -/

/-- Attributes that are also style properties. -/
def presentationNames : List String :=
  ["alignment-baseline", "baseline-shift", "clip-path", "clip-rule", "color",
    "color-interpolation", "color-interpolation-filters", "color-rendering", "direction",
    "display", "dominant-baseline", "fill", "fill-opacity", "fill-rule", "filter",
    "flood-color", "flood-opacity", "font-family", "font-kerning", "font-size",
    "font-size-adjust", "font-stretch", "font-style", "font-variant", "font-weight",
    "glyph-orientation-horizontal", "glyph-orientation-vertical", "image-rendering",
    "isolation", "letter-spacing", "lighting-color", "marker-end", "marker-mid", "marker-start",
    "mask", "mask-type", "mix-blend-mode", "opacity", "overflow", "paint-order",
    "pointer-events", "shape-rendering", "stop-color", "stop-opacity", "stroke",
    "stroke-dasharray", "stroke-dashoffset", "stroke-linecap", "stroke-linejoin",
    "stroke-miterlimit", "stroke-opacity", "stroke-width", "text-anchor", "text-decoration",
    "text-overflow", "text-rendering", "transform", "transform-origin", "unicode-bidi",
    "vector-effect", "visibility", "white-space", "word-spacing", "writing-mode"]

/-- Presentation attributes whose value children do not inherit. -/
def notInheritedNames : List String :=
  ["alignment-baseline", "baseline-shift", "clip-path", "display", "dominant-baseline",
    "filter", "flood-color", "flood-opacity", "isolation", "mask", "mask-type",
    "mix-blend-mode", "opacity", "overflow", "lighting-color", "stop-color", "stop-opacity",
    "text-decoration", "transform", "transform-origin", "unicode-bidi", "vector-effect"]

/-- Inherited properties that are no presentation attributes. -/
def inheritedExtraNames : List String :=
  ["marker", "font", "font-variant-ligatures", "cursor"]

def isPresentation (name : String) : Bool :=
  presentationNames.contains name

/-- Whether children inherit a property that they do not set.  Custom properties
are always inherited. -/
def isInheritable (name : String) : Bool :=
  if Text.startsWith name "--" then true
  else if isPresentation name then !notInheritedNames.contains name
  else inheritedExtraNames.contains name

/-- The value that a presentation attribute has when nothing sets it. -/
def defaultValue? (name : String) : Option String :=
  match name with
  | "image-rendering" | "shape-rendering" | "text-rendering" | "color-rendering" => some "auto"
  | "clip-path" | "filter" | "marker-end" | "marker-mid" | "marker-start"
  | "mask" | "stroke" | "stroke-dasharray" | "text-decoration" => some "none"
  | "font-stretch" | "font-style" | "font-variant" | "font-weight"
  | "letter-spacing" | "word-spacing" | "unicode-bidi" => some "normal"
  | "fill" | "flood-color" | "stop-color" => some "black"
  | "lighting-color" => some "white"
  | "fill-opacity" | "flood-opacity" | "opacity" | "stop-opacity" | "stroke-opacity" => some "1"
  | "clip-rule" | "fill-rule" => some "nonzero"
  | "alignment-baseline" | "dominant-baseline" => some "auto"
  | "baseline-shift" => some "baseline"
  | "color-interpolation" => some "sRGB"
  | "color-interpolation-filters" => some "linearRGB"
  | "direction" => some "ltr"
  | "display" => some "inline"
  | "font-size" => some "medium"
  | "overflow" => some "visible"
  | "stroke-dashoffset" => some "0"
  | "stroke-linecap" => some "butt"
  | "stroke-linejoin" => some "miter"
  | "stroke-miterlimit" => some "4"
  | "stroke-width" => some "1"
  | "text-anchor" => some "start"
  | "visibility" => some "visible"
  | "writing-mode" => some "lr-tb"
  | _ => none

/-- Attributes of an element that are style properties only in the second
version of SVG. -/
def geometryNames (element : String) : List String :=
  match element with
  | "circle" => ["cx", "cy", "r"]
  | "ellipse" => ["cx", "cy", "rx", "ry"]
  | "rect" => ["x", "y", "width", "height", "rx", "ry"]
  | "image" | "foreignObject" | "svg" | "use" | "symbol" => ["x", "y", "width", "height"]
  | "path" => ["d"]
  | _ => []

def isGeometry (element name : String) : Bool :=
  (geometryNames element).contains name

/-- Whether an attribute holds a script that runs on an event. -/
def isEventAttribute (name : String) : Bool :=
  2 < Text.size name && Text.startsWith name "on"

/-! ## Elements -/

/-- Elements that group others. -/
def containerNames : List String :=
  ["a", "defs", "g", "marker", "mask", "missing-glyph", "pattern", "svg", "switch", "symbol"]

def isContainer (name : String) : Bool :=
  containerNames.contains name

/-- Basic shapes and paths. -/
def shapeNames : List String :=
  ["circle", "ellipse", "line", "path", "polygon", "polyline", "rect"]

def isShape (name : String) : Bool :=
  shapeNames.contains name

/-- Elements whose content is laid out as text. -/
def textContentNames : List String :=
  ["altGlyph", "textPath", "text", "tref", "tspan"]

def isTextContent (name : String) : Bool :=
  textContentNames.contains name

/-- Elements that change others over time. -/
def animationNames : List String :=
  ["animate", "animateColor", "animateMotion", "animateTransform", "set", "discard"]

def isAnimation (name : String) : Bool :=
  animationNames.contains name

/-- Elements whose text is another language and is kept as it is. -/
def rawTextNames : List String :=
  ["style", "script"]

def hasRawText (name : String) : Bool :=
  rawTextNames.contains name

/-- Elements in which text of blanks alone counts. -/
def blankPreservingNames : List String :=
  ["text", "tspan", "textPath", "title", "desc", "style", "script", "pre"]

def preservesBlanks (name : String) : Bool :=
  blankPreservingNames.contains name

/-- Elements that are drawn only where something refers to them. -/
def nonRenderingNames : List String :=
  ["clipPath", "defs", "filter", "linearGradient", "marker", "mask", "pattern",
    "radialGradient", "symbol"]

def isNonRendering (name : String) : Bool :=
  nonRenderingNames.contains name

end Vocabulary
end SlimSvg
