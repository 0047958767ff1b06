import SlimSvg.Value.Cached
import SlimSvg.Value.Length
import SlimSvg.Value.Paint
import SlimSvg.Value.Path
import SlimSvg.Value.Transform

namespace SlimSvg

/-!
# Property values

The value of a style property is typed by the name of the property.  Properties
without a type of their own keep their text.
-/

/-! ## Class lists

The names of a `class` attribute.  A name counts once, at its first place, and
the edits keep the order of the others.
-/

structure ClassList where
  names : List String
deriving DecidableEq, Repr

namespace ClassList

/-- Add a name at the end, unless the list has it. -/
def add (l : ClassList) (name : String) : ClassList :=
  if l.names.contains name then l else ⟨l.names ++ [name]⟩

def remove (l : ClassList) (name : String) : ClassList :=
  ⟨l.names.filter (· != name)⟩

/-- Exchange a name for another one, which may then stand twice. -/
def rename (l : ClassList) (old new : String) : ClassList :=
  ⟨l.names.map fun name => if name == old then new else name⟩

/-- Keep the names with a property. -/
def retain (l : ClassList) (keep : String → Bool) : ClassList :=
  ⟨l.names.filter keep⟩

def read (s : String) : ClassList :=
  (Text.words s).foldl add ⟨[]⟩

def write (l : ClassList) : String :=
  String.intercalate " " l.names

instance : TextForm ClassList where
  read? s := some (read s)
  write := write

end ClassList

/-! ## Values of all types -/

/-- The value of a style property, by the type its name asks for. -/
inductive PropertyValue where
  | generic (text : String)
  | paint (v : Cached Paint)
  | length (v : Cached Length)
  | lengthPercentage (v : Cached Length)
  | number (v : Cached Numeral)
  | transform (v : Cached TransformList)
  | url (v : Cached Reference)
  | opacity (v : Cached Fraction)
deriving Repr

namespace PropertyValue

/-- The value of a property with some text. -/
def ofText (property text : String) : PropertyValue :=
  match property with
  | "fill" | "stroke" | "stop-color" | "flood-color" | "lighting-color" | "color" =>
    paint (.ofText text)
  | "letter-spacing" | "word-spacing" | "font-size" => length (.ofText text)
  | "stroke-width" | "stroke-dashoffset" => lengthPercentage (.ofText text)
  | "stroke-miterlimit" => number (.ofText text)
  | "transform" => transform (.ofText text)
  | "clip-path" | "mask" | "marker-start" | "marker-mid" | "marker-end" => url (.ofText text)
  | "opacity" | "fill-opacity" | "stroke-opacity" | "flood-opacity" | "stop-opacity" =>
    opacity (.ofText text)
  | _ => generic text

def text : PropertyValue → String
  | generic s => s
  | paint v => v.text
  | length v => v.text
  | lengthPercentage v => v.text
  | number v => v.text
  | transform v => v.text
  | url v => v.text
  | opacity v => v.text

def minified : PropertyValue → String
  | generic s => Text.trim s
  | paint v => v.minified
  | length v => v.minified
  | lengthPercentage v => v.minified
  | number v => v.minified
  | transform v => v.minified
  | url v => v.minified
  | opacity v => v.minified

/-- Make the shortest text the text of the value. -/
def minify : PropertyValue → PropertyValue
  | generic s => generic (Text.trim s)
  | paint v => paint v.minify
  | length v => length v.minify
  | lengthPercentage v => lengthPercentage v.minify
  | number v => number v.minify
  | transform v => transform v.minify
  | url v => url v.minify
  | opacity v => opacity v.minify

end PropertyValue

end SlimSvg
