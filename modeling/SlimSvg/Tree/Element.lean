import SlimSvg.Value.Attribute

namespace SlimSvg

/-!
# Elements

An element separates its attributes into two lists.  Attributes without a
namespace have typed values and names that occur once; attributes from other
namespaces, and the declarations of prefixes, are kept as they were written.
Both lists stay in the order of writing.
-/

/-- A prefix, if any, in front of a local name. -/
def qualify (pre : Option String) (localName : String) : String :=
  match pre with
  | some p => p ++ ":" ++ localName
  | none => localName

/-! ## Attributes from other namespaces -/

/-- An attribute with a namespace, such as `xlink:href` or `xmlns:xlink`. -/
structure ForeignAttribute where
  pre : Option String
  localName : String
  uri : Option String
  value : String
deriving DecidableEq, Repr

namespace ForeignAttribute

/-- The name as it is written. -/
def qualifiedName (a : ForeignAttribute) : String :=
  qualify a.pre a.localName

/-- Whether the attribute declares a prefix. -/
def isDeclaration (a : ForeignAttribute) : Bool :=
  a.pre == some "xmlns"

end ForeignAttribute

/-! ## Typed attributes -/

/-- An attribute without a namespace. -/
structure Attribute where
  name : String
  value : AttributeValue
deriving Repr

/-- The typed attributes of an element. -/
structure Attributes where
  items : List Attribute
deriving Repr

namespace Attributes

def empty : Attributes := ⟨[]⟩

def get? (attributes : Attributes) (name : String) : Option AttributeValue :=
  (attributes.items.find? (·.name == name)).map (·.value)

def has (attributes : Attributes) (name : String) : Bool :=
  attributes.items.any (·.name == name)

/-- Give the first attribute of a name a new value. -/
def replaceFirst (name : String) (value : AttributeValue) : List Attribute → List Attribute
  | [] => []
  | a :: rest =>
    if a.name == name then { a with value := value } :: rest
    else a :: replaceFirst name value rest

/-- Set an attribute.  One that exists keeps its place. -/
def insert (attributes : Attributes) (name : String) (value : AttributeValue) : Attributes :=
  if attributes.has name then ⟨replaceFirst name value attributes.items⟩
  else ⟨attributes.items ++ [⟨name, value⟩]⟩

/-- Take away an attribute. -/
def remove (attributes : Attributes) (name : String) : Attributes :=
  ⟨attributes.items.eraseP (·.name == name)⟩

/-- Keep the attributes with a property. -/
def retain (attributes : Attributes) (keep : Attribute → Bool) : Attributes :=
  ⟨attributes.items.filter keep⟩

/-- Change the values of all attributes, given their names. -/
def mapValues (attributes : Attributes) (f : String → AttributeValue → AttributeValue) :
    Attributes :=
  ⟨attributes.items.map fun a => { a with value := f a.name a.value }⟩

end Attributes

/-! ## Elements -/

/-- An element without its children.  A `uri` that is missing stands for the
namespace of SVG. -/
structure Element where
  name : String
  pre : Option String
  uri : Option String
  attributes : Attributes
  foreign : List ForeignAttribute
deriving Repr

namespace Element

/-- An SVG element without attributes. -/
def ofName (name : String) : Element :=
  ⟨name, none, none, .empty, []⟩

/-- Whether the element belongs to SVG. -/
def isSvg (e : Element) : Bool :=
  e.uri.isNone

/-- Whether the element belongs to SVG and has a name. -/
def hasName (e : Element) (name : String) : Bool :=
  e.isSvg && e.name == name

/-- The name, if the element belongs to SVG. -/
def tagName? (e : Element) : Option String :=
  if e.isSvg then some e.name else none

/-- The name as it is written. -/
def qualifiedName (e : Element) : String :=
  qualify e.pre e.name

def attribute? (e : Element) (name : String) : Option AttributeValue :=
  e.attributes.get? name

/-- The text of a typed attribute. -/
def attributeText? (e : Element) (name : String) : Option String :=
  (e.attribute? name).map (·.text)

def hasAttribute (e : Element) (name : String) : Bool :=
  e.attributes.has name

/-- Set a typed attribute to the value of a text. -/
def setAttribute (e : Element) (name text : String) : Element :=
  { e with attributes := e.attributes.insert name (.ofAttribute e.name name text) }

def removeAttribute (e : Element) (name : String) : Element :=
  { e with attributes := e.attributes.remove name }

/-- The foreign attribute with a written name. -/
def foreignAttribute? (e : Element) (qualifiedName : String) : Option ForeignAttribute :=
  e.foreign.find? (·.qualifiedName == qualifiedName)

/-- The text of the attribute with a written name, of either kind. -/
def anyAttribute? (e : Element) (qualifiedName : String) : Option String :=
  e.attributeText? qualifiedName <|> (e.foreignAttribute? qualifiedName).map (·.value)

def id? (e : Element) : Option String :=
  e.attributeText? "id"

/-- Whether a foreign attribute is the older form of `href`. -/
def isXlinkHref (a : ForeignAttribute) : Bool :=
  a.localName == "href" && a.uri == some Vocabulary.xlinkNamespace

/-- The reference of the element; the newer form goes first. -/
def href? (e : Element) : Option String :=
  e.attributeText? "href" <|> (e.foreign.find? isXlinkHref).map (·.value)

/-- The words of the `class` attribute. -/
def classes (e : Element) : List String :=
  Text.words ((e.attributeText? "class").getD "")

def hasClass (e : Element) (name : String) : Bool :=
  e.classes.contains name

end Element

end SlimSvg
