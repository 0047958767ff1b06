import SlimSvg.Vocabulary

namespace SlimSvg
namespace Xml

/-!
# Parsed markup

What a reader knows about a document: names are resolved to namespaces, and
every element carries the declarations that are in force for it.
-/

/-- A declared namespace.  The default one has no prefix. -/
structure Namespace where
  pre : Option String
  uri : String
deriving DecidableEq, Repr

/-- The namespaces in force, the nearest declarations first. -/
abbrev Namespaces := List Namespace

namespace Namespaces

/-- The namespace that a prefix is bound to. -/
def uri? (namespaces : Namespaces) (pre : Option String) : Option String :=
  (namespaces.find? (·.pre == pre)).map (·.uri)

/-- The first prefix bound to a namespace; the default namespace has none. -/
def prefixOf? (namespaces : Namespaces) (uri : String) : Option String :=
  if uri == Vocabulary.xmlNamespace then some "xml"
  else (namespaces.find? (·.uri == uri)).bind (·.pre)

def declares (namespaces : Namespaces) (pre : Option String) : Bool :=
  namespaces.any (·.pre == pre)

/-- Add the namespaces of the parent that are not declared again. -/
def inherit (own outer : Namespaces) : Namespaces :=
  if own.isEmpty then outer
  else outer.foldl (fun all n => if all.declares n.pre then all else all ++ [n]) own

end Namespaces

/-- An attribute with its resolved name. -/
structure NamedValue where
  uri : Option String
  localName : String
  value : String
deriving DecidableEq, Repr

/-- The start of an element. -/
structure StartTag where
  /-- The prefix as it was written, possibly empty. -/
  writtenPrefix : String
  localName : String
  uri : Option String
  namespaces : Namespaces
  attributes : List NamedValue
deriving DecidableEq, Repr

/-- A node with everything below it. -/
inductive Node where
  | element (tag : StartTag) (children : List Node)
  | text (text : String)
  | comment (text : String)
  | instruction (target value : String)
deriving Repr

namespace Node

def isElement : Node → Bool
  | element _ _ => true
  | _ => false

end Node

end Xml
end SlimSvg
