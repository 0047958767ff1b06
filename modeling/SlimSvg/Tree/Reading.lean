import SlimSvg.Tree.Prologue
import SlimSvg.Xml.Reader

namespace SlimSvg

/-!
# Reading documents

Parsed markup becomes the branches of a document.  Names lose their namespaces
where these are clear from the tree, texts of blanks are dropped where they mean
nothing, and the declarations at the start take their places among the other
nodes.
-/

/-- A text that is no document. -/
structure ParseError where
  source : String
  /-- The name of the source, such as a path. -/
  name : Option String
  fault : Xml.Fault
deriving Repr

namespace ParseError

def position (e : ParseError) : Xml.Position :=
  e.fault.position e.source.toList

/-- A number at the right end of a field. -/
def padLeft (width : Nat) (n : Nat) : String :=
  let digits := toString n
  String.ofList (List.replicate (width - digits.length) ' ') ++ digits

/-- The line of the fault with a mark below its column. -/
def snippet (e : ParseError) : String :=
  let p := e.position
  match (Text.lines e.source)[p.line - 1]? with
  | none => ""
  | some line =>
    let margin := padLeft 4 p.line ++ " | "
    let blanks := String.ofList (List.replicate (margin.length + (p.column - 1)) ' ')
    margin ++ line ++ "\n" ++ blanks ++ "^"

def message (e : ParseError) : String :=
  let start :=
    match e.name with
    | some name => name ++ ":"
    | none => ""
  let tail := if e.snippet.isEmpty then "" else "\n\n" ++ e.snippet
  start ++ e.position.write ++ ": " ++ e.fault.message e.source.toList ++ tail

end ParseError

namespace Reading

/-! ## Elements -/

/-- The declarations of a start tag that do not repeat what is in force. -/
def newDeclarations (tag : Xml.StartTag) (outer : Xml.Namespaces) : Xml.Namespaces :=
  tag.namespaces.filter fun n =>
    n.uri != Vocabulary.xmlNamespace && !outer.contains n

/-- Add a declaration of a namespace. -/
def addDeclaration (e : Element) (n : Xml.Namespace) : Element :=
  match n.pre with
  | none => e.setAttribute "xmlns" n.uri
  | some p =>
    { e with
      foreign := e.foreign ++ [⟨some "xmlns", p, some Vocabulary.xmlnsNamespace, n.uri⟩] }

/-- Add an attribute by its namespace. -/
def addAttribute (namespaces : Xml.Namespaces) (e : Element) (a : Xml.NamedValue) : Element :=
  match a.uri with
  | none => e.setAttribute a.localName a.value
  | some uri =>
    { e with
      foreign := e.foreign ++ [⟨namespaces.prefixOf? uri, a.localName, some uri, a.value⟩] }

/-- The element of a start tag, given the namespaces around it. -/
def element (tag : Xml.StartTag) (outer : Xml.Namespaces) : Element :=
  let bare : Element :=
    { Element.ofName tag.localName with
      pre := tag.uri.bind tag.namespaces.prefixOf?
      uri := tag.uri.filter (· != Vocabulary.svgNamespace) }
  let declared := (newDeclarations tag outer).foldl addDeclaration bare
  tag.attributes.foldl (addAttribute tag.namespaces) declared

/-- Whether blanks count in an element, given whether they count around it. -/
def keepsBlanks (tag : Xml.StartTag) (outer : Bool) : Bool :=
  let spaces := tag.attributes.filter fun a =>
    a.uri == some Vocabulary.xmlNamespace && a.localName == "space"
  match spaces.getLast? with
  | some a => a.value == "preserve"
  | none => outer || Vocabulary.preservesBlanks tag.localName

/-! ## Nodes -/

mutual

/-- The branch of a node, unless it is a text that is dropped. -/
def branch (keep : Bool) (outer : Xml.Namespaces) : Xml.Node → List Branch
  | .element tag children =>
    [.node (.element (element tag outer)) (branches (keepsBlanks tag keep) tag.namespaces children)]
  | .text s => if keep || !Text.isBlank s then [.node (.text s) []] else []
  | .comment s => [.node (.comment s) []]
  | .instruction target value => [.node (.instruction target value) []]

def branches (keep : Bool) (outer : Xml.Namespaces) : List Xml.Node → List Branch
  | [] => []
  | n :: rest => branch keep outer n ++ branches keep outer rest

end

/-- The place of the root element. -/
def rootOffset (placed : List Xml.PlacedNode) : Nat :=
  ((placed.find? (·.node.isElement)).map (·.offset)).getD 0

/-- All branches below the root with their places; of two with one place the
declarations at the start go first. -/
def placedBranches (text : List Char) (placed : List Xml.PlacedNode) :
    List (Nat × List Branch) :=
  let declaration := ((Prologue.declaration? text).map fun c => (0, [.node c []])).toList
  let doctype :=
    ((Prologue.doctype? (text.take (rootOffset placed))).map
      fun (place, c) => (place, [.node c []])).toList
  let nodes := placed.map fun p => (p.offset, branch false [] p.node)
  (declaration ++ doctype ++ nodes).mergeSort fun a b => a.1 ≤ b.1

end Reading

namespace Document

/-- Read a document.  The name of the source is for messages only. -/
def read (text : String) (name : Option String) : Except ParseError Document :=
  let cs := text.toList
  match Xml.read cs with
  | .error fault => .error ⟨text, name, fault⟩
  | .ok placed => .ok (.ofBranches ((Reading.placedBranches cs placed).flatMap (·.2)))

end Document

end SlimSvg
