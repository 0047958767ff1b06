import SlimSvg.Tree.Branch

namespace SlimSvg

/-!
# Written documents

A document is written compactly, or with every node on a line of its own.  Lines
are broken only where no text stands among the children of an element, and
nowhere below such an element, because blanks next to a text would become a part
of it.
-/

/-- How lines end. -/
inductive LineEnd where
  | lf
  | crlf
deriving DecidableEq, Repr

namespace LineEnd

def text : LineEnd → String
  | lf => "\n"
  | crlf => "\r\n"

/-- The line end with a name. -/
def ofName? (name : String) : Option LineEnd :=
  match name with
  | "lf" => some lf
  | "crlf" => some crlf
  | _ => none

/-- What is said about a name that no line end has. -/
def unknownMessage (name : String) : String :=
  "invalid end of line: '" ++ name ++ "'"

end LineEnd

/-- How a document is written. -/
structure WriteOptions where
  /-- Put every node on a line of its own. -/
  pretty : Bool := false
  /-- The number of blanks for each level, if lines are broken. -/
  indent : Nat := 4
  lineEnd : LineEnd := .lf
  /-- End the last line too. -/
  finalLineEnd : Bool := false
deriving DecidableEq, Repr

namespace Written

/-! ## Characters -/

def attributeChar (c : Char) : List Char :=
  if c == '&' then ['&', 'a', 'm', 'p', ';']
  else if c == '<' then ['&', 'l', 't', ';']
  else if c == '"' then ['&', 'q', 'u', 'o', 't', ';']
  else [c]

def textChar (c : Char) : List Char :=
  if c == '&' then ['&', 'a', 'm', 'p', ';']
  else if c == '<' then ['&', 'l', 't', ';']
  else if c == '>' then ['&', 'g', 't', ';']
  else [c]

/-- A text in which the characters with a meaning in markup are replaced. -/
def escape (f : Char → List Char) (s : String) : String :=
  String.ofList (s.toList.flatMap f)

/-- An attribute with the blank before it. -/
def attributeText (name value : String) : String :=
  " " ++ name ++ "=\"" ++ escape attributeChar value ++ "\""

/-- The text of a node.  Text in another language stays readable: it is written
as it is where that is possible, and otherwise as a character data section,
unless it holds the end of one. -/
def text (raw : Bool) (s : String) : String :=
  if raw && !(s.toList.any fun c => c == '<' || c == '&') then s
  else if raw && !Text.contains s "]]>" then "<![CDATA[" ++ s ++ "]]>"
  else escape textChar s

/-! ## Elements -/

/-- The attributes of an element.  Declarations of namespaces go first. -/
def attributes (e : Element) : String :=
  let xmlns := ((e.attributeText? "xmlns").map (attributeText "xmlns")).toList
  let (declarations, others) := e.foreign.partition (·.isDeclaration)
  let own := e.attributes.items.filter (·.name != "xmlns")
  String.join (xmlns
    ++ declarations.map (fun a => attributeText a.qualifiedName a.value)
    ++ own.map (fun a => attributeText a.name a.value.text)
    ++ others.map (fun a => attributeText a.qualifiedName a.value))

/-- A node that has no children, or whose children are not written. -/
def leaf (raw : Bool) : NodeContent → String
  | .root => ""
  | .doctype s => "<!DOCTYPE " ++ s ++ ">"
  | .instruction name value =>
    "<?" ++ name ++ (if value.isEmpty then "" else " " ++ value) ++ "?>"
  | .comment s => "<!--" ++ s ++ "-->"
  | .text s => text raw s
  | .element e => "<" ++ e.qualifiedName ++ attributes e ++ "/>"

/-- The start of a line at some depth, behind another line. -/
def lineStart (opt : WriteOptions) (depth : Nat) : String :=
  if opt.pretty then
    opt.lineEnd.text ++ String.ofList (List.replicate (depth * opt.indent) ' ')
  else ""

/-- Whether the text of an element is kept in its own language. -/
def isRaw (e : Element) : Bool :=
  e.isSvg && Vocabulary.hasRawText e.name

mutual

/-- A branch without the start of its line.  `inline` says that no line may be
broken, `raw` that a text is in another language. -/
def branch (opt : WriteOptions) (depth : Nat) (inline raw : Bool) : Branch → String
  | .node (.element e) (child :: rest) =>
    let children := child :: rest
    let inline := inline || children.any Branch.isText
    let name := e.qualifiedName
    "<" ++ name ++ attributes e ++ ">"
      ++ String.join (branches opt (depth + 1) inline (isRaw e) (child :: rest))
      ++ (if inline then "" else lineStart opt depth) ++ "</" ++ name ++ ">"
  | .node content _ => leaf raw content

/-- The children of an element with the starts of their lines. -/
def branches (opt : WriteOptions) (depth : Nat) (inline raw : Bool) : List Branch → List String
  | [] => []
  | b :: rest =>
    ((if inline then "" else lineStart opt depth) ++ branch opt depth inline raw b)
      :: branches opt depth inline raw rest

end

/-- The topmost branches.  A line is ended only behind text that was written. -/
def topmost (opt : WriteOptions) (before : String) : List Branch → String
  | [] => before
  | b :: rest =>
    let start := if before.isEmpty then "" else lineStart opt 0
    topmost opt (before ++ start ++ branch opt 0 false false b) rest

end Written

namespace Document

/-- The text of a document. -/
def written (doc : Document) (opt : WriteOptions) : String :=
  let body := Written.topmost opt "" doc.branches
  if opt.finalLineEnd && !body.isEmpty then body ++ opt.lineEnd.text else body

end Document

end SlimSvg
