import SlimSvg.Text.Quoted
import SlimSvg.Tree.Branch

namespace SlimSvg
namespace Outline

/-!
# Outlines

A form of documents for people: one line for each node, and a block for each
element, in which every text stands between quotation marks.
-/

/-- A node that is not an element on one line; an element by its name alone. -/
def line : NodeContent → String
  | .root => "Root"
  | .doctype s => "Doctype(" ++ Text.quoted s ++ ")"
  | .instruction name value =>
    "Instruction \x7b name: " ++ Text.quoted name ++ ", value: " ++ Text.quoted value ++ " \x7d"
  | .comment s => "Comment(" ++ Text.quoted s ++ ")"
  | .text s => "Text(" ++ Text.quoted s ++ ")"
  | .element e => "Element \x7b name: " ++ Text.quoted e.qualifiedName ++ " \x7d"

/-- A line that is moved to the right by one level. -/
def deeper (line : String) : String :=
  "    " ++ line

/-- Lines between an opening and a closing one. -/
def block (opening : String) (lines : List String) (closing : String) : List String :=
  opening :: lines.map deeper ++ [closing]

/-- The attributes of an element, if it has any. -/
def attributeLines (e : Element) : List String :=
  if e.attributes.items.isEmpty then []
  else
    block "attributes: ["
      (e.attributes.items.map fun a => a.name ++ "=" ++ Text.quoted a.value.text) "]"

mutual

def branchLines : Branch → List String
  | .node (.element e) children =>
    let inner := branchesLines children
    block "Element \x7b"
      (("name: " ++ Text.quoted e.qualifiedName) :: attributeLines e
        ++ (if children.isEmpty then [] else block "children: [" inner "]"))
      "\x7d"
  | .node content _ => [line content]

def branchesLines : List Branch → List String
  | [] => []
  | b :: rest => branchLines b ++ branchesLines rest

end

end Outline

namespace Document

/-- The outline of a document. -/
def outline (doc : Document) : String :=
  match doc.branches with
  | [] => "Document []"
  | branches =>
    String.join ((Outline.block "Document [" (Outline.branchesLines branches) "]").map (· ++ "\n"))

end Document

end SlimSvg
