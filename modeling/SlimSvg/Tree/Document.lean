import SlimSvg.Tree.Element

namespace SlimSvg

/-!
# Documents

The nodes of a document live in a table and are named by their places in it.
A node knows its parent and its children, so the tree is stated twice; the
operations in this module are the only ones that change these links, and each
of them changes both sides.  A node that is taken out of the tree keeps its
place in the table.
-/

/-- The place of a node in the table of its document. -/
structure NodeId where
  index : Nat
deriving DecidableEq, Repr, Inhabited

/-- What a node is and holds. -/
inductive NodeContent where
  | root
  /-- A document type declaration without its delimiters. -/
  | doctype (text : String)
  /-- A processing instruction; the XML declaration counts as one. -/
  | instruction (name value : String)
  | comment (text : String)
  | text (text : String)
  | element (e : Element)
deriving Repr, Inhabited

namespace NodeContent

def isElement : NodeContent → Bool
  | element _ => true
  | _ => false

def isText : NodeContent → Bool
  | text _ => true
  | _ => false

def element? : NodeContent → Option Element
  | element e => some e
  | _ => none

end NodeContent

/-- A node with its links. -/
structure Node where
  parent : Option NodeId
  children : List NodeId
  content : NodeContent
deriving Repr, Inhabited

structure Document where
  nodes : Array Node
deriving Repr, Inhabited

namespace Document

/-- A document that has only its root. -/
def empty : Document :=
  ⟨#[⟨none, [], .root⟩]⟩

def root : NodeId := ⟨0⟩

/-! ## Looking at nodes -/

/-- A node of the table; a place beyond the table reads as a lonely root. -/
def node (doc : Document) (id : NodeId) : Node :=
  (doc.nodes[id.index]?).getD ⟨none, [], .root⟩

def content (doc : Document) (id : NodeId) : NodeContent :=
  (doc.node id).content

def parent? (doc : Document) (id : NodeId) : Option NodeId :=
  (doc.node id).parent

def children (doc : Document) (id : NodeId) : List NodeId :=
  (doc.node id).children

def element? (doc : Document) (id : NodeId) : Option Element :=
  (doc.content id).element?

def isElement (doc : Document) (id : NodeId) : Bool :=
  (doc.content id).isElement

def isText (doc : Document) (id : NodeId) : Bool :=
  (doc.content id).isText

/-- Whether a node is an SVG element of some name. -/
def hasName (doc : Document) (id : NodeId) (name : String) : Bool :=
  match doc.element? id with
  | some e => e.hasName name
  | none => false

/-- The place of a node among the children of its parent. -/
def indexInParent? (doc : Document) (id : NodeId) : Option Nat := do
  let parent ← doc.parent? id
  (doc.children parent).idxOf? id

/-! ## Editing -/

/-- Change one node. -/
def modifyNode (doc : Document) (id : NodeId) (f : Node → Node) : Document :=
  ⟨doc.nodes.modify id.index f⟩

/-- Change what a node holds and leave its links. -/
def modifyContent (doc : Document) (id : NodeId) (f : NodeContent → NodeContent) : Document :=
  doc.modifyNode id fun n => { n with content := f n.content }

def setContent (doc : Document) (id : NodeId) (content : NodeContent) : Document :=
  doc.modifyContent id fun _ => content

/-- Change a node that is an element. -/
def modifyElement (doc : Document) (id : NodeId) (f : Element → Element) : Document :=
  doc.modifyContent id fun
    | .element e => .element (f e)
    | other => other

/-- Change the children of a node. -/
def modifyChildren (doc : Document) (id : NodeId) (f : List NodeId → List NodeId) : Document :=
  doc.modifyNode id fun n => { n with children := f n.children }

/-- Put a new node before the child with some index, or behind the last one. -/
def insertAt (doc : Document) (parent : NodeId) (index : Nat) (content : NodeContent) :
    NodeId × Document :=
  let id : NodeId := ⟨doc.nodes.size⟩
  let doc : Document := ⟨doc.nodes.push ⟨some parent, [], content⟩⟩
  (id, doc.modifyChildren parent fun children => children.insertIdx index id)

/-- Put a new node at an index; fails if there is no such index. -/
def insert? (doc : Document) (parent : NodeId) (index : Nat) (content : NodeContent) :
    Option (NodeId × Document) :=
  if index ≤ (doc.children parent).length then some (doc.insertAt parent index content) else none

/-- Put a new node behind the last child. -/
def append (doc : Document) (parent : NodeId) (content : NodeContent) : NodeId × Document :=
  doc.insertAt parent (doc.children parent).length content

/-- Take a node with everything below it out of the tree. -/
def detach (doc : Document) (id : NodeId) : Document :=
  match doc.parent? id with
  | none => doc
  | some parent =>
    (doc.modifyNode id fun n => { n with parent := none }).modifyChildren parent
      fun children => children.filter (· != id)

/-- Move a node to another place.  The node leaves its old place first, and an
index that is too large means the last place. -/
def reattach (doc : Document) (id parent : NodeId) (index : Nat) : Document :=
  let doc := doc.detach id
  let doc := doc.modifyChildren parent fun children =>
    children.insertIdx (min index children.length) id
  doc.modifyNode id fun n => { n with parent := some parent }

/-- Replace the children of a node by one text; an empty text stands for none. -/
def setText (doc : Document) (id : NodeId) (text : String) : Document :=
  let doc := (doc.children id).foldl detach doc
  if text.isEmpty then doc else (doc.append id (.text text)).2

end Document

end SlimSvg
