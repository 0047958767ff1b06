import SlimSvg.Tree.Document

namespace SlimSvg
namespace Document

/-!
# Moving through a document

Upwards a node has one line of ancestors, downwards it has its descendants in
document order.  In a tree neither list can be longer than the table of nodes;
that number bounds both walks, so they end even where the links form a circle.
-/

/-! ## Upwards -/

/-- A node and the nodes above it, at most so many. -/
def ancestorsWithin (doc : Document) : Nat → NodeId → List NodeId
  | 0, _ => []
  | bound + 1, id =>
    id :: match doc.parent? id with
      | some parent => ancestorsWithin doc bound parent
      | none => []

/-- A node and the nodes above it, from the inside out. -/
def ancestors (doc : Document) (id : NodeId) : List NodeId :=
  doc.ancestorsWithin doc.nodes.size id

/-- Whether a node can be reached from the root. -/
def isAttached (doc : Document) (id : NodeId) : Bool :=
  (doc.ancestors id).contains root

/-- The nearest element above a node. -/
def parentElement? (doc : Document) (id : NodeId) : Option NodeId :=
  (doc.ancestors id).tail.find? doc.isElement

/-- The elements above a node, from the inside out. -/
def elementAncestors (doc : Document) (id : NodeId) : List NodeId :=
  (doc.ancestors id).tail.filter doc.isElement

/-! ## Downwards -/

/-- The nodes below a stack of nodes in document order, at most so many. -/
def walk (doc : Document) : Nat → List NodeId → List NodeId
  | 0, _ => []
  | _, [] => []
  | bound + 1, id :: stack => id :: walk doc bound (doc.children id ++ stack)

/-- A node and the nodes below it in document order. -/
def descendants (doc : Document) (id : NodeId) : List NodeId :=
  doc.walk doc.nodes.size [id]

/-- The elements of the tree in document order. -/
def elements (doc : Document) : List NodeId :=
  (doc.descendants root).filter doc.isElement

/-- The first element below the root. -/
def rootElement? (doc : Document) : Option NodeId :=
  (doc.children root).find? doc.isElement

/-- The texts below a node, one after the other. -/
def textContent (doc : Document) (id : NodeId) : String :=
  String.join ((doc.descendants id).filterMap fun n =>
    match doc.content n with
    | .text s => some s
    | _ => none)

/-- The text that a node has by itself or by the nodes below it. -/
def textOf (doc : Document) (id : NodeId) : String :=
  match doc.content id with
  | .text s => s
  | .element _ => doc.textContent id
  | _ => ""

/-! ## Sidewards -/

/-- The elements before a node among its siblings, the nearest one first. -/
def previousElements (doc : Document) (id : NodeId) : List NodeId :=
  match doc.parent? id, doc.indexInParent? id with
  | some parent, some index => ((doc.children parent).take index).reverse.filter doc.isElement
  | _, _ => []

/-- The nearest element before a node among its siblings. -/
def previousElement? (doc : Document) (id : NodeId) : Option NodeId :=
  (doc.previousElements id).head?

/-- The nearest element after a node among its siblings. -/
def nextElement? (doc : Document) (id : NodeId) : Option NodeId := do
  let parent ← doc.parent? id
  let index ← doc.indexInParent? id
  ((doc.children parent).drop (index + 1)).find? doc.isElement

end Document
end SlimSvg
