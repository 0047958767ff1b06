import SlimSvg.Tree.Navigation

namespace SlimSvg

/-!
# Branches

A branch is a node together with everything below it, without the table and the
links.  It is what reading produces and what writing consumes: neither depends
on the places that the nodes have in a document.
-/

inductive Branch where
  | node (content : NodeContent) (children : List Branch)
deriving Repr, Inhabited

namespace Branch

def content : Branch → NodeContent
  | node content _ => content

def children : Branch → List Branch
  | node _ children => children

/-- Whether the topmost node is a text. -/
def isText (b : Branch) : Bool :=
  b.content.isText

end Branch

namespace Document

/-! ## From documents to branches -/

/-- The branch of a node down to a depth. -/
def branchWithin (doc : Document) : Nat → NodeId → Branch
  | 0, id => .node (doc.content id) []
  | bound + 1, id => .node (doc.content id) ((doc.children id).map (branchWithin doc bound))

/-- A node with everything below it.  No path of a tree is longer than the table
of nodes. -/
def branch (doc : Document) (id : NodeId) : Branch :=
  doc.branchWithin doc.nodes.size id

/-- The branches below the root. -/
def branches (doc : Document) : List Branch :=
  (doc.branch root).children

/-! ## From branches to documents -/

mutual

/-- Add a branch behind the last child of a node; its nodes get new places in
document order. -/
def appendBranch (doc : Document) (parent : NodeId) : Branch → Document
  | .node content children =>
    let (id, doc) := doc.append parent content
    appendBranches doc id children

/-- Add branches one after the other. -/
def appendBranches (doc : Document) (parent : NodeId) : List Branch → Document
  | [] => doc
  | b :: rest => appendBranches (appendBranch doc parent b) parent rest

end

/-- The document with some branches below its root. -/
def ofBranches (branches : List Branch) : Document :=
  empty.appendBranches root branches

end Document

end SlimSvg
