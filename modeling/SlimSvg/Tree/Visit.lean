import SlimSvg.Tree.Navigation

namespace SlimSvg

/-!
# Visits

A visitor is asked at every node of the tree and may change the document on the
way.  The children of a node are listed once, when the visit goes below it; a
child that has left its parent before its turn is passed over, and a child that
was put there later is not seen.  A visit that fails keeps what was done before.

A visitor may put nodes below every node it comes to.  Such a visit would never
end, so the depth is limited, far beyond the depth of the document.
-/

/-- Why a visit was given up. -/
inductive VisitError where
  /-- The visitor gave a reason. -/
  | failed (reason : String)
  /-- The visitor makes the tree deeper and deeper. -/
  | tooDeep
deriving DecidableEq, Repr

def VisitError.message : VisitError → String
  | failed reason => reason
  | tooDeep => "the document is too deep"

/-- Whether the visit goes on below a node. -/
inductive VisitFlow where
  | descend
  | skip
deriving DecidableEq, Repr

/-- What a visitor can change: its own state, and the document. -/
structure Scene (σ : Type) where
  state : σ
  document : Document

/-- A step of a visit. -/
abbrev Visit (σ : Type) := ExceptT VisitError (StateM (Scene σ))

namespace Visit

variable {σ : Type}

def document : Visit σ Document := do
  return (← get).document

def state : Visit σ σ := do
  return (← get).state

def editDocument (f : Document → Document) : Visit σ Unit :=
  modify fun scene => { scene with document := f scene.document }

def editState (f : σ → σ) : Visit σ Unit :=
  modify fun scene => { scene with state := f scene.state }

end Visit

/-- What is done at the nodes of each kind.  Elements come with the elements
around them, the innermost one last; other nodes come with their parent. -/
structure Visitor (σ : Type) where
  enterRoot : Visit σ VisitFlow := pure .descend
  exitRoot : Visit σ Unit := pure ()
  enter : (node : NodeId) → (ancestors : List NodeId) → Visit σ VisitFlow :=
    fun _ _ => pure .descend
  exit : (node : NodeId) → (ancestors : List NodeId) → Visit σ Unit := fun _ _ => pure ()
  text : (node parent : NodeId) → Visit σ Unit := fun _ _ => pure ()
  comment : (node parent : NodeId) → Visit σ Unit := fun _ _ => pure ()
  instruction : (node parent : NodeId) → Visit σ Unit := fun _ _ => pure ()
  doctype : (node parent : NodeId) → Visit σ Unit := fun _ _ => pure ()

namespace Visitor

variable {σ : Type}

/-- Visit the listed children of a node.  `visitElement` visits one that is an
element. -/
def visitChildren (v : Visitor σ) (visitElement : (node parent : NodeId) → List NodeId → Visit σ Unit)
    (parent : NodeId) (ancestors : List NodeId) : List NodeId → Visit σ Unit
  | [] => pure ()
  | child :: rest => do
    let doc ← Visit.document
    if doc.parent? child == some parent then
      match doc.content child with
      | .element _ => visitElement child parent ancestors
      | .text _ => v.text child parent
      | .comment _ => v.comment child parent
      | .instruction _ _ => v.instruction child parent
      | .doctype _ => v.doctype child parent
      | .root => pure ()
    visitChildren v visitElement parent ancestors rest

/-- Visit an element and what is below it, down to a depth. -/
def visitElement (v : Visitor σ) :
    (depth : Nat) → (node parent : NodeId) → (ancestors : List NodeId) → Visit σ Unit
  | 0, _, _, _ => throw .tooDeep
  | depth + 1, node, parent, ancestors => do
    let flow ← v.enter node ancestors
    let doc ← Visit.document
    if flow == .descend && doc.parent? node == some parent then
      visitChildren v (visitElement v depth) node (ancestors ++ [node]) (doc.children node)
    v.exit node ancestors

/-- Visit the root and what is below it, down to a depth. -/
def visitRoot (v : Visitor σ) (depth : Nat) : Visit σ Unit := do
  let flow ← v.enterRoot
  if flow == .descend then
    let doc ← Visit.document
    visitChildren v (visitElement v depth) Document.root [] (doc.children Document.root)
  v.exitRoot

/-- The levels by which a visitor may make a document deeper. -/
def extraDepth : Nat := 1000

/-- Visit a whole document. -/
def run (v : Visitor σ) (scene : Scene σ) : Except VisitError Unit × Scene σ :=
  (visitRoot v (scene.document.nodes.size + extraDepth)).run.run scene

end Visitor

end SlimSvg
