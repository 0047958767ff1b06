import SlimSvg.Proofs.Tree.Edits
import SlimSvg.Tree.Visit

namespace SlimSvg

/-!
# Visits that keep the tree

A visitor that acts on entering elements only, goes on below all of them and leaves the
tree as it is, acts on the elements of the document one after the other, and each
element comes with the elements above it.  What such a visit does is therefore a fold
over the elements in document order.
-/

/-! ## Running a visit -/

namespace Visit

variable {σ α β : Type}

/-- Whether a visit ends with a value and leaves a scene. -/
def Gives (visit : Visit σ α) (scene : Scene σ) (value : α) (after : Scene σ) : Prop :=
  visit.run.run scene = (.ok value, after)

variable {scene after last : Scene σ}

theorem gives_pure (value : α) (scene : Scene σ) : Gives (pure value) scene value scene :=
  rfl

theorem Gives.bind {visit : Visit σ α} {next : α → Visit σ β} {value : α} {result : β}
    (first : visit.Gives scene value after) (second : (next value).Gives after result last) :
    (visit >>= next).Gives scene result last := by
  rw [Gives] at first
  rw [Gives, ExceptT.run_bind, StateT.run_bind, first]
  exact second

theorem gives_document (scene : Scene σ) : Gives document scene scene.document scene :=
  rfl

theorem gives_state (scene : Scene σ) : Gives state scene scene.state scene :=
  rfl

theorem gives_editDocument (f : Document → Document) (scene : Scene σ) :
    Gives (editDocument f) scene () { scene with document := f scene.document } :=
  rfl

theorem gives_editState (f : σ → σ) (scene : Scene σ) :
    Gives (editState f) scene () { scene with state := f scene.state } :=
  rfl

end Visit

/-! ## Entering one element after the other -/

namespace Visitor

variable {σ : Type} {P : Element → Prop} {doc : Document}

/-- Enter those of some nodes that are elements, one after the other. -/
def enterAll (doc : Document) (step : NodeId → List NodeId → Scene σ → Scene σ) (nodes : List NodeId)
    (scene : Scene σ) : Scene σ :=
  (nodes.filter doc.isElement).foldl
    (fun scene node => step node (doc.elementAncestors node).reverse scene) scene

theorem enterAll_append (step : NodeId → List NodeId → Scene σ → Scene σ) (first second : List NodeId)
    (scene : Scene σ) :
    enterAll doc step (first ++ second) scene = enterAll doc step second (enterAll doc step first scene) := by
  rw [enterAll, List.filter_append, List.foldl_append]
  rfl

/-- A visitor that only enters elements, with what it does there. -/
structure Enters (v : Visitor σ) (step : NodeId → List NodeId → Scene σ → Scene σ) : Prop where
  visitor_eq : v = { enter := v.enter }
  gives : ∀ node ancestors scene, (v.enter node ancestors).Gives scene .descend (step node ancestors scene)
  sameShape : ∀ node ancestors scene,
    Document.SameShape scene.document (step node ancestors scene).document

/-- Whether the walk lists some nodes in place of those on top of its stack. -/
def Listed (doc : Document) (top listed : List NodeId) : Prop :=
  ∀ n stack, doc.walk (listed.length + n) (top ++ stack) = listed ++ doc.walk n stack

theorem Listed.nil (doc : Document) : Listed doc [] [] := by
  intro n stack
  rw [List.length_nil, Nat.zero_add]
  rfl

theorem Listed.append {top others first second : List NodeId} (topListed : Listed doc top first)
    (othersListed : Listed doc others second) : Listed doc (top ++ others) (first ++ second) := by
  intro n stack
  rw [List.length_append, Nat.add_assoc, List.append_assoc, topListed, othersListed, List.append_assoc]

theorem Listed.cons {node : NodeId} {below : List NodeId} (listed : Listed doc (doc.children node) below) :
    Listed doc [node] (node :: below) := by
  intro n stack
  have bound : (node :: below).length + n = (below.length + n) + 1 := by
    rw [List.length_cons, Nat.add_right_comm]
  rw [bound, List.cons_append, List.nil_append, Document.walk, listed]
  rfl

namespace Enters

variable {v : Visitor σ} {step : NodeId → List NodeId → Scene σ → Scene σ}

theorem gives_enterRoot (enters : Enters v step) (scene : Scene σ) :
    v.enterRoot.Gives scene VisitFlow.descend scene := by
  rw [enters.visitor_eq]
  exact Visit.gives_pure VisitFlow.descend scene

theorem gives_exitRoot (enters : Enters v step) (scene : Scene σ) : v.exitRoot.Gives scene () scene := by
  rw [enters.visitor_eq]
  exact Visit.gives_pure () scene

theorem gives_exit (enters : Enters v step) (node : NodeId) (ancestors : List NodeId) (scene : Scene σ) :
    (v.exit node ancestors).Gives scene () scene := by
  rw [enters.visitor_eq]
  exact Visit.gives_pure () scene

theorem gives_text (enters : Enters v step) (node parent : NodeId) (scene : Scene σ) :
    (v.text node parent).Gives scene () scene := by
  rw [enters.visitor_eq]
  exact Visit.gives_pure () scene

theorem gives_comment (enters : Enters v step) (node parent : NodeId) (scene : Scene σ) :
    (v.comment node parent).Gives scene () scene := by
  rw [enters.visitor_eq]
  exact Visit.gives_pure () scene

theorem gives_instruction (enters : Enters v step) (node parent : NodeId) (scene : Scene σ) :
    (v.instruction node parent).Gives scene () scene := by
  rw [enters.visitor_eq]
  exact Visit.gives_pure () scene

theorem gives_doctype (enters : Enters v step) (node parent : NodeId) (scene : Scene σ) :
    (v.doctype node parent).Gives scene () scene := by
  rw [enters.visitor_eq]
  exact Visit.gives_pure () scene

theorem sameShape_enterAll (enters : Enters v step) (nodes : List NodeId) (scene : Scene σ) :
    Document.SameShape scene.document (enterAll doc step nodes scene).document := by
  rw [enterAll]
  induction nodes.filter doc.isElement generalizing scene with
  | nil => exact .refl _
  | cons node rest inductionHypothesis =>
      exact (enters.sameShape node _ scene).trans (inductionHypothesis _)

/-- Whether visiting a node enters the elements of what the walk lists for it. -/
def Covers (doc : Document) (step : NodeId → List NodeId → Scene σ → Scene σ)
    (visit : Visit σ Unit) (top : List NodeId) : Prop :=
  ∃ listed, Listed doc top listed ∧ ∀ scene : Scene σ, Document.SameShape doc scene.document →
    visit.Gives scene () (enterAll doc step listed scene)

/-- A node that is no element holds nothing. -/
theorem children_eq_nil (grown : doc.Grown P) {node parent : NodeId} (linked : doc.parent? node = some parent)
    (leaf : doc.isElement node = false) : doc.children node = [] := by
  rw [List.eq_nil_iff_forall_not_mem]
  intro child listed
  rcases grown.parent_holds (grown.mem_children.mp listed) with atRoot | element
  · rw [atRoot, grown.parent?_root] at linked
    cases linked
  · rw [leaf] at element
    cases element

/-- The children of a node are visited in order. -/
theorem covers_children (grown : doc.Grown P) (enters : Enters v step) {parent : NodeId}
    {ancestors : List NodeId} {visitElement : (node parent : NodeId) → List NodeId → Visit σ Unit}
    (children : List NodeId) (linked : ∀ child ∈ children, doc.parent? child = some parent)
    (elements : ∀ child ∈ children, doc.isElement child = true →
      Covers doc step (visitElement child parent ancestors) [child]) :
    Covers doc step (visitChildren v visitElement parent ancestors children) children := by
  induction children with
  | nil => exact ⟨[], .nil doc, fun scene _ => Visit.gives_pure () scene⟩
  | cons child rest inductionHypothesis =>
      rcases inductionHypothesis (fun other listed => linked other (List.mem_cons_of_mem child listed))
          (fun other listed => elements other (List.mem_cons_of_mem child listed)) with
        ⟨later, laterListed, laterGives⟩
      have childLinked := linked child List.mem_cons_self
      have stillLinked : ∀ {scene : Scene σ}, Document.SameShape doc scene.document →
          (scene.document.parent? child == some parent) = true := by
        intro scene same
        rw [same.parent?_eq, childLinked]
        exact beq_self_eq_true _
      cases element : doc.isElement child with
      | true =>
          rcases elements child List.mem_cons_self element with ⟨here, hereListed, hereGives⟩
          refine ⟨here ++ later, hereListed.append laterListed, ?_⟩
          intro scene same
          have kept : Document.SameShape doc (enterAll doc step here scene).document :=
            same.trans (enters.sameShape_enterAll here scene)
          have elementNow := (same.isElement_eq child).trans element
          rw [enterAll_append, visitChildren]
          refine (Visit.gives_document scene).bind ?_
          rw [if_pos (stillLinked same)]
          rw [Document.isElement] at elementNow
          cases holds : scene.document.content child with
          | element e => exact (hereGives scene same).bind (laterGives _ kept)
          | _ => rw [holds] at elementNow; cases elementNow
      | false =>
          have alone : Listed doc [child] [child] := by
            apply Listed.cons
            rw [children_eq_nil grown childLinked element]
            exact .nil doc
          refine ⟨[child] ++ later, alone.append laterListed, ?_⟩
          intro scene same
          have notNow := (same.isElement_eq child).trans element
          have nothing : enterAll doc step [child] scene = scene := by
            rw [enterAll, List.filter_cons_of_neg (by rw [element]; decide)]
            rfl
          rw [enterAll_append, nothing, visitChildren]
          refine (Visit.gives_document scene).bind ?_
          rw [if_pos (stillLinked same)]
          rw [Document.isElement] at notNow
          cases holds : scene.document.content child with
          | element e => rw [holds] at notNow; cases notNow
          | text => exact (enters.gives_text child parent scene).bind (laterGives scene same)
          | comment => exact (enters.gives_comment child parent scene).bind (laterGives scene same)
          | instruction => exact (enters.gives_instruction child parent scene).bind (laterGives scene same)
          | doctype => exact (enters.gives_doctype child parent scene).bind (laterGives scene same)
          | root => exact laterGives scene same

/-- A depth that reaches the end of the table is enough. -/
theorem covers_element (grown : doc.Grown P) (enters : Enters v step) (depth : Nat) :
    ∀ {node parent : NodeId}, doc.parent? node = some parent → doc.isElement node = true →
      doc.nodes.size ≤ node.index + depth →
      Covers doc step (visitElement v depth node parent (doc.elementAncestors node).reverse) [node] := by
  induction depth with
  | zero =>
      intro node parent linked _ deep
      exact absurd (Document.index_lt_of_parent? linked) (Nat.not_lt.mpr deep)
  | succ depth inductionHypothesis =>
      intro node parent linked element deep
      have below : Covers doc step
          (visitChildren v (visitElement v depth) node ((doc.elementAncestors node).reverse ++ [node])
            (doc.children node)) (doc.children node) := by
        apply covers_children grown enters
        · exact fun child listed => grown.mem_children.mp listed
        · intro child listed childElement
          have childLinked := grown.mem_children.mp listed
          have later := grown.parent_earlier childLinked
          rw [← Document.elementAncestors_child grown childLinked element]
          exact inductionHypothesis childLinked childElement (by omega)
      rcases below with ⟨listed, childrenListed, gives⟩
      refine ⟨node :: listed, childrenListed.cons, ?_⟩
      intro scene same
      have entered := enters.gives node (doc.elementAncestors node).reverse scene
      have kept := same.trans (enters.sameShape node (doc.elementAncestors node).reverse scene)
      have whole : enterAll doc step (node :: listed) scene =
          enterAll doc step listed (step node (doc.elementAncestors node).reverse scene) := by
        rw [enterAll, List.filter_cons_of_pos element]
        rfl
      rw [whole, visitElement]
      refine entered.bind ((Visit.gives_document _).bind ?_)
      have stays : (VisitFlow.descend == VisitFlow.descend &&
          (step node (doc.elementAncestors node).reverse scene).document.parent? node == some parent) = true := by
        rw [kept.parent?_eq, linked]
        exact beq_self_eq_true _
      rw [if_pos stays, kept.children_eq]
      exact (gives _ kept).bind (enters.gives_exit node _ _)

/-- A visit of the whole document enters its elements in document order. -/
theorem run_eq (grown : doc.Grown P) (bare : doc.isElement Document.root = false) (enters : Enters v step)
    (start : σ) :
    v.run ⟨start, doc⟩ =
      (.ok (), doc.elements.foldl
        (fun scene node => step node (doc.elementAncestors node).reverse scene) ⟨start, doc⟩) := by
  have covered : Covers doc step
      (visitChildren v (visitElement v (doc.nodes.size + extraDepth)) Document.root []
        (doc.children Document.root)) (doc.children Document.root) := by
    apply covers_children grown enters
    · exact fun child listed => grown.mem_children.mp listed
    · intro child listed childElement
      have childLinked := grown.mem_children.mp listed
      have deep : doc.nodes.size ≤ child.index + (doc.nodes.size + extraDepth) := by omega
      have covers := covers_element grown enters _ childLinked childElement deep
      rw [Document.elementAncestors_of_parent?_root grown childLinked bare] at covers
      exact covers
  rcases covered with ⟨listed, childrenListed, gives⟩
  have elementsEq : doc.elements = listed.filter doc.isElement := by
    have rootListed : Listed doc [Document.root] (Document.root :: listed) := childrenListed.cons
    have walked := rootListed (doc.descendants Document.root).length []
    rw [List.append_nil, Document.walk_nil, List.append_nil] at walked
    -- With more room than it needs the walk lists the same.
    have same : doc.descendants Document.root = Document.root :: listed := by
      rw [← walked]
      exact ((grown.ordered.walks_descendants grown.rooted).walk_eq (Nat.le_add_left _ _)).symm
    rw [Document.elements, same, List.filter_cons_of_neg (by rw [bare]; decide)]
  have entered := gives ⟨start, doc⟩ (.refl doc)
  rw [enterAll, ← elementsEq] at entered
  change Visit.Gives (visitRoot v (doc.nodes.size + extraDepth)) ⟨start, doc⟩ () _
  rw [visitRoot]
  refine (enters.gives_enterRoot ⟨start, doc⟩).bind ?_
  rw [if_pos (beq_self_eq_true _)]
  exact (Visit.gives_document _).bind (entered.bind (enters.gives_exitRoot _))

/-- What holds before the visit and is kept by entering the next element holds at its
end. -/
theorem run_induction (grown : doc.Grown P) (bare : doc.isElement Document.root = false)
    (enters : Enters v step) {start : σ} {motive : List NodeId → Scene σ → Prop}
    (first : motive [] ⟨start, doc⟩)
    (next : ∀ before node after scene, doc.elements = before ++ node :: after → motive before scene →
      motive (before ++ [node]) (step node (doc.elementAncestors node).reverse scene)) :
    ∃ scene, v.run ⟨start, doc⟩ = (.ok (), scene) ∧ motive doc.elements scene := by
  refine ⟨_, enters.run_eq grown bare start, ?_⟩
  have fromHere : ∀ rest before scene, doc.elements = before ++ rest → motive before scene →
      motive (before ++ rest)
        (rest.foldl (fun scene node => step node (doc.elementAncestors node).reverse scene) scene) := by
    intro rest
    induction rest with
    | nil =>
        intro before scene _ here
        rw [List.append_nil]
        exact here
    | cons node rest inductionHypothesis =>
        intro before scene split here
        have split' : doc.elements = (before ++ [node]) ++ rest := by
          rw [List.append_assoc]
          exact split
        have later := inductionHypothesis (before ++ [node]) _ split' (next before node rest scene split here)
        rw [List.append_assoc] at later
        exact later
  exact fromHere doc.elements [] ⟨start, doc⟩ rfl first

end Enters

end Visitor

end SlimSvg
