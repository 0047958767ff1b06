import Mathlib.Data.List.Flatten
import Mathlib.Data.List.InsertIdx
import SlimSvg.Proofs.Tree.Culling
import SlimSvg.Proofs.Tree.Preorder

namespace SlimSvg
namespace Document

/-!
# The order of the elements

The elements of a document are listed as a walk down meets them: an element, and then what
its children lead to, one child after the other.  Nodes that are no elements lead to
nothing.  So the list of the elements below a node depends only on the lists of the
children that are elements.  An edit that shortens these lists shortens the long one and
keeps its order, and an element that is put behind another one, which holds no elements,
comes directly behind it in the long list.
-/

/-- The children of a node that are elements. -/
def elementChildren (doc : Document) (id : NodeId) : List NodeId :=
  (doc.children id).filter doc.isElement

/-- The elements from a node down, in document order. -/
def elementsFrom (doc : Document) (id : NodeId) : List NodeId :=
  (doc.descendants id).filter doc.isElement

theorem elements_eq_elementsFrom (doc : Document) : doc.elements = doc.elementsFrom root :=
  rfl

/-- What holds of a node if it holds of its children holds of all nodes. -/
theorem Ordered.downward_induction {doc : Document} (ordered : doc.Ordered) {motive : NodeId → Prop}
    (step : ∀ id, (∀ child ∈ doc.children id, motive child) → motive id) (id : NodeId) : motive id := by
  have bounded : ∀ (bound : Nat) (id : NodeId), doc.nodes.size - id.index < bound → motive id := by
    intro bound
    induction bound with
    | zero => exact fun _ impossible => absurd impossible (Nat.not_lt_zero _)
    | succ bound inductionHypothesis =>
        intro id enough
        refine step id fun child listed => inductionHypothesis child ?_
        have linked := ordered.mem_children.mp listed
        have inside := index_lt_of_parent? linked
        have earlier := ordered.parent_earlier linked
        omega
  exact bounded _ id (Nat.lt_succ_self _)

section Lists

variable {doc : Document} {id : NodeId}

theorem mem_elementChildren (links : doc.Linked) {child : NodeId} :
    child ∈ doc.elementChildren id ↔ doc.parent? child = some id ∧ doc.isElement child := by
  simp only [elementChildren, List.mem_filter, links.mem_children]

theorem elementsFrom_leaf (tree : doc.IsTree) {parent : NodeId} (linked : doc.parent? id = some parent)
    (leaf : ¬ doc.isElement id) : doc.elementsFrom id = [] := by
  rw [elementsFrom, tree.ordered.descendants_eq (index_lt_of_parent? linked), children_leaf tree linked leaf]
  simp [leaf]

/-- Elements come from a node itself and then from the elements among its children. -/
theorem elementsFrom_eq (tree : doc.IsTree) (holds : doc.Holds id) :
    doc.elementsFrom id = [id].filter doc.isElement ++ (doc.elementChildren id).flatMap doc.elementsFrom := by
  have children : ∀ {nodes : List NodeId}, (∀ node ∈ nodes, ∃ parent, doc.parent? node = some parent) →
      (nodes.flatMap doc.descendants).filter doc.isElement = (nodes.filter doc.isElement).flatMap doc.elementsFrom := by
    intro nodes below
    induction nodes with
    | nil => rfl
    | cons node rest inductionHypothesis =>
        rw [List.flatMap_cons, List.filter_append, inductionHypothesis fun other listed =>
          below other (List.mem_cons_of_mem node listed)]
        by_cases element : doc.isElement node
        · rw [List.filter_cons_of_pos element, List.flatMap_cons]
          rfl
        · obtain ⟨parent, linked⟩ := below node List.mem_cons_self
          have nothing := elementsFrom_leaf tree linked element
          rw [elementsFrom] at nothing
          rw [List.filter_cons_of_neg element, nothing, List.nil_append]
  rw [elementsFrom, tree.ordered.descendants_eq (tree.index_lt_of_holds holds), ← List.singleton_append,
    List.filter_append, children fun child listed => ⟨id, tree.mem_children.mp listed⟩]
  rfl

/-- An element that holds no elements is the only one from it down. -/
theorem elementsFrom_of_childless (tree : doc.IsTree) (element : doc.isElement id)
    (childless : doc.elementChildren id = []) : doc.elementsFrom id = [id] := by
  rw [elementsFrom_eq tree (Or.inr element), childless]
  simp [element]

end Lists

/-! ## Taking elements out -/

/-- Whether a document has the elements of another one and every node has some of its old
elements as children, in their old order. -/
structure Thins (doc other : Document) : Prop where
  tree : other.IsTree
  isElement_eq : ∀ id, other.isElement id = doc.isElement id
  elementChildren_sublist : ∀ id, (other.elementChildren id).Sublist (doc.elementChildren id)

namespace Thins

variable {doc other third : Document}

theorem refl (tree : doc.IsTree) : doc.Thins doc :=
  ⟨tree, fun _ => rfl, fun _ => .refl _⟩

theorem trans (first : doc.Thins other) (second : other.Thins third) : doc.Thins third where
  tree := second.tree
  isElement_eq id := (second.isElement_eq id).trans (first.isElement_eq id)
  elementChildren_sublist id := (second.elementChildren_sublist id).trans (first.elementChildren_sublist id)

theorem isElement_funext (thins : doc.Thins other) : other.isElement = doc.isElement :=
  funext thins.isElement_eq

theorem holds (thins : doc.Thins other) {id : NodeId} (holds : doc.Holds id) : other.Holds id := by
  refine holds.imp_right fun element => ?_
  rw [thins.isElement_eq]
  exact element

theorem elementsFrom_sublist (thins : doc.Thins other) (tree : doc.IsTree) {id : NodeId} (holds : doc.Holds id) :
    (other.elementsFrom id).Sublist (doc.elementsFrom id) := by
  induction id using tree.ordered.downward_induction with
  | step id below =>
    rw [elementsFrom_eq tree holds, elementsFrom_eq thins.tree (thins.holds holds), thins.isElement_funext]
    refine List.Sublist.append (.refl _) ?_
    refine (List.Sublist.flatMap_right _ fun child listed => ?_).trans
      (List.Sublist.flatMap (thins.elementChildren_sublist id) _)
    have old := (thins.elementChildren_sublist id).subset listed
    obtain ⟨linked, element⟩ := (mem_elementChildren tree.toLinked).mp old
    exact below child (tree.mem_children.mpr linked) (Or.inr element)

/-- Elements that are left keep their order. -/
theorem elements_sublist (thins : doc.Thins other) (tree : doc.IsTree) : other.elements.Sublist doc.elements :=
  thins.elementsFrom_sublist tree (Or.inl rfl)

theorem detach (tree : doc.IsTree) (id : NodeId) : doc.Thins (doc.detach id) where
  tree := tree.detach id
  isElement_eq := (Pruned.detach tree id).isElement_eq
  elementChildren_sublist parent := by
    have same : (doc.detach id).isElement = doc.isElement := funext (Pruned.detach tree id).isElement_eq
    rw [elementChildren, children_detach id tree.toLinked, same, elementChildren]
    exact List.filter_sublist.filter _

/-- Exchanging the texts of an element does not touch any element. -/
theorem setText (tree : doc.IsTree) {id : NodeId} (element : doc.isElement id)
    (childless : doc.elementChildren id = []) (text : String) : doc.Thins (doc.setText id text) := by
  have trimmed := trimmed_setText tree element text
  have same : (doc.setText id text).isElement = doc.isElement := funext trimmed.pruned.isElement_eq
  refine ⟨trimmed.grown, trimmed.pruned.isElement_eq, fun parent => ?_⟩
  -- The old texts and the new one are no elements, and nothing else is moved.
  have unmoved : ∀ child, doc.isElement child = true → decide (child ∉ (TreeEdit.setText id text).moved doc) = true := by
    intro child isElement
    rw [decide_eq_true_eq, TreeEdit.moved, List.mem_cons, not_or]
    constructor
    · rintro rfl
      exact absurd (index_lt_of_isElement isElement) (Nat.lt_irrefl _)
    · intro listed
      have listed : child ∈ doc.elementChildren id := List.mem_filter.mpr ⟨listed, isElement⟩
      simp [childless] at listed
  have kept := congrArg (List.filter doc.isElement)
    (filter_children_setText tree.toLinked (index_lt_of_isElement element) text parent)
  rw [List.filter_filter, List.filter_filter] at kept
  have both : ∀ nodes : List NodeId, nodes.filter doc.isElement =
      nodes.filter fun child => doc.isElement child && decide (child ∉ (TreeEdit.setText id text).moved doc) := by
    intro nodes
    refine List.filter_congr fun child _ => ?_
    cases isElement : doc.isElement child with
    | false => rfl
    | true => rw [unmoved child isElement, Bool.and_self]
  rw [elementChildren, same, elementChildren, both, both, kept]

end Thins

/-! ## Putting an element behind another one -/

theorem insertIdx_behind {α : Type} (before behind : List α) (last new : α) :
    (before ++ last :: behind).insertIdx (before.length + 1) new = before ++ last :: new :: behind := by
  induction before with
  | nil => rfl
  | cons first rest inductionHypothesis => simpa using inductionHypothesis

/-- A list with a node behind another one. -/
def followedBy (last new : NodeId) (nodes : List NodeId) : List NodeId :=
  nodes.flatMap fun node => if node = last then [node, new] else [node]

section Following

variable {last new : NodeId}

theorem followedBy_append (first second : List NodeId) :
    followedBy last new (first ++ second) = followedBy last new first ++ followedBy last new second :=
  List.flatMap_append

theorem followedBy_cons_self (rest : List NodeId) :
    followedBy last new (last :: rest) = last :: new :: followedBy last new rest := by
  simp [followedBy]

theorem followedBy_of_notMem {nodes : List NodeId} (absent : last ∉ nodes) : followedBy last new nodes = nodes := by
  induction nodes with
  | nil => rfl
  | cons node rest inductionHypothesis =>
      rw [List.mem_cons, not_or] at absent
      have later := inductionHypothesis absent.2
      rw [followedBy] at later ⊢
      rw [List.flatMap_cons, if_neg (Ne.symm absent.1), later]
      rfl

theorem followedBy_sublist {first second : List NodeId} (sublist : first.Sublist second) :
    (followedBy last new first).Sublist (followedBy last new second) :=
  List.Sublist.flatMap sublist _

end Following

section Behind

variable {doc : Document} {parent last : NodeId} {before behind : List NodeId} {e : Element}

/-- The document with an element behind the node that has so many siblings before it. -/
def insertBehind (doc : Document) (parent : NodeId) (before : List NodeId) (e : Element) : Document :=
  (doc.insertAt parent (before.length + 1) (.element e)).2

theorem tree_insertBehind (tree : doc.IsTree) (listed : doc.children parent = before ++ last :: behind) :
    (doc.insertBehind parent before e).IsTree := by
  have linked : doc.parent? last = some parent := tree.mem_children.mp (by simp [listed])
  refine tree.insertAt (tree.parent_holds linked) ?_ fun _ _ => trivial
  simp [listed]

theorem isElement_insertAt {index : Nat} (inside : parent.index < doc.nodes.size) (id : NodeId) :
    (doc.insertAt parent index (.element e)).2.isElement id = (id == ⟨doc.nodes.size⟩ || doc.isElement id) := by
  rw [isElement, content_insertAt doc index _ inside]
  split
  · next new => simp [new, NodeContent.isElement]
  · next old => simp [old, isElement]

theorem elementChildren_insertBehind (tree : doc.IsTree) (listed : doc.children parent = before ++ last :: behind)
    (element : doc.isElement last) (id : NodeId) :
    (doc.insertBehind parent before e).elementChildren id =
      followedBy last ⟨doc.nodes.size⟩ (doc.elementChildren id) := by
  have linked : doc.parent? last = some parent := tree.mem_children.mp (by simp [listed])
  have inside := tree.index_lt_of_holds (tree.parent_holds linked)
  have old : ∀ {nodes : List NodeId}, (∀ node ∈ nodes, ∃ upper, doc.parent? node = some upper) →
      nodes.filter (doc.insertBehind parent before e).isElement = nodes.filter doc.isElement := by
    intro nodes below
    refine List.filter_congr fun node among => ?_
    obtain ⟨upper, linkedAbove⟩ := below node among
    have different : (node == ⟨doc.nodes.size⟩) = false := by
      apply beq_false_of_ne
      rintro rfl
      exact absurd (index_lt_of_parent? linkedAbove) (Nat.lt_irrefl _)
    rw [insertBehind, isElement_insertAt inside, different, Bool.false_or]
  have present : ∀ child ∈ doc.children id, ∃ upper, doc.parent? child = some upper :=
    fun child among => ⟨id, tree.mem_children.mp among⟩
  rw [elementChildren, insertBehind, children_insertAt doc _ _ inside]
  by_cases here : id = parent
  · subst here
    have distinct := tree.nodup_children id
    rw [listed] at distinct present
    obtain ⟨-, behindDistinct, apart⟩ := List.nodup_append.mp distinct
    have lastNotBefore : last ∉ before := fun among => apart last among last List.mem_cons_self rfl
    have new : (doc.insertBehind id before e).isElement ⟨doc.nodes.size⟩ = true := by
      simp [insertBehind, isElement_insertAt inside]
    have still : (doc.insertBehind id before e).isElement last = true := by
      simp [insertBehind, isElement_insertAt inside, element]
    rw [if_pos rfl, listed, insertIdx_behind, elementChildren, listed, List.filter_append, ← insertBehind,
      List.filter_cons_of_pos still, List.filter_cons_of_pos new, List.filter_append, List.filter_cons_of_pos element,
      old fun node among => present node (by simp [among]), old fun node among => present node (by simp [among]),
      followedBy_append, followedBy_cons_self,
      followedBy_of_notMem fun among => lastNotBefore (List.mem_filter.mp among).1,
      followedBy_of_notMem fun among => (List.nodup_cons.mp behindDistinct).1 (List.mem_filter.mp among).1]
  · rw [if_neg here, ← insertBehind, old present, followedBy_of_notMem]
    · rfl
    · intro among
      have linkedHere := tree.mem_children.mp (List.mem_filter.mp among).1
      exact here (Option.some.inj (linkedHere.symm.trans linked))

/-- The new element comes directly behind the one that it was put behind. -/
theorem elementsFrom_insertBehind (tree : doc.IsTree) (listed : doc.children parent = before ++ last :: behind)
    (element : doc.isElement last) (childless : doc.elementChildren last = []) {id : NodeId} (holds : doc.Holds id)
    (other : id ≠ last) :
    (doc.insertBehind parent before e).elementsFrom id =
      followedBy last ⟨doc.nodes.size⟩ (doc.elementsFrom id) := by
  have linked : doc.parent? last = some parent := tree.mem_children.mp (by simp [listed])
  have inside := tree.index_lt_of_holds (tree.parent_holds linked)
  have grown : (doc.insertBehind parent before e).IsTree := tree_insertBehind tree listed
  have isElement : ∀ node, (doc.insertBehind parent before e).isElement node =
      (node == ⟨doc.nodes.size⟩ || doc.isElement node) := isElement_insertAt inside
  have childrenEq := elementChildren_insertBehind (e := e) tree listed element
  have alone : (doc.insertBehind parent before e).elementsFrom last = [last] := by
    refine elementsFrom_of_childless grown (by simp [isElement, element]) ?_
    rw [childrenEq, childless]
    rfl
  have newAlone : (doc.insertBehind parent before e).elementsFrom ⟨doc.nodes.size⟩ = [⟨doc.nodes.size⟩] := by
    refine elementsFrom_of_childless grown (by simp [isElement]) ?_
    have none : doc.children ⟨doc.nodes.size⟩ = [] := by
      have beyond : doc.node ⟨doc.nodes.size⟩ = _ := node_of_size_le (Nat.le_refl doc.nodes.size)
      rw [children, beyond]
    rw [childrenEq, elementChildren, none]
    rfl
  induction id using tree.ordered.downward_induction with
  | step id below =>
    have self : [id].filter (doc.insertBehind parent before e).isElement = [id].filter doc.isElement := by
      have old : (id == ⟨doc.nodes.size⟩) = false := by
        apply beq_false_of_ne
        rintro rfl
        exact absurd (tree.index_lt_of_holds holds) (Nat.lt_irrefl _)
      rw [List.filter_cons, List.filter_cons, isElement, old, Bool.false_or]
      rfl
    have others : last ∉ [id].filter doc.isElement := by
      intro among
      exact other (List.mem_singleton.mp (List.mem_filter.mp among).1).symm
    rw [elementsFrom_eq tree holds, elementsFrom_eq grown (holds_insertAt inside holds), childrenEq, self,
      followedBy_append, followedBy_of_notMem others, followedBy, followedBy, List.flatMap_assoc, List.flatMap_assoc]
    congr 1
    refine List.flatMap_congr fun child among => ?_
    obtain ⟨childLinked, childElement⟩ := (mem_elementChildren tree.toLinked).mp among
    by_cases here : child = last
    · rw [here, if_pos rfl, elementsFrom_of_childless tree element childless]
      simp [alone, newAlone]
    · rw [if_neg here, List.flatMap_singleton]
      exact below child (tree.mem_children.mpr childLinked) (Or.inr childElement) here

/-- A line of elements in document order can be continued by an element behind its last one. -/
theorem sublist_elements_insertBehind (tree : doc.IsTree) (listed : doc.children parent = before ++ last :: behind)
    (childless : doc.elementChildren last = []) {line : List NodeId}
    (inOrder : (line ++ [last]).Sublist doc.elements) :
    (line ++ [last] ++ [(⟨doc.nodes.size⟩ : NodeId)]).Sublist (doc.insertBehind parent before e).elements := by
  have linked : doc.parent? last = some parent := tree.mem_children.mp (by simp [listed])
  have element : doc.isElement last := (List.mem_filter.mp (inOrder.subset (by simp))).2
  have inner : root ≠ last := by
    rintro rfl
    rw [tree.parent?_root] at linked
    cases linked
  have absent : last ∉ line := by
    have distinct := (nodup_elements tree).sublist inOrder
    intro among
    exact (List.nodup_append.mp distinct).2.2 last among last List.mem_cons_self rfl
  have continued := @followedBy_sublist last ⟨doc.nodes.size⟩ (line ++ [last]) doc.elements inOrder
  rw [followedBy_append, followedBy_of_notMem absent, followedBy_cons_self, elements_eq_elementsFrom,
    ← elementsFrom_insertBehind tree listed element childless (Or.inl rfl) inner] at continued
  rw [List.append_assoc]
  exact continued

end Behind

end Document
end SlimSvg
