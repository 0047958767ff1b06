import SlimSvg.Proofs.Tree.Pruning

namespace SlimSvg
namespace Document

/-!
# Trees from which elements were taken

An element that is taken out of the tree takes along what stands below it, and leaves
everything else as it was.  Of each list that is walked, the nodes below an element, the
elements of the tree or the elements before a node, what remains is the part that can
still be reached from the root, in the old order.
-/

/-! ## Walks through one tree -/

section Walks

variable {doc : Document}

theorem walk_prefix (doc : Document) {few many : Nat} (less : few ≤ many) (stack : List NodeId) :
    doc.walk few stack <+: doc.walk many stack := by
  induction few generalizing many stack with
  | zero => exact List.nil_prefix
  | succ few inductionHypothesis =>
      cases stack with
      | nil =>
          rw [walk_nil]
          exact List.nil_prefix
      | cons id rest =>
          rcases Nat.exists_eq_add_one.mpr (Nat.lt_of_lt_of_le (Nat.succ_pos few) less) with ⟨more, rfl⟩
          rw [walk, walk, List.prefix_cons_inj]
          exact inductionHypothesis (Nat.le_of_succ_le_succ less) _

theorem walk_leaves (bound : Nat) {stack : List NodeId} (leaves : ∀ id ∈ stack, doc.children id = []) :
    doc.walk bound stack = stack.take bound := by
  induction bound generalizing stack with
  | zero => rfl
  | succ bound inductionHypothesis =>
      cases stack with
      | nil => rfl
      | cons id rest =>
          rw [walk, leaves id List.mem_cons_self, List.nil_append, List.take_succ_cons,
            inductionHypothesis fun later listed => leaves later (List.mem_cons_of_mem id listed)]

theorem children_leaf (tree : doc.IsTree) {id parent : NodeId} (linked : doc.parent? id = some parent)
    (leaf : ¬ doc.isElement id) : doc.children id = [] := by
  apply List.eq_nil_iff_forall_not_mem.mpr
  intro child listed
  rcases tree.parent_holds (tree.mem_children.mp listed) with atRoot | element
  · rw [atRoot, tree.parent?_root] at linked
    cases linked
  · exact leaf element

end Walks

/-! ## The relation -/

/-- Whether a document is another one without some of its elements. -/
structure Culled (doc other : Document) : Prop where
  tree : other.IsTree
  size_eq : other.nodes.size = doc.nodes.size
  content_eq : ∀ id, other.content id = doc.content id
  parent?_of_parent? : ∀ {id parent : NodeId}, other.parent? id = some parent → doc.parent? id = some parent
  children_eq : ∀ id, other.children id = (doc.children id).filter fun child => other.parent? child == some id
  leaf_parent?_eq : ∀ {id : NodeId}, ¬ doc.isElement id → other.parent? id = doc.parent? id

namespace Culled

variable {doc other third : Document}

theorem refl (tree : doc.IsTree) : Culled doc doc where
  tree := tree
  size_eq := rfl
  content_eq _ := rfl
  parent?_of_parent? linked := linked
  children_eq id := by
    refine (List.filter_eq_self.mpr fun child listed => ?_).symm
    exact beq_iff_eq.mpr (tree.mem_children.mp listed)
  leaf_parent?_eq _ := rfl

theorem isElement_eq (culled : Culled doc other) (id : NodeId) : other.isElement id = doc.isElement id := by
  rw [isElement, culled.content_eq, isElement]

theorem element?_eq (culled : Culled doc other) (id : NodeId) : other.element? id = doc.element? id := by
  rw [element?, culled.content_eq, element?]

theorem grown {P : Element → Prop} (culled : Culled doc other) (grown : doc.Grown P) : other.Grown P := by
  refine (SameShape.refl other).grown culled.tree ?_
  intro id e found
  exact grown.element_fits (culled.element?_eq id ▸ found)

theorem trans (first : Culled doc other) (second : Culled other third) : Culled doc third where
  tree := second.tree
  size_eq := second.size_eq.trans first.size_eq
  content_eq id := (second.content_eq id).trans (first.content_eq id)
  parent?_of_parent? linked := first.parent?_of_parent? (second.parent?_of_parent? linked)
  children_eq id := by
    rw [second.children_eq, first.children_eq, List.filter_filter]
    apply List.filter_congr
    intro child _
    rw [Bool.and_eq_left_iff_imp, beq_iff_eq, beq_iff_eq]
    exact second.parent?_of_parent?
  leaf_parent?_eq leaf :=
    (second.leaf_parent?_eq (first.isElement_eq _ ▸ leaf)).trans (first.leaf_parent?_eq leaf)

theorem detach (tree : doc.IsTree) {id : NodeId} (element : doc.isElement id) : Culled doc (doc.detach id) where
  tree := Grown.detach id tree
  size_eq := size_detach id doc
  content_eq := content_detach id tree.toLinked
  parent?_of_parent? linked := by
    rw [parent?_detach id tree.toLinked] at linked
    split at linked
    · cases linked
    · exact linked
  children_eq parent := by
    rw [children_detach id tree.toLinked]
    apply List.filter_congr
    intro child listed
    rw [parent?_detach id tree.toLinked, tree.mem_children.mp listed, Bool.eq_iff_iff, bne_iff_ne, beq_iff_eq]
    split
    · next same => exact ⟨fun different => absurd same different, fun impossible => nomatch impossible⟩
    · next different => exact iff_of_true different rfl
  leaf_parent?_eq {leaf} isLeaf := by
    rw [parent?_detach id tree.toLinked, if_neg]
    intro same
    exact isLeaf (same ▸ element)

/-- An element may be edited in both documents. -/
theorem modifyElement (culled : Culled doc other) (id : NodeId) (f : Element → Element) :
    Culled (doc.modifyElement id f) (other.modifyElement id f) := by
  have before := sameShape_modifyElement doc id f
  have after := sameShape_modifyElement other id f
  refine ⟨after.grown culled.tree fun _ => True.intro,
    after.size_eq.trans (culled.size_eq.trans before.size_eq.symm), fun node => ?_, fun {node parent} linked => ?_,
    fun node => ?_, fun {leaf} isLeaf => ?_⟩
  · have same : (other.node node).content = (doc.node node).content := culled.content_eq node
    rw [content, content, node_modifyElement, node_modifyElement]
    split
    · dsimp only
      rw [same]
    · exact same
  · rw [after.parent?_eq] at linked
    rw [before.parent?_eq]
    exact culled.parent?_of_parent? linked
  · simp only [after.children_eq, before.children_eq, after.parent?_eq]
    exact culled.children_eq node
  · rw [before.isElement_eq] at isLeaf
    rw [after.parent?_eq, before.parent?_eq]
    exact culled.leaf_parent?_eq isLeaf

theorem reduced (culled : Culled doc other) : Reduced doc other where
  tree := culled.tree
  pruned := ⟨culled.isElement_eq, fun _ linked => culled.parent?_of_parent? linked⟩
  kind_eq id := by rw [culled.element?_eq]

/-- If all nodes keep their parents, nothing was taken out. -/
theorem eq_of_parent?_eq (culled : doc.Culled other) (tree : doc.IsTree)
    (same : ∀ id, other.parent? id = doc.parent? id) : other = doc := by
  have nodes : ∀ id, other.node id = doc.node id := by
    intro id
    have children : other.children id = doc.children id := by
      rw [culled.children_eq, List.filter_eq_self]
      intro child listed
      rw [same, tree.mem_children.mp listed]
      exact beq_self_eq_true _
    exact congrArg₂ (fun f content => f content) (congrArg₂ Node.mk (same id) children) (culled.content_eq id)
  refine congrArg Document.mk (Array.ext culled.size_eq fun index inside still => ?_)
  have here := nodes ⟨index⟩
  rw [node, node, Array.getElem?_eq_getElem inside, Array.getElem?_eq_getElem still] at here
  exact here

/-! ## What can still be reached -/

/-- What stands below a node that can be reached can be reached itself if it was not
taken from there. -/
theorem isAttached_child (culled : Culled doc other) (tree : doc.IsTree) {child parent : NodeId}
    (linked : doc.parent? child = some parent) :
    other.isAttached child = (other.isAttached parent && other.parent? child == some parent) := by
  have inner : child ≠ root := by
    intro atRoot
    rw [atRoot, tree.parent?_root] at linked
    cases linked
  rw [Bool.eq_iff_iff, isAttached_eq culled.tree, Bool.and_eq_true, beq_iff_eq]
  constructor
  · rintro (atRoot | ⟨upper, still, above⟩)
    · exact absurd atRoot inner
    · have same := (culled.parent?_of_parent? still).symm.trans linked
      rw [← Option.some.inj same]
      exact ⟨above, still⟩
  · rintro ⟨above, still⟩
    exact Or.inr ⟨parent, still, above⟩

theorem isAttached_before (culled : Culled doc other) (tree : doc.IsTree) {id : NodeId}
    (attached : other.isAttached id = true) : doc.isAttached id = true := by
  induction id using tree.upward_induction with
  | step id inductionHypothesis =>
    rw [isAttached_eq tree]
    rcases (isAttached_eq culled.tree id).mp attached with atRoot | ⟨parent, linked, above⟩
    · exact Or.inl atRoot
    · have old := culled.parent?_of_parent? linked
      exact Or.inr ⟨parent, old, inductionHypothesis parent old above⟩

theorem filter_children (culled : Culled doc other) (tree : doc.IsTree) (id : NodeId) :
    (doc.children id).filter other.isAttached = if other.isAttached id then other.children id else [] := by
  split
  · next attached =>
    rw [culled.children_eq]
    apply List.filter_congr
    intro child listed
    rw [culled.isAttached_child tree (tree.mem_children.mp listed), attached, Bool.true_and]
  · next gone =>
    rw [Bool.not_eq_true] at gone
    apply List.filter_eq_nil_iff.mpr
    intro child listed
    rw [culled.isAttached_child tree (tree.mem_children.mp listed), gone, Bool.false_and]
    exact Bool.false_ne_true

/-- The line of elements above an element that can be reached is the old one. -/
theorem elementAncestors_eq (culled : Culled doc other) (tree : doc.IsTree) {id : NodeId}
    (element : doc.isElement id) (attached : other.isAttached id = true) :
    other.elementAncestors id = doc.elementAncestors id ∧
      ∀ upper ∈ doc.elementAncestors id, other.isAttached upper = true := by
  have lines := culled.reduced.pruned.elementAncestors_eq tree culled.tree element attached
  exact ⟨lines.1, lines.1 ▸ lines.2⟩

theorem previousElements_eq (culled : Culled doc other) (tree : doc.IsTree) {id : NodeId}
    (attached : other.isAttached id = true) :
    other.previousElements id = (doc.previousElements id).filter other.isAttached := by
  rcases (isAttached_eq culled.tree id).mp attached with atRoot | ⟨parent, linked, above⟩
  · rw [atRoot, previousElements_eq_nil tree.parent?_root, previousElements_eq_nil culled.tree.parent?_root]
    rfl
  · rcases exists_children_split tree.toLinked (culled.parent?_of_parent? linked) with ⟨before, after, listed⟩
    have remaining := culled.filter_children tree parent
    rw [if_pos above, listed, List.filter_append, List.filter_cons_of_pos attached] at remaining
    rw [Document.previousElements_eq tree.toLinked listed,
      Document.previousElements_eq culled.tree.toLinked remaining.symm, ← List.filter_reverse,
      List.filter_filter, List.filter_filter]
    apply List.filter_congr
    intro earlier _
    rw [culled.isElement_eq, Bool.and_comm]

/-! ## Walks through what remains -/

/-- A walk of the old tree passes what remains as a walk of the new one does, which may
be shorter. -/
theorem exists_walk_eq_filter (culled : Culled doc other) (tree : doc.IsTree) (bound : Nat)
    (stack : List NodeId) :
    ∃ few ≤ bound, (doc.walk bound stack).filter other.isAttached =
      other.walk few (stack.filter other.isAttached) := by
  induction bound generalizing stack with
  | zero => exact ⟨0, Nat.le_refl 0, rfl⟩
  | succ bound inductionHypothesis =>
      cases stack with
      | nil => exact ⟨0, Nat.zero_le _, by rw [walk_nil]; rfl⟩
      | cons id rest =>
          rcases inductionHypothesis (doc.children id ++ rest) with ⟨few, less, equal⟩
          rw [List.filter_append, culled.filter_children tree] at equal
          rw [walk, List.filter_cons, List.filter_cons, equal]
          split
          · next attached => exact ⟨few + 1, Nat.succ_le_succ less, by rw [walk]⟩
          · next gone => exact ⟨few, Nat.le_succ_of_le less, rfl⟩

theorem descendants_root_eq (culled : Culled doc other) (tree : doc.IsTree) :
    other.descendants root = (doc.descendants root).filter other.isAttached := by
  rcases culled.exists_walk_eq_filter tree doc.nodes.size [root] with ⟨few, less, equal⟩
  have rooted : other.isAttached root = true := (isAttached_eq culled.tree root).mpr (Or.inl rfl)
  rw [List.filter_cons_of_pos rooted, List.filter_nil] at equal
  change (doc.descendants root).filter other.isAttached = other.walk few [root] at equal
  rcases walk_prefix other (culled.size_eq ▸ less) [root] with ⟨beyond, split⟩
  change other.walk few [root] ++ beyond = other.descendants root at split
  rw [equal, ← split]
  -- The walk of the old tree has met all that can be reached, so nothing is left for the rest.
  cases beyond with
  | nil => exact List.append_nil _
  | cons id rest =>
      have listed : id ∈ other.descendants root := split ▸ List.mem_append_right _ List.mem_cons_self
      have attached := (isAttached_iff culled.tree).mpr listed
      have before := (isAttached_iff tree).mp (culled.isAttached_before tree attached)
      have met : id ∈ other.walk few [root] := equal ▸ List.mem_filter.mpr ⟨before, attached⟩
      have distinct := nodup_descendants culled.tree
      rw [← split] at distinct
      exact absurd rfl ((List.nodup_append.mp distinct).2.2 id met id List.mem_cons_self)

theorem elements_eq (culled : Culled doc other) (tree : doc.IsTree) :
    other.elements = doc.elements.filter other.isAttached := by
  rw [elements, culled.descendants_root_eq tree, elements, List.filter_filter, List.filter_filter]
  apply List.filter_congr
  intro id _
  rw [culled.isElement_eq, Bool.and_comm]

section Childless

variable {id : NodeId}

theorem children_eq_of_childless (culled : Culled doc other) (tree : doc.IsTree)
    (childless : ∀ child ∈ doc.children id, ¬ doc.isElement child) : other.children id = doc.children id := by
  rw [culled.children_eq, List.filter_eq_self]
  intro child listed
  rw [culled.leaf_parent?_eq (childless child listed)]
  exact beq_iff_eq.mpr (tree.mem_children.mp listed)

/-- An element without elements inside keeps its text. -/
theorem textContent_eq (culled : Culled doc other) (tree : doc.IsTree)
    (childless : ∀ child ∈ doc.children id, ¬ doc.isElement child) :
    other.textContent id = doc.textContent id := by
  have sameChildren := culled.children_eq_of_childless tree childless
  have leaves : ∀ child ∈ doc.children id, doc.children child = [] ∧ other.children child = [] := by
    intro child listed
    have linked := tree.mem_children.mp listed
    have still : other.parent? child = some id := (culled.leaf_parent?_eq (childless child listed)).trans linked
    refine ⟨children_leaf tree linked (childless child listed), children_leaf culled.tree still ?_⟩
    rw [culled.isElement_eq]
    exact childless child listed
  have walked : other.descendants id = doc.descendants id := by
    rw [descendants, descendants, culled.size_eq]
    cases doc.nodes.size with
    | zero => rfl
    | succ size =>
        rw [walk, walk, List.append_nil, List.append_nil, sameChildren,
          walk_leaves size fun child listed => (leaves child listed).2,
          walk_leaves size fun child listed => (leaves child listed).1]
  rw [textContent, textContent, walked]
  simp only [culled.content_eq]

end Childless

end Culled

end Document
end SlimSvg
