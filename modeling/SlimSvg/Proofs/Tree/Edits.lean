import SlimSvg.Plugin.Basic
import SlimSvg.Proofs.Tree.Walk

namespace SlimSvg
namespace Document

/-!
# Edits that leave the tree as it is

Most edits change what elements hold and nothing else.  Such an edit leaves all
walks through the document as they are, so a document before and after it can be
compared node by node.
-/

/-- Whether two documents have the same tree and differ at most in what their nodes
hold. -/
structure SameShape (doc other : Document) : Prop where
  size_eq : other.nodes.size = doc.nodes.size
  parent?_eq : ∀ id, other.parent? id = doc.parent? id
  children_eq : ∀ id, other.children id = doc.children id
  isElement_eq : ∀ id, other.isElement id = doc.isElement id

namespace SameShape

variable {doc other third : Document}

theorem refl (doc : Document) : SameShape doc doc :=
  ⟨rfl, fun _ => rfl, fun _ => rfl, fun _ => rfl⟩

theorem trans (first : SameShape doc other) (second : SameShape other third) :
    SameShape doc third where
  size_eq := second.size_eq.trans first.size_eq
  parent?_eq id := (second.parent?_eq id).trans (first.parent?_eq id)
  children_eq id := (second.children_eq id).trans (first.children_eq id)
  isElement_eq id := (second.isElement_eq id).trans (first.isElement_eq id)

theorem symm (same : SameShape doc other) : SameShape other doc where
  size_eq := same.size_eq.symm
  parent?_eq id := (same.parent?_eq id).symm
  children_eq id := (same.children_eq id).symm
  isElement_eq id := (same.isElement_eq id).symm

theorem ancestors_eq (same : SameShape doc other) (id : NodeId) :
    other.ancestors id = doc.ancestors id := by
  have bounded : ∀ bound id, other.ancestorsWithin bound id = doc.ancestorsWithin bound id := by
    intro bound
    induction bound with
    | zero => exact fun _ => rfl
    | succ bound inductionHypothesis =>
        intro id
        rw [ancestorsWithin, ancestorsWithin, same.parent?_eq]
        cases doc.parent? id with
        | none => rfl
        | some parent => exact congrArg (id :: ·) (inductionHypothesis parent)
  rw [ancestors, ancestors, same.size_eq, bounded]

theorem isElement_funext (same : SameShape doc other) : other.isElement = doc.isElement :=
  funext same.isElement_eq

theorem descendants_eq (same : SameShape doc other) (id : NodeId) : other.descendants id = doc.descendants id := by
  have walked : ∀ bound stack, other.walk bound stack = doc.walk bound stack := by
    intro bound
    induction bound with
    | zero => exact fun _ => rfl
    | succ bound inductionHypothesis =>
        intro stack
        cases stack with
        | nil => rfl
        | cons id rest => rw [walk, walk, same.children_eq, inductionHypothesis]
  rw [descendants, descendants, same.size_eq, walked]

theorem elements_eq (same : SameShape doc other) : other.elements = doc.elements := by
  rw [elements, elements, same.descendants_eq, same.isElement_funext]

theorem elementAncestors_eq (same : SameShape doc other) (id : NodeId) :
    other.elementAncestors id = doc.elementAncestors id := by
  rw [elementAncestors, elementAncestors, same.ancestors_eq, same.isElement_funext]

theorem parentElement?_eq (same : SameShape doc other) (id : NodeId) :
    other.parentElement? id = doc.parentElement? id := by
  rw [parentElement?, parentElement?, same.ancestors_eq, same.isElement_funext]

theorem previousElements_eq (same : SameShape doc other) (id : NodeId) :
    other.previousElements id = doc.previousElements id := by
  have placed : other.indexInParent? id = doc.indexInParent? id := by
    simp only [indexInParent?, same.parent?_eq, same.children_eq]
  unfold previousElements
  simp only [same.parent?_eq, placed, same.isElement_funext, same.children_eq]

/-- What grew is still a tree if its elements have changed. -/
theorem grown {P Q : Element → Prop} (same : SameShape doc other) (grown : doc.Grown P)
    (fits : ∀ {id e}, other.element? id = some e → Q e) : other.Grown Q where
  mem_children := by
    intro id parent
    rw [same.children_eq, same.parent?_eq]
    exact grown.mem_children
  nodup_children := by
    intro parent
    rw [same.children_eq]
    exact grown.nodup_children parent
  rooted := same.size_eq ▸ grown.rooted
  parent_earlier := by
    intro id parent linked
    rw [same.parent?_eq] at linked
    exact grown.parent_earlier linked
  parent_holds := by
    intro id parent linked
    rw [same.parent?_eq] at linked
    rcases grown.parent_holds linked with atRoot | element
    · exact Or.inl atRoot
    · exact Or.inr ((same.isElement_eq parent).trans element)
  element_fits := fits

end SameShape

/-! ## Changing elements -/

section Elements

variable (doc : Document) (id : NodeId) (f : Element → Element)

theorem node_modifyNode_of_size_le (g : Node → Node) (beyond : doc.nodes.size ≤ id.index)
    (other : NodeId) : (doc.modifyNode id g).node other = doc.node other := by
  have unchanged : doc.nodes.modify id.index g = doc.nodes := by
    apply Array.ext
    · exact Array.size_modify
    · intro index inside _
      rw [Array.getElem_modify, if_neg]
      rw [Array.size_modify] at inside
      omega
  rw [modifyNode, unchanged]

/-- A change of what a node holds, if it leaves what is no element. -/
theorem node_modifyElement (other : NodeId) :
    (doc.modifyElement id f).node other =
      if other = id then
        { doc.node other with
          content := match (doc.node other).content with
            | .element e => .element (f e)
            | held => held }
      else doc.node other := by
  by_cases inside : id.index < doc.nodes.size
  · exact node_modifyNode doc id other _ inside
  · have beyond := Nat.le_of_not_lt inside
    rw [modifyElement, modifyContent, node_modifyNode_of_size_le doc id _ beyond]
    split
    · next same => rw [same, node_of_size_le beyond]
    · rfl

theorem element?_modifyElement (other : NodeId) :
    (doc.modifyElement id f).element? other =
      if other = id then (doc.element? other).map f else doc.element? other := by
  rw [element?, content, node_modifyElement, element?, content]
  split
  · dsimp only
    cases (doc.node other).content <;> rfl
  · rfl

theorem sameShape_modifyElement : SameShape doc (doc.modifyElement id f) where
  size_eq := Array.size_modify
  parent?_eq other := by
    rw [parent?, node_modifyElement]
    split <;> rfl
  children_eq other := by
    rw [children, node_modifyElement]
    split <;> rfl
  isElement_eq other := by
    rw [isElement, content, node_modifyElement, isElement, content]
    split
    · dsimp only
      cases (doc.node other).content <;> rfl
    · rfl

variable {doc}

theorem sameShape_foldl_modifyElement (nodes : List NodeId) :
    SameShape doc (nodes.foldl (fun doc node => doc.modifyElement node f) doc) := by
  induction nodes generalizing doc with
  | nil => exact .refl doc
  | cons node rest inductionHypothesis =>
      exact (sameShape_modifyElement doc node f).trans inductionHypothesis

theorem element?_foldl_modifyElement {nodes : List NodeId} (distinct : nodes.Nodup) (id : NodeId) :
    (nodes.foldl (fun doc node => doc.modifyElement node f) doc).element? id =
      if id ∈ nodes then (doc.element? id).map f else doc.element? id := by
  induction nodes generalizing doc with
  | nil => simp
  | cons node rest inductionHypothesis =>
      have apart := List.nodup_cons.mp distinct
      rw [List.foldl_cons, inductionHypothesis apart.2, element?_modifyElement]
      by_cases same : id = node
      · rw [same, if_neg apart.1, if_pos rfl, if_pos List.mem_cons_self]
      · simp only [same, if_false, List.mem_cons, false_or]

theorem sameShape_mapElements : SameShape doc (doc.mapElements f) :=
  sameShape_foldl_modifyElement f doc.elements

/-- What an edit keeps of each element holds of all elements. -/
theorem Grown.modifyElement {P : Element → Prop} (grown : doc.Grown P) (kept : ∀ e, P e → P (f e)) :
    (doc.modifyElement id f).Grown P := by
  refine (sameShape_modifyElement doc id f).grown grown ?_
  intro other e found
  rw [element?_modifyElement] at found
  split at found
  · rcases Option.map_eq_some_iff.mp found with ⟨old, held, rfl⟩
    exact kept old (grown.element_fits held)
  · exact grown.element_fits found

theorem Grown.mapElements {P : Element → Prop} (grown : doc.Grown P) (kept : ∀ e, P e → P (f e)) :
    (doc.mapElements f).Grown P := by
  change (doc.elements.foldl (fun doc node => doc.modifyElement node f) doc).Grown P
  generalize doc.elements = nodes
  induction nodes generalizing doc with
  | nil => exact grown
  | cons node rest inductionHypothesis => exact inductionHypothesis (grown.modifyElement node f kept)

/-- Every element of the tree is changed once. -/
theorem element?_mapElements {P : Element → Prop} (grown : doc.Grown P) (id : NodeId) :
    (doc.mapElements f).element? id =
      if id ∈ doc.elements then (doc.element? id).map f else doc.element? id :=
  element?_foldl_modifyElement f (nodup_elements grown) id

end Elements

end Document
end SlimSvg
