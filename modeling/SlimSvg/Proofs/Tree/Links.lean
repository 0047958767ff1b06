import SlimSvg.Tree.Branch

namespace SlimSvg
namespace Document

/-!
# The links of a document

The tree of a document is stated twice, by parents and by children.  Here both
statements are kept in step.  Edits are described by what they leave at a node:
its parent, its children and its content.  Nothing about the table of nodes is
used beyond these descriptions.
-/

/-! ## What an edit leaves at a node -/

theorem node_of_size_le {doc : Document} {id : NodeId} (beyond : doc.nodes.size ≤ id.index) :
    doc.node id = ⟨none, [], .root⟩ := by
  rw [node, Array.getElem?_eq_none beyond, Option.getD_none]

theorem index_lt_of_parent? {doc : Document} {id parent : NodeId}
    (linked : doc.parent? id = some parent) : id.index < doc.nodes.size := by
  apply Nat.lt_of_not_le
  intro beyond
  rw [parent?, node_of_size_le beyond] at linked
  cases linked

theorem index_lt_of_isElement {doc : Document} {id : NodeId} (element : doc.isElement id) :
    id.index < doc.nodes.size := by
  apply Nat.lt_of_not_le
  intro beyond
  rw [isElement, content, node_of_size_le beyond] at element
  cases element

theorem isElement_of_element? {doc : Document} {id : NodeId} {e : Element}
    (found : doc.element? id = some e) : doc.isElement id := by
  rw [element?] at found
  rw [isElement]
  cases holds : doc.content id with
  | element _ => rfl
  | _ => rw [holds] at found; cases found

theorem isElement_of_hasName {doc : Document} {id : NodeId} {name : String} (named : doc.hasName id name = true) :
    doc.isElement id := by
  rw [hasName] at named
  split at named
  · next e found => exact isElement_of_element? found
  · cases named

theorem content_of_element? {doc : Document} {id : NodeId} {e : Element}
    (found : doc.element? id = some e) : doc.content id = .element e := by
  rw [element?] at found
  cases holds : doc.content id with
  | element _ => rw [holds] at found; exact congrArg NodeContent.element (Option.some.inj found)
  | _ => rw [holds] at found; cases found

theorem node_modifyNode (doc : Document) (id other : NodeId) (f : Node → Node)
    (inside : id.index < doc.nodes.size) :
    (doc.modifyNode id f).node other = if other = id then f (doc.node other) else doc.node other := by
  simp only [node, modifyNode, Array.getElem?_modify]
  by_cases same : other = id
  · subst same
    rw [if_pos rfl, if_pos rfl, Array.getElem?_eq_getElem inside]
    rfl
  · have apart : id.index ≠ other.index := by
      intro equal
      cases id
      cases other
      exact same (congrArg NodeId.mk equal.symm)
    rw [if_neg apart, if_neg same]

theorem node_push (doc : Document) (new : Node) (id : NodeId) :
    node ⟨doc.nodes.push new⟩ id = if id = ⟨doc.nodes.size⟩ then new else doc.node id := by
  simp only [node, Array.getElem?_push]
  by_cases same : id = ⟨doc.nodes.size⟩
  · subst same
    rw [if_pos rfl, if_pos rfl, Option.getD_some]
  · have apart : id.index ≠ doc.nodes.size := by
      intro equal
      cases id
      exact same (congrArg NodeId.mk equal)
    rw [if_neg apart, if_neg same]

section Insertion

variable (doc : Document) {parent : NodeId} (index : Nat) (new : NodeContent)

theorem size_insertAt : (doc.insertAt parent index new).2.nodes.size = doc.nodes.size + 1 := by
  simp only [insertAt, modifyChildren, modifyNode, Array.size_modify, Array.size_push]

/-- The new node stands at the end of the table; besides it only the children of
its parent are different. -/
theorem node_insertAt (inside : parent.index < doc.nodes.size) (id : NodeId) :
    (doc.insertAt parent index new).2.node id =
      if id = parent then
        { doc.node id with children := (doc.children id).insertIdx index ⟨doc.nodes.size⟩ }
      else if id = ⟨doc.nodes.size⟩ then ⟨some parent, [], new⟩
      else doc.node id := by
  have old : parent ≠ ⟨doc.nodes.size⟩ := by
    intro same
    exact absurd (congrArg NodeId.index same) (Nat.ne_of_lt inside)
  let longer : Document := ⟨doc.nodes.push ⟨some parent, [], new⟩⟩
  have room : parent.index < longer.nodes.size := by
    rw [Array.size_push]
    exact Nat.lt_succ_of_lt inside
  change (longer.modifyNode parent _).node id = _
  rw [node_modifyNode longer parent id _ room, node_push]
  by_cases same : id = parent
  · subst same
    rw [if_pos rfl, if_pos rfl, if_neg old]
    rfl
  · rw [if_neg same, if_neg same]

theorem parent?_insertAt (inside : parent.index < doc.nodes.size) (id : NodeId) :
    (doc.insertAt parent index new).2.parent? id =
      if id = ⟨doc.nodes.size⟩ then some parent else doc.parent? id := by
  rw [parent?, node_insertAt doc index new inside]
  by_cases same : id = parent
  · have old : id ≠ ⟨doc.nodes.size⟩ := by
      intro last
      exact absurd (congrArg NodeId.index (same.symm.trans last)) (Nat.ne_of_lt inside)
    rw [if_pos same, if_neg old]
    rfl
  · rw [if_neg same]
    split <;> rfl

theorem children_insertAt (inside : parent.index < doc.nodes.size) (id : NodeId) :
    (doc.insertAt parent index new).2.children id =
      if id = parent then (doc.children id).insertIdx index ⟨doc.nodes.size⟩
      else doc.children id := by
  rw [children, node_insertAt doc index new inside]
  by_cases same : id = parent
  · rw [if_pos same, if_pos same]
  · rw [if_neg same, if_neg same]
    by_cases last : id = ⟨doc.nodes.size⟩
    · rw [if_pos last, children, node_of_size_le (last ▸ Nat.le_refl _)]
    · rw [if_neg last, children]

theorem content_insertAt (inside : parent.index < doc.nodes.size) (id : NodeId) :
    (doc.insertAt parent index new).2.content id =
      if id = ⟨doc.nodes.size⟩ then new else doc.content id := by
  rw [content, node_insertAt doc index new inside]
  by_cases same : id = parent
  · have old : id ≠ ⟨doc.nodes.size⟩ := by
      intro last
      exact absurd (congrArg NodeId.index (same.symm.trans last)) (Nat.ne_of_lt inside)
    rw [if_pos same, if_neg old]
    rfl
  · rw [if_neg same]
    split <;> rfl

end Insertion

/-! ## Links in step -/

/-- Parents and children say the same, and no child is listed twice. -/
structure Linked (doc : Document) : Prop where
  mem_children : ∀ {id parent : NodeId}, id ∈ doc.children parent ↔ doc.parent? id = some parent
  nodup_children : ∀ parent : NodeId, (doc.children parent).Nodup

namespace Linked

variable {doc : Document}

/-- Only a node of the table has children. -/
theorem index_lt_of_child (links : doc.Linked) {id parent : NodeId} (linked : doc.parent? id = some parent) :
    parent.index < doc.nodes.size := by
  apply Nat.lt_of_not_le
  intro beyond
  have listed := links.mem_children.mpr linked
  rw [children, node_of_size_le beyond] at listed
  cases listed

theorem insertAt (links : doc.Linked) {parent : NodeId} {index : Nat} (new : NodeContent)
    (inside : parent.index < doc.nodes.size) (room : index ≤ (doc.children parent).length) :
    (doc.insertAt parent index new).2.Linked := by
  have fresh : ∀ other : NodeId, (⟨doc.nodes.size⟩ : NodeId) ∉ doc.children other := by
    intro other listed
    exact absurd (index_lt_of_parent? (links.mem_children.mp listed)) (Nat.lt_irrefl _)
  constructor
  · intro id other
    rw [children_insertAt doc index new inside, parent?_insertAt doc index new inside]
    by_cases last : id = ⟨doc.nodes.size⟩
    · subst last
      rw [if_pos rfl]
      by_cases same : other = parent
      · rw [if_pos same, same, List.mem_insertIdx room]
        exact ⟨fun _ => rfl, fun _ => Or.inl rfl⟩
      · rw [if_neg same]
        constructor
        · intro listed
          exact absurd listed (fresh other)
        · intro equal
          exact absurd (Option.some.inj equal).symm same
    · rw [if_neg last, ← links.mem_children]
      by_cases same : other = parent
      · rw [if_pos same, same, List.mem_insertIdx room]
        exact ⟨fun found => found.resolve_left last, Or.inr⟩
      · rw [if_neg same]
  · intro other
    rw [children_insertAt doc index new inside]
    by_cases same : other = parent
    · rw [if_pos same, same, (List.perm_insertIdx _ _ room).nodup_iff, List.nodup_cons]
      exact ⟨fresh parent, links.nodup_children parent⟩
    · rw [if_neg same]
      exact links.nodup_children other

theorem empty : Document.empty.Linked := by
  have alone : ∀ id : NodeId, Document.empty.node id = ⟨none, [], .root⟩ := by
    intro id
    rcases id with ⟨index⟩
    cases index <;> rfl
  constructor
  · intro id parent
    rw [children, parent?, alone, alone]
    exact ⟨fun listed => absurd listed List.not_mem_nil, fun linked => nomatch linked⟩
  · intro parent
    rw [children, alone]
    exact List.nodup_nil

end Linked

/-- Whether parents and children say the same, and a parent stands before its children in
the table. -/
structure Ordered (doc : Document) : Prop extends doc.Linked where
  parent_earlier : ∀ {id parent : NodeId}, doc.parent? id = some parent → parent.index < id.index

namespace Ordered

variable {doc : Document}

theorem parent?_root (ordered : doc.Ordered) : doc.parent? root = none := by
  cases linked : doc.parent? root with
  | none => rfl
  | some parent => exact absurd (ordered.parent_earlier linked) (Nat.not_lt_zero _)

/-- What holds of a node if it holds of its parent holds of all nodes. -/
theorem upward_induction (ordered : doc.Ordered) {motive : NodeId → Prop}
    (step : ∀ id, (∀ parent, doc.parent? id = some parent → motive parent) → motive id) (id : NodeId) :
    motive id := by
  have bounded : ∀ (bound : Nat) (id : NodeId), id.index < bound → motive id := by
    intro bound
    induction bound with
    | zero => exact fun _ impossible => absurd impossible (Nat.not_lt_zero _)
    | succ bound inductionHypothesis =>
        intro id enough
        refine step id fun parent linked => inductionHypothesis parent ?_
        have earlier := ordered.parent_earlier linked
        omega
  exact bounded (id.index + 1) id (Nat.lt_succ_self _)

end Ordered

end Document

/-!
## Documents that have only grown

Reading builds a document by putting branches behind each other, so a node
always stands behind its parent in the table.  This order is what makes every
walk upwards end.  Branches in which only elements hold other branches give
documents in which only the root and elements hold nodes.

What is known of each single element is a parameter here: a property of all
elements of the branches is one of all elements of the document.
-/

namespace Branch

mutual

/-- Only elements hold branches, and all elements have a property. -/
def Fits (P : Element → Prop) : Branch → Prop
  | .node content children =>
    (∀ e, content = .element e → P e) ∧ (content.isElement = false → children = []) ∧
      AllFit P children

def AllFit (P : Element → Prop) : List Branch → Prop
  | [] => True
  | b :: rest => Fits P b ∧ AllFit P rest

end

theorem allFit_append {P : Element → Prop} {first second : List Branch}
    (firstFits : AllFit P first) (secondFits : AllFit P second) : AllFit P (first ++ second) := by
  induction first with
  | nil => exact secondFits
  | cons b rest inductionHypothesis => exact ⟨firstFits.1, inductionHypothesis firstFits.2⟩

theorem allFit_flatMap {α : Type} {P : Element → Prop} {items : List α} {f : α → List Branch}
    (fits : ∀ item ∈ items, AllFit P (f item)) : AllFit P (items.flatMap f) := by
  induction items with
  | nil => exact True.intro
  | cons item rest inductionHypothesis =>
      rw [List.flatMap_cons]
      exact allFit_append (fits item List.mem_cons_self)
        (inductionHypothesis fun other listed => fits other (List.mem_cons_of_mem item listed))

end Branch

namespace Document

/-- Whether a node may hold others. -/
def Holds (doc : Document) (id : NodeId) : Prop :=
  id = root ∨ doc.isElement id

structure Grown (P : Element → Prop) (doc : Document) : Prop extends doc.Linked where
  rooted : 0 < doc.nodes.size
  parent_earlier : ∀ {id parent : NodeId}, doc.parent? id = some parent → parent.index < id.index
  parent_holds : ∀ {id parent : NodeId}, doc.parent? id = some parent → doc.Holds parent
  element_fits : ∀ {id : NodeId} {e : Element}, doc.element? id = some e → P e

namespace Grown

variable {P : Element → Prop} {doc : Document}

theorem empty : Document.empty.Grown P := by
  have alone : ∀ id : NodeId, Document.empty.node id = ⟨none, [], .root⟩ := by
    intro id
    rcases id with ⟨index⟩
    cases index <;> rfl
  have orphan : ∀ {id parent : NodeId}, Document.empty.parent? id ≠ some parent := by
    intro id parent linked
    rw [parent?, alone] at linked
    cases linked
  refine ⟨Linked.empty, Nat.zero_lt_one, fun linked => absurd linked orphan,
    fun linked => absurd linked orphan, ?_⟩
  intro id e found
  rw [element?, content, alone] at found
  cases found

theorem ordered (grown : doc.Grown P) : doc.Ordered :=
  ⟨grown.toLinked, grown.parent_earlier⟩

theorem parent?_root (grown : doc.Grown P) : doc.parent? root = none :=
  grown.ordered.parent?_root

/-- A place that may hold nodes is a place of the table. -/
theorem index_lt_of_holds (grown : doc.Grown P) {id : NodeId} (holds : doc.Holds id) :
    id.index < doc.nodes.size := by
  rcases holds with rfl | element
  · exact grown.rooted
  · exact index_lt_of_isElement element

theorem upward_induction (grown : doc.Grown P) {motive : NodeId → Prop}
    (step : ∀ id, (∀ parent, doc.parent? id = some parent → motive parent) → motive id) (id : NodeId) :
    motive id :=
  grown.ordered.upward_induction step id

end Grown

/-! ### Growing -/

section Append

variable {P : Element → Prop} {doc : Document} {parent : NodeId} {index : Nat} {new : NodeContent}

/-- A node that may hold others still may after a node was added. -/
theorem holds_insertAt (inside : parent.index < doc.nodes.size) {id : NodeId}
    (holds : doc.Holds id) : (doc.insertAt parent index new).2.Holds id := by
  rcases holds with atRoot | element
  · exact Or.inl atRoot
  · have old : id ≠ ⟨doc.nodes.size⟩ := by
      intro last
      exact absurd (congrArg NodeId.index last) (Nat.ne_of_lt (index_lt_of_isElement element))
    apply Or.inr
    rw [isElement, content_insertAt doc _ new inside, if_neg old]
    exact element

theorem Grown.insertAt (grown : doc.Grown P) (holds : doc.Holds parent)
    (room : index ≤ (doc.children parent).length) (fits : ∀ e, new = .element e → P e) :
    (doc.insertAt parent index new).2.Grown P := by
  have inside := grown.index_lt_of_holds holds
  refine ⟨grown.toLinked.insertAt new inside room, ?_, ?_, ?_, ?_⟩
  · rw [size_insertAt]
    exact Nat.zero_lt_succ _
  · intro id other linked
    rw [parent?_insertAt doc _ new inside] at linked
    by_cases last : id = ⟨doc.nodes.size⟩
    · rw [if_pos last] at linked
      rw [last, ← Option.some.inj linked]
      exact inside
    · rw [if_neg last] at linked
      exact grown.parent_earlier linked
  · intro id other linked
    rw [parent?_insertAt doc _ new inside] at linked
    apply holds_insertAt inside
    by_cases last : id = ⟨doc.nodes.size⟩
    · rw [if_pos last] at linked
      rw [← Option.some.inj linked]
      exact holds
    · rw [if_neg last] at linked
      exact grown.parent_holds linked
  · intro id e found
    have holdsElement := content_of_element? found
    rw [content_insertAt doc _ new inside] at holdsElement
    by_cases last : id = ⟨doc.nodes.size⟩
    · rw [if_pos last] at holdsElement
      exact fits e holdsElement
    · rw [if_neg last] at holdsElement
      exact grown.element_fits (by rw [element?, holdsElement]; rfl)

theorem Grown.append (grown : doc.Grown P) (holds : doc.Holds parent)
    (fits : ∀ e, new = .element e → P e) : (doc.append parent new).2.Grown P :=
  grown.insertAt holds (Nat.le_refl _) fits

/-- A new element may hold nodes at once. -/
theorem holds_new (inside : parent.index < doc.nodes.size) (element : new.isElement = true) :
    (doc.append parent new).2.Holds (doc.append parent new).1 := by
  apply Or.inr
  rw [isElement, append, content_insertAt doc _ new inside, insertAt, if_pos rfl]
  exact element

end Append

mutual

/-- A branch is added below a node that may hold others; those that could hold
nodes before still can. -/
theorem grown_appendBranch {P : Element → Prop} (doc : Document) (parent : NodeId) :
    ∀ b : Branch, doc.Grown P → doc.Holds parent → b.Fits P →
      (doc.appendBranch parent b).Grown P ∧
        ∀ id, doc.Holds id → (doc.appendBranch parent b).Holds id
  | .node content children, grown, holds, fits => by
    have inside := grown.index_lt_of_holds holds
    have larger := grown.append holds fits.1
    cases element : content.isElement with
    | true =>
        have below := grown_appendBranches (doc.append parent content).2 (doc.append parent content).1
          children larger (holds_new inside element) fits.2.2
        exact ⟨below.1, fun id old => below.2 id (holds_insertAt inside old)⟩
    | false =>
        rw [fits.2.1 element]
        exact ⟨larger, fun id old => holds_insertAt inside old⟩

theorem grown_appendBranches {P : Element → Prop} (doc : Document) (parent : NodeId) :
    ∀ branches : List Branch, doc.Grown P → doc.Holds parent → Branch.AllFit P branches →
      (doc.appendBranches parent branches).Grown P ∧
        ∀ id, doc.Holds id → (doc.appendBranches parent branches).Holds id
  | [], grown, _, _ => ⟨grown, fun _ old => old⟩
  | b :: rest, grown, holds, fits => by
    have first := grown_appendBranch doc parent b grown holds fits.1
    have others := grown_appendBranches (doc.appendBranch parent b) parent rest first.1
      (first.2 parent holds) fits.2
    exact ⟨others.1, fun id old => others.2 id (first.2 id old)⟩

end

theorem content_root_append {P : Element → Prop} {doc : Document} (grown : doc.Grown P) {parent : NodeId}
    (holds : doc.Holds parent) (new : NodeContent) :
    (doc.append parent new).2.content root = doc.content root := by
  have old : root ≠ ⟨doc.nodes.size⟩ := by
    intro last
    exact absurd (congrArg NodeId.index last) (Nat.ne_of_lt grown.rooted)
  rw [append, content_insertAt doc _ new (grown.index_lt_of_holds holds), if_neg old]

mutual

/-- The root stays what it is when branches are added. -/
theorem content_root_appendBranch {P : Element → Prop} (doc : Document) (parent : NodeId) :
    ∀ b : Branch, doc.Grown P → doc.Holds parent → b.Fits P →
      (doc.appendBranch parent b).content root = doc.content root
  | .node content children, grown, holds, fits => by
    have inside := grown.index_lt_of_holds holds
    have here := content_root_append grown holds content
    cases element : content.isElement with
    | true =>
        have below := content_root_appendBranches (doc.append parent content).2 (doc.append parent content).1
          children (grown.append holds fits.1) (holds_new inside element) fits.2.2
        exact below.trans here
    | false =>
        rw [fits.2.1 element]
        exact here

theorem content_root_appendBranches {P : Element → Prop} (doc : Document) (parent : NodeId) :
    ∀ branches : List Branch, doc.Grown P → doc.Holds parent → Branch.AllFit P branches →
      (doc.appendBranches parent branches).content root = doc.content root
  | [], _, _, _ => rfl
  | b :: rest, grown, holds, fits => by
    have first := grown_appendBranch doc parent b grown holds fits.1
    have others := content_root_appendBranches (doc.appendBranch parent b) parent rest first.1
      (first.2 parent holds) fits.2
    exact others.trans (content_root_appendBranch doc parent b grown holds fits.1)

end

theorem content_root_ofBranches {P : Element → Prop} {branches : List Branch}
    (fits : Branch.AllFit P branches) : (ofBranches branches).content root = .root :=
  content_root_appendBranches empty root branches Grown.empty (Or.inl rfl) fits

theorem grown_ofBranches {P : Element → Prop} {branches : List Branch}
    (fits : Branch.AllFit P branches) : (ofBranches branches).Grown P :=
  (grown_appendBranches empty root branches Grown.empty (Or.inl rfl) fits).1

end Document
end SlimSvg
