import SlimSvg.Proofs.Tree.Edits

namespace SlimSvg
namespace Document

/-!
# Taking nodes out of the tree

A node that is taken out loses its parent, and nothing else loses its own.  A new
text is the child of some node, but it is no element.  So an element that can
still be reached from the root has the line of elements above it that it had
before; what changes is which elements stand beside it.
-/

/-! ## Taking one node out -/

section Detach

variable {doc : Document} (id : NodeId)

theorem size_detach (doc : Document) : (doc.detach id).nodes.size = doc.nodes.size := by
  rw [detach]
  split
  · rfl
  · simp only [modifyChildren, modifyNode, Array.size_modify]

/-- No other node has the node among its children, so the filter may be applied
everywhere. -/
theorem node_detach (links : doc.Linked) (other : NodeId) :
    (doc.detach id).node other =
      { parent := if other = id then none else doc.parent? other
        children := (doc.children other).filter (· != id)
        content := doc.content other } := by
  have unlisted : doc.parent? id ≠ some other →
      (doc.children other).filter (· != id) = doc.children other := by
    intro stranger
    apply List.filter_eq_self.mpr
    intro child listed
    apply bne_iff_ne.mpr
    intro same
    exact stranger (links.mem_children.mp (same ▸ listed))
  rw [detach]
  cases linked : doc.parent? id with
  | none =>
      have stranger : doc.parent? id ≠ some other := by
        rw [linked]
        exact fun impossible => nomatch impossible
      rw [unlisted stranger]
      change doc.node other = _
      split
      · next same =>
        have orphan : (doc.node other).parent = none := same ▸ linked
        rw [← orphan]
        rfl
      · rfl
  | some parent =>
      have inside := index_lt_of_parent? linked
      have parentInside := links.index_lt_of_child linked
      have room : parent.index < (doc.modifyNode id fun n => { n with parent := none }).nodes.size := by
        rw [modifyNode, Array.size_modify]
        exact parentInside
      dsimp only
      rw [modifyChildren, node_modifyNode _ parent other _ room, node_modifyNode doc id other _ inside]
      have keptChildren : other ≠ parent → (doc.children other).filter (· != id) = doc.children other := by
        intro different
        apply unlisted
        rw [linked]
        exact fun same => different (Option.some.inj same).symm
      by_cases isParent : other = parent
      · rw [if_pos isParent]
        by_cases same : other = id
        · simp only [if_pos same]
          rfl
        · simp only [if_neg same]
          rfl
      · rw [if_neg isParent, keptChildren isParent]
        by_cases same : other = id
        · simp only [if_pos same]
          rfl
        · simp only [if_neg same]
          rfl

theorem parent?_detach (links : doc.Linked) (other : NodeId) :
    (doc.detach id).parent? other = if other = id then none else doc.parent? other := by
  rw [parent?, node_detach id links]

theorem children_detach (links : doc.Linked) (other : NodeId) :
    (doc.detach id).children other = (doc.children other).filter (· != id) := by
  rw [children, node_detach id links]

theorem content_detach (links : doc.Linked) (other : NodeId) :
    (doc.detach id).content other = doc.content other := by
  rw [content, node_detach id links]

theorem element?_detach (links : doc.Linked) (other : NodeId) :
    (doc.detach id).element? other = doc.element? other := by
  rw [element?, content_detach id links, element?]

theorem Linked.detach (links : doc.Linked) : (doc.detach id).Linked where
  mem_children := by
    intro child parent
    rw [children_detach id links, parent?_detach id links, List.mem_filter, bne_iff_ne]
    by_cases same : child = id
    · rw [if_pos same]
      exact ⟨fun listed => absurd same listed.2, fun impossible => nomatch impossible⟩
    · rw [if_neg same, links.mem_children]
      exact ⟨fun listed => listed.1, fun linked => ⟨linked, same⟩⟩
  nodup_children := by
    intro parent
    rw [children_detach id links]
    exact List.Nodup.filter _ (links.nodup_children parent)

theorem Grown.detach {P : Element → Prop} (grown : doc.Grown P) : (doc.detach id).Grown P where
  toLinked := grown.toLinked.detach id
  rooted := by
    rw [size_detach]
    exact grown.rooted
  parent_earlier := by
    intro child parent linked
    rw [parent?_detach id grown.toLinked] at linked
    split at linked
    · cases linked
    · exact grown.parent_earlier linked
  parent_holds := by
    intro child parent linked
    rw [parent?_detach id grown.toLinked] at linked
    split at linked
    · cases linked
    · rcases grown.parent_holds linked with atRoot | element
      · exact Or.inl atRoot
      · right
        rw [isElement, content_detach id grown.toLinked]
        exact element
  element_fits := by
    intro other e found
    rw [element?_detach id grown.toLinked] at found
    exact grown.element_fits found

end Detach

/-! ## Trees with branches cut off -/

/-- Whether a document has the elements of another one, each of them with its old
parent or with none. -/
structure Pruned (doc other : Document) : Prop where
  isElement_eq : ∀ id, other.isElement id = doc.isElement id
  parent?_of_parent? : ∀ {id parent : NodeId}, doc.isElement id →
    other.parent? id = some parent → doc.parent? id = some parent

theorem SameShape.pruned {doc other : Document} (same : SameShape doc other) : Pruned doc other where
  isElement_eq := same.isElement_eq
  parent?_of_parent? := fun _ linked => same.parent?_eq _ ▸ linked

theorem isAttached_eq {P : Element → Prop} {doc : Document} (grown : doc.Grown P) (id : NodeId) :
    doc.isAttached id = true ↔
      id = root ∨ ∃ parent, doc.parent? id = some parent ∧ doc.isAttached parent = true := by
  simp only [isAttached, List.contains_iff_mem]
  rw [ancestors_eq grown, List.mem_cons, eq_comm]
  cases doc.parent? id with
  | none => simp
  | some parent => simp

/-- What stands above a node that can be reached can be reached. -/
theorem isAttached_of_above {P : Element → Prop} {doc : Document} (grown : doc.Grown P) {upper lower : NodeId}
    (above : doc.Above upper lower) (attached : doc.isAttached lower = true) : doc.isAttached upper = true := by
  have parentOf {child parent : NodeId} (linked : doc.parent? child = some parent)
      (reached : doc.isAttached child = true) : doc.isAttached parent = true := by
    rcases (isAttached_eq grown child).mp reached with atRoot | ⟨other, otherLinked, otherReached⟩
    · rw [atRoot, grown.parent?_root] at linked
      cases linked
    · rw [linked] at otherLinked
      exact Option.some.inj otherLinked ▸ otherReached
  induction above with
  | parent linked => exact parentOf linked attached
  | outer _ linked inductionHypothesis => exact inductionHypothesis (parentOf linked attached)

theorem isAttached_of_siblings {P : Element → Prop} {doc : Document} (grown : doc.Grown P) {first second : NodeId}
    {between : List NodeId} (siblings : doc.SiblingsAround first between second)
    (attached : doc.isAttached second = true) : doc.isAttached first = true := by
  obtain ⟨parent, before, after, listed⟩ := siblings
  have firstLinked : doc.parent? first = some parent := by
    apply grown.mem_children.mp
    rw [listed]
    exact List.mem_append_right _ List.mem_cons_self
  have secondLinked : doc.parent? second = some parent := by
    apply grown.mem_children.mp
    rw [listed]
    exact List.mem_append_right _ (List.mem_cons_of_mem _ (List.mem_append_right _ List.mem_cons_self))
  have parentAttached := isAttached_of_above grown (.parent secondLinked) attached
  exact (isAttached_eq grown first).mpr (Or.inr ⟨parent, firstLinked, parentAttached⟩)

namespace Pruned

variable {P Q : Element → Prop} {doc other third : Document}

theorem refl (doc : Document) : Pruned doc doc :=
  ⟨fun _ => rfl, fun _ linked => linked⟩

theorem trans (first : Pruned doc other) (second : Pruned other third) : Pruned doc third where
  isElement_eq id := (second.isElement_eq id).trans (first.isElement_eq id)
  parent?_of_parent? := by
    intro id parent element linked
    have before := second.parent?_of_parent? ((first.isElement_eq id).trans element) linked
    exact first.parent?_of_parent? element before

theorem detach (grown : doc.Grown P) (id : NodeId) : Pruned doc (doc.detach id) where
  isElement_eq other := by
    rw [isElement, content_detach id grown.toLinked, isElement]
  parent?_of_parent? := by
    intro other parent _ linked
    rw [parent?_detach id grown.toLinked] at linked
    split at linked
    · cases linked
    · exact linked

/-- An element that can be reached has the elements above it that it had, and these
can be reached too. -/
theorem elementAncestors_eq (pruned : Pruned doc other) (grown : doc.Grown P)
    (grownOther : other.Grown Q) {id : NodeId} (element : doc.isElement id)
    (attached : other.isAttached id = true) :
    other.elementAncestors id = doc.elementAncestors id ∧
      ∀ upper ∈ other.elementAncestors id, other.isAttached upper = true := by
  have none : other.elementAncestors root = [] ∧ doc.elementAncestors root = [] := by
    rw [Document.elementAncestors_eq grown, Document.elementAncestors_eq grownOther,
      grown.parent?_root, grownOther.parent?_root]
    exact ⟨rfl, rfl⟩
  induction id using grown.upward_induction with
  | step id inductionHypothesis =>
    rcases (isAttached_eq grownOther id).mp attached with atRoot | ⟨parent, linked, above⟩
    · rw [atRoot, none.1, none.2]
      exact ⟨rfl, List.forall_mem_nil _⟩
    · have old := pruned.parent?_of_parent? element linked
      rw [Document.elementAncestors_eq grown, Document.elementAncestors_eq grownOther, linked, old]
      dsimp only
      rw [pruned.isElement_eq]
      split
      · next parentElement =>
        have further := inductionHypothesis parent old parentElement above
        rw [further.1]
        refine ⟨rfl, ?_⟩
        rw [List.forall_mem_cons, ← further.1]
        exact ⟨above, further.2⟩
      · next parentOther =>
        rw [(grown.parent_holds old).resolve_right parentOther, none.1, none.2]
        exact ⟨rfl, List.forall_mem_nil _⟩

end Pruned

/-! ## Replacing the text of an element -/

section SetText

variable {P : Element → Prop} {doc : Document} {id : NodeId}

/-- What holds of a document when some nodes are taken out, or a text is added. -/
structure Trimmed (P : Element → Prop) (doc other : Document) : Prop where
  grown : other.Grown P
  pruned : Pruned doc other
  element?_eq : ∀ id, other.element? id = doc.element? id

theorem Trimmed.refl (grown : doc.Grown P) : Trimmed P doc doc :=
  ⟨grown, .refl doc, fun _ => rfl⟩

theorem Trimmed.trans {other third : Document} (first : Trimmed P doc other)
    (second : Trimmed P other third) : Trimmed P doc third :=
  ⟨second.grown, first.pruned.trans second.pruned,
    fun id => (second.element?_eq id).trans (first.element?_eq id)⟩

theorem trimmed_detach (grown : doc.Grown P) (id : NodeId) : Trimmed P doc (doc.detach id) :=
  ⟨grown.detach id, .detach grown id, element?_detach id grown.toLinked⟩

theorem trimmed_foldl_detach (grown : doc.Grown P) (nodes : List NodeId) :
    Trimmed P doc (nodes.foldl detach doc) := by
  induction nodes generalizing doc with
  | nil => exact .refl grown
  | cons node rest inductionHypothesis =>
      have first := trimmed_detach grown node
      exact first.trans (inductionHypothesis first.grown)

theorem trimmed_append_text (grown : doc.Grown P) (element : doc.isElement id) (text : String) :
    Trimmed P doc (doc.append id (.text text)).2 := by
  have inside := index_lt_of_isElement element
  have content := content_insertAt doc (doc.children id).length (.text text) inside
  have elements : ∀ other, (doc.append id (.text text)).2.element? other = doc.element? other := by
    intro other
    rw [element?, append, content, element?]
    split
    · next last =>
      rw [Document.content, node_of_size_le (last ▸ Nat.le_refl _)]
      rfl
    · rfl
  have noElement : ∀ e, NodeContent.text text = .element e → P e := by
    intro e same
    cases same
  refine ⟨grown.append (Or.inr element) noElement, ⟨?_, ?_⟩, elements⟩
  · intro other
    rw [isElement, append, content, isElement]
    split
    · next last =>
      rw [Document.content, node_of_size_le (last ▸ Nat.le_refl _)]
      rfl
    · rfl
  · intro other parent isOld linked
    have old : other ≠ ⟨doc.nodes.size⟩ := by
      intro last
      exact absurd (congrArg NodeId.index last) (Nat.ne_of_lt (index_lt_of_isElement isOld))
    rw [append, parent?_insertAt doc _ _ inside, if_neg old] at linked
    exact linked

theorem trimmed_setText (grown : doc.Grown P) (element : doc.isElement id) (text : String) :
    Trimmed P doc (doc.setText id text) := by
  have emptied := trimmed_foldl_detach grown (doc.children id)
  rw [setText]
  split
  · exact emptied
  · have still := (emptied.pruned.isElement_eq id).trans element
    exact emptied.trans (trimmed_append_text emptied.grown still text)

end SetText

end Document

/-!
## Documents that are only reduced

Cleaning up changes attributes, takes nodes out and replaces texts.  It puts no element
anywhere and gives none another name.  What stands above an element that can still be
reached is then what stood above it before.
-/

/-- The name and the namespace of an element. -/
def Element.kind (e : Element) : String × Option String :=
  (e.name, e.uri)

theorem Element.hasName_eq_of_kind {e other : Element} (same : other.kind = e.kind) (name : String) :
    other.hasName name = e.hasName name := by
  rcases Prod.mk.inj same with ⟨nameEq, uriEq⟩
  rw [hasName, hasName, isSvg, isSvg, nameEq, uriEq]

namespace Document

/-- Any tree. -/
abbrev IsTree (doc : Document) : Prop :=
  doc.Grown fun _ => True

theorem Grown.isTree {P : Element → Prop} {doc : Document} (grown : doc.Grown P) : doc.IsTree :=
  ⟨grown.toLinked, grown.rooted, grown.parent_earlier, grown.parent_holds, fun _ => True.intro⟩

/-! ### Reached elements -/

section Attached

variable {doc : Document} {id other : NodeId}

theorem SameShape.isAttached_eq {changed : Document} (same : SameShape doc changed) (id : NodeId) :
    changed.isAttached id = doc.isAttached id := by
  rw [isAttached, same.ancestors_eq, isAttached]

/-- Taking a node out does not cut off what it does not stand above. -/
theorem isAttached_detach_of_notMem (tree : doc.IsTree) (attached : doc.isAttached other = true)
    (apart : id ∉ doc.ancestors other) : (doc.detach id).isAttached other = true := by
  induction other using tree.upward_induction with
  | step other inductionHypothesis =>
    rw [isAttached_eq (tree.detach id)]
    rcases (isAttached_eq tree other).mp attached with atRoot | ⟨parent, linked, above⟩
    · exact Or.inl atRoot
    · rw [ancestors_eq tree, linked, List.mem_cons, not_or] at apart
      refine Or.inr ⟨parent, ?_, inductionHypothesis parent linked above apart.2⟩
      rw [parent?_detach id tree.toLinked, if_neg (Ne.symm apart.1)]
      exact linked

theorem holds_of_above (tree : doc.IsTree) (above : doc.Above id other) : doc.Holds id := by
  induction above with
  | parent linked => exact tree.parent_holds linked
  | outer _ _ inductionHypothesis => exact inductionHypothesis

theorem detach_root (tree : doc.IsTree) : doc.detach root = doc := by
  rw [detach, tree.parent?_root]

/-- Only the elements above an element can cut it off. -/
theorem isAttached_detach (tree : doc.IsTree) (attached : doc.isAttached other = true)
    (apart : id ≠ other) (beside : id ∉ doc.elementAncestors other) :
    (doc.detach id).isAttached other = true := by
  by_cases atRoot : id = root
  · rw [atRoot, detach_root tree]
    exact attached
  · apply isAttached_detach_of_notMem tree attached
    intro listed
    rcases (mem_ancestors tree).mp listed with same | above
    · exact apart same
    · exact beside ((mem_elementAncestors tree).mpr ⟨above, (holds_of_above tree above).resolve_left atRoot⟩)

/-- No line of an element leads over a node that is none. -/
theorem isAttached_detach_leaf (tree : doc.IsTree) (attached : doc.isAttached other = true)
    (element : doc.isElement other) (leaf : ¬ doc.isElement id) :
    (doc.detach id).isAttached other = true := by
  apply isAttached_detach tree attached
  · intro same
    exact leaf (same ▸ element)
  · intro above
    exact leaf ((mem_elementAncestors tree).mp above).2

theorem isAttached_append_text (tree : doc.IsTree) (element : doc.isElement id)
    (attached : doc.isAttached other = true) (text : String) :
    (doc.append id (.text text)).2.isAttached other = true := by
  have trimmed := trimmed_append_text tree element text
  have inside := index_lt_of_isElement element
  induction other using tree.upward_induction with
  | step other inductionHypothesis =>
    rw [isAttached_eq trimmed.grown]
    rcases (isAttached_eq tree other).mp attached with atRoot | ⟨parent, linked, above⟩
    · exact Or.inl atRoot
    · have old : other ≠ ⟨doc.nodes.size⟩ := by
        intro last
        exact absurd (congrArg NodeId.index last) (Nat.ne_of_lt (index_lt_of_parent? linked))
      refine Or.inr ⟨parent, ?_, inductionHypothesis parent linked above⟩
      rw [append, parent?_insertAt doc _ _ inside, if_neg old]
      exact linked

end Attached

/-! ### The relation -/

structure Reduced (doc other : Document) : Prop where
  tree : other.IsTree
  pruned : Pruned doc other
  kind_eq : ∀ id, (other.element? id).map Element.kind = (doc.element? id).map Element.kind

namespace Reduced

variable {doc other third : Document}

theorem refl (tree : doc.IsTree) : Reduced doc doc :=
  ⟨tree, .refl doc, fun _ => rfl⟩

theorem trans (first : Reduced doc other) (second : Reduced other third) : Reduced doc third :=
  ⟨second.tree, first.pruned.trans second.pruned,
    fun id => (second.kind_eq id).trans (first.kind_eq id)⟩

theorem of_trimmed (trimmed : Trimmed (fun _ => True) doc other) : Reduced doc other :=
  ⟨trimmed.grown, trimmed.pruned, fun id => congrArg (Option.map Element.kind) (trimmed.element?_eq id)⟩

theorem of_sameShape (tree : doc.IsTree) (same : SameShape doc other)
    (kinds : ∀ id, (other.element? id).map Element.kind = (doc.element? id).map Element.kind) :
    Reduced doc other :=
  ⟨same.grown tree fun _ => True.intro, same.pruned, kinds⟩

theorem detach (tree : doc.IsTree) (id : NodeId) : Reduced doc (doc.detach id) :=
  of_trimmed (trimmed_detach tree id)

theorem modifyElement (tree : doc.IsTree) (id : NodeId) {f : Element → Element}
    (kept : ∀ e, (f e).kind = e.kind) : Reduced doc (doc.modifyElement id f) := by
  apply of_sameShape tree (sameShape_modifyElement doc id f)
  intro node
  rw [element?_modifyElement]
  split
  · rw [Option.map_map]
    exact congrArg (fun g => Option.map g (doc.element? node)) (funext kept)
  · rfl

theorem foldl_modifyElement (tree : doc.IsTree) {f : Element → Element}
    (kept : ∀ e, (f e).kind = e.kind) (nodes : List NodeId) :
    Reduced doc (nodes.foldl (fun doc node => doc.modifyElement node f) doc) := by
  induction nodes generalizing doc with
  | nil => exact refl tree
  | cons node rest inductionHypothesis =>
      have first := modifyElement tree node kept
      exact first.trans (inductionHypothesis first.tree)

theorem mapElements (tree : doc.IsTree) {f : Element → Element} (kept : ∀ e, (f e).kind = e.kind) :
    Reduced doc (doc.mapElements f) :=
  foldl_modifyElement tree kept doc.elements

theorem isElement_eq (reduced : Reduced doc other) (id : NodeId) : other.isElement id = doc.isElement id :=
  reduced.pruned.isElement_eq id

theorem exists_element? (reduced : Reduced doc other) {id : NodeId} {e : Element}
    (found : other.element? id = some e) : ∃ old, doc.element? id = some old ∧ old.kind = e.kind := by
  have kinds := reduced.kind_eq id
  rw [found] at kinds
  exact Option.map_eq_some_iff.mp kinds.symm

theorem hasName_eq (reduced : Reduced doc other) (id : NodeId) (name : String) :
    other.hasName id name = doc.hasName id name := by
  have kinds := reduced.kind_eq id
  rw [hasName, hasName]
  cases found : other.element? id with
  | none =>
      rw [found] at kinds
      rw [Option.map_eq_none_iff.mp kinds.symm]
  | some e =>
      rcases reduced.exists_element? found with ⟨old, foundOld, same⟩
      rw [foundOld]
      exact Element.hasName_eq_of_kind same.symm name

/-- An element that can be reached stands below the elements below which it stood. -/
theorem elementAncestors_eq (reduced : Reduced doc other) (tree : doc.IsTree) {id : NodeId}
    (element : doc.isElement id) (attached : other.isAttached id = true) :
    other.elementAncestors id = doc.elementAncestors id :=
  (reduced.pruned.elementAncestors_eq tree reduced.tree element attached).1

end Reduced

end Document
end SlimSvg
