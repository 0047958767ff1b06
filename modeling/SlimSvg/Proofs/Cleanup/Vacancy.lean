import SlimSvg.Proofs.Cleanup.Survivors

namespace SlimSvg
namespace Cleanup

/-!
# What one visit takes out as empty

An element that loses its last child on the way is empty itself when the visit leaves it.
The visit leaves the children before their parent, so one visit comes to the end of this:
it takes out the elements that hold nothing but such elements, all of them, and the next
visit finds nothing to take.
-/

open Document (Culled)

/-! ## Vacant elements -/

/-- For which elements of a document it is told by themselves and their parents that they
may go: whatever they hold, or once they hold nothing. -/
structure Vacancy where
  always : Document → NodeId → Prop
  empty : Document → NodeId → Prop

namespace Vacancy

/-- The nodes that go, down from those that go anyway: what may go once it is empty does
go if all that it holds goes. -/
inductive Vanishes (rule : Vacancy) (doc : Document) : NodeId → Prop where
  | always {node : NodeId} (goes : rule.always doc node) : Vanishes rule doc node
  | empty {node : NodeId} (mayGo : rule.empty doc node)
      (inside : ∀ child ∈ doc.children node, Vanishes rule doc child) : Vanishes rule doc node

/-- Texts go once they are empty, and references to texts that refer to nothing go anyway. -/
def texts : Vacancy where
  always doc node := ∃ e, doc.element? node = some e ∧ e.hasName "tref" = true ∧ e.href? = none
  empty doc node := ∃ e, doc.element? node = some e ∧ (e.hasName "text" = true ∨ e.hasName "tspan" = true)

/-- Containers inside of an element, but not those that a switch chooses from, go once they
are empty, unless they have a use without children. -/
def containers : Vacancy where
  always _ _ := False
  empty doc node := ∃ e parent, doc.element? node = some e ∧ doc.parent? node = some parent ∧
    doc.isElement parent = true ∧ e.isSvg = true ∧ Vocabulary.isContainer e.name = true ∧
    isUsedWithoutChildren e = false ∧ doc.hasName parent "switch" = false

/-- Whether a test that is made on leaving an element finds out whether it may go.  By then
elements may have been taken out elsewhere. -/
structure Decides (rule : Vacancy) (vacant : Document → NodeId → List NodeId → Bool) : Prop where
  isElement : ∀ {doc node}, rule.always doc node ∨ rule.empty doc node → doc.isElement node = true
  congr : ∀ {doc other node}, doc.Culled other → other.parent? node = doc.parent? node →
    (rule.always other node ↔ rule.always doc node) ∧ (rule.empty other node ↔ rule.empty doc node)
  vacant_iff : ∀ {doc other node}, doc.IsTree → doc.Culled other →
    (vacant other node (doc.elementAncestors node).reverse = true ↔
      rule.always doc node ∨ rule.empty doc node ∧ other.children node = [])

/-- A text is no reference to one. -/
theorem not_tref_of_text {e : Element} (named : e.hasName "text" = true ∨ e.hasName "tspan" = true) :
    e.hasName "tref" = false := by
  simp only [Element.hasName, Bool.and_eq_true, beq_iff_eq] at named ⊢
  rcases named with ⟨-, named⟩ | ⟨-, named⟩ <;> rw [named] <;> exact Bool.and_eq_false_imp.mpr fun _ => rfl

theorem decides_texts : texts.Decides fun doc node _ => isVacantText doc node where
  isElement := by
    rintro doc node (⟨e, found, -⟩ | ⟨e, found, -⟩) <;> exact Document.isElement_of_element? found
  congr := by
    intro doc other node culled _
    simp only [texts, culled.element?_eq, true_and, iff_self]
  vacant_iff := by
    intro doc other node _ culled
    rw [isVacantText, culled.element?_eq]
    cases found : doc.element? node with
    | none => simp only [texts, found, reduceCtorEq, false_and, exists_false, or_self, Bool.false_eq_true]
    | some e =>
        simp only [texts, found, Option.some.injEq, exists_eq_left', Bool.or_eq_true]
        by_cases named : e.hasName "text" = true ∨ e.hasName "tspan" = true
        · rw [if_pos named, not_tref_of_text named, List.isEmpty_iff]
          simp only [named, Bool.false_eq_true, false_and, false_or, true_and]
        · rw [if_neg named, Bool.and_eq_true, Option.isNone_iff_eq_none]
          simp only [named, false_and, or_false]

theorem decides_containers : containers.Decides isVacantContainer where
  isElement := by
    rintro doc node (impossible | ⟨e, parent, found, -⟩)
    · cases impossible
    · exact Document.isElement_of_element? found
  congr := by
    intro doc other node culled linked
    simp only [containers, culled.element?_eq, culled.isElement_eq, culled.reduced.hasName_eq, linked, iff_self,
      true_and]
  vacant_iff := by
    intro doc other node tree culled
    have upper : (doc.elementAncestors node).reverse.getLast? = doc.parentElement? node := by
      rw [List.getLast?_reverse, Document.parentElement?_eq_head?]
    rw [isVacantContainer, culled.element?_eq, upper]
    cases found : doc.element? node with
    | none => simp only [containers, found, reduceCtorEq, false_and, exists_false, or_self, Bool.false_eq_true]
    | some e =>
        simp only [containers, found, Option.some.injEq, exists_and_left, exists_eq_left', false_or]
        cases above : doc.parentElement? node with
        | none =>
            refine iff_of_false Bool.false_ne_true ?_
            rintro ⟨⟨parent, linked, element, -⟩, -⟩
            have found := (Document.parentElement?_eq_some tree).mpr ⟨linked, element⟩
            rw [above] at found
            cases found
        | some parent =>
            rcases (Document.parentElement?_eq_some tree).mp above with ⟨linked, element⟩
            simp only [linked, Option.some.injEq, exists_eq_left', element, culled.reduced.hasName_eq, true_and,
              Bool.and_eq_true, Bool.not_eq_true', List.isEmpty_iff]
            constructor
            · rintro ⟨⟨⟨⟨svg, container⟩, childless⟩, unused⟩, choice⟩
              exact ⟨⟨svg, container, unused, choice⟩, childless⟩
            · rintro ⟨⟨svg, container, unused, choice⟩, childless⟩
              exact ⟨⟨⟨⟨svg, container⟩, childless⟩, unused⟩, choice⟩

section Vanishes

variable {rule : Vacancy} {doc other : Document} {node : NodeId}

theorem vanishes_iff : rule.Vanishes doc node ↔
    rule.always doc node ∨ rule.empty doc node ∧ ∀ child ∈ doc.children node, rule.Vanishes doc child := by
  constructor
  · intro vanishes
    cases vanishes with
    | always goes => exact Or.inl goes
    | empty mayGo inside => exact Or.inr ⟨mayGo, inside⟩
  · rintro (goes | ⟨mayGo, inside⟩)
    · exact .always goes
    · exact .empty mayGo inside

variable {vacant : Document → NodeId → List NodeId → Bool}

theorem Vanishes.isElement (decides : rule.Decides vacant) (vanishes : rule.Vanishes doc node) :
    doc.isElement node = true :=
  decides.isElement ((vanishes_iff.mp vanishes).imp_right And.left)

end Vanishes

/-! ## On the way -/

/-- What is left of a document when the visit has left some of its nodes: of these, all
that vanish are out of their places, and nothing else is. -/
structure Left (rule : Vacancy) (doc : Document) (met : NodeId → Prop) (other : Document) : Prop where
  culled : doc.Culled other
  gone : ∀ {id}, met id → rule.Vanishes doc id → other.parent? id = none
  stays : ∀ {id}, (met id → ¬ rule.Vanishes doc id) → other.parent? id = doc.parent? id

namespace Left

variable {rule : Vacancy} {doc other : Document} {met more : NodeId → Prop} {node parent : NodeId}
  {vacant : Document → NodeId → List NodeId → Bool}

theorem start (tree : doc.IsTree) : rule.Left doc (fun _ => False) doc where
  culled := .refl tree
  gone impossible := impossible.elim
  stays _ := rfl

/-- It only counts which vanishing nodes were met. -/
theorem of_iff (left : rule.Left doc met other) (same : ∀ id, rule.Vanishes doc id → (more id ↔ met id)) :
    rule.Left doc more other where
  culled := left.culled
  gone listed vanishes := left.gone ((same _ vanishes).mp listed) vanishes
  stays safe := left.stays fun listed vanishes => safe ((same _ vanishes).mpr listed) vanishes

/-- A node whose children were all met is empty if all of them vanish. -/
theorem children_eq_nil_iff (left : rule.Left doc met other) (tree : doc.IsTree)
    (below : ∀ child ∈ doc.children node, met child) :
    other.children node = [] ↔ ∀ child ∈ doc.children node, rule.Vanishes doc child := by
  rw [left.culled.children_eq, List.filter_eq_nil_iff]
  refine forall₂_congr fun child listed => ?_
  rw [beq_iff_eq]
  constructor
  · intro out
    by_contra kept
    exact out ((left.stays fun _ => kept).trans (tree.mem_children.mp listed))
  · intro vanishes
    rw [left.gone (below child listed) vanishes]
    exact fun impossible => nomatch impossible

/-- On leaving a node whose children were left it is taken out if it vanishes. -/
theorem leave (left : rule.Left doc met other) (tree : doc.IsTree) (decides : rule.Decides vacant)
    (below : ∀ child ∈ doc.children node, met child) :
    rule.Left doc (fun id => met id ∨ id = node)
      (if vacant other node (doc.elementAncestors node).reverse then other.detach node else other) := by
  have found : vacant other node (doc.elementAncestors node).reverse = true ↔ rule.Vanishes doc node := by
    rw [decides.vacant_iff tree left.culled, left.children_eq_nil_iff tree below, ← vanishes_iff]
  split
  · next out =>
    have vanishes := found.mp out
    have culled := left.culled
    have element : other.isElement node = true := (culled.isElement_eq node).trans (vanishes.isElement decides)
    refine ⟨culled.trans (.detach culled.tree element), ?_, ?_⟩
    · intro id listed goes
      rw [Document.parent?_detach node culled.tree.toLinked]
      split
      · rfl
      · next other => exact left.gone (listed.resolve_right other) goes
    · intro id safe
      have different : id ≠ node := fun same => safe (Or.inr same) (same ▸ vanishes)
      rw [Document.parent?_detach node culled.tree.toLinked, if_neg different]
      exact left.stays fun listed => safe (Or.inl listed)
  · next kept =>
    refine left.of_iff fun id goes => or_iff_left fun same => ?_
    exact kept (found.mpr (same ▸ goes))

end Left

/-! ## The visit -/

/-- The visitor that takes out what is vacant. -/
def visitor (vacant : Document → NodeId → List NodeId → Bool) : Visitor Unit where
  exit node ancestors := Visit.editDocument fun doc => if vacant doc node ancestors then doc.detach node else doc

theorem exit_visitor (vacant : Document → NodeId → List NodeId → Bool) (node : NodeId) (ancestors : List NodeId) :
    (visitor vacant).exit node ancestors =
      Visit.editDocument fun doc => if vacant doc node ancestors then doc.detach node else doc :=
  rfl

section Visit

variable {rule : Vacancy} {doc : Document} {vacant : Document → NodeId → List NodeId → Bool}

/-- What is left after some nodes were met. -/
def Scenes (rule : Vacancy) (doc : Document) (met : NodeId → Prop) (scene : Scene Unit) : Prop :=
  rule.Left doc met scene.document

/-- Whether a visit leaves the nodes below some others, if none of them was met before. -/
def Clears (rule : Vacancy) (doc : Document) (visit : Visit Unit Unit) (nodes : List NodeId) : Prop :=
  ∀ met : NodeId → Prop, (∀ id, doc.Below nodes id → ¬ met id) →
    visit.Leads (rule.Scenes doc met) (rule.Scenes doc fun id => met id ∨ doc.Below nodes id)

/-- A node that is no element may be passed over: nothing below it can vanish. -/
theorem clears_leaf (tree : doc.IsTree) (decides : rule.Decides vacant) {node parent : NodeId}
    (linked : doc.parent? node = some parent) (leaf : doc.isElement node = false) :
    rule.Clears doc (pure ()) [node] := by
  intro met _ scene left
  refine ⟨(), scene, Visit.gives_pure () scene, left.of_iff fun id goes => or_iff_left fun below => ?_⟩
  have element := goes.isElement decides
  rcases (Document.mem_ancestors_iff_child tree).mp (Document.below_singleton.mp below) with rfl | ⟨child, listed, -⟩
  · rw [leaf] at element
    cases element
  · rw [Document.children_leaf tree linked (by rw [leaf]; exact Bool.false_ne_true)] at listed
    cases listed

/-- The children of a node are left in order. -/
theorem clears_children (tree : doc.IsTree) (decides : rule.Decides vacant) {parent : NodeId}
    {ancestors : List NodeId} {visitElement : (node parent : NodeId) → List NodeId → Visit Unit Unit}
    (children : List NodeId) (distinct : children.Nodup)
    (linked : ∀ child ∈ children, doc.parent? child = some parent)
    (elements : ∀ child ∈ children, doc.isElement child = true →
      rule.Clears doc (visitElement child parent ancestors) [child]) :
    rule.Clears doc ((visitor vacant).visitChildren visitElement parent ancestors children) children := by
  induction children with
  | nil =>
      intro met _ scene left
      exact ⟨(), scene, Visit.gives_pure () scene, left.of_iff fun id _ => or_iff_left Document.not_below_nil⟩
  | cons child rest inductionHypothesis =>
      intro met fresh
      rw [List.nodup_cons] at distinct
      rw [List.forall_mem_cons] at linked elements
      have freshHere : ∀ id, doc.Below [child] id → ¬ met id :=
        fun id below => fresh id (Document.below_cons.mpr (Or.inl (Document.below_singleton.mp below)))
      -- The rest of the children stands apart from what is below this one.
      have apart : ∀ id, doc.Below rest id → ¬ (met id ∨ doc.Below [child] id) := by
        rintro id below (before | here)
        · exact fresh id (Document.below_cons.mpr (Or.inr below)) before
        · rcases below with ⟨later, listed, covers⟩
          have same := Document.child_unique tree linked.1 (linked.2 later listed) (Document.below_singleton.mp here) covers
          exact distinct.1 (same ▸ listed)
      have others : ((visitor vacant).visitChildren visitElement parent ancestors rest).Leads
          (rule.Scenes doc fun id => met id ∨ doc.Below [child] id)
          (rule.Scenes doc fun id => met id ∨ doc.Below (child :: rest) id) := by
        intro scene left
        rcases inductionHypothesis distinct.2 linked.2 elements.2 _ apart scene left with ⟨value, after, gives, done⟩
        refine ⟨value, after, gives, done.of_iff fun id _ => ?_⟩
        rw [or_assoc, Document.below_cons, Document.below_singleton]
      rw [Visitor.visitChildren]
      refine Visit.leads_document_bind fun current => ?_
      rintro scene ⟨left, rfl⟩
      have inPlace : (scene.document.parent? child == some parent) = true := by
        have unmet := freshHere child (Document.below_singleton.mpr (Document.mem_ancestors_self tree child))
        rw [left.stays fun listed => absurd listed unmet, linked.1]
        exact beq_self_eq_true _
      have passed : doc.isElement child = false → (pure () : Visit Unit Unit).Leads (rule.Scenes doc met)
          (rule.Scenes doc fun id => met id ∨ doc.Below [child] id) :=
        fun leaf => clears_leaf tree decides linked.1 leaf met freshHere
      dsimp only
      rw [if_pos inPlace, left.culled.content_eq]
      cases held : doc.content child with
      | element e =>
          have element : doc.isElement child = true := by
            rw [Document.isElement, held]
            rfl
          exact ((elements.1 element met freshHere).bind fun _ => others) scene left
      | _ => exact ((passed (by rw [Document.isElement, held]; rfl)).bind fun _ => others) scene left

/-- An element is left after its children.  A depth that reaches the end of the table is
enough. -/
theorem clears_element (tree : doc.IsTree) (decides : rule.Decides vacant) (depth : Nat) :
    ∀ {node parent : NodeId}, doc.parent? node = some parent → doc.isElement node = true →
      doc.nodes.size ≤ node.index + depth →
      rule.Clears doc ((visitor vacant).visitElement depth node parent (doc.elementAncestors node).reverse) [node] := by
  induction depth with
  | zero =>
      intro node parent linked _ deep
      exact absurd (Document.index_lt_of_parent? linked) (Nat.not_lt.mpr deep)
  | succ depth inductionHypothesis =>
      intro node parent linked element deep met fresh
      have children : rule.Clears doc ((visitor vacant).visitChildren ((visitor vacant).visitElement depth) node
          ((doc.elementAncestors node).reverse ++ [node]) (doc.children node)) (doc.children node) := by
        refine clears_children tree decides _ (tree.nodup_children node) (fun child => tree.mem_children.mp) ?_
        intro child listed childElement
        have childLinked := tree.mem_children.mp listed
        have later := tree.parent_earlier childLinked
        have line : (doc.elementAncestors node).reverse ++ [node] = (doc.elementAncestors child).reverse := by
          rw [Document.elementAncestors_eq tree child, childLinked]
          dsimp only
          rw [if_pos element, List.reverse_cons]
        rw [line]
        exact inductionHypothesis childLinked childElement (by omega)
      have freshBelow : ∀ id, doc.Below (doc.children node) id → ¬ met id := fun id below =>
        fresh id (Document.below_singleton.mpr ((Document.mem_ancestors_iff_child tree).mpr (Or.inr below)))
      have leaving : ((visitor vacant).exit node (doc.elementAncestors node).reverse).Leads
          (rule.Scenes doc fun id => met id ∨ doc.Below (doc.children node) id)
          (rule.Scenes doc fun id => met id ∨ doc.Below [node] id) := by
        rw [exit_visitor]
        refine Visit.leads_editDocument fun scene left => ?_
        have inside : ∀ child ∈ doc.children node, met child ∨ doc.Below (doc.children node) child :=
          fun child listed => Or.inr ⟨child, listed, Document.mem_ancestors_self tree child⟩
        refine (left.leave tree decides inside).of_iff fun id _ => ?_
        rw [Document.below_singleton, Document.mem_ancestors_iff_child tree, or_assoc, or_comm (a := id = node)]
        rfl
      have entered : (visitor vacant).enter node (doc.elementAncestors node).reverse = pure .descend := rfl
      rw [Visitor.visitElement, entered, pure_bind]
      refine Visit.leads_document_bind fun current => ?_
      rintro scene ⟨left, rfl⟩
      have inPlace : (VisitFlow.descend == VisitFlow.descend && scene.document.parent? node == some parent) = true := by
        have unmet := fresh node (Document.below_singleton.mpr (Document.mem_ancestors_self tree node))
        rw [left.stays fun listed => absurd listed unmet, linked]
        exact beq_self_eq_true _
      have allThere : scene.document.children node = doc.children node := by
        rw [left.culled.children_eq, List.filter_eq_self]
        intro child listed
        have unmet := freshBelow child ⟨child, listed, Document.mem_ancestors_self tree child⟩
        rw [left.stays fun met => absurd met unmet, tree.mem_children.mp listed]
        exact beq_self_eq_true _
      dsimp only
      rw [if_pos inPlace, allThere]
      exact ((children met freshBelow).bind fun _ => leaving) scene left

/-- A visit of the whole document leaves all that can be reached. -/
theorem exists_left (tree : doc.IsTree) (bare : doc.isElement Document.root = false) (decides : rule.Decides vacant) :
    ∃ other, dropVacant vacant doc = .ok { document := other } ∧
      rule.Left doc (fun id => doc.isAttached id = true) other := by
  have children : rule.Clears doc ((visitor vacant).visitChildren
      ((visitor vacant).visitElement (doc.nodes.size + Visitor.extraDepth)) Document.root []
      (doc.children Document.root)) (doc.children Document.root) := by
    refine clears_children tree decides _ (tree.nodup_children _) (fun child => tree.mem_children.mp) ?_
    intro child listed childElement
    have childLinked := tree.mem_children.mp listed
    have line : ([] : List NodeId) = (doc.elementAncestors child).reverse := by
      rw [Document.elementAncestors_eq tree child, childLinked]
      dsimp only
      rw [bare, Document.elementAncestors_eq tree Document.root, tree.parent?_root]
      rfl
    have clears := clears_element tree decides (doc.nodes.size + Visitor.extraDepth) childLinked childElement (by omega)
    rw [← line] at clears
    exact clears
  rcases children (fun _ => False) (fun _ _ impossible => impossible) ⟨(), doc⟩ (.start tree) with
    ⟨value, after, gives, left⟩
  refine ⟨after.document, ?_, left.of_iff fun id goes => ?_⟩
  · have ran : (visitor vacant).run ⟨(), doc⟩ = (.ok (), after) := by
      change Visit.Gives ((visitor vacant).visitRoot (doc.nodes.size + Visitor.extraDepth)) ⟨(), doc⟩ () after
      have entered : (visitor vacant).enterRoot = pure .descend := rfl
      rw [Visitor.visitRoot, entered, pure_bind, if_pos (beq_self_eq_true _)]
      exact (Visit.gives_document _).bind (gives.bind (Visit.gives_pure () after))
    exact DocumentEdit.visiting_of_run ran
  · have notRoot : id ≠ Document.root := by
      rintro rfl
      have element := goes.isElement decides
      rw [bare] at element
      cases element
    rw [Document.isAttached, List.contains_iff_mem, Document.mem_ancestors_iff_child tree, or_iff_right notRoot,
      false_or]
    rfl

end Visit

/-! ## After the visit -/

namespace Left

variable {rule : Vacancy} {doc other : Document} {vacant : Document → NodeId → List NodeId → Bool} {id : NodeId}

/-- What vanishes goes with all that is below it, and nothing else goes. -/
theorem isAttached_iff (left : rule.Left doc (fun id => doc.isAttached id = true) other) (tree : doc.IsTree)
    (bare : doc.isElement Document.root = false) (decides : rule.Decides vacant) (id : NodeId) :
    other.isAttached id = true ↔
      doc.isAttached id = true ∧ ∀ upper ∈ doc.ancestors id, ¬ rule.Vanishes doc upper := by
  induction id using tree.upward_induction with
  | step id above =>
    rw [Document.ancestors_eq tree, List.forall_mem_cons]
    cases linked : doc.parent? id with
    | none =>
        have orphan : other.parent? id = none := by
          rw [Option.eq_none_iff_forall_ne_some]
          intro parent still
          rw [left.culled.parent?_of_parent? still] at linked
          cases linked
        rw [Document.isAttached_eq left.culled.tree, Document.isAttached_eq tree, orphan, linked]
        simp only [reduceCtorEq, false_and, exists_false, or_false, List.not_mem_nil, false_imp_iff, implies_true, and_true]
        refine (and_iff_left_of_imp ?_).symm
        rintro rfl vanishes
        have element := vanishes.isElement decides
        rw [bare] at element
        cases element
    | some parent =>
        have attached : doc.isAttached id = true ↔ doc.isAttached parent = true := by
          rw [Culled.isAttached_child (.refl tree) tree linked, linked, beq_self_eq_true, Bool.and_true]
        rw [left.culled.isAttached_child tree linked, Bool.and_eq_true, beq_iff_eq, above parent linked, ← attached]
        constructor
        · rintro ⟨⟨reached, safe⟩, still⟩
          refine ⟨reached, fun vanishes => ?_, safe⟩
          rw [left.gone reached vanishes] at still
          cases still
        · rintro ⟨reached, kept, safe⟩
          exact ⟨⟨reached, safe⟩, (left.stays fun _ => kept).trans linked⟩

/-- What is left and would vanish now has vanished. -/
theorem vanishes_before (left : rule.Left doc (fun id => doc.isAttached id = true) other) (tree : doc.IsTree)
    (bare : doc.isElement Document.root = false) (decides : rule.Decides vacant) {id : NodeId}
    (vanishes : rule.Vanishes other id) (attached : other.isAttached id = true) : rule.Vanishes doc id := by
  have inPlace : ∀ {id : NodeId}, other.isAttached id = true → other.parent? id = doc.parent? id := by
    intro id attached
    have safe := ((left.isAttached_iff tree bare decides id).mp attached).2
    exact left.stays fun _ => safe id (Document.mem_ancestors_self tree id)
  induction vanishes with
  | always goes => exact .always ((decides.congr left.culled (inPlace attached)).1.mp goes)
  | @empty id mayGo inside inductionHypothesis =>
      refine .empty ((decides.congr left.culled (inPlace attached)).2.mp mayGo) fun child listed => ?_
      by_contra kept
      have linked := (left.stays fun _ => kept).trans (tree.mem_children.mp listed)
      have still := left.culled.tree.mem_children.mpr linked
      have reached := (Document.isAttached_eq left.culled.tree child).mpr (Or.inr ⟨id, linked, attached⟩)
      exact kept (inductionHypothesis child still reached)

/-- Nothing that is left vanishes. -/
theorem not_vanishes_again (left : rule.Left doc (fun id => doc.isAttached id = true) other) (tree : doc.IsTree)
    (bare : doc.isElement Document.root = false) (decides : rule.Decides vacant)
    (attached : other.isAttached id = true) : ¬ rule.Vanishes other id := by
  intro vanishes
  have safe := ((left.isAttached_iff tree bare decides id).mp attached).2
  exact safe id (Document.mem_ancestors_self tree id) (left.vanishes_before tree bare decides vanishes attached)

end Left

section Taking

variable {rule : Vacancy} {doc other : Document} {vacant : Document → NodeId → List NodeId → Bool}

/-- What is left by one visit is left by the next one as it is. -/
theorem dropVacant_again (left : rule.Left doc (fun id => doc.isAttached id = true) other) (tree : doc.IsTree)
    (bare : doc.isElement Document.root = false) (decides : rule.Decides vacant) :
    dropVacant vacant other = .ok { document := other } := by
  have stillBare : other.isElement Document.root = false := (left.culled.isElement_eq _).trans bare
  rcases exists_left left.culled.tree stillBare decides with ⟨third, ran, again⟩
  have same : third = other := again.culled.eq_of_parent?_eq left.culled.tree fun id =>
    again.stays (left.not_vanishes_again tree bare decides)
  rw [ran, same]

/-- What is taken out is what vanishes and what is below it, and all else is as before. -/
theorem dropVacant_spec (tree : doc.IsTree) (bare : doc.isElement Document.root = false)
    (decides : rule.Decides vacant) :
    ∃ other, dropVacant vacant doc = .ok { document := other } ∧
      (∀ id, other.isAttached id = true ↔
        doc.isAttached id = true ∧ ∀ upper ∈ doc.ancestors id, ¬ rule.Vanishes doc upper) ∧
      (∀ id, other.content id = doc.content id) ∧
      (∀ id, other.isAttached id = true → other.parent? id = doc.parent? id ∧
        other.children id = (doc.children id).filter other.isAttached) ∧
      dropVacant vacant other = .ok { document := other } := by
  rcases exists_left tree bare decides with ⟨other, ran, left⟩
  have attached := left.isAttached_iff tree bare decides
  refine ⟨other, ran, attached, left.culled.content_eq, fun id reached => ⟨?_, ?_⟩,
    dropVacant_again left tree bare decides⟩
  · exact left.stays fun _ => ((attached id).mp reached).2 id (Document.mem_ancestors_self tree id)
  · rw [left.culled.filter_children tree, if_pos reached]

end Taking

end Vacancy

/-- One visit takes out all elements that are vacant, and all that become vacant by that:
what is out of the tree afterwards is what vanishes and what is below it.  All else has its
content, its place and its order, and the same visit once more changes nothing. -/
theorem one_visit_takes_all_vacant {plugin : Plugin} {rule : Vacancy}
    (listed : (plugin, rule) ∈ [(removeEmptyText, Vacancy.texts), (removeEmptyContainers, Vacancy.containers)])
    (situation : Situation) (p : Parameters) {doc : Document} (tree : doc.IsTree)
    (bare : doc.isElement Document.root = false) :
    ∃ edit other, plugin.prepare situation p = some edit ∧ edit doc = .ok { document := other } ∧
      (∀ id, other.isAttached id = true ↔
        doc.isAttached id = true ∧ ∀ upper ∈ doc.ancestors id, ¬ rule.Vanishes doc upper) ∧
      (∀ id, other.content id = doc.content id) ∧
      (∀ id, other.isAttached id = true → other.parent? id = doc.parent? id ∧
        other.children id = (doc.children id).filter other.isAttached) ∧
      edit other = .ok { document := other } := by
  simp only [List.mem_cons, List.not_mem_nil, or_false, Prod.mk.injEq] at listed
  rcases listed with ⟨rfl, rfl⟩ | ⟨rfl, rfl⟩
  · rcases Vacancy.dropVacant_spec tree bare Vacancy.decides_texts with ⟨other, ran, rest⟩
    exact ⟨_, other, rfl, ran, rest⟩
  · rcases Vacancy.dropVacant_spec tree bare Vacancy.decides_containers with ⟨other, ran, rest⟩
    exact ⟨_, other, rfl, ran, rest⟩

/-- The two empty containers take the group around them along; what a switch may choose and
the mask with an id stay. -/
theorem nested_containers_go_at_once :
    ∃ doc edit other,
      Document.read "<svg><g><g/><defs/></g><switch><g/></switch><mask id='m'/></svg>" none = .ok doc ∧
      removeEmptyContainers.prepare ⟨1, none, .ofDocument doc⟩ .empty = some edit ∧
      edit doc = .ok { document := other } ∧ (∀ index ∈ [2, 3, 4], other.isAttached ⟨index⟩ = false) ∧
      edit other = .ok { document := other } := by
  have computed : ((Document.read "<svg><g><g/><defs/></g><switch><g/></switch><mask id='m'/></svg>"
      none).toOption.map fun doc =>
        [2, 3, 4].all (fun index => (doc.element? ⟨index⟩).any fun e => (doc.parent? ⟨index⟩).any fun parent =>
            doc.isElement parent && e.isSvg && Vocabulary.isContainer e.name && !isUsedWithoutChildren e
              && !doc.hasName parent "switch")
          && doc.children ⟨2⟩ == [⟨3⟩, ⟨4⟩] && doc.children ⟨3⟩ == [] && doc.children ⟨4⟩ == []) = some true := by
    decide +kernel
  rcases Option.map_eq_some_iff.mp computed with ⟨doc, parsed, facts⟩
  rw [toOption_eq_some] at parsed
  simp only [Bool.and_eq_true, List.all_eq_true, Option.any_eq_true, Bool.not_eq_true', beq_iff_eq] at facts
  rcases facts with ⟨⟨⟨conditions, outer⟩, first⟩, second⟩
  have mayGo : ∀ index ∈ [2, 3, 4], Vacancy.containers.empty doc ⟨index⟩ := by
    intro index listed
    rcases conditions index listed with ⟨e, found, parent, linked, ⟨⟨⟨element, svg⟩, container⟩, unused⟩, choice⟩
    exact ⟨e, parent, found, linked, element, svg, container, unused, choice⟩
  have leaf : ∀ index ∈ [3, 4], Vacancy.containers.Vanishes doc ⟨index⟩ := by
    intro index listed
    refine .empty (mayGo index (List.mem_cons_of_mem 2 listed)) fun child inside => ?_
    simp only [List.mem_cons, List.not_mem_nil, or_false] at listed
    rcases listed with rfl | rfl
    · rw [first] at inside
      cases inside
    · rw [second] at inside
      cases inside
  have group : Vacancy.containers.Vanishes doc ⟨2⟩ := by
    refine .empty (mayGo 2 List.mem_cons_self) ?_
    rw [outer, List.forall_mem_cons]
    exact ⟨leaf 3 (by decide), List.forall_mem_singleton.mpr (leaf 4 (by decide))⟩
  have tree := (Document.grown_of_read parsed).isTree
  rcases @one_visit_takes_all_vacant removeEmptyContainers Vacancy.containers (by simp) ⟨1, none, .ofDocument doc⟩
    .empty doc tree (Document.isElement_root_of_read parsed) with
      ⟨edit, other, prepared, ran, attached, -, -, again⟩
  refine ⟨doc, edit, other, parsed, prepared, ran, fun index listed => ?_, again⟩
  rw [← Bool.not_eq_true, attached, not_and]
  rintro - safe
  rcases List.mem_cons.mp listed with rfl | inside
  · exact safe ⟨2⟩ (Document.mem_ancestors_self tree _) group
  · exact safe ⟨index⟩ (Document.mem_ancestors_self tree _) (leaf index inside)

end Cleanup
end SlimSvg
