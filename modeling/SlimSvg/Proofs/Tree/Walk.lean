import SlimSvg.Proofs.Tree.Kinship

namespace SlimSvg
namespace Document

/-!
# The walk down from a node

The walk keeps a stack of nodes that are to be listed.  What is listed and what is
on the stack is all different, comes from the node where the walk began, and holds every
child of what is listed.  The table has no more nodes than the walk has steps, so the
stack is empty at the end, and the walk has listed every node below its origin once.

All this rests on the ways up alone, which end in a forest, whatever the nodes hold that have
children.
-/

theorem walk_nil (doc : Document) (bound : Nat) : doc.walk bound [] = [] := by
  cases bound <;> rfl

/-- What a stack of nodes comes to when it is worked off without a bound: the node on top
is listed, and its children take its place. -/
inductive Walks (doc : Document) : List NodeId → List NodeId → Prop where
  | done : Walks doc [] []
  | step {id : NodeId} {stack listed : List NodeId} (further : Walks doc (doc.children id ++ stack) listed) :
      Walks doc (id :: stack) (id :: listed)

/-- A walk that ends is not changed by a bound that leaves room for it. -/
theorem Walks.walk_eq {doc : Document} {stack listed : List NodeId} (walks : doc.Walks stack listed) {bound : Nat}
    (room : listed.length ≤ bound) : doc.walk bound stack = listed := by
  induction walks generalizing bound with
  | done => exact walk_nil doc bound
  | step _ inductionHypothesis =>
      rcases Nat.exists_eq_add_one.mpr (Nat.lt_of_lt_of_le (Nat.succ_pos _) room) with ⟨less, rfl⟩
      rw [walk, inductionHypothesis (Nat.le_of_succ_le_succ room)]

/-- What the walk from a node has listed, and what it has still to list. -/
structure Frontier (doc : Document) (origin : NodeId) (done stack : List NodeId) : Prop where
  distinct : (done ++ stack).Nodup
  reached : ∀ id ∈ done ++ stack, id = origin ∨ ∃ parent ∈ done, doc.parent? id = some parent
  closed : ∀ id ∈ done, ∀ child ∈ doc.children id, child ∈ done ++ stack

namespace Frontier

variable {doc : Document} {origin : NodeId} {done stack : List NodeId} {id : NodeId}

theorem start (doc : Document) (origin : NodeId) : doc.Frontier origin [] [origin] := by
  refine ⟨List.nodup_singleton origin, ?_, ?_⟩
  · intro id listed
    exact Or.inl (List.mem_singleton.mp listed)
  · intro id impossible
    cases impossible

/-- Steps down lead to children, so all that is met stands below the origin. -/
theorem origin_or_above (forest : doc.Forest) (frontier : doc.Frontier origin done stack) :
    ∀ id ∈ done ++ stack, id = origin ∨ doc.Above origin id := by
  intro id met
  induction id using forest.upward_induction with
  | step id above =>
    rcases frontier.reached id met with same | ⟨parent, parentDone, linked⟩
    · exact Or.inl same
    · rcases above parent linked (List.mem_append_left _ parentDone) with atOrigin | further
      · rw [atOrigin] at linked
        exact Or.inr (.parent linked)
      · exact Or.inr (.outer further linked)

/-- The children of a node that is listed now were not met before, because each of
them has this one parent, and none of them is the origin above it. -/
theorem child_notMem (forest : doc.Forest) (frontier : doc.Frontier origin done (id :: stack))
    {child : NodeId} (listed : child ∈ doc.children id) : child ∉ done ++ id :: stack := by
  intro early
  have linked := forest.mem_children.mp listed
  rcases frontier.reached child early with same | ⟨parent, parentDone, otherLink⟩
  · rw [same] at linked
    apply forest.not_above_self origin
    rcases frontier.origin_or_above forest id (List.mem_append_right _ List.mem_cons_self) with atOrigin | below
    · rw [atOrigin] at linked
      exact .parent linked
    · exact .outer below linked
  · have parentEq : id = parent := Option.some.inj (linked.symm.trans otherLink)
    have apart := (List.nodup_append.mp frontier.distinct).2.2 parent parentDone id
      List.mem_cons_self
    exact apart parentEq.symm

theorem step (forest : doc.Forest) (frontier : doc.Frontier origin done (id :: stack)) :
    doc.Frontier origin (done ++ [id]) (doc.children id ++ stack) := by
  have rearranged : (done ++ [id]) ++ (doc.children id ++ stack) =
      (done ++ [id]) ++ doc.children id ++ stack := (List.append_assoc _ _ _).symm
  have old : ∀ other, other ∈ done ++ id :: stack →
      other ∈ (done ++ [id]) ++ (doc.children id ++ stack) := by
    intro other listed
    simp only [List.mem_append, List.mem_cons, List.not_mem_nil, or_false] at listed ⊢
    rcases listed with before | here | behind
    · exact Or.inl (Or.inl before)
    · exact Or.inl (Or.inr here)
    · exact Or.inr (Or.inr behind)
  refine ⟨?_, ?_, ?_⟩
  · have split : (done ++ [id] ++ stack).Nodup := by
      rw [List.append_assoc]
      exact frontier.distinct
    have permuted : (done ++ [id] ++ (doc.children id ++ stack)).Perm
        (doc.children id ++ (done ++ [id] ++ stack)) := by
      rw [← List.append_assoc, ← List.append_assoc]
      exact List.perm_append_comm.append_right stack
    rw [permuted.nodup_iff, List.nodup_append]
    refine ⟨forest.nodup_children id, split, ?_⟩
    intro child listed other met same
    apply child_notMem forest frontier listed
    rw [same]
    rw [List.append_assoc] at met
    exact met
  · intro other listed
    simp only [List.mem_append] at listed
    rcases listed with (before | here) | child | behind
    · rcases frontier.reached other (List.mem_append_left _ before) with atOrigin | ⟨parent, known, linked⟩
      · exact Or.inl atOrigin
      · exact Or.inr ⟨parent, List.mem_append_left _ known, linked⟩
    · have listedBefore : other ∈ done ++ id :: stack := by
        rw [List.mem_singleton.mp here]
        exact List.mem_append_right _ List.mem_cons_self
      rcases frontier.reached other listedBefore with atOrigin | ⟨parent, known, linked⟩
      · exact Or.inl atOrigin
      · exact Or.inr ⟨parent, List.mem_append_left _ known, linked⟩
    · exact Or.inr ⟨id, List.mem_append_right _ List.mem_cons_self, forest.mem_children.mp child⟩
    · rcases frontier.reached other (List.mem_append_right _ (List.mem_cons_of_mem id behind)) with
        atOrigin | ⟨parent, known, linked⟩
      · exact Or.inl atOrigin
      · exact Or.inr ⟨parent, List.mem_append_left _ known, linked⟩
  · intro other listed child isChild
    rcases List.mem_append.mp listed with before | here
    · exact old child (frontier.closed other before child isChild)
    · rw [List.mem_singleton.mp here] at isChild
      exact List.mem_append_right _ (List.mem_append_left _ isChild)

/-- At the end of a walk nothing is left to be listed. -/
theorem of_walks (forest : doc.Forest) (frontier : doc.Frontier origin done stack) {listed : List NodeId}
    (walks : doc.Walks stack listed) : doc.Frontier origin (done ++ listed) [] := by
  induction walks generalizing done with
  | done =>
      rw [List.append_nil]
      exact frontier
  | step _ inductionHypothesis =>
      have further := inductionHypothesis (frontier.step forest)
      rw [List.append_assoc, List.singleton_append] at further
      exact further

/-- What the walk lists was on top of its stack, behind all that it listed before. -/
theorem walk_split (forest : doc.Forest) (bound : Nat) {done stack before after : List NodeId}
    {node : NodeId} (frontier : doc.Frontier origin done stack)
    (split : doc.walk bound stack = before ++ node :: after) :
    ∃ rest, doc.Frontier origin (done ++ before) (node :: rest) := by
  induction bound generalizing done stack before with
  | zero =>
      rw [Document.walk] at split
      exact absurd split.symm (List.append_ne_nil_of_right_ne_nil _ (List.cons_ne_nil _ _))
  | succ bound inductionHypothesis =>
      cases stack with
      | nil =>
          rw [Document.walk_nil] at split
          exact absurd split.symm (List.append_ne_nil_of_right_ne_nil _ (List.cons_ne_nil _ _))
      | cons id stack =>
          rw [Document.walk] at split
          cases before with
          | nil =>
              rw [List.append_nil, ← (List.cons.inj split).1]
              exact ⟨stack, frontier⟩
          | cons first before =>
              rcases List.cons.inj split with ⟨same, later⟩
              rw [← same, ← List.singleton_append, ← List.append_assoc]
              exact inductionHypothesis (frontier.step forest) later

/-- Everything met is a place of the table, so there are no more of it than places. -/
theorem length_le (present : origin.index < doc.nodes.size) (frontier : doc.Frontier origin done stack) :
    (done ++ stack).length ≤ doc.nodes.size := by
  refine length_le_size frontier.distinct fun id met => ?_
  rcases frontier.reached id met with atOrigin | ⟨parent, -, linked⟩
  · rw [atOrigin]
    exact present
  · exact index_lt_of_parent? linked

/-- There are as many steps as places, so the bound of a walk is not reached before its end. -/
theorem walks (forest : doc.Forest) (present : origin.index < doc.nodes.size) (bound : Nat)
    {done stack : List NodeId} (frontier : doc.Frontier origin done stack)
    (room : doc.nodes.size ≤ done.length + bound) : doc.Walks stack (doc.walk bound stack) := by
  induction bound generalizing done stack with
  | zero =>
      have atMost := frontier.length_le present
      rw [List.length_append] at atMost
      have empty : stack = [] := List.eq_nil_of_length_eq_zero (by omega)
      rw [empty]
      exact .done
  | succ bound inductionHypothesis =>
      cases stack with
      | nil => exact .done
      | cons id stack =>
          rw [Document.walk]
          refine .step (inductionHypothesis (frontier.step forest) ?_)
          rw [List.length_append, List.length_singleton]
          omega

end Frontier

theorem self_mem_descendants {doc : Document} {origin : NodeId} (present : origin.index < doc.nodes.size) :
    origin ∈ doc.descendants origin := by
  have size : ∃ size, doc.nodes.size = size + 1 :=
    Nat.exists_eq_add_one.mpr (Nat.lt_of_le_of_lt (Nat.zero_le _) present)
  rcases size with ⟨size, sizeEq⟩
  rw [descendants, sizeEq, walk]
  exact List.mem_cons_self

namespace Forest

variable {doc : Document} {origin : NodeId}

/-- The walk from a node comes to its end. -/
theorem walks_descendants (forest : doc.Forest) (present : origin.index < doc.nodes.size) :
    doc.Walks [origin] (doc.descendants origin) :=
  (Frontier.start doc origin).walks forest present _ (Nat.le_add_left _ _)

theorem frontier_descendants (forest : doc.Forest) (present : origin.index < doc.nodes.size) :
    doc.Frontier origin (doc.descendants origin) [] :=
  (Frontier.start doc origin).of_walks forest (forest.walks_descendants present)

theorem nodup_descendants (forest : doc.Forest) (present : origin.index < doc.nodes.size) :
    (doc.descendants origin).Nodup := by
  have distinct := (forest.frontier_descendants present).distinct
  rw [List.append_nil] at distinct
  exact distinct

/-- The walk lists what stands below its origin. -/
theorem mem_descendants (forest : doc.Forest) (present : origin.index < doc.nodes.size) {id : NodeId} :
    id ∈ doc.descendants origin ↔ id = origin ∨ doc.Above origin id := by
  have frontier := forest.frontier_descendants present
  constructor
  · exact fun listed => frontier.origin_or_above forest id (List.mem_append_left _ listed)
  · have child : ∀ {parent id : NodeId}, parent ∈ doc.descendants origin →
        doc.parent? id = some parent → id ∈ doc.descendants origin := by
      intro parent id known linked
      have met := frontier.closed parent known id (forest.mem_children.mpr linked)
      rw [List.append_nil] at met
      exact met
    rintro (atOrigin | above)
    · rw [atOrigin]
      exact self_mem_descendants present
    · induction above with
      | parent linked => exact child (self_mem_descendants present) linked
      | outer _ linked inductionHypothesis => exact child inductionHypothesis linked

/-- The nodes that are part of the document are those that the walk lists. -/
theorem isAttached_iff (forest : doc.Forest) (rooted : 0 < doc.nodes.size) {id : NodeId} :
    doc.isAttached id = true ↔ id ∈ doc.descendants root := by
  have present : root.index < doc.nodes.size := rooted
  rw [isAttached, List.contains_iff_mem, forest.mem_ancestors rooted, forest.mem_descendants present, eq_comm]

end Forest

namespace Ordered

variable {doc : Document} {origin : NodeId}

theorem walks_descendants (ordered : doc.Ordered) (present : origin.index < doc.nodes.size) :
    doc.Walks [origin] (doc.descendants origin) :=
  ordered.forest.walks_descendants present

theorem nodup_descendants (ordered : doc.Ordered) (present : origin.index < doc.nodes.size) :
    (doc.descendants origin).Nodup :=
  ordered.forest.nodup_descendants present

theorem isAttached_iff (ordered : doc.Ordered) (rooted : 0 < doc.nodes.size) {id : NodeId} :
    doc.isAttached id = true ↔ id ∈ doc.descendants root :=
  ordered.forest.isAttached_iff rooted

end Ordered

section Descendants

variable {P : Element → Prop} {doc : Document} {origin : NodeId}

theorem nodup_descendants (grown : doc.Grown P) : (doc.descendants root).Nodup :=
  grown.ordered.nodup_descendants grown.rooted

theorem nodup_elements (grown : doc.Grown P) : doc.elements.Nodup :=
  (nodup_descendants grown).filter _

theorem ancestors_before_descendant (grown : doc.Grown P) {node : NodeId} {before after : List NodeId}
    (split : doc.descendants root = before ++ node :: after) {upper : NodeId}
    (above : upper ∈ doc.elementAncestors node) : upper ∈ before := by
  have bounded : ∀ (bound : Nat) (node : NodeId) (before after : List NodeId), node.index < bound →
      doc.descendants root = before ++ node :: after → upper ∈ doc.elementAncestors node →
        upper ∈ before := by
    intro bound
    induction bound with
    | zero => exact fun _ _ _ impossible => absurd impossible (Nat.not_lt_zero _)
    | succ bound inductionHypothesis =>
        intro node before after enough split above
        rcases (Frontier.start doc root).walk_split grown.ordered.forest _ split with ⟨rest, frontier⟩
        rw [List.nil_append] at frontier
        rw [elementAncestors_eq grown] at above
        rcases frontier.reached node (List.mem_append_right _ List.mem_cons_self) with
          atRoot | ⟨parent, known, linked⟩
        · rw [atRoot, grown.parent?_root] at above
          cases above
        · have earlier := grown.parent_earlier linked
          rcases List.append_of_mem known with ⟨first, second, beforeEq⟩
          have further : upper ∈ doc.elementAncestors parent → upper ∈ before := by
            intro above
            have splitParent : doc.descendants root = first ++ parent :: (second ++ node :: after) := by
              rw [split, beforeEq, List.append_assoc]
              rfl
            rw [beforeEq]
            exact List.mem_append_left _
              (inductionHypothesis parent first _ (by omega) splitParent above)
          rw [linked] at above
          dsimp only at above
          split at above
          · rcases List.mem_cons.mp above with here | above
            · rw [here]
              exact known
            · exact further above
          · exact further above
  exact bounded (node.index + 1) node before after (Nat.lt_succ_self _) split above

/-- In document order the elements around an element stand before it. -/
theorem ancestors_before (grown : doc.Grown P) {node : NodeId} {before after : List NodeId}
    (split : doc.elements = before ++ node :: after) {upper : NodeId}
    (above : upper ∈ doc.elementAncestors node) : upper ∈ before := by
  rcases List.filter_eq_append_iff.mp split with ⟨front, back, descendantsEq, frontEq, backEq⟩
  rcases List.filter_eq_cons_iff.mp backEq with ⟨between, last, rfl, leaves, -, -⟩
  rw [← List.append_assoc] at descendantsEq
  have met := ancestors_before_descendant grown descendantsEq above
  have element : doc.isElement upper := ((mem_elementAncestors grown).mp above).2
  rcases List.mem_append.mp met with inFront | inBetween
  · rw [← frontEq]
    exact List.mem_filter.mpr ⟨inFront, element⟩
  · exact absurd element (leaves upper inBetween)

theorem notMem_before (grown : doc.Grown P) {node : NodeId} {before after : List NodeId}
    (split : doc.elements = before ++ node :: after) : node ∉ before := by
  have distinct := nodup_elements grown
  rw [split] at distinct
  exact fun met => (List.nodup_append.mp distinct).2.2 node met node List.mem_cons_self rfl

/-- With an element all elements around it have been met. -/
theorem ancestors_met (grown : doc.Grown P) {node : NodeId} {before after : List NodeId}
    (split : doc.elements = before ++ after) (met : node ∈ before) {upper : NodeId}
    (above : upper ∈ doc.elementAncestors node) : upper ∈ before := by
  rcases List.append_of_mem met with ⟨front, back, rfl⟩
  rw [List.append_assoc, List.cons_append] at split
  exact List.mem_append_left _ (ancestors_before grown split above)

theorem mem_descendants (grown : doc.Grown P) (present : origin.index < doc.nodes.size) {id : NodeId} :
    id ∈ doc.descendants origin ↔ id = origin ∨ doc.Above origin id :=
  grown.ordered.forest.mem_descendants present

theorem mem_ancestors (grown : doc.Grown P) {upper id : NodeId} :
    upper ∈ doc.ancestors id ↔ upper = id ∨ doc.Above upper id :=
  grown.ordered.forest.mem_ancestors grown.rooted

theorem isAttached_iff (grown : doc.Grown P) {id : NodeId} :
    doc.isAttached id = true ↔ id ∈ doc.descendants root :=
  grown.ordered.isAttached_iff grown.rooted

end Descendants

/-! ## The part of a tree below a node -/

section Below

variable {P : Element → Prop} {doc : Document}

theorem mem_ancestors_self (grown : doc.Grown P) (id : NodeId) : id ∈ doc.ancestors id :=
  (mem_ancestors grown).mpr (Or.inl rfl)

theorem mem_ancestors_iff_parent (grown : doc.Grown P) {upper id : NodeId} :
    upper ∈ doc.ancestors id ↔ upper = id ∨ ∃ parent, doc.parent? id = some parent ∧ upper ∈ doc.ancestors parent := by
  rw [ancestors_eq grown, List.mem_cons]
  cases doc.parent? id with
  | none => simp only [List.not_mem_nil, reduceCtorEq, false_and, exists_false]
  | some parent => simp only [Option.some.injEq, exists_eq_left']

theorem mem_ancestors_trans (grown : doc.Grown P) {upper middle lower : NodeId} (first : upper ∈ doc.ancestors middle)
    (second : middle ∈ doc.ancestors lower) : upper ∈ doc.ancestors lower := by
  rw [mem_ancestors grown] at first second ⊢
  rcases first with rfl | above
  · exact second
  · rcases second with rfl | further
    · exact Or.inr above
    · exact Or.inr (above.trans further)

/-- Below a node there are the node itself and what is below its children. -/
theorem mem_ancestors_iff_child (grown : doc.Grown P) {upper id : NodeId} :
    upper ∈ doc.ancestors id ↔ id = upper ∨ ∃ child ∈ doc.children upper, child ∈ doc.ancestors id := by
  constructor
  · induction id using grown.upward_induction with
    | step id above =>
      intro listed
      rcases (mem_ancestors_iff_parent grown).mp listed with same | ⟨parent, linked, further⟩
      · exact Or.inl same.symm
      · rcases above parent linked further with same | ⟨child, among, covers⟩
        · exact Or.inr ⟨id, grown.mem_children.mpr (same ▸ linked), mem_ancestors_self grown id⟩
        · exact Or.inr ⟨child, among, (mem_ancestors_iff_parent grown).mpr (Or.inr ⟨parent, linked, covers⟩)⟩
  · rintro (rfl | ⟨child, listed, covers⟩)
    · exact mem_ancestors_self grown id
    · refine mem_ancestors_trans grown ?_ covers
      have linked := grown.mem_children.mp listed
      exact (mem_ancestors_iff_parent grown).mpr (Or.inr ⟨upper, linked, mem_ancestors_self grown upper⟩)

theorem index_le_of_mem_ancestors (grown : doc.Grown P) {upper id : NodeId} (listed : upper ∈ doc.ancestors id) :
    upper.index ≤ id.index := by
  induction id using grown.upward_induction with
  | step id above =>
    rcases (mem_ancestors_iff_parent grown).mp listed with rfl | ⟨parent, linked, further⟩
    · exact Nat.le_refl _
    · exact Nat.le_trans (above parent linked further) (Nat.le_of_lt (grown.parent_earlier linked))

/-- No child of a node stands below another one. -/
theorem eq_of_mem_ancestors_of_siblings (grown : doc.Grown P) {parent child other : NodeId}
    (childLinked : doc.parent? child = some parent) (otherLinked : doc.parent? other = some parent)
    (covers : child ∈ doc.ancestors other) : child = other := by
  rcases (mem_ancestors_iff_parent grown).mp covers with same | ⟨upper, linked, further⟩
  · exact same
  · rw [← Option.some.inj (otherLinked.symm.trans linked)] at further
    have later := grown.parent_earlier childLinked
    have before := index_le_of_mem_ancestors grown further
    omega

/-- No node stands below two children of the same node. -/
theorem child_unique (grown : doc.Grown P) {parent first second id : NodeId}
    (firstLinked : doc.parent? first = some parent) (secondLinked : doc.parent? second = some parent)
    (firstOver : first ∈ doc.ancestors id) (secondOver : second ∈ doc.ancestors id) : first = second := by
  induction id using grown.upward_induction with
  | step id above =>
    rcases (mem_ancestors_iff_parent grown).mp firstOver with rfl | ⟨upper, linked, firstFurther⟩
    · exact (eq_of_mem_ancestors_of_siblings grown secondLinked firstLinked secondOver).symm
    · rcases (mem_ancestors_iff_parent grown).mp secondOver with rfl | ⟨other, otherLinked, secondFurther⟩
      · exact eq_of_mem_ancestors_of_siblings grown firstLinked secondLinked firstOver
      · rw [← Option.some.inj (linked.symm.trans otherLinked)] at secondFurther
        exact above upper linked firstFurther secondFurther

/-- Whether a node is one of some nodes or stands below one of them. -/
def Below (doc : Document) (nodes : List NodeId) (id : NodeId) : Prop :=
  ∃ node ∈ nodes, node ∈ doc.ancestors id

theorem not_below_nil {id : NodeId} : ¬ doc.Below [] id :=
  fun ⟨_, impossible, _⟩ => List.not_mem_nil impossible

theorem below_cons {node id : NodeId} {rest : List NodeId} :
    doc.Below (node :: rest) id ↔ node ∈ doc.ancestors id ∨ doc.Below rest id := by
  simp only [Below, List.mem_cons, exists_eq_or_imp]

theorem below_singleton {node id : NodeId} : doc.Below [node] id ↔ node ∈ doc.ancestors id := by
  rw [below_cons, or_iff_left not_below_nil]

end Below

end Document
end SlimSvg
