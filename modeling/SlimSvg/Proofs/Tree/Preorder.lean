import SlimSvg.Proofs.Tree.Moves
import SlimSvg.Proofs.Tree.Walk

namespace SlimSvg
namespace Document

/-!
# The tree from above and from below

Nothing in a document says that it is a tree.  But a node stands behind its parent in the
table from the beginning, and no edit that moves nothing changes this, so every way up gets
to earlier places.  In such a document, and in every other forest, the ways end although
nothing bounds them: the line of ancestors, the search for the root, and the stack of nodes
that is worked off for the descendants.  What the stack lists is the recursive pre-order,
and it lists the nodes from which the line upwards gets to its origin.
-/

/-! ## Ways without a bound -/

/-- What the search for the root comes to: it goes from parent to parent, and ends at the
root or at another node without a parent. -/
inductive Seeks (doc : Document) : NodeId → Bool → Prop where
  | found : Seeks doc root true
  | step {id parent : NodeId} {answer : Bool} (elsewhere : id ≠ root) (linked : doc.parent? id = some parent)
      (further : Seeks doc parent answer) : Seeks doc id answer
  | lost {id : NodeId} (elsewhere : id ≠ root) (orphan : doc.parent? id = none) : Seeks doc id false

section Walks

variable {doc : Document} {stack listed : List NodeId}

/-- What lies deeper in the stack is worked off behind all that comes from above it. -/
theorem Walks.append (first : doc.Walks stack listed) {deeper others : List NodeId} (second : doc.Walks deeper others) :
    doc.Walks (stack ++ deeper) (listed ++ others) := by
  induction first with
  | done => exact second
  | step _ inductionHypothesis =>
      rw [List.append_assoc] at inductionHypothesis
      exact .step inductionHypothesis

theorem Walks.unique (first : doc.Walks stack listed) {others : List NodeId} (second : doc.Walks stack others) :
    listed = others := by
  rw [← first.walk_eq (Nat.le_add_right listed.length others.length),
    second.walk_eq (Nat.le_add_left others.length listed.length)]

end Walks

/-! ## In a forest -/

namespace Forest

variable {doc : Document} {id : NodeId}

theorem seeks_isAttached (forest : doc.Forest) (rooted : 0 < doc.nodes.size) :
    doc.Seeks id (doc.isAttached id) := by
  induction id using forest.upward_induction with
  | step id above =>
    rw [isAttached, forest.ancestors_eq rooted, List.contains_cons]
    by_cases here : id = root
    · rw [here, beq_self_eq_true, Bool.true_or]
      exact .found
    · rw [beq_false_of_ne (Ne.symm here), Bool.false_or]
      cases linked : doc.parent? id with
      | none => exact .lost here linked
      | some parent => exact .step here linked (above parent linked)

/-- Several nodes are worked off one after the other. -/
theorem walks_flatMap (forest : doc.Forest) {nodes : List NodeId}
    (present : ∀ node ∈ nodes, node.index < doc.nodes.size) : doc.Walks nodes (nodes.flatMap doc.descendants) := by
  induction nodes with
  | nil => exact .done
  | cons node rest inductionHypothesis =>
      rw [List.flatMap_cons]
      refine (forest.walks_descendants (present node List.mem_cons_self)).append (inductionHypothesis ?_)
      exact fun other listed => present other (List.mem_cons_of_mem node listed)

/-- A node comes first, and then the descendants of one child after the other. -/
theorem descendants_eq (forest : doc.Forest) (present : id.index < doc.nodes.size) :
    doc.descendants id = id :: (doc.children id).flatMap doc.descendants := by
  have childrenPresent : ∀ child ∈ doc.children id, child.index < doc.nodes.size :=
    fun _ listed => index_lt_of_parent? (forest.mem_children.mp listed)
  have children := forest.walks_flatMap childrenPresent
  rw [← List.append_nil (doc.children id)] at children
  exact (forest.walks_descendants present).unique (List.append_nil (doc.children id) ▸ children.step)

theorem mem_descendants_iff (forest : doc.Forest) (present : id.index < doc.nodes.size) (lower : NodeId) :
    lower ∈ doc.descendants id ↔ id ∈ doc.ancestors lower := by
  have rooted : 0 < doc.nodes.size := Nat.lt_of_le_of_lt (Nat.zero_le _) present
  rw [forest.mem_descendants present, forest.mem_ancestors rooted, eq_comm]

end Forest

/-! ## Where the table is in order -/

namespace Ordered

variable {doc : Document} {id : NodeId}

theorem climbs_ancestors (ordered : doc.Ordered) (rooted : 0 < doc.nodes.size) :
    doc.Climbs id (doc.ancestors id) :=
  ordered.forest.climbs_ancestors rooted id

theorem seeks_isAttached (ordered : doc.Ordered) (rooted : 0 < doc.nodes.size) :
    doc.Seeks id (doc.isAttached id) :=
  ordered.forest.seeks_isAttached rooted

theorem descendants_eq (ordered : doc.Ordered) (present : id.index < doc.nodes.size) :
    doc.descendants id = id :: (doc.children id).flatMap doc.descendants :=
  ordered.forest.descendants_eq present

theorem mem_descendants_iff (ordered : doc.Ordered) (present : id.index < doc.nodes.size) (lower : NodeId) :
    lower ∈ doc.descendants id ↔ id ∈ doc.ancestors lower :=
  ordered.forest.mem_descendants_iff present lower

end Ordered

/-! ## Documents that edits lead to -/

/-- In a document that was read or is empty, and was then edited without a node being
moved, both views of the tree end, and they agree. -/
theorem views_agree {start doc : Document} (origin : start = empty ∨ ∃ text name, read text name = .ok start)
    (reached : start.Reaches TreeEdit.KeepsPlaces doc) {id : NodeId} (inside : id.index < doc.nodes.size) :
    doc.Climbs id (doc.ancestors id) ∧
      (doc.Walks [id] (doc.descendants id) ∧
        doc.descendants id = id :: (doc.children id).flatMap doc.descendants ∧ (doc.descendants id).Nodup) ∧
      (doc.Seeks id (doc.isAttached id) ∧ (doc.isAttached id = true ↔ id ∈ doc.descendants root)) ∧
      ∀ lower, lower ∈ doc.descendants id ↔ id ∈ doc.ancestors lower := by
  have orderedAtStart : start.Ordered := by
    rcases origin with rfl | ⟨text, name, parsed⟩
    · exact (Grown.empty (P := fun _ => True)).ordered
    · exact (grown_of_read parsed).ordered
  have ordered := orderedAtStart.reaches reached
  have rooted : 0 < doc.nodes.size := Nat.lt_of_le_of_lt (Nat.zero_le _) inside
  exact ⟨ordered.climbs_ancestors rooted,
    ⟨ordered.walks_descendants inside, ordered.descendants_eq inside, ordered.nodup_descendants inside⟩,
    ⟨ordered.seeks_isAttached rooted, ordered.isAttached_iff rooted⟩, ordered.mem_descendants_iff inside⟩

/-- The children of an element are replaced by a text, and the node behind it is taken out. -/
theorem views_of_edited :
    ∃ start doc, read "<svg><g>a<!--b--></g>c</svg>" none = .ok start ∧ start.Reaches TreeEdit.KeepsPlaces doc ∧
      doc.Walks [⟨1⟩] [⟨1⟩, ⟨2⟩, ⟨6⟩] ∧ doc.Climbs ⟨6⟩ [⟨6⟩, ⟨2⟩, ⟨1⟩, root] ∧ doc.Seeks ⟨5⟩ false := by
  have shape : (read "<svg><g>a<!--b--></g>c</svg>" none).toOption.map (fun start =>
      let doc := (start.setText ⟨2⟩ "d").detach ⟨5⟩
      (start.nodes.size, doc.nodes.size, doc.descendants ⟨1⟩, doc.ancestors ⟨6⟩, doc.isAttached ⟨5⟩)) =
        some (6, 7, [⟨1⟩, ⟨2⟩, ⟨6⟩], [⟨6⟩, ⟨2⟩, ⟨1⟩, root], false) := by
    decide +kernel
  rw [Option.map_eq_some_iff] at shape
  rcases shape with ⟨start, parsed, same⟩
  rw [toOption_eq_some] at parsed
  simp only [Prod.mk.injEq] at same
  rcases same with ⟨sizeAtStart, size, down, up, out⟩
  let filled : TreeEdit := .setText ⟨2⟩ "d"
  let cut : TreeEdit := .detach ⟨5⟩
  have allowed : filled.Allowed start := by
    change 2 < start.nodes.size
    omega
  have allowedAgain : cut.Allowed (filled.apply start) := by
    change 5 < (start.setText ⟨2⟩ "d").nodes.size
    rw [size_detach] at size
    omega
  have reached : start.Reaches TreeEdit.KeepsPlaces (cut.apply (filled.apply start)) :=
    .edit cut (.edit filled .start trivial allowed) trivial allowedAgain
  have origin : start = empty ∨ ∃ text name, read text name = .ok start := Or.inr ⟨_, _, parsed⟩
  have present : ∀ index < 7, index < (cut.apply (filled.apply start)).nodes.size := fun _ few => size.symm ▸ few
  refine ⟨start, _, parsed, reached, ?_, ?_, ?_⟩
  · rw [← down]
    exact (views_agree origin reached (present 1 (by decide))).2.1.1
  · rw [← up]
    exact (views_agree origin reached (present 6 (by decide))).1
  · rw [← out]
    exact (views_agree origin reached (present 5 (by decide))).2.2.1.1

end Document
end SlimSvg
