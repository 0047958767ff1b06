import Mathlib.Data.List.Nodup
import Mathlib.Data.List.Perm.Subperm
import SlimSvg.Proofs.Tree.Links

namespace SlimSvg
namespace Document

/-!
# Kinship of nodes

The walks of a document are bounded by the size of its table and list nodes.
Here their results are compared with relations that know no bound: being above,
and standing before among the children of one parent.  In a forest the bound is
never reached, since no way up meets a node twice.  A document that has only
grown is a forest, since every step upwards goes to an earlier place of the table.
-/

/-! ## The relations -/

/-- Reached by one or more steps to the parent. -/
inductive Above (doc : Document) : NodeId → NodeId → Prop where
  | parent {upper lower : NodeId} (linked : doc.parent? lower = some upper) : Above doc upper lower
  | outer {upper middle lower : NodeId} (above : Above doc upper middle)
      (linked : doc.parent? lower = some middle) : Above doc upper lower

theorem Above.trans {doc : Document} {upper middle lower : NodeId} (first : doc.Above upper middle)
    (second : doc.Above middle lower) : doc.Above upper lower := by
  induction second with
  | parent linked => exact .outer first linked
  | outer _ linked inductionHypothesis => exact .outer inductionHypothesis linked

/-- What stands above a node is its parent or stands above that. -/
theorem above_iff_parent {doc : Document} {upper id parent : NodeId} (linked : doc.parent? id = some parent) :
    doc.Above upper id ↔ upper = parent ∨ doc.Above upper parent := by
  constructor
  · rintro (here | ⟨above, here⟩)
    · exact Or.inl (Option.some.inj (here.symm.trans linked))
    · exact Or.inr (Option.some.inj (here.symm.trans linked) ▸ above)
  · rintro (rfl | above)
    · exact .parent linked
    · exact .outer above linked

/-- A circle goes on through the parent. -/
theorem Above.of_parent {doc : Document} {id parent : NodeId} (circle : doc.Above id id)
    (linked : doc.parent? id = some parent) : doc.Above parent parent := by
  rcases (above_iff_parent linked).mp circle with rfl | further
  · exact circle
  · exact Above.trans (.parent linked) further

theorem not_above_of_orphan {doc : Document} {upper id : NodeId} (orphan : doc.parent? id = none) :
    ¬ doc.Above upper id := by
  rintro (linked | ⟨_, linked⟩)
  all_goals
    rw [orphan] at linked
    cases linked

/-- A node and its parents up to one that has none. -/
inductive Climbs (doc : Document) : NodeId → List NodeId → Prop where
  | top {id : NodeId} (orphan : doc.parent? id = none) : Climbs doc id [id]
  | step {id parent : NodeId} {line : List NodeId} (linked : doc.parent? id = some parent)
      (further : Climbs doc parent line) : Climbs doc id (id :: line)

/-- Two children of one parent, the first one listed before the second one, with
certain nodes between them. -/
def SiblingsAround (doc : Document) (first : NodeId) (between : List NodeId) (second : NodeId) :
    Prop :=
  ∃ parent before after, doc.children parent = before ++ first :: (between ++ second :: after)

/-! ## Ways up that end -/

/-- Different places of the table are no more than the table has. -/
theorem length_le_size {doc : Document} {nodes : List NodeId} (distinct : nodes.Nodup)
    (inside : ∀ id ∈ nodes, id.index < doc.nodes.size) : nodes.length ≤ doc.nodes.size := by
  have places : (nodes.map NodeId.index).Nodup := by
    refine distinct.map ?_
    rintro ⟨first⟩ ⟨second⟩ same
    exact congrArg NodeId.mk same
  have among : nodes.map NodeId.index ⊆ List.range doc.nodes.size := by
    intro index listed
    rcases List.mem_map.mp listed with ⟨id, met, same⟩
    rw [List.mem_range, ← same]
    exact inside id met
  have atMost := (List.Nodup.subperm places among).length_le
  rw [List.length_map, List.length_range] at atMost
  exact atMost

namespace Climbs

variable {doc : Document} {id : NodeId} {line : List NodeId}

theorem unique (climbs : doc.Climbs id line) {other : List NodeId} (climbsToo : doc.Climbs id other) :
    line = other := by
  induction climbs generalizing other with
  | top orphan =>
      cases climbsToo with
      | top _ => rfl
      | step linked _ => rw [orphan] at linked; cases linked
  | step linked _ inductionHypothesis =>
      cases climbsToo with
      | top orphan => rw [orphan] at linked; cases linked
      | step linkedToo further =>
          rw [← Option.some.inj (linked.symm.trans linkedToo)] at further
          rw [inductionHypothesis further]

/-- The way up from a node lists what stands above it. -/
theorem mem_iff (climbs : doc.Climbs id line) {upper : NodeId} : upper ∈ line ↔ upper = id ∨ doc.Above upper id := by
  induction climbs with
  | top orphan => rw [List.mem_singleton, or_iff_left (not_above_of_orphan orphan)]
  | step linked _ inductionHypothesis => rw [List.mem_cons, inductionHypothesis, above_iff_parent linked]

/-- A way up that ends does not come back to where it began: it would go on through the
parent for ever. -/
theorem not_above_self (climbs : doc.Climbs id line) : ¬ doc.Above id id := by
  induction climbs with
  | top orphan => exact not_above_of_orphan orphan
  | step linked _ inductionHypothesis => exact fun circle => inductionHypothesis (circle.of_parent linked)

theorem nodup (climbs : doc.Climbs id line) : line.Nodup := by
  induction climbs with
  | top _ => exact List.nodup_singleton _
  | step linked further inductionHypothesis =>
      refine List.nodup_cons.mpr ⟨fun listed => ?_, inductionHypothesis⟩
      exact (Climbs.step linked further).not_above_self ((above_iff_parent linked).mpr (further.mem_iff.mp listed))

theorem length_le (climbs : doc.Climbs id line) (links : doc.Linked) (rooted : 0 < doc.nodes.size) :
    line.length ≤ doc.nodes.size := by
  have aboveInside : ∀ {upper lower : NodeId}, doc.Above upper lower → upper.index < doc.nodes.size := by
    intro upper lower above
    induction above with
    | parent linked => exact links.index_lt_of_child linked
    | outer _ _ inductionHypothesis => exact inductionHypothesis
  cases climbs with
  | top _ => exact rooted
  | step linked further =>
      refine length_le_size (Climbs.step linked further).nodup fun node listed => ?_
      rcases (Climbs.step linked further).mem_iff.mp listed with rfl | above
      · exact index_lt_of_parent? linked
      · exact aboveInside above

/-- A way up that ends is not changed by a bound that leaves room for it. -/
theorem ancestorsWithin_eq (climbs : doc.Climbs id line) {bound : Nat} (room : line.length ≤ bound) :
    doc.ancestorsWithin bound id = line := by
  induction climbs generalizing bound with
  | top orphan =>
      rcases Nat.exists_eq_add_one.mpr (Nat.lt_of_lt_of_le (Nat.succ_pos _) room) with ⟨less, rfl⟩
      rw [ancestorsWithin, orphan]
  | step linked _ inductionHypothesis =>
      rcases Nat.exists_eq_add_one.mpr (Nat.lt_of_lt_of_le (Nat.succ_pos _) room) with ⟨less, rfl⟩
      rw [ancestorsWithin, linked]
      exact congrArg (_ :: ·) (inductionHypothesis (Nat.le_of_succ_le_succ room))

end Climbs

/-! ## Forests -/

/-- Whether parents and children say the same, the root has no parent, and every way up
ends. -/
structure Forest (doc : Document) : Prop extends doc.Linked where
  parent?_root : doc.parent? root = none
  climbs : ∀ id : NodeId, ∃ line, doc.Climbs id line

namespace Forest

variable {doc : Document}

/-- What holds of a node if it holds of its parent holds of all nodes. -/
theorem upward_induction (forest : doc.Forest) {motive : NodeId → Prop}
    (step : ∀ id, (∀ parent, doc.parent? id = some parent → motive parent) → motive id) (id : NodeId) :
    motive id := by
  rcases forest.climbs id with ⟨line, climbs⟩
  induction climbs with
  | top orphan =>
      refine step _ fun parent linked => ?_
      rw [orphan] at linked
      cases linked
  | step linked _ inductionHypothesis =>
      refine step _ fun parent linkedToo => ?_
      rw [← Option.some.inj (linked.symm.trans linkedToo)]
      exact inductionHypothesis

theorem not_above_self (forest : doc.Forest) (id : NodeId) : ¬ doc.Above id id := by
  rcases forest.climbs id with ⟨line, climbs⟩
  exact climbs.not_above_self

theorem climbs_ancestors (forest : doc.Forest) (rooted : 0 < doc.nodes.size) (id : NodeId) :
    doc.Climbs id (doc.ancestors id) := by
  rcases forest.climbs id with ⟨line, climbs⟩
  rw [ancestors, climbs.ancestorsWithin_eq (climbs.length_le forest.toLinked rooted)]
  exact climbs

/-- The walk upwards without its bound. -/
theorem ancestors_eq (forest : doc.Forest) (rooted : 0 < doc.nodes.size) (id : NodeId) :
    doc.ancestors id =
      id :: match doc.parent? id with
        | some parent => doc.ancestors parent
        | none => [] := by
  apply (forest.climbs_ancestors rooted id).unique
  cases linked : doc.parent? id with
  | none => exact .top linked
  | some parent => exact .step linked (forest.climbs_ancestors rooted parent)

theorem mem_ancestors (forest : doc.Forest) (rooted : 0 < doc.nodes.size) {upper id : NodeId} :
    upper ∈ doc.ancestors id ↔ upper = id ∨ doc.Above upper id :=
  (forest.climbs_ancestors rooted id).mem_iff

end Forest

/-- Where every parent stands before its children, every way up ends. -/
theorem Ordered.forest {doc : Document} (ordered : doc.Ordered) : doc.Forest where
  toLinked := ordered.toLinked
  parent?_root := ordered.parent?_root
  climbs := by
    intro id
    induction id using ordered.upward_induction with
    | step id above =>
      cases linked : doc.parent? id with
      | none => exact ⟨_, .top linked⟩
      | some parent =>
          rcases above parent linked with ⟨line, climbs⟩
          exact ⟨_, .step linked climbs⟩

/-! ## Upwards -/

section Upwards

variable {P : Element → Prop} {doc : Document}

theorem ancestors_eq (grown : doc.Grown P) (id : NodeId) :
    doc.ancestors id =
      id :: match doc.parent? id with
        | some parent => doc.ancestors parent
        | none => [] :=
  grown.ordered.forest.ancestors_eq grown.rooted id

/-- The elements above a node begin with its parent, unless that is the root. -/
theorem elementAncestors_eq (grown : doc.Grown P) (id : NodeId) :
    doc.elementAncestors id =
      match doc.parent? id with
      | some parent =>
        if doc.isElement parent then parent :: doc.elementAncestors parent
        else doc.elementAncestors parent
      | none => [] := by
  unfold elementAncestors
  rw [ancestors_eq grown, List.tail_cons]
  cases linked : doc.parent? id with
  | none => rfl
  | some parent =>
      have headed : doc.ancestors parent = parent :: (doc.ancestors parent).tail := by
        rw [ancestors_eq grown parent, List.tail_cons]
      change (doc.ancestors parent).filter doc.isElement = _
      rw [headed, List.filter_cons]

/-- The line of a child goes on from that of its parent. -/
theorem elementAncestors_child (grown : doc.Grown P) {parent child : NodeId} (linked : doc.parent? child = some parent)
    (element : doc.isElement parent = true) :
    (doc.elementAncestors child).reverse = (doc.elementAncestors parent).reverse ++ [parent] := by
  rw [elementAncestors_eq grown child, linked]
  dsimp only
  rw [if_pos element, List.reverse_cons]

theorem elementAncestors_of_parent?_root (grown : doc.Grown P) {child : NodeId} (linked : doc.parent? child = some root)
    (bare : doc.isElement root = false) : doc.elementAncestors child = [] := by
  rw [elementAncestors_eq grown child, linked]
  dsimp only
  rw [bare, elementAncestors_eq grown root, grown.parent?_root]
  rfl

/-- Behind a node of the line of ancestors stands the line of that node. -/
theorem elementAncestors_eq_cons (grown : doc.Grown P) {id upper : NodeId} {outer : List NodeId}
    (line : doc.elementAncestors id = upper :: outer) : outer = doc.elementAncestors upper := by
  rw [elementAncestors_eq grown] at line
  cases linked : doc.parent? id with
  | none => rw [linked] at line; cases line
  | some parent =>
      rw [linked] at line
      dsimp only at line
      split at line
      · obtain ⟨first, rest⟩ := List.cons.inj line
        rw [← first, rest]
      · next other =>
        rcases grown.parent_holds linked with atRoot | element
        · rw [atRoot, elementAncestors_eq grown, grown.parent?_root] at line
          cases line
        · exact absurd element other

theorem above_of_mem_elementAncestors (grown : doc.Grown P) (bound : Nat) {upper : NodeId} :
    ∀ id : NodeId, id.index < bound → upper ∈ doc.elementAncestors id →
      doc.Above upper id ∧ doc.isElement upper := by
  induction bound with
  | zero => exact fun _ impossible => absurd impossible (Nat.not_lt_zero _)
  | succ bound inductionHypothesis =>
      intro id enough listed
      rw [elementAncestors_eq grown] at listed
      cases linked : doc.parent? id with
      | none => rw [linked] at listed; cases listed
      | some parent =>
          rw [linked] at listed
          have shorter : parent.index < bound :=
            Nat.lt_of_lt_of_le (grown.parent_earlier linked) (Nat.le_of_lt_succ enough)
          have further : upper ∈ doc.elementAncestors parent → doc.Above upper id ∧ doc.isElement upper := by
            intro found
            have reached := inductionHypothesis parent shorter found
            exact ⟨.outer reached.1 linked, reached.2⟩
          by_cases element : doc.isElement parent
          · simp only [element, if_true] at listed
            rcases List.mem_cons.mp listed with here | found
            · rw [here]
              exact ⟨.parent linked, element⟩
            · exact further found
          · simp only [element] at listed
            exact further listed

/-- The elements above a node are exactly the elements that stand above it. -/
theorem mem_elementAncestors (grown : doc.Grown P) {upper id : NodeId} :
    upper ∈ doc.elementAncestors id ↔ doc.Above upper id ∧ doc.isElement upper := by
  constructor
  · exact above_of_mem_elementAncestors grown (id.index + 1) id (Nat.lt_succ_self _)
  · rintro ⟨above, element⟩
    induction above with
    | parent linked =>
        rw [elementAncestors_eq grown, linked]
        simp only [element, if_true, List.mem_cons_self]
    | outer _ linked inductionHypothesis =>
        rw [elementAncestors_eq grown, linked]
        dsimp only
        split
        · exact List.mem_cons_of_mem _ inductionHypothesis
        · exact inductionHypothesis

theorem parentElement?_eq_head? (doc : Document) (id : NodeId) :
    doc.parentElement? id = (doc.elementAncestors id).head? :=
  List.head?_filter.symm

/-- A parent that is no element is the root, above which there is nothing; so the
nearest element above a node is its parent or there is none. -/
theorem parentElement?_eq_some (grown : doc.Grown P) {upper id : NodeId} :
    doc.parentElement? id = some upper ↔ doc.parent? id = some upper ∧ doc.isElement upper := by
  rw [parentElement?_eq_head?, elementAncestors_eq grown]
  cases linked : doc.parent? id with
  | none => exact ⟨fun found => (nomatch found), fun found => (nomatch found.1)⟩
  | some parent =>
      by_cases element : doc.isElement parent
      · simp only [element, if_true, List.head?_cons]
        constructor
        · intro same
          exact ⟨same, Option.some.inj same ▸ element⟩
        · exact fun found => found.1
      · have atRoot := (grown.parent_holds linked).resolve_right element
        simp only [element]
        rw [atRoot, elementAncestors_eq grown, grown.parent?_root]
        constructor
        · exact fun found => nomatch found
        · rintro ⟨same, elementAbove⟩
          rw [← Option.some.inj same, ← atRoot] at elementAbove
          exact absurd elementAbove element

end Upwards

/-! ## Sidewards -/

section Sidewards

variable {doc : Document}

theorem indexInParent?_eq (links : doc.Linked) {parent id : NodeId} {before after : List NodeId}
    (listed : doc.children parent = before ++ id :: after) : doc.indexInParent? id = some before.length := by
  have member : id ∈ doc.children parent :=
    listed ▸ List.mem_append_right before List.mem_cons_self
  have unlisted : id ∉ before := by
    intro early
    have distinct := listed ▸ links.nodup_children parent
    exact (List.nodup_append.mp distinct).2.2 id early id List.mem_cons_self rfl
  rw [indexInParent?, links.mem_children.mp member]
  change (doc.children parent).idxOf? id = _
  rw [listed, List.idxOf?_eq_some_iff]
  refine ⟨by simp, by simp, ?_⟩
  intro index early
  rw [List.getElem_append_left early]
  exact fun same => unlisted (same ▸ List.getElem_mem early)

theorem previousElements_eq (links : doc.Linked) {parent id : NodeId} {before after : List NodeId}
    (listed : doc.children parent = before ++ id :: after) :
    doc.previousElements id = before.reverse.filter doc.isElement := by
  have member : id ∈ doc.children parent :=
    listed ▸ List.mem_append_right before List.mem_cons_self
  rw [previousElements, links.mem_children.mp member, indexInParent?_eq links listed]
  change ((doc.children parent).take before.length).reverse.filter doc.isElement = _
  rw [listed, List.take_left]

theorem exists_children_split (links : doc.Linked) {parent id : NodeId}
    (linked : doc.parent? id = some parent) :
    ∃ before after, doc.children parent = before ++ id :: after :=
  List.append_of_mem (links.mem_children.mpr linked)

theorem previousElements_eq_nil {id : NodeId} (orphan : doc.parent? id = none) : doc.previousElements id = [] := by
  rw [previousElements, orphan]

theorem mem_previousElements (links : doc.Linked) {earlier id : NodeId} :
    earlier ∈ doc.previousElements id ↔
      (∃ between, doc.SiblingsAround earlier between id) ∧ doc.isElement earlier := by
  constructor
  · intro found
    cases linked : doc.parent? id with
    | none => rw [previousElements_eq_nil linked] at found; cases found
    | some parent =>
        obtain ⟨before, after, listed⟩ := exists_children_split links linked
        rw [previousElements_eq links listed, List.mem_filter, List.mem_reverse] at found
        obtain ⟨start, between, split⟩ := List.append_of_mem found.1
        refine ⟨⟨between, parent, start, after, ?_⟩, found.2⟩
        rw [listed, split, List.append_assoc, List.cons_append]
  · rintro ⟨⟨between, parent, before, after, listed⟩, element⟩
    have split : doc.children parent = (before ++ earlier :: between) ++ id :: after := by
      rw [listed, List.append_assoc, List.cons_append]
    rw [previousElements_eq links split, List.mem_filter, List.mem_reverse]
    exact ⟨List.mem_append_right before List.mem_cons_self, element⟩

/-- What stands before an element stands before the elements behind it too. -/
theorem mem_previousElements_trans (links : doc.Linked) {first second third : NodeId}
    (before : first ∈ doc.previousElements second) (behind : second ∈ doc.previousElements third) :
    first ∈ doc.previousElements third := by
  obtain ⟨⟨between, parent, start, rest, listed⟩, -⟩ := (mem_previousElements links).mp behind
  have further : doc.children parent = (start ++ second :: between) ++ third :: rest := by
    rw [listed, List.append_assoc, List.cons_append]
  rw [previousElements_eq links listed, List.mem_filter, List.mem_reverse] at before
  rw [previousElements_eq links further, List.mem_filter, List.mem_reverse]
  exact ⟨List.mem_append_left _ before.1, before.2⟩

/-- Elements beside each other have one parent. -/
theorem parent?_eq_of_mem_previousElements (links : doc.Linked) {earlier id : NodeId}
    (before : earlier ∈ doc.previousElements id) : doc.parent? earlier = doc.parent? id := by
  obtain ⟨⟨between, parent, start, rest, listed⟩, -⟩ := (mem_previousElements links).mp before
  have first : earlier ∈ doc.children parent := by
    rw [listed]
    exact List.mem_append_right _ List.mem_cons_self
  have second : id ∈ doc.children parent := by
    rw [listed]
    exact List.mem_append_right _ (List.mem_cons_of_mem _ (List.mem_append_right _ List.mem_cons_self))
  rw [links.mem_children.mp first, links.mem_children.mp second]

/-- The nearest element before a node has only other nodes behind it. -/
theorem previousElement?_eq_some (links : doc.Linked) {earlier id : NodeId} :
    doc.previousElement? id = some earlier ↔
      (∃ between, doc.SiblingsAround earlier between id ∧ ∀ other ∈ between, ¬ doc.isElement other) ∧
        doc.isElement earlier := by
  rw [previousElement?]
  constructor
  · intro found
    cases linked : doc.parent? id with
    | none => rw [previousElements_eq_nil linked] at found; cases found
    | some parent =>
        obtain ⟨before, after, listed⟩ := exists_children_split links linked
        rw [previousElements_eq links listed, List.head?_filter, List.find?_eq_some_iff_append] at found
        obtain ⟨element, nearer, farther, split, none⟩ := found
        have beforeEq : before = farther.reverse ++ earlier :: nearer.reverse := by
          rw [← List.reverse_reverse before, split]
          simp only [List.reverse_append, List.reverse_cons, List.append_assoc, List.singleton_append]
        refine ⟨⟨nearer.reverse, ⟨parent, farther.reverse, after, ?_⟩, ?_⟩, element⟩
        · rw [listed, beforeEq, List.append_assoc, List.cons_append]
        · intro other between
          simpa using none other (List.mem_reverse.mp between)
  · rintro ⟨⟨between, ⟨parent, before, after, listed⟩, none⟩, element⟩
    have split : doc.children parent = (before ++ earlier :: between) ++ id :: after := by
      rw [listed, List.append_assoc, List.cons_append]
    rw [previousElements_eq links split, List.head?_filter, List.find?_eq_some_iff_append]
    refine ⟨element, between.reverse, before.reverse, ?_, ?_⟩
    · simp only [List.reverse_append, List.reverse_cons, List.append_assoc, List.singleton_append]
    · intro other listedBetween
      simpa using none other (List.mem_reverse.mp listedBetween)

end Sidewards

end Document
end SlimSvg
