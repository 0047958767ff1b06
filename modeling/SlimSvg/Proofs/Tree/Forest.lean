import SlimSvg.Proofs.Tree.Preorder

namespace SlimSvg

/-!
# Moves that keep a forest

A node may be moved below any node, and nothing asks where the new parent stands.  If that
is the moved node itself or stands below it, the way up from there comes back to where it
began; and if the root is moved, it gets a parent.  These are the only two ways in which an
edit spoils a forest.  As long as no move does either, the root has no parent and all ways
through the document end, after any number of moves: a move changes one step of the ways
up, and the way up from the new parent does not use that step.
-/

namespace TreeEdit

/-- Whether an edit moves neither the root nor a node below itself. -/
def MovesApart (doc : Document) : TreeEdit → Prop
  | reattach node parent _ => node ≠ Document.root ∧ parent ≠ node ∧ ¬ doc.Above node parent
  | _ => True

theorem Allowed.rooted {doc : Document} {e : TreeEdit} (allowed : e.Allowed doc) : 0 < doc.nodes.size := by
  cases e with
  | insert _ _ _ | reattach _ _ _ => exact Nat.zero_lt_of_lt allowed.1
  | _ => exact Nat.zero_lt_of_lt allowed

/-- Whether each edit of a list has a property in the document in which it is made. -/
def Throughout (P : Document → TreeEdit → Prop) : Document → List TreeEdit → Prop
  | _, [] => True
  | doc, e :: rest => P doc e ∧ Throughout P (e.apply doc) rest

end TreeEdit

namespace Document

/-! ## Circles -/

section Circles

variable {doc : Document}

/-- The line from a node down to one that stands below it begins with a child. -/
theorem exists_child_of_above {upper lower : NodeId} (above : doc.Above upper lower) :
    ∃ child, doc.parent? child = some upper ∧ (child = lower ∨ doc.Above child lower) := by
  induction above with
  | parent linked => exact ⟨_, linked, Or.inl rfl⟩
  | outer _ linked inductionHypothesis =>
      rcases inductionHypothesis with ⟨child, childLinked, rfl | further⟩
      · exact ⟨child, childLinked, Or.inr (.parent linked)⟩
      · exact ⟨child, childLinked, Or.inr (.outer further linked)⟩

/-- A circle goes on through a child. -/
theorem exists_child_above_self (links : doc.Linked) {id : NodeId} (circle : doc.Above id id) :
    ∃ child ∈ doc.children id, doc.Above child child := by
  rcases exists_child_of_above circle with ⟨child, linked, rfl | further⟩
  · exact ⟨child, links.mem_children.mpr linked, circle⟩
  · exact ⟨child, links.mem_children.mpr linked, further.trans (.parent linked)⟩

/-- A search for the root that ends did not begin in a circle, unless the root is part of
one. -/
theorem Seeks.not_above_self {id : NodeId} {answer : Bool} (seeks : doc.Seeks id answer)
    (outermost : doc.parent? root = none) : ¬ doc.Above id id := by
  induction seeks with
  | found => exact not_above_of_orphan outermost
  | step _ linked _ inductionHypothesis => exact fun circle => inductionHypothesis (circle.of_parent linked)
  | lost _ orphan => exact not_above_of_orphan orphan

/-- A stack that is worked off had no node of a circle on it. -/
theorem Walks.not_above_self (links : doc.Linked) {stack listed : List NodeId} (walks : doc.Walks stack listed) :
    ∀ id ∈ stack, ¬ doc.Above id id := by
  induction walks with
  | done => exact fun _ impossible => absurd impossible List.not_mem_nil
  | step _ inductionHypothesis =>
      intro node listed circle
      rcases List.mem_cons.mp listed with rfl | deeper
      · rcases exists_child_above_self links circle with ⟨child, among, further⟩
        exact inductionHypothesis child (List.mem_append_left _ among) further
      · exact inductionHypothesis node (List.mem_append_right _ deeper) circle

end Circles

/-! ## One edit -/

section Edit

variable {doc : Document}

/-- Where one node at most has got another parent, which is neither the node nor below it,
the ways up still end: the one from the new parent does not lead through the node, and those
that lead through the node go on with it. -/
theorem Forest.of_one_link (forest : doc.Forest) {other : Document} (links : other.Linked) (moved : NodeId)
    (notRoot : moved ≠ root)
    (old : ∀ {id parent : NodeId}, id ≠ moved → other.parent? id = some parent → doc.parent? id = some parent)
    (apart : ∀ {parent : NodeId}, other.parent? moved = some parent → parent ≠ moved ∧ ¬ doc.Above moved parent) :
    other.Forest := by
  -- These ways lead past the moved node, so each of their steps is an old one.
  have elsewhere : ∀ id, id ≠ moved → ¬ doc.Above moved id → ∃ line, other.Climbs id line := by
    intro id
    induction id using forest.upward_induction with
    | step id above =>
      intro different outside
      cases linked : other.parent? id with
      | none => exact ⟨_, .top linked⟩
      | some parent =>
          have before := old different linked
          rw [above_iff_parent before, not_or] at outside
          rcases above parent before (Ne.symm outside.1) outside.2 with ⟨line, climbs⟩
          exact ⟨_, .step linked climbs⟩
  refine ⟨links, ?_, fun id => ?_⟩
  · cases linked : other.parent? root with
    | none => rfl
    | some parent => exact absurd (old notRoot.symm linked) (forest.parent?_root ▸ nofun)
  · induction id using forest.upward_induction with
    | step id above =>
      cases linked : other.parent? id with
      | none => exact ⟨_, .top linked⟩
      | some parent =>
          -- Only the moved node has a parent from which the induction does not know the way.
          have further : ∃ line, other.Climbs parent line := by
            by_cases here : id = moved
            · rw [here] at linked
              exact elsewhere parent (apart linked).1 (apart linked).2
            · exact above parent (old here linked)
          rcases further with ⟨line, climbs⟩
          exact ⟨_, .step linked climbs⟩

/-- Without moves nothing but a new node gets a parent, and nothing stands below that. -/
theorem Forest.apply_of_keepsPlaces (forest : doc.Forest) {e : TreeEdit} (allowed : e.Allowed doc)
    (keeps : e.KeepsPlaces) : (e.apply doc).Forest := by
  have before {id parent : NodeId} (linked : (e.apply doc).parent? id = some parent) :=
    parent?_of_apply forest.toLinked allowed keeps linked
  refine forest.of_one_link (forest.toLinked.apply allowed) ⟨doc.nodes.size⟩ ?_ ?_ ?_
  · exact fun new => absurd (congrArg NodeId.index new) (Nat.ne_of_gt allowed.rooted)
  · exact fun old linked => (before linked).resolve_right fun new => old new.1
  · intro parent linked
    have inside : parent.index < doc.nodes.size := by
      rcases before linked with old | ⟨-, inside⟩
      · exact forest.index_lt_of_child old
      · exact inside
    refine ⟨fun new => absurd (congrArg NodeId.index new) (Nat.ne_of_lt inside), fun below => ?_⟩
    rcases exists_child_of_above below with ⟨child, childLinked, -⟩
    exact Nat.lt_irrefl _ (forest.index_lt_of_child childLinked)

section Reattach

variable {node parent : NodeId} (index : Nat) (inside : node.index < doc.nodes.size)
  (parentInside : parent.index < doc.nodes.size)

include inside parentInside

theorem Forest.reattach (forest : doc.Forest) (notRoot : node ≠ root) (different : parent ≠ node)
    (apart : ¬ doc.Above node parent) : (doc.reattach node parent index).Forest := by
  have moved := parent?_reattach index forest.toLinked inside parentInside
  refine forest.of_one_link (forest.toLinked.reattach index inside parentInside) node notRoot ?_ ?_
  · intro id upper other linked
    rw [moved, if_neg other] at linked
    exact linked
  · intro upper linked
    rw [moved, if_pos rfl] at linked
    exact Option.some.inj linked ▸ ⟨different, apart⟩

/-- What stands below the moved node still does: only the step from the node itself is
another one, and in a forest no way up to the node uses that step. -/
theorem Forest.above_reattach (forest : doc.Forest) {lower : NodeId} (below : doc.Above node lower) :
    (doc.reattach node parent index).Above node lower := by
  have moved := parent?_reattach index forest.toLinked inside parentInside
  induction below with
  | parent linked =>
      refine .parent ((moved _).trans ((if_neg ?_).trans linked))
      rintro rfl
      exact forest.not_above_self _ (.parent linked)
  | outer further linked inductionHypothesis =>
      refine .outer inductionHypothesis ((moved _).trans ((if_neg ?_).trans linked))
      rintro rfl
      exact forest.not_above_self _ (.outer further linked)

/-- A node that is moved below itself stands in a circle. -/
theorem Forest.above_self_reattach (forest : doc.Forest) (below : parent = node ∨ doc.Above node parent) :
    (doc.reattach node parent index).Above node node := by
  have linked : (doc.reattach node parent index).parent? node = some parent :=
    (parent?_reattach index forest.toLinked inside parentInside node).trans (if_pos rfl)
  rcases below with rfl | further
  · exact .parent linked
  · exact .outer (forest.above_reattach index inside parentInside further) linked

/-- A move keeps a forest exactly if it moves neither the root nor a node below itself. -/
theorem Forest.reattach_iff (forest : doc.Forest) :
    (doc.reattach node parent index).Forest ↔ node ≠ root ∧ parent ≠ node ∧ ¬ doc.Above node parent := by
  constructor
  · intro still
    have apart : ¬ (parent = node ∨ doc.Above node parent) := fun below =>
      still.not_above_self node (forest.above_self_reattach index inside parentInside below)
    refine ⟨?_, not_or.mp apart⟩
    rintro rfl
    have linked := parent?_reattach index forest.toLinked inside parentInside root
    rw [if_pos rfl, still.parent?_root] at linked
    cases linked
  · rintro ⟨notRoot, different, apart⟩
    exact forest.reattach index inside parentInside notRoot different apart

/-- No way from a node that was moved below itself ends: neither upwards, nor in search of
the root, nor downwards. -/
theorem Forest.no_way_ends (forest : doc.Forest) (notRoot : node ≠ root)
    (below : parent = node ∨ doc.Above node parent) :
    (∀ line, ¬ (doc.reattach node parent index).Climbs node line) ∧
      (∀ answer, ¬ (doc.reattach node parent index).Seeks node answer) ∧
      ∀ listed, ¬ (doc.reattach node parent index).Walks [node] listed := by
  have links := forest.toLinked.reattach index inside parentInside
  have circle := forest.above_self_reattach index inside parentInside below
  have outermost : (doc.reattach node parent index).parent? root = none :=
    (parent?_reattach index forest.toLinked inside parentInside root).trans
      ((if_neg notRoot.symm).trans forest.parent?_root)
  exact ⟨fun _ climbs => climbs.not_above_self circle, fun _ seeks => seeks.not_above_self outermost circle,
    fun _ walks => walks.not_above_self links node List.mem_cons_self circle⟩

end Reattach

/-- In a forest the line of ancestors tells whether a move is allowed. -/
theorem Forest.movesApart_reattach_iff (forest : doc.Forest) (rooted : 0 < doc.nodes.size) {node parent : NodeId}
    {index : Nat} :
    (TreeEdit.reattach node parent index).MovesApart doc ↔ node ≠ root ∧ node ∉ doc.ancestors parent := by
  rw [forest.mem_ancestors rooted, not_or, eq_comm (a := node)]
  exact Iff.rfl

theorem Forest.apply_iff (forest : doc.Forest) {e : TreeEdit} (allowed : e.Allowed doc) :
    (e.apply doc).Forest ↔ e.MovesApart doc := by
  cases e with
  | reattach node parent index => exact forest.reattach_iff index allowed.1 allowed.2
  | _ => exact iff_of_true (forest.apply_of_keepsPlaces allowed trivial) trivial

end Edit

/-! ## Many edits -/

section Edits

variable {doc : Document} {edits : List TreeEdit}

/-- What holds after each edit follows from what one edit does. -/
theorem Forest.throughout_iff (forest : doc.Forest)
    (allowed : TreeEdit.Throughout (fun doc e => e.Allowed doc) doc edits) :
    TreeEdit.Throughout (fun doc e => (e.apply doc).Forest) doc edits ↔
      TreeEdit.Throughout (fun doc e => e.MovesApart doc) doc edits := by
  induction edits generalizing doc with
  | nil => exact Iff.rfl
  | cons e rest inductionHypothesis =>
      change (e.apply doc).Forest ∧ _ ↔ e.MovesApart doc ∧ _
      rw [← forest.apply_iff allowed.1]
      exact and_congr_right fun still => inductionHypothesis still allowed.2

theorem Forest.foldl_apply (forest : doc.Forest)
    (still : TreeEdit.Throughout (fun doc e => (e.apply doc).Forest) doc edits) :
    (edits.foldl TreeEdit.apply doc).Forest := by
  induction edits generalizing doc with
  | nil => exact forest
  | cons e rest inductionHypothesis => exact inductionHypothesis still.1 still.2

end Edits

/-- From a document that was read or is empty, edits lead to nothing but forests exactly if
none of them moves the root or moves a node below itself.  In a document that such edits
lead to, the line of ancestors, the search for the root and the walk down end at every node,
with the answers that the document gives; and when another node than the root is then moved
below itself, none of the three ends there. -/
theorem forests_iff_movesApart {start : Document} (origin : start = empty ∨ ∃ text name, read text name = .ok start)
    {edits : List TreeEdit} (allowed : TreeEdit.Throughout (fun doc e => e.Allowed doc) start edits) :
    (TreeEdit.Throughout (fun doc e => (e.apply doc).Forest) start edits ↔
        TreeEdit.Throughout (fun doc e => e.MovesApart doc) start edits) ∧
      (TreeEdit.Throughout (fun doc e => e.MovesApart doc) start edits →
        let doc := edits.foldl TreeEdit.apply start
        (doc.parent? root = none ∧ ∀ id : NodeId, id.index < doc.nodes.size →
          doc.Climbs id (doc.ancestors id) ∧ doc.Seeks id (doc.isAttached id) ∧ doc.Walks [id] (doc.descendants id)) ∧
        ∀ (node parent : NodeId) (index : Nat), node.index < doc.nodes.size → parent.index < doc.nodes.size →
          node ≠ root → parent = node ∨ doc.Above node parent →
            (∀ line, ¬ (doc.reattach node parent index).Climbs node line) ∧
              (∀ answer, ¬ (doc.reattach node parent index).Seeks node answer) ∧
              ∀ listed, ¬ (doc.reattach node parent index).Walks [node] listed) := by
  have forest : start.Forest := by
    rcases origin with rfl | ⟨text, name, parsed⟩
    · exact (Grown.empty (P := fun _ => True)).ordered.forest
    · exact (grown_of_read parsed).ordered.forest
  have step := forest.throughout_iff allowed
  refine ⟨step, fun apart => ?_⟩
  have last := forest.foldl_apply (step.mpr apart)
  refine ⟨⟨last.parent?_root, fun id present => ?_⟩, fun node parent index inside parentInside notRoot below => ?_⟩
  · have rooted := Nat.lt_of_le_of_lt (Nat.zero_le _) present
    exact ⟨last.climbs_ancestors rooted id, last.seeks_isAttached rooted, last.walks_descendants present⟩
  · exact last.no_way_ends index inside parentInside notRoot below

/-- An element is moved below the one behind it, and its text out of it.  If the second
element were then moved below the first one, it would stand below itself. -/
theorem ways_through_moved_elements :
    ∃ start doc, read "<svg><g>a</g><b/></svg>" none = .ok start ∧
      doc = (start.reattach ⟨2⟩ ⟨4⟩ 0).reattach ⟨3⟩ ⟨1⟩ 5 ∧ doc.Climbs ⟨2⟩ [⟨2⟩, ⟨4⟩, ⟨1⟩, root] ∧
      doc.Walks [⟨1⟩] [⟨1⟩, ⟨4⟩, ⟨2⟩, ⟨3⟩] ∧ ∀ answer, ¬ (doc.reattach ⟨4⟩ ⟨2⟩ 0).Seeks ⟨4⟩ answer := by
  have shape : (read "<svg><g>a</g><b/></svg>" none).toOption.map (fun start =>
      let first := start.reattach ⟨2⟩ ⟨4⟩ 0
      let doc := first.reattach ⟨3⟩ ⟨1⟩ 5
      (start.nodes.size, start.ancestors ⟨4⟩, first.ancestors ⟨1⟩, doc.ancestors ⟨2⟩, doc.descendants ⟨1⟩)) =
        some (5, [⟨4⟩, ⟨1⟩, root], [⟨1⟩, root], [⟨2⟩, ⟨4⟩, ⟨1⟩, root], [⟨1⟩, ⟨4⟩, ⟨2⟩, ⟨3⟩]) := by
    decide +kernel
  rw [Option.map_eq_some_iff] at shape
  rcases shape with ⟨start, parsed, same⟩
  rw [toOption_eq_some] at parsed
  simp only [Prod.mk.injEq] at same
  rcases same with ⟨size, lineBefore, lineBetween, up, down⟩
  let below : TreeEdit := .reattach ⟨2⟩ ⟨4⟩ 0
  let out : TreeEdit := .reattach ⟨3⟩ ⟨1⟩ 5
  have firstSize : (below.apply start).nodes.size = 5 := (size_reattach ..).trans size
  have lastSize : (out.apply (below.apply start)).nodes.size = 5 := (size_reattach ..).trans firstSize
  have few : ∀ {doc : Document}, doc.nodes.size = 5 → ∀ index < 5, index < doc.nodes.size :=
    fun size _ inside => size.symm ▸ inside
  have allowed : TreeEdit.Throughout (fun doc e => e.Allowed doc) start [below, out] :=
    ⟨⟨few size 2 (by decide), few size 4 (by decide)⟩, ⟨few firstSize 3 (by decide), few firstSize 1 (by decide)⟩,
      trivial⟩
  have forest : start.Forest := (grown_of_read parsed).ordered.forest
  have apartFirst : below.MovesApart start := by
    rw [forest.movesApart_reattach_iff (few size 0 (by decide)), lineBefore]
    decide
  have forestBetween : (below.apply start).Forest := (forest.apply_iff allowed.1).mpr apartFirst
  have apartSecond : out.MovesApart (below.apply start) := by
    rw [forestBetween.movesApart_reattach_iff (few firstSize 0 (by decide))]
    change _ ∧ _ ∉ (start.reattach ⟨2⟩ ⟨4⟩ 0).ancestors ⟨1⟩
    rw [lineBetween]
    decide
  rcases (forests_iff_movesApart (Or.inr ⟨_, _, parsed⟩) allowed).2 ⟨apartFirst, apartSecond, trivial⟩ with
    ⟨⟨-, ends⟩, circles⟩
  have climbs : ((start.reattach ⟨2⟩ ⟨4⟩ 0).reattach ⟨3⟩ ⟨1⟩ 5).Climbs ⟨2⟩ [⟨2⟩, ⟨4⟩, ⟨1⟩, root] :=
    up ▸ (ends ⟨2⟩ (few lastSize 2 (by decide))).1
  refine ⟨start, _, parsed, rfl, climbs, down ▸ (ends ⟨1⟩ (few lastSize 1 (by decide))).2.2, ?_⟩
  have above : ((start.reattach ⟨2⟩ ⟨4⟩ 0).reattach ⟨3⟩ ⟨1⟩ 5).Above ⟨4⟩ ⟨2⟩ :=
    (climbs.mem_iff.mp (by decide)).resolve_left (by decide)
  exact (circles ⟨4⟩ ⟨2⟩ 0 (few lastSize 4 (by decide)) (few lastSize 2 (by decide)) (by decide) (Or.inr above)).2.1

/-- Nothing keeps the root from being moved, nor an element from being moved below itself:
the root gets a parent, and none of the ways from the element ends. -/
theorem misplaced_nodes_spoil_forest :
    (let edits : List TreeEdit := [.append root (.element (.ofName "a")), .detach ⟨1⟩, .reattach root ⟨1⟩ 0]
     TreeEdit.Throughout (fun doc e => e.Allowed doc) empty edits ∧
      (edits.foldl TreeEdit.apply empty).parent? root = some ⟨1⟩) ∧
    (let edits : List TreeEdit := [.append root (.element (.ofName "a")), .reattach ⟨1⟩ ⟨1⟩ 0]
     let doc := edits.foldl TreeEdit.apply empty
     TreeEdit.Throughout (fun doc e => e.Allowed doc) empty edits ∧ (∀ line, ¬ doc.Climbs ⟨1⟩ line) ∧
      (∀ answer, ¬ doc.Seeks ⟨1⟩ answer) ∧ ∀ listed, ¬ doc.Walks [⟨1⟩] listed) := by
  have forest : ((TreeEdit.append root (.element (.ofName "a"))).apply empty).Forest :=
    (Grown.empty (P := fun _ => True)).ordered.forest.apply_of_keepsPlaces Nat.zero_lt_one trivial
  refine ⟨⟨⟨Nat.zero_lt_one, Nat.one_lt_two, ⟨Nat.zero_lt_two, Nat.one_lt_two⟩, trivial⟩, by decide⟩,
    ⟨Nat.zero_lt_one, ⟨Nat.one_lt_two, Nat.one_lt_two⟩, trivial⟩, ?_⟩
  exact forest.no_way_ends 0 (by decide) (by decide) (by decide) (Or.inl rfl)

end Document
end SlimSvg
