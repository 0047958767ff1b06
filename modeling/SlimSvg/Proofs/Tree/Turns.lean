import SlimSvg.Proofs.Tree.Reading
import SlimSvg.Proofs.Tree.Tracing

namespace SlimSvg

/-!
# Editing during a visit

A visitor that moves no node may take out and put in what it likes.  The lists of children
that rule its visit are taken at different times, but a node has one parent at most in all
of these documents.  So it is on one list at most, and it is called once at most, since its
parent, which stands before it in the table, is.
-/

open VisitMoment

/-! ## Parents over time -/

namespace Course

theorem reaches_of_split {above : Option NodeId} {waiting : List NodeId} {doc last : Document}
    {moments : List VisitMoment} {finished : Bool} (course : Course above waiting doc moments last finished)
    {permits : TreeEdit → Prop} (moved : ∀ m ∈ moments, m.before.Reaches permits m.after)
    {earlier later : List VisitMoment} {m : VisitMoment} (split : moments = earlier ++ m :: later) :
    doc.Reaches permits m.before ∧ doc.Reaches permits m.after := by
  have inLine := course.inLine.1
  rw [split, inLine_append] at inLine
  have before : doc.Reaches permits m.before := by
    rw [inLine.2.1]
    exact reaches_lastDocument inLine.1 fun other listed => moved other (split ▸ List.mem_append_left _ listed)
  exact ⟨before, before.trans (moved m (split ▸ List.mem_append_right _ List.mem_cons_self))⟩

section History

variable {above : Option NodeId} {waiting : List NodeId} {doc last : Document} {moments : List VisitMoment}
  {finished : Bool} (course : Course above waiting doc moments last finished) (ordered : doc.Ordered)
  (moved : ∀ m ∈ moments, m.before.Reaches TreeEdit.KeepsPlaces m.after)

include course ordered moved

theorem ordered_of_split {earlier later : List VisitMoment} {m : VisitMoment}
    (split : moments = earlier ++ m :: later) : m.before.Ordered ∧ m.after.Ordered := by
  have reached := course.reaches_of_split moved split
  exact ⟨ordered.reaches reached.1, ordered.reaches reached.2⟩

/-- What is found at a later moment has become of the document that a moment has left. -/
theorem later_of_split {earlier later : List VisitMoment} {m other : VisitMoment}
    (split : moments = earlier ++ m :: later) (listed : other ∈ later) :
    m.after.Later other.before ∧ m.after.Later other.after := by
  have orderedHere := (course.ordered_of_split ordered moved split).2
  have inLine := course.inLine.1
  rw [split, inLine_append] at inLine
  rcases List.append_of_mem listed with ⟨front, back, laterEq⟩
  have behind := inLine.2.2
  rw [laterEq, inLine_append] at behind
  have movedLater : ∀ next ∈ later, next.before.Reaches TreeEdit.KeepsPlaces next.after :=
    fun next among => moved next (split ▸ List.mem_append_right _ (List.mem_cons_of_mem m among))
  have before : m.after.Reaches TreeEdit.KeepsPlaces other.before := by
    rw [behind.2.1]
    exact reaches_lastDocument behind.1 fun next among => movedLater next (laterEq ▸ List.mem_append_left _ among)
  exact ⟨orderedHere.later before, orderedHere.later (before.trans (movedLater other listed))⟩

/-- A node has one parent at most at all moments. -/
theorem parent_unique {m other : VisitMoment} (listed : m ∈ moments) (listedToo : other ∈ moments)
    {node parent second : NodeId} (here : m.after.parent? node = some parent)
    (there : other.after.parent? node = some second) : parent = second := by
  rcases List.append_of_mem listed with ⟨earlier, later, split⟩
  have among := listedToo
  rw [split, List.mem_append, List.mem_cons] at among
  rcases among with before | same | behind
  · rcases List.append_of_mem before with ⟨front, back, earlierEq⟩
    have splitToo : moments = front ++ other :: (back ++ m :: later) := by
      rw [split, earlierEq, List.append_assoc, List.cons_append]
    have laterHere : m ∈ back ++ m :: later := List.mem_append_right _ List.mem_cons_self
    have old := (course.later_of_split ordered moved splitToo laterHere).2.parent?_of_parent?
      (Document.index_lt_of_parent? there) here
    exact Option.some.inj (old.symm.trans there)
  · rw [same] at there
    exact Option.some.inj (here.symm.trans there)
  · have old := (course.later_of_split ordered moved split behind).2.parent?_of_parent?
      (Document.index_lt_of_parent? here) there
    exact Option.some.inj (here.symm.trans old)

/-- A list on which a node stands was taken when the visit went below its parent. -/
theorem parent?_of_listed {m : VisitMoment} (among : m ∈ moments) {node : NodeId} (listed : node ∈ m.listed) :
    ∃ parent, m.opened? = some parent ∧ m.after.parent? node = some parent := by
  cases opened : m.opened? with
  | none =>
      rw [listed_of_opened?_eq_none opened] at listed
      cases listed
  | some parent =>
      rw [listed_of_opened? opened] at listed
      rcases List.append_of_mem among with ⟨earlier, later, split⟩
      have links := (course.ordered_of_split ordered moved split).2.toLinked
      exact ⟨parent, rfl, links.mem_children.mp listed⟩

theorem nodup_listed {m : VisitMoment} (among : m ∈ moments) : m.listed.Nodup := by
  cases opened : m.opened? with
  | none =>
      rw [listed_of_opened?_eq_none opened]
      exact List.nodup_nil
  | some parent =>
      rw [listed_of_opened? opened]
      rcases List.append_of_mem among with ⟨earlier, later, split⟩
      exact (course.ordered_of_split ordered moved split).2.nodup_children parent

end History

/-- Where all lists that have a node are taken below one other node, it is listed at most as
often as the other node is called. -/
theorem count_listed_le {moments : List VisitMoment} {node parent : NodeId}
    (distinct : ∀ m ∈ moments, m.listed.Nodup)
    (called : ∀ m ∈ moments, node ∈ m.listed → m.call.begun? = some parent) :
    (moments.flatMap listed).count node ≤ (begun moments).count parent := by
  induction moments with
  | nil => exact Nat.le_refl _
  | cons m rest inductionHypothesis =>
      have later := inductionHypothesis (fun other among => distinct other (List.mem_cons_of_mem m among))
        (fun other among => called other (List.mem_cons_of_mem m among))
      rw [List.flatMap_cons, List.count_append]
      by_cases here : node ∈ m.listed
      · have once := List.nodup_iff_count_le_one.mp (distinct m List.mem_cons_self) node
        rw [begun_cons_of_some (called m List.mem_cons_self here), List.count_cons_self]
        omega
      · rw [List.count_eq_zero_of_not_mem here, Nat.zero_add]
        refine Nat.le_trans later ?_
        rw [begun, begun, List.filterMap_cons]
        split
        · exact Nat.le_refl _
        · exact List.count_le_count_cons

section Whole

variable {doc last : Document} {moments : List VisitMoment} {finished : Bool}
  (course : Course none [Document.root] doc moments last finished) (ordered : doc.Ordered)
  (moved : ∀ m ∈ moments, m.before.Reaches TreeEdit.KeepsPlaces m.after)

include course ordered moved

theorem count_begun_le_one (node : NodeId) : (begun moments).count node ≤ 1 := by
  have bounded : ∀ (bound : Nat) (node : NodeId), node.index < bound → (begun moments).count node ≤ 1 := by
    intro bound
    induction bound with
    | zero => exact fun _ impossible => absurd impossible (Nat.not_lt_zero _)
    | succ bound inductionHypothesis =>
        intro node enough
        have atMost := course.count_begun_le node
        rw [List.count_singleton] at atMost
        by_cases listed : ∃ m ∈ moments, node ∈ m.listed
        · rcases listed with ⟨m, among, listed⟩
          rcases course.parent?_of_listed ordered moved among listed with ⟨parent, opened, linked⟩
          rcases List.append_of_mem among with ⟨earlier, later, split⟩
          have orderedHere := (course.ordered_of_split ordered moved split).2
          have before := orderedHere.parent_earlier linked
          have notRoot : (Document.root == node) = false := by
            rw [beq_eq_false_iff_ne]
            intro same
            rw [← same] at before
            exact absurd before (Nat.not_lt_zero _)
          have called : ∀ other ∈ moments, node ∈ other.listed → other.call.begun? = some parent := by
            intro other amongToo listedToo
            rcases course.parent?_of_listed ordered moved amongToo listedToo with ⟨second, openedToo, linkedToo⟩
            rw [course.parent_unique ordered moved among amongToo linked linkedToo]
            exact (opened?_eq_some.mp openedToo).1
          have lists := count_listed_le (fun other amongToo => course.nodup_listed ordered moved amongToo) called
          have parentOnce := inductionHypothesis parent (by omega)
          rw [notRoot] at atMost
          simp only [Bool.false_eq_true, if_false] at atMost
          omega
        · have unlisted : node ∉ moments.flatMap VisitMoment.listed := by
            intro somewhere
            rcases List.mem_flatMap.mp somewhere with ⟨m, among, here⟩
            exact listed ⟨m, among, here⟩
          rw [List.count_eq_zero_of_not_mem unlisted] at atMost
          split at atMost <;> omega
  exact bounded (node.index + 1) node (Nat.lt_succ_self _)

/-- A node is called once at most. -/
theorem nodup_begun : (begun moments).Nodup :=
  List.nodup_iff_count_le_one.mpr (course.count_begun_le_one ordered moved)

/-- A node that was taken out is not called any more. -/
theorem not_called_of_detached {earlier later : List VisitMoment} {m other : VisitMoment}
    (split : moments = earlier ++ m :: later) {node : NodeId} (notRoot : node ≠ Document.root)
    (inside : node.index < m.after.nodes.size) (detached : m.after.parent? node = none) (among : other ∈ later) :
    other.call.begun? ≠ some node := by
  intro called
  have amongAll : other ∈ moments := by
    rw [split]
    exact List.mem_append_right _ (List.mem_cons_of_mem m among)
  rcases course.parent?_of_begun amongAll called with ⟨waiting, -⟩ | ⟨parent, linked⟩
  · exact notRoot (List.mem_singleton.mp waiting)
  · have old := (course.later_of_split ordered moved split among).1.parent?_of_parent? inside linked
    rw [detached] at old
    cases old

/-- A node that was put among the children of another one when these were already listed is
never called. -/
theorem not_called_of_inserted {earlier later : List VisitMoment} {m other : VisitMoment}
    (split : moments = earlier ++ m :: later) {node parent : NodeId} (opened : m.opened? = some parent)
    (unlisted : node ∉ m.after.children parent) (among : other ∈ later)
    (inserted : node ∈ other.after.children parent) : node ∉ begun moments := by
  intro called
  have amongAll : other ∈ moments := by
    rw [split]
    exact List.mem_append_right _ (List.mem_cons_of_mem m among)
  rcases List.append_of_mem amongAll with ⟨front, back, splitToo⟩
  have orderedThere := (course.ordered_of_split ordered moved splitToo).2
  have linked := orderedThere.mem_children.mp inserted
  have before := orderedThere.parent_earlier linked
  have notRoot : node ∉ [Document.root] := by
    intro same
    rw [List.mem_singleton.mp same] at before
    exact absurd before (Nat.not_lt_zero _)
  have atMost := course.count_begun_le node
  rw [List.count_eq_zero_of_not_mem notRoot, Nat.zero_add] at atMost
  have onList : node ∈ moments.flatMap listed :=
    List.count_pos_iff.mp (Nat.lt_of_lt_of_le (List.count_pos_iff.mpr called) atMost)
  rcases List.mem_flatMap.mp onList with ⟨opener, openerAmong, listedThere⟩
  rcases course.parent?_of_listed ordered moved openerAmong listedThere with ⟨second, openedToo, linkedToo⟩
  have same := course.parent_unique ordered moved openerAmong amongAll linkedToo linked
  have distinct := course.nodup_begun ordered moved
  rw [split, begun_append, begun_cons_of_some (opened?_eq_some.mp opened).1, List.nodup_append, List.nodup_cons]
    at distinct
  have openerCalled : opener.call.begun? = some parent := by
    rw [← same]
    exact (opened?_eq_some.mp openedToo).1
  -- The parent is called once, so the list was the one taken at the given moment.
  rw [split, List.mem_append, List.mem_cons] at openerAmong
  rcases openerAmong with early | here | late
  · exact distinct.2.2 parent (mem_begun.mpr ⟨opener, early, openerCalled⟩) parent List.mem_cons_self rfl
  · rw [here, listed_of_opened? opened] at listedThere
    exact unlisted listedThere
  · exact distinct.2.1.1 (mem_begun.mpr ⟨opener, late, openerCalled⟩)

/-- Where nothing is inserted, the calls are at most twice as many as the nodes. -/
theorem length_le_of_insertsNothing (rooted : 0 < doc.nodes.size)
    (still : ∀ m ∈ moments, m.before.Reaches TreeEdit.InsertsNothing m.after) :
    moments.length ≤ 2 * doc.nodes.size := by
  have atMost : (begun moments).length ≤ doc.nodes.size := by
    refine Document.length_le_size (course.nodup_begun ordered moved) fun node called => ?_
    rcases mem_begun.mp called with ⟨m, among, calledHere⟩
    rcases course.parent?_of_begun among calledHere with ⟨waiting, -⟩ | ⟨parent, linked⟩
    · rw [List.mem_singleton.mp waiting]
      exact rooted
    · rcases List.append_of_mem among with ⟨earlier, later, split⟩
      rw [← (course.reaches_of_split still split).1.size_eq]
      exact Document.index_lt_of_parent? linked
  have both := course.length_le
  omega

end Whole

end Course

/-! ## The limit -/

namespace Visit

section Agreement

variable {σ α β : Type} {I J K : Scene σ → Prop}

/-- Whether two steps do the same on all scenes with one property and leave another one. -/
def Agrees (I J : Scene σ → Prop) (first second : Visit σ α) : Prop :=
  ∀ scene, I scene → second.run.run scene = first.run.run scene ∧ J (first.run.run scene).2

theorem Agrees.bind {first second : Visit σ α} {next nextToo : α → Visit σ β} (here : Agrees I J first second)
    (later : ∀ value, Agrees J J (next value) (nextToo value)) : Agrees I J (first >>= next) (second >>= nextToo) := by
  intro scene holds
  rcases here scene holds with ⟨same, held⟩
  simp only [ExceptT.run_bind, StateT.run_bind, same]
  cases ran : first.run.run scene with
  | mk result after =>
      rw [ran] at held
      cases result with
      | error e => exact ⟨rfl, held⟩
      | ok value => exact later value after held

theorem agrees_document_bind {next nextToo : Document → Visit σ β}
    (later : ∀ doc, Agrees (fun scene => I scene ∧ scene.document = doc) J (next doc) (nextToo doc)) :
    Agrees I J (document >>= next) (document >>= nextToo) :=
  fun scene holds => later scene.document scene ⟨holds, rfl⟩

theorem Agrees.of_imp {first second : Visit σ α} (agrees : Agrees I J first second)
    (before : ∀ scene, K scene → I scene) : Agrees K J first second :=
  fun scene holds => agrees scene (before scene holds)

theorem Edits.agrees {permits : TreeEdit → Prop} {nodes : List NodeId} {visit : Visit σ α}
    (edits : visit.Edits permits I nodes)
    (present : ∀ scene, J scene → I scene ∧ ∀ node ∈ nodes, node.index < scene.document.nodes.size) :
    Agrees J I visit visit := by
  intro scene holds
  rcases present scene holds with ⟨kept, inside⟩
  exact ⟨rfl, (edits scene kept inside).1⟩

/-- Edits are also known to lead on from the first document. -/
theorem Edits.reached {permits : TreeEdit → Prop} {nodes : List NodeId} {visit : Visit σ α}
    (edits : visit.Edits permits I nodes) (start : Document) :
    visit.Edits permits (fun scene => I scene ∧ start.Reaches permits scene.document) nodes := by
  rintro scene ⟨holds, reached⟩ present
  have edited := edits scene holds present
  exact ⟨⟨edited.1, reached.trans edited.2⟩, edited.2⟩

end Agreement

end Visit

namespace Visitor

variable {σ : Type} {permits : TreeEdit → Prop} {I : Scene σ → Prop} {v : Visitor σ}

theorem Edits.reached (edits : v.Edits permits I) (start : Document) :
    v.Edits permits fun scene => I scene ∧ start.Reaches permits scene.document where
  enterRoot := edits.enterRoot.reached start
  exitRoot := edits.exitRoot.reached start
  enter node ancestors := (edits.enter node ancestors).reached start
  exit node ancestors := (edits.exit node ancestors).reached start
  text node parent := (edits.text node parent).reached start
  comment node parent := (edits.comment node parent).reached start
  instruction node parent := (edits.instruction node parent).reached start
  doctype node parent := (edits.doctype node parent).reached start

section Limit

variable {size : Nat} (edits : v.Edits permits I) (sized : ∀ scene, I scene → scene.document.nodes.size = size)
  (ordered : ∀ scene, I scene → scene.document.Ordered)

include edits ordered

theorem agrees_visitChildren {parent : NodeId} {ancestors : List NodeId}
    {first second : (node parent : NodeId) → List NodeId → Visit σ Unit}
    (elements : ∀ node, Visit.Agrees (fun scene => I scene ∧ scene.document.parent? node = some parent) I
      (first node parent ancestors) (second node parent ancestors))
    (children : List NodeId) :
    Visit.Agrees I I (visitChildren v first parent ancestors children)
      (visitChildren v second parent ancestors children) := by
  induction children with
  | nil => exact fun scene holds => ⟨rfl, holds⟩
  | cons child rest inductionHypothesis =>
      rw [visitChildren, visitChildren]
      refine Visit.agrees_document_bind fun doc => ?_
      dsimp only
      split
      · next here =>
        rw [beq_iff_eq] at here
        have linked : ∀ scene : Scene σ, I scene ∧ scene.document = doc →
            I scene ∧ scene.document.parent? child = some parent := by
          rintro scene ⟨holds, rfl⟩
          exact ⟨holds, here⟩
        have present : ∀ scene : Scene σ, I scene ∧ scene.document = doc →
            I scene ∧ ∀ node ∈ [child, parent], node.index < scene.document.nodes.size := by
          rintro scene ⟨holds, rfl⟩
          have childInside := Document.index_lt_of_parent? here
          have parentInside := Nat.lt_trans ((ordered scene holds).parent_earlier here) childInside
          refine ⟨holds, ?_⟩
          rw [List.forall_mem_cons]
          exact ⟨childInside, List.forall_mem_singleton.mpr parentInside⟩
        cases doc.content child with
        | element e => exact ((elements child).of_imp linked).bind fun _ => inductionHypothesis
        | text s => exact ((edits.text child parent).agrees present).bind fun _ => inductionHypothesis
        | comment s => exact ((edits.comment child parent).agrees present).bind fun _ => inductionHypothesis
        | instruction name value =>
            exact ((edits.instruction child parent).agrees present).bind fun _ => inductionHypothesis
        | doctype s => exact ((edits.doctype child parent).agrees present).bind fun _ => inductionHypothesis
        | root => exact inductionHypothesis.of_imp fun _ both => both.1
      · exact inductionHypothesis.of_imp fun _ both => both.1

include sized

/-- An element stands behind its parent, so a limit that is large enough for the table is
never reached. -/
theorem agrees_visitElement (depth more : Nat) {node parent : NodeId} {ancestors : List NodeId}
    (near : size ≤ node.index + depth) (present : ∀ upper ∈ ancestors, upper.index < size) :
    Visit.Agrees (fun scene => I scene ∧ scene.document.parent? node = some parent) I
      (visitElement v depth node parent ancestors) (visitElement v (depth + more) node parent ancestors) := by
  induction depth generalizing node parent ancestors with
  | zero =>
      rintro scene ⟨holds, here⟩
      have inside := Document.index_lt_of_parent? here
      rw [sized scene holds] at inside
      omega
  | succ depth inductionHypothesis =>
      rw [Nat.add_right_comm, visitElement, visitElement]
      rintro scene ⟨holds, here⟩
      have beside : ∀ upper ∈ node :: ancestors, upper.index < size := by
        rw [List.forall_mem_cons, ← sized scene holds]
        exact ⟨Document.index_lt_of_parent? here, sized scene holds ▸ present⟩
      have asked : ∀ scene : Scene σ, I scene →
          I scene ∧ ∀ upper ∈ node :: ancestors, upper.index < scene.document.nodes.size := by
        intro other holdsToo
        rw [sized other holdsToo]
        exact ⟨holdsToo, beside⟩
      have leaves := (edits.exit node ancestors).agrees asked
      refine Visit.Agrees.bind ((edits.enter node ancestors).agrees asked) (fun flow => ?_) scene holds
      refine Visit.agrees_document_bind fun doc => ?_
      dsimp only
      split
      · refine Visit.Agrees.bind (J := I) ?_ fun _ => leaves
        refine (agrees_visitChildren edits ordered ?_ _).of_imp fun _ both => both.1
        rintro child below ⟨holdsBelow, hereBelow⟩
        have behind := (ordered below holdsBelow).parent_earlier hereBelow
        refine inductionHypothesis (by omega) ?_ below ⟨holdsBelow, hereBelow⟩
        intro upper listed
        rw [List.mem_append, List.mem_singleton] at listed
        exact beside upper (List.mem_cons.mpr listed.symm)
      · exact leaves.of_imp fun _ both => both.1

theorem agrees_visitRoot {depth : Nat} (enough : size ≤ depth) (more : Nat) (rooted : 0 < size) :
    Visit.Agrees I I (visitRoot v depth) (visitRoot v (depth + more)) := by
  have asked : ∀ scene : Scene σ, I scene →
      I scene ∧ ∀ node ∈ [Document.root], node.index < scene.document.nodes.size := by
    intro scene holds
    rw [sized scene holds]
    exact ⟨holds, List.forall_mem_singleton.mpr rooted⟩
  have leaves := edits.exitRoot.agrees asked
  rw [visitRoot, visitRoot]
  refine (edits.enterRoot.agrees asked).bind fun flow => ?_
  dsimp only
  split
  · refine Visit.agrees_document_bind fun doc => ?_
    refine Visit.Agrees.bind (J := I) ?_ fun _ => leaves
    refine (agrees_visitChildren edits ordered ?_ _).of_imp fun _ both => both.1
    intro child
    exact agrees_visitElement edits sized ordered depth more (Nat.le_trans enough (Nat.le_add_left _ _))
      (List.forall_mem_nil _)
  · exact leaves

end Limit

/-- A visitor that moves no node may take out and insert nodes while a document that was
read is visited.  Every node is called once at most.  A node that was taken out is not called
any more, and one that was put into a list of children behind the visit's back is never
called.  The children that a node had when the visit went below it have their turns in the
order of the list, and are called then if they are still its children and not of the kind of
the root.  If nothing is inserted, the calls are at most twice as many as the nodes, and no
limit of the depth that is larger than the table plays a part. -/
theorem visitRoot_bears_edits {v : Visitor σ} {I : Scene σ → Prop} (edits : v.Edits TreeEdit.KeepsPlaces I)
    {text : String} {name : Option String} {scene : Scene σ}
    (parsed : Document.read text name = .ok scene.document) (holds : I scene) (depth : Nat) :
    ∃ moments,
      (visitRoot v.tracing depth).run.run ⟨(scene.state, []), scene.document⟩ =
          (((visitRoot v depth).run.run scene).1,
            ⟨(((visitRoot v depth).run.run scene).2.state, moments),
              ((visitRoot v depth).run.run scene).2.document⟩) ∧
        (begun moments).Nodup ∧
        (∀ earlier m later, moments = earlier ++ m :: later →
          (∀ node, node ≠ Document.root → node.index < m.after.nodes.size → m.after.parent? node = none →
            ∀ other ∈ later, other.call.begun? ≠ some node) ∧
          ∀ parent, m.opened? = some parent →
            (∀ node other, node ∉ m.after.children parent → other ∈ later → node ∈ other.after.children parent →
              node ∉ begun moments) ∧
            m.TakesTurns parent later ((visitRoot v depth).run.run scene).1.isOk) ∧
        (v.Edits TreeEdit.InsertsNothing I →
          moments.length ≤ 2 * scene.document.nodes.size ∧
            (scene.document.nodes.size ≤ depth →
              ∀ more, (visitRoot v (depth + more)).run.run scene = (visitRoot v depth).run.run scene)) := by
  have grown := Document.grown_of_read parsed
  have ordered := grown.ordered
  rcases traces_visitRoot edits (fun _ keeps => keeps) depth ordered grown.rooted holds with ⟨moments, ran, told⟩
  have course := told.shape
  refine ⟨moments, ran [], course.nodup_begun ordered told.moved, ?_, ?_⟩
  · intro earlier m later split
    refine ⟨?_, ?_⟩
    · intro node notRoot inside detached other among
      exact course.not_called_of_detached ordered told.moved split notRoot inside detached among
    · intro parent opened
      refine ⟨?_, course.takesTurns split opened⟩
      intro node other unlisted among inserted
      exact course.not_called_of_inserted ordered told.moved split opened unlisted among inserted
  · intro still
    refine ⟨?_, ?_⟩
    · rcases traces_visitRoot still (fun _ nothing => nothing.keepsPlaces) depth ordered grown.rooted holds
        with ⟨others, ranToo, toldToo⟩
      have same : others = moments := by
        have both := (ranToo []).symm.trans (ran [])
        exact congrArg (fun result => result.2.state.2) both
      rw [same] at toldToo
      exact course.length_le_of_insertsNothing ordered told.moved grown.rooted toldToo.moved
    · intro enough more
      have agrees := agrees_visitRoot (still.reached scene.document) (fun _ both => both.2.size_eq)
        (fun _ both => ordered.reaches (both.2.of_imp fun _ => TreeEdit.InsertsNothing.keepsPlaces)) enough more
        grown.rooted
      exact (agrees scene ⟨holds, .start⟩).1

/-- A visitor that acts on coming to one element. -/
def actingAt (place : NodeId) (act : Document → Document) : Visitor Unit where
  enter node _ := do
    Visit.editDocument fun doc => if node == place then act doc else doc
    return .descend

theorem edits_actingAt {place : NodeId} {act : Document → Document} {size : Nat}
    (acts : ∀ doc : Document, size ≤ doc.nodes.size →
      size ≤ (act doc).nodes.size ∧ doc.Reaches permits (act doc)) :
    (actingAt place act).Edits permits fun scene => size ≤ scene.document.nodes.size where
  enterRoot _ holds _ := ⟨holds, .start⟩
  exitRoot _ holds _ := ⟨holds, .start⟩
  enter node _ := by
    intro scene holds _
    change size ≤ (if node == place then act scene.document else scene.document).nodes.size ∧
      scene.document.Reaches permits (if node == place then act scene.document else scene.document)
    split
    · exact acts scene.document holds
    · exact ⟨holds, .start⟩
  exit _ _ _ holds _ := ⟨holds, .start⟩
  text _ _ _ holds _ := ⟨holds, .start⟩
  comment _ _ _ holds _ := ⟨holds, .start⟩
  instruction _ _ _ holds _ := ⟨holds, .start⟩
  doctype _ _ _ holds _ := ⟨holds, .start⟩

/-- On coming to the first child of the image, the second one is taken out and a new one is
put behind the third one. -/
theorem sibling_is_passed_over :
    let act (doc : Document) : Document := ((doc.detach ⟨4⟩).append ⟨1⟩ (.comment "d")).2
    let v := actingAt ⟨2⟩ act
    ∃ doc moments, Document.read "<svg><g>a</g><!--b--><!--c--></svg>" none = .ok doc ∧ 6 ≤ doc.nodes.size ∧
      v.Edits TreeEdit.KeepsPlaces (fun scene => 6 ≤ scene.document.nodes.size) ∧
      ((visitRoot v.tracing 9).run.run ⟨((), []), doc⟩).2.state.2 = moments ∧
      begun moments = [⟨0⟩, ⟨1⟩, ⟨2⟩, ⟨3⟩, ⟨5⟩] ∧ (begun moments).Nodup := by
  intro act v
  have edits : v.Edits TreeEdit.KeepsPlaces fun scene => 6 ≤ scene.document.nodes.size := by
    apply edits_actingAt
    intro doc large
    have allowed : (TreeEdit.detach ⟨4⟩).Allowed doc := by
      change 4 < doc.nodes.size
      omega
    have allowedToo : (TreeEdit.append ⟨1⟩ (.comment "d")).Allowed (doc.detach ⟨4⟩) := by
      change 1 < (doc.detach ⟨4⟩).nodes.size
      rw [Document.size_detach]
      omega
    refine ⟨?_, .edit (.append ⟨1⟩ (.comment "d")) (.edit (.detach ⟨4⟩) .start trivial allowed) trivial allowedToo⟩
    change 6 ≤ ((doc.detach ⟨4⟩).append ⟨1⟩ (.comment "d")).2.nodes.size
    rw [Document.append, Document.size_insertAt, Document.size_detach]
    omega
  have called : (Document.read "<svg><g>a</g><!--b--><!--c--></svg>" none).toOption.map
      (fun doc => (doc.nodes.size, begun ((visitRoot v.tracing 9).run.run ⟨((), []), doc⟩).2.state.2)) =
        some (6, [⟨0⟩, ⟨1⟩, ⟨2⟩, ⟨3⟩, ⟨5⟩]) := by
    decide +kernel
  rw [Option.map_eq_some_iff] at called
  rcases called with ⟨doc, parsed, same⟩
  rw [toOption_eq_some] at parsed
  rcases Prod.mk.inj same with ⟨size, places⟩
  have holds : 6 ≤ doc.nodes.size := Nat.le_of_eq size.symm
  let start : Scene Unit := ⟨(), doc⟩
  have parsedStart : Document.read "<svg><g>a</g><!--b--><!--c--></svg>" none = .ok start.document := parsed
  rcases visitRoot_bears_edits edits parsedStart holds 9 with ⟨moments, ran, distinct, -⟩
  rw [ran] at places
  exact ⟨doc, moments, parsed, holds, edits, congrArg (fun result => result.2.state.2) ran, places, distinct⟩

/-- A child of the kind of the root is on the list and keeps its place, and yet there is no
call for it. -/
theorem root_content_is_passed_over :
    let act (doc : Document) : Document := (doc.append ⟨1⟩ .root).2
    let v := actingAt ⟨1⟩ act
    ∃ doc first m later, Document.read "<svg><a/></svg>" none = .ok doc ∧
      v.Edits TreeEdit.KeepsPlaces (fun scene => 2 ≤ scene.document.nodes.size) ∧ 2 ≤ doc.nodes.size ∧
      ((visitRoot v.tracing 9).run.run ⟨((), []), doc⟩).2.state.2 = first :: m :: later ∧
      m.opened? = some ⟨1⟩ ∧ m.after.children ⟨1⟩ = [⟨2⟩, ⟨3⟩] ∧
      (∀ other ∈ later, other.before.parent? ⟨3⟩ = some ⟨1⟩ ∧ other.after.parent? ⟨3⟩ = some ⟨1⟩) ∧
      ⟨3⟩ ∉ begun (first :: m :: later) := by
  intro act v
  have edits : v.Edits TreeEdit.KeepsPlaces fun scene => 2 ≤ scene.document.nodes.size := by
    apply edits_actingAt
    intro doc large
    have allowed : (TreeEdit.append ⟨1⟩ .root).Allowed doc := by
      change 1 < doc.nodes.size
      omega
    refine ⟨?_, .edit (.append ⟨1⟩ .root) .start trivial allowed⟩
    change 2 ≤ (doc.append ⟨1⟩ .root).2.nodes.size
    rw [Document.append, Document.size_insertAt]
    omega
  let keepsPlace (m : VisitMoment) : Bool :=
    m.before.parent? ⟨3⟩ == some ⟨1⟩ && m.after.parent? ⟨3⟩ == some ⟨1⟩
  let shows (m : VisitMoment) : Option NodeId × List NodeId × Bool × Option NodeId :=
    (m.opened?, m.listed, keepsPlace m, m.call.begun?)
  have sized : (Document.read "<svg><a/></svg>" none).toOption.map (fun doc => decide (2 ≤ doc.nodes.size)) =
      some true := by
    decide +kernel
  have called : (Document.read "<svg><a/></svg>" none).toOption.map
      (fun doc => ((visitRoot v.tracing 9).run.run ⟨((), []), doc⟩).2.state.2.map shows) =
        some [(some ⟨0⟩, [⟨1⟩], false, some ⟨0⟩), (some ⟨1⟩, [⟨2⟩, ⟨3⟩], false, some ⟨1⟩),
          (some ⟨2⟩, [], true, some ⟨2⟩), (none, [], true, none), (none, [], true, none),
          (none, [], true, none)] := by
    decide +kernel
  rw [Option.map_eq_some_iff] at called
  rcases called with ⟨doc, parsed, shown⟩
  rw [parsed, Option.map_some] at sized
  rw [toOption_eq_some] at parsed
  rcases List.map_eq_cons_iff.mp shown with ⟨first, rest, momentsEq, -, restShown⟩
  rcases List.map_eq_cons_iff.mp restShown with ⟨m, later, restEq, mShown, laterShown⟩
  rw [restEq] at momentsEq
  rcases Prod.mk.inj mShown with ⟨opened, listShown⟩
  refine ⟨doc, first, m, later, parsed, edits, of_decide_eq_true (Option.some.inj sized), momentsEq, opened, ?_, ?_, ?_⟩
  · rw [← listed_of_opened? opened]
    exact (Prod.mk.inj listShown).1
  · intro other among
    have every : ∀ shown ∈ later.map shows, shown.2.2.1 = true := by
      rw [laterShown]
      decide
    have kept := every _ (List.mem_map_of_mem among)
    rw [Bool.and_eq_true, beq_iff_eq, beq_iff_eq] at kept
    exact kept
  · have places : begun (first :: m :: later) = ((first :: m :: later).map shows).filterMap (·.2.2.2) := by
      rw [List.filterMap_map]
      rfl
    rw [places, ← momentsEq, shown]
    decide

end Visitor

end SlimSvg
