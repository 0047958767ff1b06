import SlimSvg.Proofs.Tree.Record
import SlimSvg.Proofs.Tree.Moves

namespace SlimSvg

/-!
# The course of a visit

A moment of a visit is a call with its answer and with the document before and after it.
The course of a visit below a node is ruled by the list of its children that was taken when
the visit went below it.  Each child on the list has its turn.  It is passed over if it has
left the node by then; otherwise it is called, and what was found below it follows.

The course is described for visits that succeed and for those that are cut off.  Here the
description is used only to count: how often a node is called is bounded by how often it
is on a list.
-/

/-! ## Moments -/

namespace VisitCall

/-- The node that a visit comes to with a call. -/
def begun? : VisitCall → Option NodeId
  | enterRoot => some Document.root
  | enter node _ | leaf node _ => some node
  | exitRoot | exit _ _ => none

/-- The node that a visit leaves with a call. -/
def closed? : VisitCall → Option NodeId
  | exitRoot => some Document.root
  | exit node _ => some node
  | enterRoot | enter _ _ | leaf _ _ => none

/-- The calls before and behind what is found below a node. -/
inductive Brackets : NodeId → VisitCall → VisitCall → Prop
  | root : Brackets Document.root .enterRoot .exitRoot
  | element (node : NodeId) (ancestors : List NodeId) :
      Brackets node (.enter node ancestors) (.exit node ancestors)

section Brackets

variable {node : NodeId} {opening closing : VisitCall}

theorem Brackets.begun?_opening (brackets : Brackets node opening closing) : opening.begun? = some node := by
  cases brackets <;> rfl

theorem Brackets.closed?_closing (brackets : Brackets node opening closing) : closing.closed? = some node := by
  cases brackets <;> rfl

theorem Brackets.begun?_closing (brackets : Brackets node opening closing) : closing.begun? = none := by
  cases brackets <;> rfl

end Brackets

end VisitCall

/-- A call of a visit, the answer to it, and the document before and after it. -/
structure VisitMoment where
  call : VisitCall
  flow : Option VisitFlow
  before : Document
  after : Document

namespace VisitMoment

/-- The node that a visit goes below: it was not refused, and it has kept its place. -/
def opened? (m : VisitMoment) : Option NodeId :=
  match m.call.begun? with
  | some node => if m.flow = some .descend ∧ m.after.parent? node = m.before.parent? node then some node else none
  | none => none

/-- The children that are listed when a visit goes below a node. -/
def listed (m : VisitMoment) : List NodeId :=
  match m.opened? with
  | some node => m.after.children node
  | none => []

theorem opened?_eq_some {m : VisitMoment} {node : NodeId} :
    m.opened? = some node ↔
      m.call.begun? = some node ∧ m.flow = some .descend ∧ m.after.parent? node = m.before.parent? node := by
  rw [opened?]
  cases m.call.begun? with
  | none =>
      constructor
      · intro impossible
        cases impossible
      · rintro ⟨impossible, -⟩
        cases impossible
  | some other =>
      dsimp only
      split
      · next holds =>
        constructor
        · intro same
          rw [← Option.some.inj same]
          exact ⟨rfl, holds⟩
        · exact fun both => both.1
      · next refused =>
        constructor
        · intro impossible
          cases impossible
        · rintro ⟨same, holds⟩
          rw [Option.some.inj same] at refused
          exact absurd holds refused

theorem listed_of_opened? {m : VisitMoment} {node : NodeId} (opened : m.opened? = some node) :
    m.listed = m.after.children node := by
  rw [listed, opened]

theorem listed_of_opened?_eq_none {m : VisitMoment} (closed : m.opened? = none) : m.listed = [] := by
  rw [listed, closed]

/-- The document that some moments lead to. -/
def lastDocument (doc : Document) (moments : List VisitMoment) : Document :=
  moments.foldl (fun _ m => m.after) doc

theorem lastDocument_append (doc : Document) (first second : List VisitMoment) :
    lastDocument doc (first ++ second) = lastDocument (lastDocument doc first) second :=
  List.foldl_append

/-- Whether each moment begins with the document that the one before has left. -/
def InLine : Document → List VisitMoment → Prop
  | _, [] => True
  | doc, m :: rest => m.before = doc ∧ InLine m.after rest

theorem inLine_append {doc : Document} {first second : List VisitMoment} :
    InLine doc (first ++ second) ↔ InLine doc first ∧ InLine (lastDocument doc first) second := by
  induction first generalizing doc with
  | nil => exact (iff_of_eq (true_and _)).symm
  | cons m rest inductionHypothesis =>
      rw [List.cons_append, InLine, InLine, inductionHypothesis, and_assoc]
      rfl

/-- Edits made at each moment lead from the first document to the last one. -/
theorem reaches_lastDocument {permits : TreeEdit → Prop} {doc : Document} {moments : List VisitMoment}
    (inLine : InLine doc moments) (moved : ∀ m ∈ moments, m.before.Reaches permits m.after) :
    doc.Reaches permits (lastDocument doc moments) := by
  induction moments generalizing doc with
  | nil => exact .start
  | cons m rest inductionHypothesis =>
      rcases inLine with ⟨same, inLineRest⟩
      have here := moved m List.mem_cons_self
      rw [same] at here
      exact here.trans (inductionHypothesis inLineRest fun other listed => moved other (List.mem_cons_of_mem m listed))

/-- The nodes that a visit comes to. -/
def begun (moments : List VisitMoment) : List NodeId :=
  moments.filterMap fun m => m.call.begun?

section Begun

variable {m : VisitMoment} {rest : List VisitMoment}

theorem begun_cons_of_some {node : NodeId} (called : m.call.begun? = some node) :
    begun (m :: rest) = node :: begun rest := by
  simp only [begun, List.filterMap_cons, called]

theorem begun_cons_of_none (silent : m.call.begun? = none) : begun (m :: rest) = begun rest := by
  simp only [begun, List.filterMap_cons, silent]

theorem begun_append (first second : List VisitMoment) : begun (first ++ second) = begun first ++ begun second :=
  List.filterMap_append

theorem mem_begun {moments : List VisitMoment} {node : NodeId} :
    node ∈ begun moments ↔ ∃ m ∈ moments, m.call.begun? = some node :=
  List.mem_filterMap

end Begun

end VisitMoment

/-- The turn of a child: the moments from its call until the visit comes back. -/
structure Turn where
  child : NodeId
  moments : List VisitMoment

open VisitMoment

/-- Turns of children, each of which begins with the document that the one before has left.
A child that is still at its place is called first of all, and a child without a call has
left its place or is of the kind of the root. -/
inductive Turns (above : Option NodeId) : Document → List Turn → Prop
  | nil {doc : Document} : Turns above doc []
  | passed {doc : Document} {child : NodeId} {rest : List Turn}
      (gone : doc.parent? child = above → doc.content child = .root) (later : Turns above doc rest) :
      Turns above doc (⟨child, []⟩ :: rest)
  | called {doc : Document} {child : NodeId} {m : VisitMoment} {moments : List VisitMoment} {rest : List Turn}
      (here : doc.parent? child = above) (begun : m.call.begun? = some child) (seen : m.before = doc)
      (later : Turns above (lastDocument doc (m :: moments)) rest) :
      Turns above doc (⟨child, m :: moments⟩ :: rest)

/-- Whether the children that a node has at some moment have their turns behind it, in the
order of the list.  Then the node is left, unless the visit is cut off. -/
def VisitMoment.TakesTurns (m : VisitMoment) (node : NodeId) (later : List VisitMoment) (finished : Bool) : Prop :=
  ∃ (turns : List Turn) (rest : List VisitMoment), later = turns.flatMap (·.moments) ++ rest ∧
    Turns (some node) m.after turns ∧
      ((turns.map (·.child) = m.after.children node ∧ ∃ x more, rest = x :: more ∧ x.call.closed? = some node) ∨
        (turns.map (·.child) <+: m.after.children node ∧ rest = [] ∧ finished = false))

/-- An item of two lists put together is one of the first or one of the second list. -/
theorem split_append {α : Type} {first second before after : List α} {a : α}
    (split : first ++ second = before ++ a :: after) :
    (∃ tail, first = before ++ a :: tail ∧ after = tail ++ second) ∨
      ∃ front, before = first ++ front ∧ second = front ++ a :: after := by
  rcases List.append_eq_append_iff.mp split with ⟨front, beforeEq, secondEq⟩ | ⟨tail, firstEq, behind⟩
  · exact Or.inr ⟨front, beforeEq, secondEq⟩
  · rcases List.cons_eq_append_iff.mp behind with ⟨none, secondEq⟩ | ⟨rest, tailEq, afterEq⟩
    · rw [none, List.append_nil] at firstEq
      exact Or.inr ⟨[], firstEq.symm.trans (List.append_nil first).symm, secondEq⟩
    · exact Or.inl ⟨rest, firstEq.trans (congrArg (before ++ ·) tailEq), afterEq⟩

/-! ## Courses -/

/-- The moments of a visit to some waiting children.  A visit that does not finish may end
anywhere.  The root is treated as a child without a parent. -/
inductive Course : (above : Option NodeId) → (waiting : List NodeId) → Document → List VisitMoment → Document →
    (finished : Bool) → Prop
  | cut {above : Option NodeId} {waiting : List NodeId} {doc : Document} : Course above waiting doc [] doc false
  | finished {above : Option NodeId} {doc : Document} : Course above [] doc [] doc true
  | passed {above : Option NodeId} {child : NodeId} {rest : List NodeId} {doc last : Document}
      {moments : List VisitMoment} {finished : Bool}
      (gone : doc.parent? child = above → doc.content child = .root)
      (later : Course above rest doc moments last finished) :
      Course above (child :: rest) doc moments last finished
  | leaf {above : Option NodeId} {child : NodeId} {rest : List NodeId} {last : Document}
      {moments : List VisitMoment} {finished : Bool} (m : VisitMoment)
      (here : m.before.parent? child = above) (begun : m.call.begun? = some child) (unopened : m.opened? = none)
      (later : Course above rest m.after moments last finished) :
      Course above (child :: rest) m.before (m :: moments) last finished
  | element {above : Option NodeId} {child : NodeId} {rest : List NodeId} {last : Document}
      {inner moments : List VisitMoment} {finished : Bool} (m x : VisitMoment)
      (here : m.before.parent? child = above) (brackets : VisitCall.Brackets child m.call x.call)
      (inside : Course (some child) m.listed m.after inner x.before true)
      (later : Course above rest x.after moments last finished) :
      Course above (child :: rest) m.before (m :: (inner ++ x :: moments)) last finished
  | unclosed {above : Option NodeId} {child : NodeId} {rest : List NodeId} {last : Document}
      {inner : List VisitMoment} (m : VisitMoment) {closing : VisitCall}
      (here : m.before.parent? child = above) (brackets : VisitCall.Brackets child m.call closing)
      (inside : Course (some child) m.listed m.after inner last false) :
      Course above (child :: rest) m.before (m :: inner) last false

namespace Course

variable {above : Option NodeId} {waiting others : List NodeId} {doc middle last : Document}
  {moments more : List VisitMoment} {finished : Bool}

theorem nothing : Course above [] doc [] doc finished := by
  cases finished with
  | false => exact .cut
  | true => exact .finished

/-- Children that had their turns may be followed by others. -/
theorem append (first : Course above waiting doc moments middle true)
    (second : Course above others middle more last finished) :
    Course above (waiting ++ others) doc (moments ++ more) last finished := by
  generalize done : true = whole at first
  induction first with
  | cut => cases done
  | finished => exact second
  | passed gone _ inductionHypothesis => exact .passed gone (inductionHypothesis second done)
  | leaf m here begun unopened _ inductionHypothesis =>
      exact .leaf m here begun unopened (inductionHypothesis second done)
  | element m x here brackets inside _ _ inductionHypothesis =>
      rw [List.cons_append, List.cons_append, List.append_assoc, List.cons_append]
      exact .element m x here brackets inside (inductionHypothesis second done)
  | unclosed => cases done

/-- Behind a visit that was cut off nobody has a turn. -/
theorem widen (first : Course above waiting doc moments last false) (others : List NodeId) :
    Course above (waiting ++ others) doc moments last false := by
  generalize broken : false = whole at first ⊢
  induction first with
  | cut => exact .cut
  | finished => cases broken
  | passed gone _ inductionHypothesis => exact .passed gone (inductionHypothesis broken)
  | leaf m here begun unopened _ inductionHypothesis =>
      exact .leaf m here begun unopened (inductionHypothesis broken)
  | element m x here brackets inside _ _ inductionHypothesis =>
      exact .element m x here brackets inside (inductionHypothesis broken)
  | unclosed m here brackets inside => exact .unclosed m here brackets inside

theorem inLine (course : Course above waiting doc moments last finished) :
    InLine doc moments ∧ lastDocument doc moments = last := by
  induction course with
  | cut => exact ⟨trivial, rfl⟩
  | finished => exact ⟨trivial, rfl⟩
  | passed _ _ inductionHypothesis => exact inductionHypothesis
  | leaf m _ _ _ _ inductionHypothesis => exact ⟨⟨rfl, inductionHypothesis.1⟩, inductionHypothesis.2⟩
  | element m x _ _ _ _ insideHypothesis laterHypothesis =>
      refine ⟨⟨rfl, inLine_append.mpr ⟨insideHypothesis.1, insideHypothesis.2.symm, laterHypothesis.1⟩⟩, ?_⟩
      change lastDocument m.after (_ ++ x :: _) = _
      rw [lastDocument_append]
      exact laterHypothesis.2
  | unclosed m _ _ _ insideHypothesis => exact ⟨⟨rfl, insideHypothesis.1⟩, insideHypothesis.2⟩

/-! ## Counting -/

/-- A node is called at most as often as it is on a list. -/
theorem count_begun_le (course : Course above waiting doc moments last finished) (node : NodeId) :
    (begun moments).count node ≤ waiting.count node + (moments.flatMap listed).count node := by
  induction course with
  | cut => exact Nat.zero_le _
  | finished => exact Nat.zero_le _
  | passed _ _ inductionHypothesis =>
      rw [List.count_cons]
      omega
  | leaf m _ called unopened _ inductionHypothesis =>
      rw [begun_cons_of_some called, List.flatMap_cons, List.count_append, List.count_cons, List.count_cons]
      omega
  | element m x _ brackets _ _ insideHypothesis laterHypothesis =>
      rw [begun_cons_of_some brackets.begun?_opening, begun_append, begun_cons_of_none brackets.begun?_closing,
        List.flatMap_cons, List.flatMap_append, List.flatMap_cons]
      simp only [List.count_cons, List.count_append]
      omega
  | unclosed m _ brackets _ inductionHypothesis =>
      rw [begun_cons_of_some brackets.begun?_opening, List.flatMap_cons, List.count_append, List.count_cons,
        List.count_cons]
      omega

/-- Whoever is called is a child at that time, unless it was waiting from the start. -/
theorem parent?_of_begun (course : Course above waiting doc moments last finished) {m : VisitMoment}
    (listed : m ∈ moments) {node : NodeId} (called : m.call.begun? = some node) :
    (node ∈ waiting ∧ m.before.parent? node = above) ∨ ∃ parent, m.before.parent? node = some parent := by
  induction course with
  | cut => cases listed
  | finished => cases listed
  | passed _ _ inductionHypothesis =>
      exact (inductionHypothesis listed).imp_left fun both => ⟨List.mem_cons_of_mem _ both.1, both.2⟩
  | leaf first here begun _ _ inductionHypothesis =>
      rcases List.mem_cons.mp listed with same | later
      · rw [same, begun] at called
        rw [same, ← Option.some.inj called]
        exact Or.inl ⟨List.mem_cons_self, here⟩
      · exact (inductionHypothesis later).imp_left fun both => ⟨List.mem_cons_of_mem _ both.1, both.2⟩
  | element first x here brackets _ _ insideHypothesis laterHypothesis =>
      rcases List.mem_cons.mp listed with same | behind
      · rw [same, brackets.begun?_opening] at called
        rw [same, ← Option.some.inj called]
        exact Or.inl ⟨List.mem_cons_self, here⟩
      rcases List.mem_append.mp behind with within | atEnd
      · exact Or.inr ((insideHypothesis within).elim (fun both => ⟨_, both.2⟩) id)
      rcases List.mem_cons.mp atEnd with same | later
      · rw [same, brackets.begun?_closing] at called
        cases called
      · exact (laterHypothesis later).imp_left fun both => ⟨List.mem_cons_of_mem _ both.1, both.2⟩
  | unclosed first here brackets _ insideHypothesis =>
      rcases List.mem_cons.mp listed with same | within
      · rw [same, brackets.begun?_opening] at called
        rw [same, ← Option.some.inj called]
        exact Or.inl ⟨List.mem_cons_self, here⟩
      · exact Or.inr ((insideHypothesis within).elim (fun both => ⟨_, both.2⟩) id)

/-- Whatever is left was come to before. -/
theorem length_le (course : Course above waiting doc moments last finished) :
    moments.length ≤ 2 * (begun moments).length := by
  induction course with
  | cut => exact Nat.zero_le _
  | finished => exact Nat.zero_le _
  | passed _ _ inductionHypothesis => exact inductionHypothesis
  | leaf m _ called _ _ inductionHypothesis =>
      rw [begun_cons_of_some called, List.length_cons, List.length_cons]
      omega
  | element m x _ brackets _ _ insideHypothesis laterHypothesis =>
      rw [begun_cons_of_some brackets.begun?_opening, begun_append, begun_cons_of_none brackets.begun?_closing]
      simp only [List.length_cons, List.length_append]
      omega
  | unclosed m _ brackets _ inductionHypothesis =>
      rw [begun_cons_of_some brackets.begun?_opening, List.length_cons, List.length_cons]
      omega

/-! ## Turns -/

theorem exists_turns (course : Course above waiting doc moments last finished) :
    ∃ turns : List Turn, moments = turns.flatMap (·.moments) ∧ Turns above doc turns ∧
      turns.map (·.child) <+: waiting ∧ (finished = true → turns.map (·.child) = waiting) := by
  induction course with
  | cut => exact ⟨[], rfl, .nil, List.nil_prefix, fun impossible => nomatch impossible⟩
  | finished => exact ⟨[], rfl, .nil, List.nil_prefix, fun _ => rfl⟩
  | @passed above child rest doc last moments finished gone _ inductionHypothesis =>
      rcases inductionHypothesis with ⟨turns, momentsEq, follow, front, all⟩
      refine ⟨⟨child, []⟩ :: turns, momentsEq, .passed gone follow, ?_, ?_⟩
      · exact (List.prefix_cons_inj child).mpr front
      · exact fun done => congrArg (child :: ·) (all done)
  | @leaf above child rest last moments finished m here begun _ _ inductionHypothesis =>
      rcases inductionHypothesis with ⟨turns, momentsEq, follow, front, all⟩
      refine ⟨⟨child, [m]⟩ :: turns, congrArg (m :: ·) momentsEq, .called here begun rfl follow, ?_, ?_⟩
      · exact (List.prefix_cons_inj child).mpr front
      · exact fun done => congrArg (child :: ·) (all done)
  | @element above child rest last inner moments finished m x here brackets _ _ _ laterHypothesis =>
      rcases laterHypothesis with ⟨turns, momentsEq, follow, front, all⟩
      have next : Turns above (lastDocument m.before (m :: (inner ++ [x]))) turns := by
        change Turns above (lastDocument m.after (inner ++ [x])) turns
        rw [lastDocument_append]
        exact follow
      refine ⟨⟨child, m :: (inner ++ [x])⟩ :: turns, ?_, .called here brackets.begun?_opening rfl next, ?_, ?_⟩
      · rw [List.flatMap_cons, List.cons_append, List.append_assoc, ← momentsEq]
        rfl
      · exact (List.prefix_cons_inj child).mpr front
      · exact fun done => congrArg (child :: ·) (all done)
  | @unclosed above child rest last inner m closing here brackets _ _ =>
      refine ⟨[⟨child, m :: inner⟩], ?_, .called here brackets.begun?_opening rfl .nil, ?_, fun impossible => nomatch impossible⟩
      · rw [List.flatMap_cons, List.flatMap_nil, List.append_nil]
      · exact (List.prefix_cons_inj child).mpr List.nil_prefix

/-- Behind the moment that goes below a node, its children have their turns. -/
theorem takesTurns (course : Course above waiting doc moments last finished) {earlier later : List VisitMoment}
    {m : VisitMoment} (split : moments = earlier ++ m :: later) {node : NodeId} (opened : m.opened? = some node) :
    m.TakesTurns node later finished := by
  have called := (opened?_eq_some.mp opened).1
  have list := listed_of_opened? opened
  induction course generalizing earlier later with
  | cut => exact absurd split.symm (List.append_ne_nil_of_right_ne_nil earlier (List.cons_ne_nil m later))
  | finished => exact absurd split.symm (List.append_ne_nil_of_right_ne_nil earlier (List.cons_ne_nil m later))
  | passed _ _ inductionHypothesis => exact inductionHypothesis split
  | leaf first _ _ unopened _ inductionHypothesis =>
      rcases List.cons_eq_append_iff.mp split with ⟨-, here⟩ | ⟨further, -, behind⟩
      · rw [(List.cons.inj here).1, unopened] at opened
        cases opened
      · exact inductionHypothesis behind
  | @element _ _ _ _ _ behindIt _ first x _ brackets inside _ insideHypothesis laterHypothesis =>
      rcases List.cons_eq_append_iff.mp split with ⟨-, here⟩ | ⟨further, -, behind⟩
      · rcases List.cons.inj here with ⟨same, laterEq⟩
        rw [same, brackets.begun?_opening] at called
        rcases inside.exists_turns with ⟨turns, innerEq, follow, -, all⟩
        rw [← same, Option.some.inj called] at follow
        refine ⟨turns, x :: behindIt, ?_, follow, Or.inl ⟨?_, x, behindIt, rfl, ?_⟩⟩
        · rw [laterEq, innerEq]
        · rw [all rfl, ← same, list]
        · rw [← Option.some.inj called]
          exact brackets.closed?_closing
      rcases split_append behind with ⟨tail, innerEq, laterEq⟩ | ⟨front, furtherEq, atEnd⟩
      · rcases insideHypothesis innerEq with ⟨turns, rest, tailEq, follow, whole⟩
        rcases whole with ⟨all, y, more, restEq, closes⟩ | ⟨-, -, impossible⟩
        · refine ⟨turns, y :: (more ++ x :: behindIt), ?_, follow, Or.inl ⟨all, y, _, rfl, closes⟩⟩
          rw [laterEq, tailEq, restEq, List.append_assoc, List.cons_append]
        · cases impossible
      rcases List.cons_eq_append_iff.mp atEnd with ⟨-, here⟩ | ⟨front, -, last⟩
      · rw [(List.cons.inj here).1, brackets.begun?_closing] at called
        cases called
      · exact laterHypothesis last
  | unclosed first _ brackets inside insideHypothesis =>
      rcases List.cons_eq_append_iff.mp split with ⟨-, here⟩ | ⟨further, -, behind⟩
      · rcases List.cons.inj here with ⟨same, laterEq⟩
        rw [same, brackets.begun?_opening] at called
        rcases inside.exists_turns with ⟨turns, innerEq, follow, front, -⟩
        rw [← same, Option.some.inj called] at follow
        refine ⟨turns, [], ?_, follow, Or.inr ⟨?_, rfl, rfl⟩⟩
        · rw [laterEq, innerEq, List.append_nil]
        · rw [← list, same]
          exact front
      · exact insideHypothesis behind

end Course

end SlimSvg
