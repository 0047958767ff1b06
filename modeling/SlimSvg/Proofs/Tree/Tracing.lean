import SlimSvg.Proofs.Tree.Course

namespace SlimSvg

/-!
# Tracing a visit

A visitor is traced by putting every moment of its visit down beside its state.  That does
not change what the visitor does, and if all its calls make certain edits only, the moments
of the visit are a course below the root.

A call may count on a property of scenes, which it has to keep, and on the existence of the
nodes it is told of.
-/

open VisitMoment

namespace Visit

variable {σ α β : Type}

/-- What a call shows of a step. -/
def moment (call : VisitCall) (flow : α → Option VisitFlow) (visit : Visit σ α) (scene : Scene σ) : VisitMoment where
  call := call
  flow := (visit.run.run scene).1.toOption.bind flow
  before := scene.document
  after := (visit.run.run scene).2.document

/-- A call that gets no answer opens nothing. -/
theorem opened?_moment_of_no_answer (call : VisitCall) (visit : Visit σ α) (scene : Scene σ) :
    (visit.moment call (fun _ => none) scene).opened? = none := by
  cases opened : (visit.moment call (fun _ => none) scene).opened? with
  | none => rfl
  | some node =>
      have answered := (opened?_eq_some.mp opened).2.1
      rw [moment, Option.bind_fun_none] at answered
      cases answered

/-- Do a step and put the moment down. -/
def traced (call : VisitCall) (flow : α → Option VisitFlow) (visit : Visit σ α) :
    Visit (σ × List VisitMoment) α :=
  ExceptT.mk fun scene =>
    let plain : Scene σ := ⟨scene.state.1, scene.document⟩
    let (result, after) := visit.run.run plain
    (result, ⟨(after.state, scene.state.2 ++ [visit.moment call flow plain]), after.document⟩)

/-- Whether a step that is told of some nodes makes certain edits only and keeps a property
of scenes, also where it fails. -/
def Edits (permits : TreeEdit → Prop) (I : Scene σ → Prop) (nodes : List NodeId) (visit : Visit σ α) : Prop :=
  ∀ scene, I scene → (∀ node ∈ nodes, node.index < scene.document.nodes.size) →
    I (visit.run.run scene).2 ∧ scene.document.Reaches permits (visit.run.run scene).2.document

end Visit

namespace Visitor

variable {σ : Type}

/-- A visitor that puts the moments of its visit down beside its state. -/
def tracing (v : Visitor σ) : Visitor (σ × List VisitMoment) where
  enterRoot := v.enterRoot.traced .enterRoot some
  exitRoot := v.exitRoot.traced .exitRoot fun _ => none
  enter node ancestors := (v.enter node ancestors).traced (.enter node ancestors) some
  exit node ancestors := (v.exit node ancestors).traced (.exit node ancestors) fun _ => none
  text node parent := (v.text node parent).traced (.leaf node parent) fun _ => none
  comment node parent := (v.comment node parent).traced (.leaf node parent) fun _ => none
  instruction node parent := (v.instruction node parent).traced (.leaf node parent) fun _ => none
  doctype node parent := (v.doctype node parent).traced (.leaf node parent) fun _ => none

/-- Whether all calls of a visitor make certain edits only. -/
structure Edits (permits : TreeEdit → Prop) (I : Scene σ → Prop) (v : Visitor σ) : Prop where
  enterRoot : v.enterRoot.Edits permits I [Document.root]
  exitRoot : v.exitRoot.Edits permits I [Document.root]
  enter : ∀ node ancestors, (v.enter node ancestors).Edits permits I (node :: ancestors)
  exit : ∀ node ancestors, (v.exit node ancestors).Edits permits I (node :: ancestors)
  text : ∀ node parent, (v.text node parent).Edits permits I [node, parent]
  comment : ∀ node parent, (v.comment node parent).Edits permits I [node, parent]
  instruction : ∀ node parent, (v.instruction node parent).Edits permits I [node, parent]
  doctype : ∀ node parent, (v.doctype node parent).Edits permits I [node, parent]

end Visitor

/-! ## Traces -/

namespace Visit

section Trace

variable {σ α β : Type} {permits : TreeEdit → Prop} {I : Scene σ → Prop} {scene : Scene σ}
  {plain : Visit σ α} {traced : Visit (σ × List VisitMoment) α} {next : α → Visit σ β}
  {nextTraced : α → Visit (σ × List VisitMoment) β} {Early Shape : List VisitMoment → Document → Bool → Prop}

/-- What is known of the moments of a step and of the scene behind it: their shape, that
each of them made certain edits only, and that a property of scenes was kept. -/
structure Told (permits : TreeEdit → Prop) (I : Scene σ → Prop) (Shape : List VisitMoment → Document → Bool → Prop)
    (moments : List VisitMoment) (finished : Bool) (after : Scene σ) : Prop where
  shape : Shape moments after.document finished
  moved : ∀ m ∈ moments, m.before.Reaches permits m.after
  kept : I after

/-- Whether a step and its traced form do the same on a scene, and what is known of the
moments. -/
def Traces (permits : TreeEdit → Prop) (I : Scene σ → Prop) (plain : Visit σ α)
    (traced : Visit (σ × List VisitMoment) α) (scene : Scene σ)
    (Shape : List VisitMoment → Document → Bool → Prop) : Prop :=
  ∃ moments, (∀ log, traced.run.run ⟨(scene.state, log), scene.document⟩ =
      ((plain.run.run scene).1,
        ⟨((plain.run.run scene).2.state, log ++ moments), (plain.run.run scene).2.document⟩)) ∧
    Told permits I Shape moments (plain.run.run scene).1.isOk (plain.run.run scene).2

theorem Traces.imp (trace : Traces permits I plain traced scene Early)
    (weaker : ∀ moments doc finished, Early moments doc finished → Shape moments doc finished) :
    Traces permits I plain traced scene Shape := by
  rcases trace with ⟨moments, ran, told⟩
  exact ⟨moments, ran, weaker _ _ _ told.shape, told.moved, told.kept⟩

theorem traces_pure (kept : I scene) (value : α) (shape : Shape [] scene.document true) :
    Traces permits I (pure value) (pure value) scene Shape := by
  refine ⟨[], fun log => ?_, shape, List.forall_mem_nil _, kept⟩
  rw [List.append_nil]
  rfl

theorem traces_tooDeep (kept : I scene) (shape : Shape [] scene.document false) :
    Traces permits I (throw .tooDeep : Visit σ α) (throw .tooDeep) scene Shape := by
  refine ⟨[], fun log => ?_, shape, List.forall_mem_nil _, kept⟩
  rw [List.append_nil]
  rfl

/-- A step that looks at the document leaves no moment. -/
theorem traces_document_bind {next : Document → Visit σ β} {nextTraced : Document → Visit (σ × List VisitMoment) β}
    (trace : Traces permits I (next scene.document) (nextTraced scene.document) scene Shape) :
    Traces permits I (document >>= next) (document >>= nextTraced) scene Shape :=
  trace

theorem Traces.bind (first : Traces permits I plain traced scene Early)
    (failing : ∀ moments doc, Early moments doc false → Shape moments doc false)
    (second : ∀ moments value after, plain.run.run scene = (.ok value, after) →
      Told permits I Early moments true after →
        Traces permits I (next value) (nextTraced value) after fun others doc finished =>
          Shape (moments ++ others) doc finished) :
    Traces permits I (plain >>= next) (traced >>= nextTraced) scene Shape := by
  rcases first with ⟨moments, ran, told⟩
  rw [Traces]
  simp only [ExceptT.run_bind, StateT.run_bind, ran]
  cases ranPlain : plain.run.run scene with
  | mk result after =>
      rw [ranPlain] at told
      cases result with
      | error e => exact ⟨moments, fun log => rfl, failing _ _ told.shape, told.moved, told.kept⟩
      | ok value =>
          rcases second moments value after ranPlain told with ⟨others, ranNext, toldNext⟩
          refine ⟨moments ++ others, fun log => ?_, toldNext.shape, ?_, toldNext.kept⟩
          · rw [← List.append_assoc]
            exact ranNext (log ++ moments)
          · intro m listed
            exact (List.mem_append.mp listed).elim (told.moved m) (toldNext.moved m)

/-- A call is put down as one moment. -/
theorem traces_traced {nodes : List NodeId} (edits : plain.Edits permits I nodes) (kept : I scene)
    (present : ∀ node ∈ nodes, node.index < scene.document.nodes.size) (call : VisitCall)
    (flow : α → Option VisitFlow) :
    Traces permits I plain (plain.traced call flow) scene fun moments doc _ =>
      moments = [plain.moment call flow scene] ∧ doc = (plain.moment call flow scene).after := by
  have edited := edits scene kept present
  refine ⟨[plain.moment call flow scene], fun log => rfl, ⟨rfl, rfl⟩, ?_, edited.1⟩
  intro m listed
  rw [List.mem_singleton.mp listed]
  exact edited.2

end Trace

end Visit

/-! ## The course of a traced visit -/

namespace Visitor

variable {σ : Type} {permits : TreeEdit → Prop} {I : Scene σ → Prop} {v : Visitor σ}

/-- Nodes that exist go on existing where none is moved. -/
theorem present_after (keeps : ∀ e, permits e → e.KeepsPlaces) {doc : Document} {moments : List VisitMoment}
    (inLine : InLine doc moments) (moved : ∀ m ∈ moments, m.before.Reaches permits m.after) {nodes : List NodeId}
    (present : ∀ node ∈ nodes, node.index < doc.nodes.size) :
    ∀ node ∈ nodes, node.index < (lastDocument doc moments).nodes.size := by
  have grown := ((reaches_lastDocument inLine moved).of_imp keeps).size_le
  exact fun node listed => Nat.lt_of_lt_of_le (present node listed) grown

/-- A node is left after what was found below it. -/
theorem traces_leave {above : Option NodeId} {node : NodeId} {nodes : List NodeId} {m : VisitMoment}
    {closing : VisitCall} {inner : List VisitMoment} {leave : Visit σ Unit} {scene : Scene σ}
    (leaveEdits : leave.Edits permits I nodes) (kept : I scene)
    (present : ∀ id ∈ nodes, id.index < scene.document.nodes.size) (here : m.before.parent? node = above)
    (brackets : VisitCall.Brackets node m.call closing)
    (inside : Course (some node) m.listed m.after inner scene.document true) :
    Visit.Traces permits I leave (leave.traced closing fun _ => none) scene fun others doc finished =>
      Course above [node] m.before (m :: (inner ++ others)) doc finished := by
  refine (Visit.traces_traced leaveEdits kept present _ _).imp ?_
  rintro moments doc finished ⟨rfl, rfl⟩
  exact .element m (leave.moment closing (fun _ => none) scene) here brackets inside .nothing

/-- Below a node that was opened, its children have their turns, and then it is left. -/
theorem traces_inside {above : Option NodeId} {node : NodeId} {nodes : List NodeId} {m : VisitMoment}
    {closing : VisitCall} {leave visit : Visit σ Unit} {visitTraced : Visit (σ × List VisitMoment) Unit}
    {scene : Scene σ} (keeps : ∀ e, permits e → e.KeepsPlaces) (leaveEdits : leave.Edits permits I nodes)
    (present : ∀ id ∈ nodes, id.index < scene.document.nodes.size) (here : m.before.parent? node = above)
    (brackets : VisitCall.Brackets node m.call closing) (opened : m.opened? = some node)
    (afterEq : m.after = scene.document)
    (inside : Visit.Traces permits I visit visitTraced scene
      (Course (some node) (scene.document.children node) scene.document)) :
    Visit.Traces permits I (visit >>= fun _ => leave) (visitTraced >>= fun _ => leave.traced closing fun _ => none)
      scene fun others doc finished => Course above [node] m.before (m :: others) doc finished := by
  have list : m.listed = scene.document.children node := by
    rw [listed_of_opened? opened, afterEq]
  rw [← list, ← afterEq] at inside
  refine inside.bind (fun inner doc cut => .unclosed m here brackets cut) ?_
  intro inner value after _ told
  have led := told.shape.inLine
  rw [← afterEq] at present
  have presentAfter := present_after keeps led.1 told.moved present
  rw [led.2] at presentAfter
  exact traces_leave leaveEdits told.kept presentAfter here brackets told.shape

section Children

variable (edits : v.Edits permits I) (keeps : ∀ e, permits e → e.KeepsPlaces)
include edits keeps

theorem traces_visitChildren {parent : NodeId} {ancestors : List NodeId}
    {visitElement : (node parent : NodeId) → List NodeId → Visit σ Unit}
    {visitTraced : (node parent : NodeId) → List NodeId → Visit (σ × List VisitMoment) Unit}
    (elements : ∀ node scene, I scene → (∀ id ∈ parent :: ancestors, id.index < scene.document.nodes.size) →
      scene.document.parent? node = some parent →
        Visit.Traces permits I (visitElement node parent ancestors) (visitTraced node parent ancestors) scene
          (Course (some parent) [node] scene.document))
    (children : List NodeId) {scene : Scene σ} (kept : I scene)
    (present : ∀ id ∈ parent :: ancestors, id.index < scene.document.nodes.size) :
    Visit.Traces permits I (visitChildren v visitElement parent ancestors children)
      (visitChildren v.tracing visitTraced parent ancestors children) scene
      (Course (some parent) children scene.document) := by
  induction children generalizing scene with
  | nil => exact Visit.traces_pure kept () .finished
  | cons child rest inductionHypothesis =>
      rw [visitChildren, visitChildren]
      refine Visit.traces_document_bind ?_
      -- Behind one child stand the others, on a scene on which the same is known.
      have andRest : ∀ {visit : Visit σ Unit} {traced : Visit (σ × List VisitMoment) Unit},
          Visit.Traces permits I visit traced scene (Course (some parent) [child] scene.document) →
            Visit.Traces permits I (visit >>= fun _ => visitChildren v visitElement parent ancestors rest)
              (traced >>= fun _ => visitChildren v.tracing visitTraced parent ancestors rest) scene
              (Course (some parent) (child :: rest) scene.document) := by
        intro visit traced here
        refine here.bind (fun moments doc cut => cut.widen rest) ?_
        intro moments value after _ told
        have led := told.shape.inLine
        have presentAfter := present_after keeps led.1 told.moved present
        rw [led.2] at presentAfter
        exact (inductionHypothesis told.kept presentAfter).imp fun _ _ _ => told.shape.append
      have passedOver : (scene.document.parent? child = some parent → scene.document.content child = .root) →
          Visit.Traces permits I (visitChildren v visitElement parent ancestors rest)
            (visitChildren v.tracing visitTraced parent ancestors rest) scene
            (Course (some parent) (child :: rest) scene.document) :=
        fun gone => (inductionHypothesis kept present).imp fun _ _ _ => .passed gone
      split
      · next here =>
        rw [beq_iff_eq] at here
        have presentChild : ∀ id ∈ [child, parent], id.index < scene.document.nodes.size :=
          List.forall_mem_cons.mpr ⟨Document.index_lt_of_parent? here,
            List.forall_mem_singleton.mpr (present parent List.mem_cons_self)⟩
        have leaf : ∀ {visit : Visit σ Unit}, visit.Edits permits I [child, parent] →
            Visit.Traces permits I visit (visit.traced (.leaf child parent) fun _ => none) scene
              (Course (some parent) [child] scene.document) := by
          intro visit editsHere
          refine (Visit.traces_traced editsHere kept presentChild _ _).imp ?_
          rintro moments doc finished ⟨rfl, rfl⟩
          exact .leaf _ here rfl (Visit.opened?_moment_of_no_answer _ _ _) .nothing
        cases content : scene.document.content child with
        | element e => exact andRest (elements child scene kept present here)
        | text s => exact andRest (leaf (edits.text child parent))
        | comment s => exact andRest (leaf (edits.comment child parent))
        | instruction name value => exact andRest (leaf (edits.instruction child parent))
        | doctype s => exact andRest (leaf (edits.doctype child parent))
        | root => exact passedOver fun _ => content
      · next gone =>
        exact passedOver fun here => absurd (beq_iff_eq.mpr here) gone

theorem traces_visitElement (depth : Nat) {node parent : NodeId} {ancestors : List NodeId} {scene : Scene σ}
    (kept : I scene) (present : ∀ id ∈ parent :: ancestors, id.index < scene.document.nodes.size)
    (here : scene.document.parent? node = some parent) :
    Visit.Traces permits I (visitElement v depth node parent ancestors)
      (visitElement v.tracing depth node parent ancestors) scene
      (Course (some parent) [node] scene.document) := by
  induction depth generalizing node parent ancestors scene with
  | zero => exact Visit.traces_tooDeep kept .cut
  | succ depth inductionHypothesis =>
      rw [visitElement, visitElement]
      have presentHere : ∀ id ∈ node :: ancestors, id.index < scene.document.nodes.size :=
        List.forall_mem_cons.mpr ⟨Document.index_lt_of_parent? here, (List.forall_mem_cons.mp present).2⟩
      have brackets := VisitCall.Brackets.element node ancestors
      let m := (v.enter node ancestors).moment (.enter node ancestors) some scene
      refine (Visit.traces_traced (edits.enter node ancestors) kept presentHere _ _).bind ?_ ?_
      · rintro moments doc ⟨rfl, rfl⟩
        exact Course.unclosed m here brackets .cut
      rintro moments flow after ran told
      rcases told.shape with ⟨rfl, afterEq⟩
      have answer : m.flow = some flow := by
        change ((v.enter node ancestors).run.run scene).1.toOption.bind some = some flow
        rw [ran]
        rfl
      have presentAfter : ∀ id ∈ node :: ancestors, id.index < after.document.nodes.size := by
        rw [afterEq]
        have inLine : InLine scene.document [m] := ⟨rfl, trivial⟩
        exact present_after keeps inLine told.moved presentHere
      refine Visit.traces_document_bind ?_
      dsimp only
      split
      · next goesOn =>
        rw [Bool.and_eq_true, beq_iff_eq, beq_iff_eq] at goesOn
        have opened : m.opened? = some node := by
          rw [opened?_eq_some, answer, goesOn.1]
          refine ⟨rfl, rfl, ?_⟩
          rw [← afterEq, goesOn.2]
          exact here.symm
        refine traces_inside keeps (edits.exit node ancestors) presentAfter here brackets opened afterEq.symm ?_
        refine traces_visitChildren edits keeps ?_ _ told.kept ?_
        · intro child further keptThen presentThen hereThen
          exact inductionHypothesis keptThen presentThen hereThen
        · have besides := List.forall_mem_cons.mp presentAfter
          exact List.forall_mem_cons.mpr ⟨besides.1, List.forall_mem_append.mpr
            ⟨besides.2, List.forall_mem_singleton.mpr besides.1⟩⟩
      · next stops =>
        have unopened : m.opened? = none := by
          cases opened : m.opened? with
          | none => rfl
          | some other =>
              rcases opened?_eq_some.mp opened with ⟨called, answered, kept⟩
              rw [← Option.some.inj called] at kept
              refine absurd ?_ stops
              rw [answer] at answered
              rw [Bool.and_eq_true, beq_iff_eq, beq_iff_eq, afterEq, Option.some.inj answered]
              exact ⟨rfl, kept.trans here⟩
        have inside : Course (some node) m.listed m.after [] after.document true := by
          rw [listed_of_opened?_eq_none unopened, afterEq]
          exact .finished
        exact traces_leave (edits.exit node ancestors) told.kept presentAfter here brackets inside

/-- The root is treated as a child without a parent. -/
theorem traces_visitRoot (depth : Nat) {scene : Scene σ} (ordered : scene.document.Ordered)
    (rooted : 0 < scene.document.nodes.size) (kept : I scene) :
    Visit.Traces permits I (visitRoot v depth) (visitRoot v.tracing depth) scene
      (Course none [Document.root] scene.document) := by
  have present : ∀ id ∈ [Document.root], id.index < scene.document.nodes.size := by
    intro id listed
    rw [List.mem_singleton.mp listed]
    exact rooted
  rw [visitRoot, visitRoot]
  let m := v.enterRoot.moment .enterRoot some scene
  have here : m.before.parent? Document.root = none := ordered.parent?_root
  refine (Visit.traces_traced edits.enterRoot kept present _ _).bind ?_ ?_
  · rintro moments doc ⟨rfl, rfl⟩
    exact Course.unclosed m here .root .cut
  rintro moments flow after ran told
  rcases told.shape with ⟨rfl, afterEq⟩
  have answer : m.flow = some flow := by
    change (v.enterRoot.run.run scene).1.toOption.bind some = some flow
    rw [ran]
    rfl
  have presentAfter : ∀ id ∈ [Document.root], id.index < after.document.nodes.size := by
    rw [afterEq]
    have inLine : InLine scene.document [m] := ⟨rfl, trivial⟩
    exact present_after keeps inLine told.moved present
  dsimp only
  split
  · next goesOn =>
    have moved : m.before.Reaches permits m.after := told.moved m List.mem_cons_self
    have still := (ordered.reaches (moved.of_imp keeps)).parent?_root
    have opened : m.opened? = some Document.root := by
      rw [opened?_eq_some, answer, beq_iff_eq.mp goesOn]
      exact ⟨rfl, rfl, still.trans here.symm⟩
    refine Visit.traces_document_bind ?_
    refine traces_inside keeps edits.exitRoot presentAfter here .root opened afterEq.symm ?_
    exact traces_visitChildren edits keeps
      (fun child _ keptThen presentThen hereThen => traces_visitElement edits keeps depth keptThen presentThen hereThen)
      _ told.kept presentAfter
  · next stops =>
    have unopened : m.opened? = none := by
      cases opened : m.opened? with
      | none => rfl
      | some other =>
          have answered := (opened?_eq_some.mp opened).2.1
          rw [answer] at answered
          exact absurd (beq_iff_eq.mpr (Option.some.inj answered)) stops
    have inside : Course (some Document.root) m.listed m.after [] after.document true := by
      rw [listed_of_opened?_eq_none unopened, afterEq]
      exact .finished
    exact traces_leave edits.exitRoot told.kept presentAfter here .root inside

end Children

end Visitor

end SlimSvg
