import SlimSvg.Tree.Branch
import SlimSvg.Tree.Visit

namespace SlimSvg

/-!
# Records of visits

A visitor may change the document under the visit in any way, so little can be said
of the nodes that are visited.  The order of the calls is another matter.  A record
holds every call with its answer; it is kept beside the state of the visitor and does
not change what the visitor does.

The calls of a visit that succeeds are nested like brackets.  Between the calls that
enter and leave an element stand the calls for what was found below it, which are
none if the visitor refused to go on or if the element lost its place.
-/

/-! ## Calls -/

/-- A question that a visit asks the visitor. -/
inductive VisitCall where
  | enterRoot
  | exitRoot
  | enter (node : NodeId) (ancestors : List NodeId)
  | exit (node : NodeId) (ancestors : List NodeId)
  /-- A node that is no element, with its parent. -/
  | leaf (node parent : NodeId)
deriving DecidableEq, Repr

/-- A call, and why it failed if it did. -/
structure VisitEntry where
  call : VisitCall
  failure : Option VisitError
deriving DecidableEq, Repr

namespace VisitCall

/-- Calls below some elements, every element that is entered being left again. -/
inductive Nested : (ancestors : List NodeId) → List VisitCall → Prop
  | nil {ancestors : List NodeId} : Nested ancestors []
  | leaf {ancestors : List NodeId} {calls : List VisitCall} (node parent : NodeId)
      (rest : Nested ancestors calls) : Nested ancestors (.leaf node parent :: calls)
  | element {ancestors : List NodeId} {inner calls : List VisitCall} (node : NodeId)
      (inside : Nested (ancestors ++ [node]) inner) (rest : Nested ancestors calls) :
      Nested ancestors (.enter node ancestors :: (inner ++ .exit node ancestors :: calls))

/-- The elements that are open after one more call, the outermost one first. -/
def openAfter (unclosed : List NodeId) : VisitCall → List NodeId
  | .enter node _ => unclosed ++ [node]
  | .exit _ _ => unclosed.dropLast
  | _ => unclosed

/-- The elements that were entered and not left yet. -/
def unclosed (calls : List VisitCall) : List NodeId :=
  calls.foldl openAfter []

/-- Whether an element comes with the elements that are open around it.  When an
element is left, it is still open and is the innermost one. -/
def Fits (unclosed : List NodeId) : VisitCall → Prop
  | .enter _ ancestors => ancestors = unclosed
  | .exit node ancestors => unclosed = ancestors ++ [node]
  | _ => True

theorem Nested.append {ancestors : List NodeId} {first second : List VisitCall}
    (firstNested : Nested ancestors first) (secondNested : Nested ancestors second) :
    Nested ancestors (first ++ second) := by
  induction firstNested with
  | nil => exact secondNested
  | leaf node parent _ inductionHypothesis => exact .leaf node parent (inductionHypothesis secondNested)
  | element node inside _ _ inductionHypothesis =>
      rw [List.cons_append, List.append_assoc, List.cons_append]
      exact .element node inside (inductionHypothesis secondNested)

/-- Nested calls close what they open. -/
theorem Nested.foldl_openAfter {ancestors : List NodeId} {calls : List VisitCall}
    (nested : Nested ancestors calls) : calls.foldl openAfter ancestors = ancestors := by
  induction nested with
  | nil => rfl
  | leaf _ _ _ inductionHypothesis => exact inductionHypothesis
  | @element ancestors inner calls node _ _ insideHypothesis restHypothesis =>
      rw [List.foldl_cons, List.foldl_append, List.foldl_cons]
      change calls.foldl openAfter (inner.foldl openAfter (ancestors ++ [node])).dropLast = ancestors
      rw [insideHypothesis, List.dropLast_concat, restHypothesis]

/-- In nested calls every element comes with the elements that are open around it. -/
theorem Nested.fits {ancestors : List NodeId} {calls : List VisitCall} (nested : Nested ancestors calls)
    {before after : List VisitCall} {call : VisitCall} (split : calls = before ++ call :: after) :
    call.Fits (before.foldl openAfter ancestors) := by
  induction nested generalizing before after with
  | nil => exact absurd split.symm (List.append_ne_nil_of_right_ne_nil before (List.cons_ne_nil call after))
  | @leaf ancestors calls node parent _ inductionHypothesis =>
      rcases List.cons_eq_append_iff.mp split with ⟨none, here⟩ | ⟨further, beforeEq, later⟩
      · rw [(List.cons.inj here).1]
        exact True.intro
      · rw [beforeEq]
        change call.Fits (further.foldl openAfter ancestors)
        exact inductionHypothesis later
  | @element ancestors inner calls node inside rest insideHypothesis restHypothesis =>
      rcases List.cons_eq_append_iff.mp split with ⟨none, here⟩ | ⟨further, beforeEq, later⟩
      · rw [(List.cons.inj here).1, none]
        rfl
      · rw [beforeEq]
        change call.Fits (further.foldl openAfter (ancestors ++ [node]))
        -- The call stands among those inside the element, or it leaves it, or it comes later.
        rcases List.append_eq_append_iff.mp later with ⟨middle, furtherEq, behind⟩ | ⟨middle, innerEq, behind⟩
        · rw [furtherEq, List.foldl_append, inside.foldl_openAfter]
          rcases List.cons_eq_append_iff.mp behind with ⟨none, here⟩ | ⟨last, middleEq, restEq⟩
          · rw [(List.cons.inj here).1, none]
            rfl
          · rw [middleEq, List.foldl_cons]
            change call.Fits (last.foldl openAfter (ancestors ++ [node]).dropLast)
            rw [List.dropLast_concat]
            exact restHypothesis restEq
        · rcases List.cons_eq_append_iff.mp behind with ⟨none, here⟩ | ⟨last, middleEq, restEq⟩
          · rw [none, List.append_nil] at innerEq
            rw [← (List.cons.inj here).1, ← innerEq, inside.foldl_openAfter]
            rfl
          · exact insideHypothesis (innerEq.trans (congrArg (further ++ ·) middleEq))

end VisitCall

/-! ## Recording -/

/-- The reason of a failure. -/
def VisitError.ofResult? {α : Type} : Except VisitError α → Option VisitError
  | .ok _ => none
  | .error e => some e

namespace Visit

variable {σ α : Type}

/-- Do a step and write the call down with its answer. -/
def recorded (call : VisitCall) (visit : Visit σ α) : Visit (σ × List VisitEntry) α :=
  ExceptT.mk fun scene =>
    let (result, after) := visit.run.run ⟨scene.state.1, scene.document⟩
    let entry : VisitEntry := ⟨call, VisitError.ofResult? result⟩
    (result, ⟨(after.state, scene.state.2 ++ [entry]), after.document⟩)

end Visit

namespace Visitor

variable {σ : Type}

/-- A visitor that keeps a record beside its state. -/
def recording (v : Visitor σ) : Visitor (σ × List VisitEntry) where
  enterRoot := v.enterRoot.recorded .enterRoot
  exitRoot := v.exitRoot.recorded .exitRoot
  enter node ancestors := (v.enter node ancestors).recorded (.enter node ancestors)
  exit node ancestors := (v.exit node ancestors).recorded (.exit node ancestors)
  text node parent := (v.text node parent).recorded (.leaf node parent)
  comment node parent := (v.comment node parent).recorded (.leaf node parent)
  instruction node parent := (v.instruction node parent).recorded (.leaf node parent)
  doctype node parent := (v.doctype node parent).recorded (.leaf node parent)

end Visitor

/-- What a record says of the way a step ended.  A step that succeeds has made certain
calls, none of which failed; otherwise the last call failed for the same reason, or
no call failed and the visit ran too deep. -/
def VisitEntry.Tell {α : Type} (Made : List VisitCall → Prop) (entries : List VisitEntry) :
    Except VisitError α → Prop
  | .ok _ => (∀ entry ∈ entries, entry.failure = none) ∧ Made (entries.map (·.call))
  | .error e =>
    (∃ before call, entries = before ++ [⟨call, some e⟩] ∧ ∀ entry ∈ before, entry.failure = none) ∨
      (e = .tooDeep ∧ ∀ entry ∈ entries, entry.failure = none)

namespace Visit

variable {σ α β : Type}

/-- Whether a step and its recording do the same, and what the record tells. -/
def Records (plain : Visit σ α) (recording : Visit (σ × List VisitEntry) α)
    (Made : List VisitCall → Prop) : Prop :=
  ∀ (scene : Scene σ) (log : List VisitEntry), ∃ entries,
    recording.run.run ⟨(scene.state, log), scene.document⟩ =
        ((plain.run.run scene).1,
          ⟨((plain.run.run scene).2.state, log ++ entries), (plain.run.run scene).2.document⟩) ∧
      VisitEntry.Tell Made entries (plain.run.run scene).1

theorem records_recorded (call : VisitCall) (visit : Visit σ α) :
    Records visit (visit.recorded call) (· = [call]) := by
  intro scene log
  cases ran : visit.run.run scene with
  | mk result after =>
      refine ⟨[⟨call, VisitError.ofResult? result⟩], ?_, ?_⟩
      · change (visit.recorded call).run _ = _
        change visit.run.run ⟨scene.state, scene.document⟩ = _ at ran
        simp only [recorded, ExceptT.run_mk, ran]
      · cases result with
        | ok value => exact ⟨by simp [VisitError.ofResult?], rfl⟩
        | error e => exact Or.inl ⟨[], call, rfl, List.forall_mem_nil _⟩

theorem records_pure (value : α) :
    Records (pure value : Visit σ α) (pure value) (· = []) := by
  intro scene log
  refine ⟨[], ?_, List.forall_mem_nil _, rfl⟩
  rw [List.append_nil]
  rfl

theorem records_document : Records (document : Visit σ Document) document (· = []) := by
  intro scene log
  refine ⟨[], ?_, List.forall_mem_nil _, rfl⟩
  rw [List.append_nil]
  rfl

theorem records_tooDeep (Made : List VisitCall → Prop) :
    Records (throw .tooDeep : Visit σ α) (throw .tooDeep) Made := by
  intro scene log
  refine ⟨[], ?_, Or.inr ⟨rfl, List.forall_mem_nil _⟩⟩
  rw [List.append_nil]
  rfl

theorem Records.weaken {plain : Visit σ α} {recording : Visit (σ × List VisitEntry) α}
    {Made Other : List VisitCall → Prop} (records : Records plain recording Made)
    (weaker : ∀ calls, Made calls → Other calls) : Records plain recording Other := by
  intro scene log
  rcases records scene log with ⟨entries, ran, tell⟩
  refine ⟨entries, ran, ?_⟩
  cases result : (plain.run.run scene).1 with
  | ok value =>
      rw [result] at tell
      exact ⟨tell.1, weaker _ tell.2⟩
  | error e =>
      rw [result] at tell
      exact tell

/-- A record of two steps is the record of the first one and that of the second one. -/
theorem Records.bind {plain : Visit σ α} {recording : Visit (σ × List VisitEntry) α}
    {next : α → Visit σ β} {nextRecording : α → Visit (σ × List VisitEntry) β}
    {F S B : List VisitCall → Prop} (first : Records plain recording F)
    (second : ∀ value, Records (next value) (nextRecording value) S)
    (both : ∀ before after, F before → S after → B (before ++ after)) :
    Records (plain >>= next) (recording >>= nextRecording) B := by
  intro scene log
  rcases first scene log with ⟨entries, ran, tell⟩
  rw [ExceptT.run_bind, StateT.run_bind, ran, ExceptT.run_bind, StateT.run_bind]
  cases ranPlain : plain.run.run scene with
  | mk result after =>
      rw [ranPlain] at tell
      cases result with
      | error e =>
          refine ⟨entries, rfl, ?_⟩
          exact tell
      | ok value =>
          rcases second value after (log ++ entries) with ⟨others, ranNext, tellNext⟩
          refine ⟨entries ++ others, ?_, ?_⟩
          · rw [← List.append_assoc]
            exact ranNext
          · change VisitEntry.Tell B (entries ++ others) ((next value).run.run after).1
            cases nextResult : ((next value).run.run after).1 with
            | ok last =>
                rw [nextResult] at tellNext
                refine ⟨fun entry listed => ?_, ?_⟩
                · rcases List.mem_append.mp listed with early | late
                  · exact tell.1 entry early
                  · exact tellNext.1 entry late
                · rw [List.map_append]
                  exact both _ _ tell.2 tellNext.2
            | error e =>
                rw [nextResult] at tellNext
                rcases tellNext with ⟨before, call, othersEq, calm⟩ | ⟨deep, calm⟩
                · refine Or.inl ⟨entries ++ before, call, ?_, ?_⟩
                  · rw [othersEq, List.append_assoc]
                  · intro entry listed
                    rcases List.mem_append.mp listed with early | late
                    · exact tell.1 entry early
                    · exact calm entry late
                · refine Or.inr ⟨deep, ?_⟩
                  intro entry listed
                  rcases List.mem_append.mp listed with early | late
                  · exact tell.1 entry early
                  · exact calm entry late

/-- A step that asks nobody leaves no record. -/
theorem Records.silentBind {plain : Visit σ α} {recording : Visit (σ × List VisitEntry) α}
    {next : α → Visit σ β} {nextRecording : α → Visit (σ × List VisitEntry) β}
    {Made : List VisitCall → Prop} (first : Records plain recording (· = []))
    (second : ∀ value, Records (next value) (nextRecording value) Made) :
    Records (plain >>= next) (recording >>= nextRecording) Made := by
  refine first.bind second ?_
  intro before after none made
  rw [none]
  exact made

end Visit

/-! ## Nested calls -/

namespace Visitor

variable {σ : Type} (v : Visitor σ)

theorem records_visitChildren {visitElement : (node parent : NodeId) → List NodeId → Visit σ Unit}
    {visitRecorded : (node parent : NodeId) → List NodeId → Visit (σ × List VisitEntry) Unit}
    {parent : NodeId} {ancestors : List NodeId}
    (elements : ∀ node, Visit.Records (visitElement node parent ancestors)
      (visitRecorded node parent ancestors) (VisitCall.Nested ancestors))
    (children : List NodeId) :
    Visit.Records (visitChildren v visitElement parent ancestors children)
      (visitChildren v.recording visitRecorded parent ancestors children)
      (VisitCall.Nested ancestors) := by
  have leaf : ∀ (node : NodeId) (visit : Visit σ Unit),
      Visit.Records visit (visit.recorded (.leaf node parent)) (VisitCall.Nested ancestors) := by
    intro node visit
    refine (Visit.records_recorded _ visit).weaken ?_
    intro calls made
    rw [made]
    exact .leaf node parent .nil
  have nothing : Visit.Records (pure () : Visit σ Unit) (pure ()) (VisitCall.Nested ancestors) := by
    refine (Visit.records_pure ()).weaken ?_
    intro calls made
    rw [made]
    exact .nil
  induction children with
  | nil => exact nothing
  | cons child rest inductionHypothesis =>
      rw [visitChildren, visitChildren]
      refine Visit.records_document.silentBind fun doc => ?_
      have andRest : ∀ {visit : Visit σ Unit} {recorded : Visit (σ × List VisitEntry) Unit},
          Visit.Records visit recorded (VisitCall.Nested ancestors) →
            Visit.Records (visit >>= fun _ => visitChildren v visitElement parent ancestors rest)
              (recorded >>= fun _ => visitChildren v.recording visitRecorded parent ancestors rest)
              (VisitCall.Nested ancestors) :=
        fun here => here.bind (fun _ => inductionHypothesis) fun _ _ => VisitCall.Nested.append
      dsimp only
      split
      · cases doc.content child with
        | element e => exact andRest (elements child)
        | text s => exact andRest (leaf child _)
        | comment s => exact andRest (leaf child _)
        | instruction name value => exact andRest (leaf child _)
        | doctype s => exact andRest (leaf child _)
        | root => exact inductionHypothesis
      · exact inductionHypothesis

theorem records_visitElement (depth : Nat) (node parent : NodeId) (ancestors : List NodeId) :
    Visit.Records (visitElement v depth node parent ancestors)
      (visitElement v.recording depth node parent ancestors) (VisitCall.Nested ancestors) := by
  induction depth generalizing node parent ancestors with
  | zero => exact Visit.records_tooDeep _
  | succ depth inductionHypothesis =>
      rw [visitElement, visitElement]
      have rest : ∀ flow : VisitFlow, Visit.Records
          (do
            let doc ← Visit.document
            if flow == .descend && doc.parent? node == some parent then
              visitChildren v (visitElement v depth) node (ancestors ++ [node]) (doc.children node)
            v.exit node ancestors : Visit σ Unit)
          (do
            let doc ← Visit.document
            if flow == .descend && doc.parent? node == some parent then
              visitChildren v.recording (visitElement v.recording depth) node (ancestors ++ [node])
                (doc.children node)
            v.recording.exit node ancestors)
          fun calls => ∃ inner, VisitCall.Nested (ancestors ++ [node]) inner ∧
            calls = inner ++ [.exit node ancestors] := by
        intro flow
        refine Visit.records_document.silentBind fun doc => ?_
        have leave := Visit.records_recorded (.exit node ancestors) (v.exit node ancestors)
        dsimp only
        split
        · refine (records_visitChildren v (fun child => inductionHypothesis child node _) _).bind
            (fun _ => leave) ?_
          intro inner last nested made
          exact ⟨inner, nested, by rw [made]⟩
        · exact leave.weaken fun calls made => ⟨[], .nil, made⟩
      refine (Visit.records_recorded (.enter node ancestors) _).bind rest ?_
      rintro before after made ⟨inner, nested, afterEq⟩
      rw [made, afterEq]
      exact .element node nested .nil

/-- However a visitor changes the document, its record is well formed.  If the visit
succeeds, the root comes first and last, and between these two calls the elements are
entered and left like nested brackets, each of them with the elements that are open
around it.  Behind a call that failed there is no other one, and the visit fails for
the same reason. -/
theorem visitRoot_is_nested (depth : Nat) (scene : Scene σ) :
    ∃ entries,
      (visitRoot v.recording depth).run.run ⟨(scene.state, []), scene.document⟩ =
          (((visitRoot v depth).run.run scene).1,
            ⟨(((visitRoot v depth).run.run scene).2.state, entries),
              ((visitRoot v depth).run.run scene).2.document⟩) ∧
        (((visitRoot v depth).run.run scene).1 = .ok () →
          (∀ entry ∈ entries, entry.failure = none) ∧
            ∃ calls, entries.map (·.call) = .enterRoot :: (calls ++ [.exitRoot]) ∧
              VisitCall.Nested [] calls ∧
                ∀ before call after, calls = before ++ call :: after →
                  call.Fits (VisitCall.unclosed before)) ∧
          ∀ before entry after e, entries = before ++ entry :: after → entry.failure = some e →
            after = [] ∧ ((visitRoot v depth).run.run scene).1 = .error e := by
  have records : Visit.Records (visitRoot v depth) (visitRoot v.recording depth)
      fun calls => ∃ inner, VisitCall.Nested [] inner ∧ calls = .enterRoot :: (inner ++ [.exitRoot]) := by
    rw [visitRoot, visitRoot]
    refine (Visit.records_recorded .enterRoot _).bind (S := fun calls =>
      ∃ inner, VisitCall.Nested [] inner ∧ calls = inner ++ [.exitRoot]) ?_ ?_
    · intro flow
      have leave := Visit.records_recorded .exitRoot v.exitRoot
      dsimp only
      split
      · refine Visit.records_document.silentBind fun doc => ?_
        refine (records_visitChildren v (fun child => records_visitElement v depth child _ _) _).bind
          (fun _ => leave) ?_
        intro inner last nested made
        exact ⟨inner, nested, by rw [made]⟩
      · exact leave.weaken fun calls made => ⟨[], .nil, made⟩
    · rintro before after made ⟨inner, nested, afterEq⟩
      exact ⟨inner, nested, by rw [made, afterEq]; rfl⟩
  rcases records scene [] with ⟨entries, ran, tell⟩
  refine ⟨entries, ran, ?_, ?_⟩
  · intro succeeded
    rw [succeeded] at tell
    rcases tell with ⟨calm, inner, nested, callsEq⟩
    exact ⟨calm, inner, callsEq, nested, fun before call after split => nested.fits split⟩
  · intro before entry after e split failed
    have calmNot : ¬ ∀ other ∈ entries, other.failure = none := by
      intro calm
      rw [calm entry (split ▸ List.mem_append_right before List.mem_cons_self)] at failed
      cases failed
    cases result : ((visitRoot v depth).run.run scene).1 with
    | ok value =>
        rw [result] at tell
        exact absurd tell.1 calmNot
    | error reason =>
        rw [result] at tell
        rcases tell with ⟨first, call, entriesEq, calm⟩ | ⟨-, calm⟩
        · rw [entriesEq] at split
          rcases List.eq_nil_or_concat after with none | ⟨init, last, afterEq⟩
          · rw [none] at split
            rcases List.append_inj' split rfl with ⟨-, same⟩
            rw [← (List.cons.inj same).1] at failed
            exact ⟨none, congrArg Except.error (Option.some.inj failed)⟩
          · rw [afterEq, List.concat_eq_append, ← List.cons_append, ← List.append_assoc] at split
            rcases List.append_inj' split rfl with ⟨same, -⟩
            rw [calm entry (same ▸ List.mem_append_right before List.mem_cons_self)] at failed
            cases failed
        · exact absurd calm calmNot

/-- An element that takes itself out on being entered is left all the same, and what
is below it is passed over. -/
example :
    let detaching : Visitor Unit :=
      { enter := fun node _ => do
          if node == ⟨2⟩ then Visit.editDocument (·.detach node)
          return .descend }
    let g : Branch := .node (.element (.ofName "g")) [.node (.text "a") []]
    let doc := Document.ofBranches [.node (.element (.ofName "svg")) [g, .node (.comment "b") []]]
    (detaching.recording.run ⟨((), []), doc⟩).2.state.2.map (·.call) =
      [.enterRoot, .enter ⟨1⟩ [], .enter ⟨2⟩ [⟨1⟩], .exit ⟨2⟩ [⟨1⟩], .leaf ⟨4⟩ ⟨1⟩, .exit ⟨1⟩ [],
        .exitRoot] := by
  decide

/-! ## The limit of the depth -/

/-- Whether a step does the same as another one, unless that one runs too deep. -/
def SameUnlessTooDeep {α : Type} (limited other : Visit σ α) : Prop :=
  ∀ scene, (limited.run.run scene).1 ≠ .error .tooDeep → other.run.run scene = limited.run.run scene

namespace SameUnlessTooDeep

variable {α β : Type}

theorem refl (visit : Visit σ α) : SameUnlessTooDeep visit visit :=
  fun _ _ => rfl

theorem bind {limited other : Visit σ α} {next otherNext : α → Visit σ β}
    (first : SameUnlessTooDeep limited other)
    (second : ∀ value, SameUnlessTooDeep (next value) (otherNext value)) :
    SameUnlessTooDeep (limited >>= next) (other >>= otherNext) := by
  intro scene shallow
  rw [ExceptT.run_bind, StateT.run_bind] at shallow ⊢
  rw [ExceptT.run_bind, StateT.run_bind]
  cases ran : limited.run.run scene with
  | mk result after =>
      rw [ran] at shallow
      have same := first scene
      rw [ran] at same
      cases result with
      | error e =>
          have shallowHere : (Except.error e : Except VisitError α) ≠ .error .tooDeep :=
            fun deep => shallow (congrArg Except.error (Except.error.inj deep))
          rw [same shallowHere]
          rfl
      | ok value =>
          rw [same fun impossible => nomatch impossible]
          exact second value after shallow

end SameUnlessTooDeep

theorem visitChildren_deeper {limited deeper : (node parent : NodeId) → List NodeId → Visit σ Unit}
    {parent : NodeId} {ancestors : List NodeId}
    (elements : ∀ node, SameUnlessTooDeep (limited node parent ancestors) (deeper node parent ancestors))
    (children : List NodeId) :
    SameUnlessTooDeep (visitChildren v limited parent ancestors children)
      (visitChildren v deeper parent ancestors children) := by
  induction children with
  | nil => exact .refl _
  | cons child rest inductionHypothesis =>
      rw [visitChildren, visitChildren]
      refine (SameUnlessTooDeep.refl _).bind fun doc => ?_
      dsimp only
      split
      · cases doc.content child with
        | element e => exact (elements child).bind fun _ => inductionHypothesis
        | root => exact inductionHypothesis
        | _ => exact (SameUnlessTooDeep.refl _).bind fun _ => inductionHypothesis
      · exact inductionHypothesis

theorem visitElement_deeper (depth more : Nat) (node parent : NodeId) (ancestors : List NodeId) :
    SameUnlessTooDeep (visitElement v depth node parent ancestors)
      (visitElement v (depth + more) node parent ancestors) := by
  induction depth generalizing node parent ancestors with
  | zero => exact fun scene shallow => absurd rfl shallow
  | succ depth inductionHypothesis =>
      rw [Nat.add_right_comm, visitElement, visitElement]
      refine (SameUnlessTooDeep.refl _).bind fun flow => (SameUnlessTooDeep.refl _).bind fun doc => ?_
      dsimp only
      split
      · exact (visitChildren_deeper v (fun child => inductionHypothesis child node _) _).bind
          fun _ => .refl _
      · exact .refl _

/-- The limit plays no part in a visit that does not reach it: every larger limit gives
the same result and the same scene. -/
theorem visitRoot_deeper (depth more : Nat) :
    SameUnlessTooDeep (visitRoot v depth) (visitRoot v (depth + more)) := by
  rw [visitRoot, visitRoot]
  refine (SameUnlessTooDeep.refl _).bind fun flow => ?_
  dsimp only
  split
  · refine (SameUnlessTooDeep.refl _).bind fun doc => ?_
    exact (visitChildren_deeper v (fun child => visitElement_deeper v depth more child _ _) _).bind
      fun _ => .refl _
  · exact .refl _

end Visitor

end SlimSvg
