import Mathlib.Data.List.Nodup
import SlimSvg.Proofs.Attempt
import SlimSvg.Proofs.Xml.Manuscript

namespace SlimSvg
namespace Xml

/-!
# What reading never breaks

Some properties of a builder hold at every moment while a text is read.  They have to be
kept by the few steps that change the builder: nodes and texts that are added, attributes
that are collected, and tags that begin and end.  That everything else keeps them is said
here once for all of them.
-/

/-! ## What a step leads to -/

/-- Whether every value that a step can yield has a property. -/
def Scan.Yields {α : Type} (s : Scan α) (V : α → Prop) : Prop :=
  ∀ ⦃c a after⦄, s.Gives c a after → V a

theorem Scan.Gives.exists_of_bind {α β : Type} {s : Scan α} {next : α → Scan β} {c after : Cursor} {b : β}
    (gives : (s >>= next).Gives c b after) : ∃ a middle, s.Gives c a middle ∧ (next a).Gives middle b after := by
  rw [Scan.Gives, StateT.run_bind] at gives
  cases first : s.run c with
  | error e =>
      rw [first] at gives
      cases gives
  | ok found =>
      rw [first] at gives
      exact ⟨found.1, found.2, first, gives⟩

theorem Scan.Yields.bind {α β : Type} {s : Scan α} {next : α → Scan β} {U : α → Prop} {V : β → Prop}
    (first : s.Yields U) (second : ∀ a, U a → (next a).Yields V) : (s >>= next).Yields V := by
  intro c b after gives
  rcases gives.exists_of_bind with ⟨a, middle, here, later⟩
  exact second a (first here) later

theorem Scan.Yields.behind {α β : Type} {s : Scan α} {next : α → Scan β} {V : β → Prop}
    (yields : ∀ a, (next a).Yields V) : (s >>= next).Yields V :=
  @bind _ _ s next (fun _ => True) V (fun _ _ _ _ => True.intro) fun a _ => yields a

namespace Build

variable {α β : Type} {P : Builder → Prop} {Q : α → Builder → Prop}

/-- What holds behind a step that succeeds, if something held before it. -/
def Leads (P : Builder → Prop) (x : Build α) (Q : α → Builder → Prop) : Prop :=
  ∀ ⦃b c a last after⦄, P b → x.Gives b c a last after → Q a last

/-- Whether a property of builders is kept by a step. -/
def Stays (I : Builder → Prop) (x : Build α) : Prop :=
  Leads I x fun _ => I

theorem Gives.exists_of_bind {x : Build α} {next : α → Build β} {b last : Builder} {c after : Cursor} {result : β}
    (gives : (x >>= next).Gives b c result last after) :
    ∃ a mid middle, x.Gives b c a mid middle ∧ (next a).Gives mid middle result last after := by
  rw [Gives, StateT.run_bind, StateT.run_bind] at gives
  cases first : (x.run b).run c with
  | error e =>
      rw [first] at gives
      cases gives
  | ok found =>
      rw [first] at gives
      exact ⟨found.1.1, found.1.2, found.2, first, gives⟩

theorem leads_pure {a : α} (holds : ∀ b, P b → Q a b) : Leads P (pure a) Q := by
  intro b c a' last after before gives
  rcases Prod.mk.inj (Except.ok.inj gives) with ⟨same, -⟩
  rcases Prod.mk.inj same with ⟨rfl, rfl⟩
  exact holds b before

theorem Leads.bind {x : Build α} {next : α → Build β} {R : β → Builder → Prop} (first : Leads P x Q)
    (second : ∀ a, Leads (Q a) (next a) R) : Leads P (x >>= next) R := by
  intro b c result last after before gives
  rcases gives.exists_of_bind with ⟨a, mid, middle, here, later⟩
  exact second a (first before here) later

/-- What is known before a step may be used for it. -/
theorem Leads.of_fact {x : Build α} {fact : Prop} (known : ∀ b, P b → fact) (leads : fact → Leads P x Q) :
    Leads P x Q :=
  fun b _ _ _ _ before gives => leads (known b before) before gives

theorem Leads.of_imp {x : Build α} {P' : Builder → Prop} {Q' : α → Builder → Prop} (leads : Leads P x Q)
    (weaker : ∀ b, P' b → P b) (stronger : ∀ a b, Q a b → Q' a b) : Leads P' x Q' :=
  fun b _ a last _ before gives => stronger a last (leads (weaker b before) gives)

theorem leads_get : Leads P get fun b b' => b' = b ∧ P b' := by
  intro b c a last after before gives
  rcases Prod.mk.inj (Except.ok.inj gives) with ⟨same, -⟩
  rcases Prod.mk.inj same with ⟨rfl, rfl⟩
  exact ⟨rfl, before⟩

theorem leads_modify {f : Builder → Builder} {Q : Unit → Builder → Prop} (holds : ∀ b, P b → Q () (f b)) :
    Leads P (modify f) Q := by
  intro b c a last after before gives
  rcases Prod.mk.inj (Except.ok.inj gives) with ⟨same, -⟩
  rcases Prod.mk.inj same with ⟨rfl, rfl⟩
  exact holds b before

/-- A step that only reads leaves the builder. -/
theorem leads_lift_of {s : Scan α} {V : α → Prop} (yields : s.Yields V) :
    Leads P (liftM s) fun a b => V a ∧ P b := by
  intro b c a last after before gives
  change ((fun a => (a, b)) <$> s).run c = _ at gives
  rw [StateT.run_map] at gives
  cases read : s.run c with
  | error e =>
      rw [read] at gives
      cases gives
  | ok found =>
      rw [read] at gives
      rcases Prod.mk.inj (Except.ok.inj gives) with ⟨same, -⟩
      rcases Prod.mk.inj same with ⟨rfl, rfl⟩
      exact ⟨yields read, before⟩

theorem leads_lift (s : Scan α) : Leads P (liftM s) fun _ => P :=
  (@leads_lift_of _ P s (fun _ => True) fun _ _ _ _ => True.intro).of_imp (fun _ before => before)
    fun _ _ holds => holds.2

theorem leads_fail {offset : Nat} {cause : FaultCause} : Leads P (liftM (Scan.failAt offset cause : Scan α)) Q := by
  intro b c a last after _ gives
  cases gives

/-- A refusal leads to anything. -/
theorem leads_refusal {offset : Nat} {cause : FaultCause} {next : α → Build β} {Q : β → Builder → Prop} :
    Leads P (liftM (Scan.failAt offset cause : Scan α) >>= next) Q := by
  intro b c a last after _ gives
  rcases gives.exists_of_bind with ⟨d, mid, middle, impossible, -⟩
  cases impossible

/-- Behind a test that refuses, the test was false. -/
theorem unless_refused {refused : Prop} [Decidable refused] {offset : Nat} {cause : FaultCause} {next : α → Build β}
    {rest : Build β} {Q : β → Builder → Prop} (leads : ¬ refused → Leads P rest Q) :
    Leads P (if refused then liftM (Scan.failAt offset cause : Scan α) >>= next else rest) Q := by
  split
  · exact leads_refusal
  · next accepted => exact leads accepted

end Build

/-! ## Names that were read -/

namespace Scan

variable {α : Type} {V : α → Prop}

theorem yields_pure {a : α} (holds : V a) : (pure a : Scan α).Yields V := by
  intro c b after gives
  rw [← (Prod.mk.inj (Except.ok.inj gives)).1]
  exact holds

theorem yields_fail {offset : Nat} {cause : FaultCause} : (failAt offset cause : Scan α).Yields V := by
  intro c b after gives
  cases gives

/-- The pieces of a text are parts of it without the sign between them. -/
theorem of_mem_splitAt {sep : Char} {cs piece : List Char} (listed : piece ∈ Text.splitAt sep cs) :
    ∀ c ∈ piece, c ∈ cs ∧ c ≠ sep := by
  induction cs generalizing piece with
  | nil =>
      rw [Text.splitAt, List.mem_singleton] at listed
      rw [listed]
      exact List.forall_mem_nil _
  | cons c rest inductionHypothesis =>
      have later {piece : List Char} (among : piece ∈ Text.splitAt sep rest) : ∀ d ∈ piece, d ∈ c :: rest ∧ d ≠ sep :=
        fun d inside => ⟨List.mem_cons_of_mem c (inductionHypothesis among d inside).1,
          (inductionHypothesis among d inside).2⟩
      rw [Text.splitAt] at listed
      split at listed
      · rw [List.mem_singleton.mp listed]
        exact List.forall_mem_nil _
      · next first others cut =>
        rw [cut] at later
        split at listed
        · rcases List.mem_cons.mp listed with rfl | among
          · exact List.forall_mem_nil _
          · exact later among
        · next other =>
          rcases List.mem_cons.mp listed with rfl | among
          · intro d inside
            rcases List.mem_cons.mp inside with rfl | behind
            · exact ⟨List.mem_cons_self, fun same => other (beq_iff_eq.mpr same)⟩
            · exact later List.mem_cons_self d behind
          · exact later (List.mem_cons_of_mem first among)

theorem Yields.skip_if {n start : Nat} {condition : Prop} [Decidable condition] {a : α} {cause : FaultCause}
    (holds : condition → V a) :
    (skip n >>= fun _ => if condition then pure a else failAt start cause : Scan α).Yields V := by
  refine Yields.behind fun _ => ?_
  split
  · next accepted => exact yields_pure (holds accepted)
  · exact yields_fail

theorem yields_qualifiedName : qualifiedName.Yields fun q => q.isReadable = true := by
  rw [qualifiedName]
  refine Yields.behind fun start => Yields.behind fun cs => ?_
  have plain {part : List Char} (listed : part ∈ Text.splitAt ':' (cs.takeWhile isNameChar)) {c : Char}
      {rest : List Char} (front : part = c :: rest) (starts : isNameStart c = true) :
      isPlainName (String.ofList part).toList = true := by
    rw [String.toList_ofList, isPlainName_iff]
    refine ⟨front ▸ List.cons_ne_nil c rest, ?_, ?_⟩
    · rw [front]
      rintro _ ⟨⟩
      exact starts
    · intro d inside
      have among := of_mem_splitAt listed d inside
      exact ⟨List.all_eq_true.mp List.all_takeWhile d among.1, among.2⟩
  dsimp only
  split
  · next whole cut =>
    rw [cut] at plain
    refine Yields.skip_if fun accepted => ?_
    rcases whole with _ | ⟨c, rest⟩
    · rw [List.isEmpty_nil, Bool.not_true, Bool.and_false] at accepted
      cases accepted
    · rw [Bool.and_eq_true, Bool.and_eq_true] at accepted
      exact plain List.mem_cons_self rfl accepted.1.2
  · next pre localPart cut =>
    rw [cut] at plain
    refine Yields.skip_if fun accepted => ?_
    rw [Bool.and_eq_true, Bool.and_eq_true] at accepted
    rcases localPart with _ | ⟨c, rest⟩
    · cases accepted.2
    · rw [QName.isReadable, Bool.and_eq_true, Bool.or_eq_true]
      refine ⟨?_, plain (List.mem_cons_of_mem _ List.mem_cons_self) rfl accepted.1.2⟩
      rcases pre with _ | ⟨d, others⟩
      · exact Or.inl rfl
      · exact Or.inr (plain List.mem_cons_self rfl accepted.1.1)
  · exact yields_fail

theorem yields_writtenAttribute : writtenAttribute.Yields fun found => found.1.isReadable = true :=
  yields_qualifiedName.bind fun _ named => .behind fun _ => .behind fun _ => .behind fun _ => .behind fun _ =>
    .behind fun _ => .behind fun _ => .behind fun _ => yields_pure named

end Scan

/-! ## Properties that are kept -/

/-- A property that is kept by the steps that change a builder. -/
structure Builder.Stable (I : Builder → Prop) : Prop where
  appendLeaf : ∀ {b : Builder} {node : Node} (offset : Nat), node.isElement = false → I b → I (b.appendOther node offset)
  appendText : ∀ {b : Builder} (text : List Char) (offset : Nat), I b → I (b.appendText text offset)
  withEntities : ∀ {b : Builder} (entities : Entities), I b → I { b with entities }
  withReferences : ∀ {b : Builder} (references : Nat), I b → I { b with references }
  withoutTag : ∀ {b : Builder}, I b → I { b with tag := none }
  /-- Behind the text of an entity the tag is what it was before. -/
  withTag : ∀ {before b : Builder}, I before → I b → I { b with tag := before.tag }
  addAttribute : ∀ {name : Scan.QName}, name.isReadable = true → ∀ (value : String) (offset : Nat),
    Build.Stays I (Build.addAttribute name value offset)
  beginTag : ∀ {name : Scan.QName}, name.isReadable = true → ∀ offset : Nat, Build.Stays I (Build.beginTag name offset)
  endTag : ∀ isEmpty : Bool, Build.Stays I (Build.endTag isEmpty)
  closeTag : ∀ (name : Scan.QName) (offset : Nat), Build.Stays I (Build.closeTag name offset)

namespace Build

variable {I : Builder → Prop}

theorem Stays.bind {α β : Type} {x : Build α} {next : α → Build β} (first : Stays I x)
    (second : ∀ a, Stays I (next a)) : Stays I (x >>= next) :=
  Leads.bind first second

theorem stays_lift {α : Type} (s : Scan α) : Stays I (liftM s) :=
  leads_lift s

theorem stays_pure {α : Type} (a : α) : Stays I (pure a) :=
  leads_pure fun _ kept => kept

theorem stays_get : Stays I get :=
  leads_get.of_imp (fun _ kept => kept) fun _ _ found => found.2

theorem stays_modify {f : Builder → Builder} (keeps : ∀ b : Builder, I b → I (f b)) : Stays I (modify f) :=
  leads_modify keeps

theorem stays_liftExcept {α : Type} (result : Except Fault α) : Stays I (attributes.liftExcept result) := by
  cases result with
  | ok a => exact stays_pure a
  | error fault =>
      intro b c a last after _ gives
      cases gives

section Stable

variable (stable : Builder.Stable I)

include stable

theorem stays_appendOther {node : Node} (leaf : node.isElement = false) (offset : Nat) :
    Stays I (modify fun b => b.appendOther node offset) :=
  stays_modify fun _ kept => stable.appendLeaf offset leaf kept

theorem stays_references (count : Nat) : Stays I (modify fun b => { b with references := count }) :=
  stays_modify fun _ kept => stable.withReferences count kept

theorem stays_comment : Stays I comment := by
  rw [comment]
  refine (stays_lift _).bind fun start => (stays_lift _).bind fun _ => (stays_lift _).bind fun text =>
    (stays_lift _).bind fun _ => ?_
  exact unless_refused fun _ => stays_appendOther stable rfl _

theorem stays_instruction : Stays I instruction := by
  rw [instruction]
  refine (stays_lift _).bind fun misplaced => ?_
  have rest : Stays I (do
      let start ← Scan.offset
      Scan.skip 2
      let target ← Scan.name
      Scan.skipSpaces
      let value ← Scan.takeBefore "?>"
      Scan.expectText "?>"
      modify fun b => b.appendOther (.instruction target (String.ofList value)) start) :=
    (stays_lift _).bind fun _ => (stays_lift _).bind fun _ => (stays_lift _).bind fun _ => (stays_lift _).bind fun _ =>
      (stays_lift _).bind fun _ => (stays_lift _).bind fun _ => stays_appendOther stable rfl _
  split
  · exact (stays_lift _).bind fun _ => rest
  · exact rest

theorem stays_miscellaneous (bound : Nat) : Stays I (miscellaneous bound) := by
  induction bound with
  | zero => exact stays_pure _
  | succ bound inductionHypothesis =>
      rw [miscellaneous]
      refine (stays_lift _).bind fun _ => (stays_lift _).bind fun isComment => ?_
      split
      · exact (stays_comment stable).bind fun _ => inductionHypothesis
      · refine (stays_lift _).bind fun isInstruction => ?_
        split
        · exact (stays_instruction stable).bind fun _ => inductionHypothesis
        · exact stays_pure _

theorem stays_entityDeclaration : Stays I entityDeclaration := by
  rw [entityDeclaration]
  refine (stays_lift _).bind fun _ => (stays_lift _).bind fun _ => (stays_lift _).bind fun isParameter => ?_
  have ending : Stays I (do
      Scan.skipSpaces
      Scan.expectChar '>') :=
    (stays_lift _).bind fun _ => stays_lift _
  have stored (name : String) (text : Cursor) : Stays I (do
      modify fun b => { b with entities := b.entities ++ [(name, text)] }
      Scan.skipSpaces
      Scan.expectChar '>') :=
    (stays_modify fun _ kept => stable.withEntities _ kept).bind fun _ => ending
  split
  · refine (stays_lift _).bind fun _ => (stays_lift _).bind fun _ => (stays_lift _).bind fun name =>
      (stays_lift _).bind fun _ => (stays_lift _).bind fun value => ?_
    cases value with
    | none => exact ending
    | some text => exact stored name text
  · refine (stays_lift _).bind fun name => (stays_lift _).bind fun _ => (stays_lift _).bind fun value => ?_
    cases value with
    | none => exact ending
    | some text => exact stored name text

theorem stays_internalSubset (doctypeStart bound : Nat) : Stays I (internalSubset doctypeStart bound) := by
  induction bound with
  | zero => exact stays_pure _
  | succ bound inductionHypothesis =>
      rw [internalSubset]
      refine (stays_lift _).bind fun ended => ?_
      split
      · exact stays_pure _
      refine (stays_lift _).bind fun _ => (stays_lift _).bind fun isEntity => ?_
      split
      · exact (stays_entityDeclaration stable).bind fun _ => inductionHypothesis
      refine (stays_lift _).bind fun isComment => ?_
      split
      · exact (stays_comment stable).bind fun _ => inductionHypothesis
      refine (stays_lift _).bind fun isInstruction => ?_
      split
      · exact (stays_instruction stable).bind fun _ => inductionHypothesis
      refine (stays_lift _).bind fun closes => ?_
      split
      · refine (stays_lift _).bind fun _ => (stays_lift _).bind fun _ => (stays_lift _).bind fun c => ?_
        split
        · exact stays_lift _
        · exact stays_lift _
      refine (stays_lift _).bind fun isUnused => ?_
      split
      · refine (stays_lift _).bind fun _ => (stays_lift _).bind fun unclosed => ?_
        exact unless_refused fun _ => (stays_lift _).bind fun _ => inductionHypothesis
      · exact stays_lift _

theorem stays_doctype : Stays I doctype := by
  rw [doctype]
  refine (stays_lift _).bind fun start => (stays_lift _).bind fun _ => (stays_lift _).bind fun _ =>
    (stays_lift _).bind fun _ => (stays_lift _).bind fun _ => (stays_lift _).bind fun _ =>
    (stays_lift _).bind fun _ => (stays_lift _).bind fun c => ?_
  split
  · exact (stays_lift _).bind fun _ => (stays_lift _).bind fun _ => stays_internalSubset stable _ _
  · split
    · exact stays_lift _
    · exact stays_lift _

/-! ### Texts -/

theorem stays_flush (offset : Nat) (buffer : List Char) : Stays I (characterData.flush offset buffer) := by
  rw [characterData.flush]
  split
  · exact stays_pure _
  · exact stays_modify fun _ kept => stable.appendText _ _ kept

section Expanded

variable {inEntity : Bool} {expand : (after : Nat) → Cursor → Build Unit}

theorem stays_characterData (expands : ∀ after cursor, Stays I (expand after cursor)) (offset : Nat) (pieces : List Piece)
    (verbatim : Bool) (buffer : List Char) : Stays I (characterData inEntity expand offset pieces verbatim buffer) := by
  induction pieces generalizing verbatim buffer with
  | nil => exact stays_flush stable _ _
  | cons piece rest inductionHypothesis =>
      cases piece with
      | char c => exact inductionHypothesis _ _
      | charReference c start =>
          rw [characterData]
          split
          · exact inductionHypothesis _ _
          · exact inductionHypothesis _ _
      | malformed start => exact leads_fail
      | entity name start after =>
          rw [characterData]
          refine stays_get.bind fun b => ?_
          split
          · exact leads_fail
          · next cursor _ =>
            refine (stays_flush stable _ _).bind fun _ => ?_
            dsimp only
            split
            · exact stays_get.bind fun _ => unless_refused fun _ => (stays_references stable _).bind fun _ =>
                (expands after cursor).bind fun _ => inductionHypothesis _ _
            · exact (expands after cursor).bind fun _ => (stays_references stable 0).bind fun _ => inductionHypothesis _ _

theorem stays_text (expands : ∀ after cursor, Stays I (expand after cursor)) : Stays I (text inEntity expand) := by
  rw [text]
  refine (stays_lift _).bind fun start => (stays_lift _).bind fun run => ?_
  dsimp only
  split
  · exact (stays_lift _).bind fun _ => stays_characterData stable expands _ _ _ _
  · exact stays_characterData stable expands _ _ _ _

end Expanded

theorem stays_characterSection : Stays I characterSection := by
  rw [characterSection]
  exact (stays_lift _).bind fun _ => (stays_lift _).bind fun _ => (stays_lift _).bind fun _ => (stays_lift _).bind fun _ =>
    stays_modify fun _ kept => stable.appendText _ _ kept

/-! ### The loop -/

theorem stays_attributes (levels bound : Nat) : Stays I (attributes levels bound) := by
  induction bound with
  | zero => exact stays_pure _
  | succ bound inductionHypothesis =>
      rw [attributes]
      refine (stays_lift _).bind fun ended => ?_
      split
      · exact stays_pure _
      refine (stays_lift _).bind fun spaced => (stays_lift _).bind fun _ => (stays_lift _).bind fun start =>
        (stays_lift _).bind fun c => ?_
      split
      · exact (stays_lift _).bind fun _ => (stays_lift _).bind fun _ => (stable.endTag _).bind fun _ => stays_pure _
      · exact (stays_lift _).bind fun _ => (stable.endTag _).bind fun _ => stays_pure _
      · have rest : Stays I (do
            let found ← Scan.writtenAttribute
            let b ← get
            let inEntity := levels < entityDepth
            let value ←
              attributes.liftExcept (attributeChars b.entities inEntity (expandAttribute b.entities levels)
                (Piece.cut found.2.offset found.2.rest) b.references)
            modify fun b => { b with references := value.2 }
            addAttribute found.1 (String.ofList value.1) start
            attributes levels bound) := by
          refine (leads_lift_of Scan.yields_writtenAttribute).bind fun written => .of_fact (fun _ found => found.1) fun named => ?_
          refine Leads.of_imp ?_ (fun _ found => found.2) fun _ _ holds => holds
          exact stays_get.bind fun _ => (stays_liftExcept _).bind fun _ => (stays_references stable _).bind fun _ =>
            (stable.addAttribute named _ _).bind fun _ => inductionHypothesis
        dsimp only
        split
        · exact rest
        · exact (stays_lift _).bind fun _ => rest

theorem stays_startTag (levels : Nat) : Stays I (startTag levels) := by
  rw [startTag]
  refine (stays_lift _).bind fun start => (stays_lift _).bind fun _ => ?_
  refine (leads_lift_of Scan.yields_qualifiedName).bind fun name => .of_fact (fun _ found => found.1) fun named => ?_
  refine Leads.of_imp ?_ (fun _ found => found.2) fun _ _ holds => holds
  exact (stable.beginTag named _).bind fun _ => (stays_lift _).bind fun _ => stays_attributes stable _ _

theorem stays_endTagText : Stays I endTagText := by
  rw [endTagText]
  exact (stays_lift _).bind fun _ => (stays_lift _).bind fun _ => (stays_lift _).bind fun _ => (stays_lift _).bind fun _ =>
    (stays_lift _).bind fun _ => stable.closeTag _ _

theorem stays_content {levels : Nat} {expand : (after : Nat) → Cursor → Build Unit}
    (expands : ∀ after cursor, Stays I (expand after cursor)) (bound openCount : Nat) :
    Stays I (content levels expand bound openCount) := by
  induction bound generalizing openCount with
  | zero =>
      rw [content]
      exact stays_pure ()
  | succ bound inductionHypothesis =>
      cases openCount with
      | zero => exact stays_pure ()
      | succ openCount =>
          rw [content]
          refine (stays_lift _).bind fun cs => ?_
          split
          · exact stays_pure ()
          · refine (stays_lift _).bind fun isComment => ?_
            dsimp only
            split
            · exact (stays_comment stable).bind fun _ => inductionHypothesis _
            · refine (stays_lift _).bind fun isSection => ?_
              split
              · exact (stays_characterSection stable).bind fun _ => inductionHypothesis _
              · exact (stays_lift _).bind fun _ => inductionHypothesis _
          · exact (stays_instruction stable).bind fun _ => inductionHypothesis _
          · exact (stays_endTagText stable).bind fun _ => inductionHypothesis _
          · exact stays_lift _
          · exact (stays_startTag stable _).bind fun _ => inductionHypothesis _
          · exact (stays_text stable expands).bind fun _ => inductionHypothesis _

theorem stays_expandContent (levels after : Nat) (cursor : Cursor) : Stays I (expandContent levels after cursor) := by
  induction levels generalizing after cursor with
  | zero => exact leads_fail
  | succ levels inductionHypothesis =>
      rw [expandContent]
      refine (stays_lift _).bind fun _ => leads_get.bind fun b => .of_fact (fun _ found => found.1 ▸ found.2) fun kept => ?_
      refine Leads.of_imp ?_ (fun _ found => found.2) fun _ _ holds => holds
      exact (stays_modify fun _ here => stable.withoutTag here).bind fun _ => (stays_lift _).bind fun _ =>
        (stays_content stable inductionHypothesis _ _).bind fun _ => (stays_lift _).bind fun _ =>
          stays_modify fun _ here => stable.withTag kept here

theorem stays_rootElement : Stays I rootElement := by
  rw [rootElement]
  refine (stays_startTag stable _).bind fun opened => ?_
  split
  · exact (stays_lift _).bind fun _ => stays_content stable (stays_expandContent stable _) _ _
  · exact stays_pure ()

theorem stays_rootPart (bound : Nat) : Stays I (rootPart bound) := by
  have rest : Stays I (do
      miscellaneous bound
      unless ← Scan.atEnd do Scan.fail .unknownToken) := by
    refine (stays_miscellaneous stable bound).bind fun _ => (stays_lift _).bind fun ended => ?_
    split
    · exact stays_pure ()
    · exact stays_lift _
  rw [rootPart]
  refine (stays_lift _).bind fun _ => (stays_lift _).bind fun isTag => ?_
  dsimp only
  split
  · exact (stays_rootElement stable).bind fun _ => rest
  · exact rest

theorem stays_body : Stays I body := by
  rw [body]
  refine (stays_lift _).bind fun cs => (stays_miscellaneous stable _).bind fun _ => (stays_lift _).bind fun _ =>
    (stays_lift _).bind fun isDoctype => ?_
  dsimp only
  split
  · exact (stays_doctype stable).bind fun _ => (stays_miscellaneous stable _).bind fun _ => stays_rootPart stable _
  · exact stays_rootPart stable _

theorem stays_document : Stays I document := by
  have declared : Stays I (do
      if ← Scan.looksAt "<?xml " then Scan.declaration
      body) := by
    refine (stays_lift _).bind fun isDeclaration => ?_
    dsimp only
    split
    · exact (stays_lift _).bind fun _ => stays_body stable
    · exact stays_body stable
  rw [document_eq]
  refine (stays_lift _).bind fun cs => ?_
  dsimp only
  split
  · exact (stays_lift _).bind fun _ => declared
  · exact declared

end Stable

end Build

end Xml
end SlimSvg
