import SlimSvg.Proofs.Xml.Passing

namespace SlimSvg
namespace Xml

/-!
# The text before the root element

What stands before the root element of a document that was accepted: the XML declaration,
comments and instructions with blanks between them, and a document type declaration, which
may hold more comments and instructions between its brackets.  Every accepted text begins
with such a front, its comments and instructions become nodes in the order of the text, and
the root element stands where the front ends.
-/

/-! ## The parts of a front -/

/-- A part of the text before the root element, or between the brackets of a document type
declaration. -/
inductive FrontPart where
  | blank (cs : List Char)
  | comment (text : List Char)
  | instruction (target gap value : List Char)
  /-- The declaration of an entity, or one of which nothing is used. -/
  | declaration (keyword : String) (body : List Char)

namespace FrontPart

def text : FrontPart → List Char
  | blank cs => cs
  | comment text => "<!--".toList ++ (text ++ "-->".toList)
  | instruction target gap value => "<?".toList ++ (target ++ (gap ++ (value ++ "?>".toList)))
  | declaration keyword body => keyword.toList ++ (body ++ ['>'])

/-- The node that a part stands for. -/
def node? : FrontPart → Option Node
  | comment text => some (.comment (String.ofList text))
  | instruction target _ value => some (.instruction (String.ofList target) (String.ofList value))
  | _ => none

/-- Whether a part is written as it has to be.  An instruction does not begin like the XML
declaration, and declarations stand between brackets only. -/
def IsWellFormed (bracketed : Bool) : FrontPart → Prop
  | blank cs => ∀ c ∈ cs, Text.isXmlSpace c = true
  | comment text => ¬ ['-', '-'] <:+: text ∧ text.getLast? ≠ some '-'
  | instruction target gap value =>
    (target ≠ [] ∧ ∀ c ∈ target, isNameChar c = true) ∧ (∀ c ∈ gap, Text.isXmlSpace c = true) ∧
      Scan.Ends isNameChar (gap ++ value) ∧ Scan.Ends Text.isXmlSpace value ∧ ¬ "?>".toList <:+: value ∧
      ¬ "<?xml ".toList <+: (instruction target gap value).text
  | declaration keyword body =>
    bracketed = true ∧ (keyword = "<!ENTITY" ∧ Level body ∨ keyword ∈ SubsetPart.unusedKeywords ∧ '>' ∉ body)

def textOf (parts : List FrontPart) : List Char :=
  parts.flatMap text

/-- The nodes that the parts stand for with their places, given the place of the first part. -/
def placed : (offset : Nat) → List FrontPart → List PlacedNode
  | _, [] => []
  | o, part :: rest => (part.node?.map (⟨o, ·⟩)).toList ++ placed (o + part.text.length) rest

theorem textOf_append (parts more : List FrontPart) : textOf (parts ++ more) = textOf parts ++ textOf more :=
  List.flatMap_append

theorem isElement_of_mem_placed {o : Nat} {parts : List FrontPart} {p : PlacedNode} (listed : p ∈ placed o parts) :
    p.node.isElement = false := by
  induction parts generalizing o with
  | nil => cases listed
  | cons part rest inductionHypothesis =>
      rcases List.mem_append.mp listed with here | later
      · cases part <;> simp [node?] at here <;> rw [here] <;> rfl
      · exact inductionHypothesis later

theorem placed_append (o : Nat) (parts more : List FrontPart) :
    placed o (parts ++ more) = placed o parts ++ placed (o + (textOf parts).length) more := by
  induction parts generalizing o with
  | nil => rfl
  | cons part rest inductionHypothesis =>
      rw [List.cons_append, placed, placed, inductionHypothesis, List.append_assoc, textOf, textOf, List.flatMap_cons,
        List.length_append, Nat.add_assoc]

end FrontPart

namespace Build

variable {α β : Type} {a : α} {b b' : Builder} {c after : Cursor}

theorem Gives.of_pure {a' : α} (gives : (pure a : Build α).Gives b c a' b' after) : a = a' ∧ b = b' ∧ c = after := by
  rcases Prod.mk.inj (Except.ok.inj gives) with ⟨same, stays⟩
  exact ⟨(Prod.mk.inj same).1, (Prod.mk.inj same).2, stays⟩

theorem Gives.of_modify {f : Builder → Builder} {u : Unit} (gives : Gives (modify f) b c u b' after) :
    f b = b' ∧ c = after := by
  rcases Prod.mk.inj (Except.ok.inj gives) with ⟨same, stays⟩
  exact ⟨(Prod.mk.inj same).2, stays⟩

theorem Gives.of_lift {s : Scan α} (gives : Gives (liftM s) b c a b' after) : s.Gives c a after ∧ b = b' := by
  change ((fun a => (a, b)) <$> s).run c = _ at gives
  rw [StateT.run_map] at gives
  cases read : s.run c with
  | error e =>
      rw [read] at gives
      cases gives
  | ok found =>
      rw [read] at gives
      rcases Prod.mk.inj (Except.ok.inj gives) with ⟨same, rfl⟩
      rcases Prod.mk.inj same with ⟨rfl, rfl⟩
      exact ⟨read, rfl⟩

theorem Gives.of_lift_bind {s : Scan α} {next : α → Build β} {result : β}
    (gives : Gives (liftM s >>= next) b c result b' after) :
    ∃ a middle, s.Gives c a middle ∧ (next a).Gives b middle result b' after := by
  rcases gives.exists_of_bind with ⟨a, _, middle, here, later⟩
  rcases here.of_lift with ⟨read, rfl⟩
  exact ⟨a, middle, read, later⟩

/-! ### Comments and instructions -/

/-- What is found where parts of a front were read. -/
structure Found (bracketed : Bool) (parts : List FrontPart) (b : Builder) (c : Cursor) (b' : Builder)
    (after : Cursor) : Prop where
  wellFormed : ∀ part ∈ parts, part.IsWellFormed bracketed
  passed : c.Passed (FrontPart.textOf parts) after
  finished : b'.finished = (FrontPart.placed c.offset parts).reverse ++ b.finished
  outside : b'.openElements = []

namespace Found

variable {bracketed : Bool} {parts more : List FrontPart}

theorem nil (outside : b.openElements = []) : Found bracketed [] b c b c :=
  ⟨List.forall_mem_nil _, .nil c, rfl, outside⟩

theorem append {mid : Builder} {middle : Cursor} (first : Found bracketed parts b c mid middle)
    (second : Found bracketed more mid middle b' after) : Found bracketed (parts ++ more) b c b' after := by
  refine ⟨List.forall_mem_append.mpr ⟨first.wellFormed, second.wellFormed⟩, ?_, ?_, second.outside⟩
  · rw [FrontPart.textOf_append]
    exact first.passed.trans second.passed
  · rw [second.finished, first.finished, FrontPart.placed_append, List.reverse_append, List.append_assoc,
      first.passed.offset_eq]

/-- One part was read. -/
theorem single {part : FrontPart} (wellFormed : part.IsWellFormed bracketed) (passed : c.Passed part.text after)
    (finished : b'.finished = (part.node?.map (⟨c.offset, ·⟩)).toList ++ b.finished) (outside : b'.openElements = []) :
    Found bracketed [part] b c b' after := by
  refine ⟨?_, ?_, ?_, outside⟩
  · rw [List.forall_mem_singleton]
    exact wellFormed
  · rw [FrontPart.textOf, List.flatMap_singleton]
    exact passed
  · rw [finished, FrontPart.placed, FrontPart.placed, List.append_nil]
    cases part.node? <;> rfl

end Found

variable {bracketed : Bool} (outside : b.openElements = [])

include outside

theorem found_skipSpaces (gives : Scan.skipSpaces.Gives c () after) :
    ∃ gap, Found bracketed [.blank gap] b c b after := by
  rcases gives.of_skipSpaces with ⟨gap, passed, blank, -⟩
  exact ⟨gap, .single blank passed rfl outside⟩

theorem found_comment (gives : comment.Gives b c () b' after) (starts : "<!--".toList <+: c.rest) :
    ∃ text, Found bracketed [.comment text] b c b' after := by
  rw [comment] at gives
  rcases gives.of_lift_bind with ⟨start, _, here, gives⟩
  rcases here.of_offset with ⟨rfl, rfl⟩
  rcases gives.of_lift_bind with ⟨_, first, moves, gives⟩
  rcases gives.of_lift_bind with ⟨text, second, takes, gives⟩
  rcases gives.of_lift_bind with ⟨_, third, ends, gives⟩
  split at gives
  · rcases gives.of_lift_bind with ⟨_, _, impossible, -⟩
    cases impossible
  · next accepted =>
    rcases gives.of_modify with ⟨rfl, rfl⟩
    rw [Bool.or_eq_true, not_or, Text.hasPiece_iff, beq_iff_eq] at accepted
    have passed := (moves.of_skip _ starts (by decide)).trans
      ((takes.of_takeBefore (by decide)).1.trans ends.of_expectText)
    rw [Builder.appendOther_outside outside]
    exact ⟨text, .single accepted passed rfl outside⟩

theorem found_instruction (gives : instruction.Gives b c () b' after) (starts : "<?".toList <+: c.rest) :
    ∃ target gap value, Found bracketed [.instruction target gap value] b c b' after := by
  rw [instruction] at gives
  rcases gives.of_lift_bind with ⟨misplaced, _, here, gives⟩
  rcases here.of_looksAt with ⟨declares, rfl⟩
  dsimp only at gives
  split at gives
  · rcases gives.of_lift_bind with ⟨_, _, impossible, -⟩
    exact absurd impossible Scan.not_gives_fail
  · next placed =>
    rcases gives.of_lift_bind with ⟨start, _, here, gives⟩
    rcases here.of_offset with ⟨rfl, rfl⟩
    rcases gives.of_lift_bind with ⟨_, first, moves, gives⟩
    rcases gives.of_lift_bind with ⟨name, second, named, gives⟩
    rcases gives.of_lift_bind with ⟨_, third, spaces, gives⟩
    rcases gives.of_lift_bind with ⟨value, fourth, takes, gives⟩
    rcases gives.of_lift_bind with ⟨_, fifth, ends, gives⟩
    rcases gives.of_modify with ⟨rfl, rfl⟩
    rcases named.of_name with ⟨target, rfl, passedName, nonempty, chars, nameEnds⟩
    rcases spaces.of_skipSpaces with ⟨gap, passedGap, blank, solid⟩
    rcases takes.of_takeBefore (by decide) with ⟨passedValue, absent⟩
    have passed := (moves.of_skip _ starts (by decide)).trans
      (passedName.trans (passedGap.trans (passedValue.trans ends.of_expectText)))
    have undeclared : ¬ "<?xml ".toList <+: (FrontPart.instruction target gap value).text := by
      rintro ⟨more, front⟩
      refine placed (declares.mpr ⟨more ++ fifth.rest, ?_⟩)
      rw [passed.rest_eq, ← List.append_assoc, front]
      rfl
    rw [passedValue.rest_eq] at solid
    rw [passedGap.rest_eq, passedValue.rest_eq, ← List.append_assoc] at nameEnds
    rw [Builder.appendOther_outside outside]
    exact ⟨target, gap, value, .single
      ⟨⟨nonempty, chars⟩, blank, nameEnds.of_append, solid.of_append, absent, undeclared⟩ passed rfl outside⟩

theorem found_miscellaneous {bound : Nat} (gives : (miscellaneous bound).Gives b c () b' after) :
    ∃ parts, Found bracketed parts b c b' after := by
  induction bound generalizing b c with
  | zero =>
      rcases gives.of_pure with ⟨-, rfl, rfl⟩
      exact ⟨[], .nil outside⟩
  | succ bound inductionHypothesis =>
      rw [miscellaneous] at gives
      rcases gives.of_lift_bind with ⟨_, middle, spaces, gives⟩
      rcases gives.of_lift_bind with ⟨isComment, _, here, gives⟩
      rcases here.of_looksAt with ⟨commentStarts, rfl⟩
      rcases found_skipSpaces outside spaces with ⟨gap, blanks⟩
      split at gives
      · next isComment =>
        rcases gives.exists_of_bind with ⟨_, mid, last, reads, gives⟩
        rcases found_comment outside reads (commentStarts.mp isComment) with ⟨text, found⟩
        rcases inductionHypothesis found.outside gives with ⟨parts, later⟩
        exact ⟨_, (blanks.append found).append later⟩
      · rcases gives.of_lift_bind with ⟨isInstruction, _, here, gives⟩
        rcases here.of_looksAt with ⟨instructionStarts, rfl⟩
        split at gives
        · next isInstruction =>
          rcases gives.exists_of_bind with ⟨_, mid, last, reads, gives⟩
          rcases found_instruction outside reads (instructionStarts.mp isInstruction) with ⟨target, gap, value, found⟩
          rcases inductionHypothesis found.outside gives with ⟨parts, later⟩
          exact ⟨_, (blanks.append found).append later⟩
        · rcases gives.of_pure with ⟨-, rfl, rfl⟩
          exact ⟨_, blanks⟩

/-! ### Declarations between brackets -/

omit outside

/-- Whether a step adds no node, and all that it passes is of one kind. -/
def Covers (x : Build α) (L : List Char → Prop) : Prop :=
  ∀ ⦃b c a b' after⦄, x.Gives b c a b' after →
    (b'.finished = b.finished ∧ b'.openElements = b.openElements) ∧ ∃ cs, c.Passed cs after ∧ L cs

theorem covers_lift {s : Scan α} {L : List Char → Prop} (covers : s.Covers L) : Covers (liftM s) L := by
  intro b c a b' after gives
  rcases gives.of_lift with ⟨read, rfl⟩
  exact ⟨⟨rfl, rfl⟩, covers read⟩

theorem Covers.before {x : Build α} {next : α → Build β} {L M : List Char → Prop} (first : x.Covers L)
    (second : ∀ a, (next a).Covers M) (append : ∀ cs ds, L cs → M ds → M (cs ++ ds)) : (x >>= next).Covers M := by
  intro b c result b' after gives
  rcases gives.exists_of_bind with ⟨a, mid, middle, here, later⟩
  rcases first here with ⟨⟨finished, opened⟩, cs, passed, ofKind⟩
  rcases second a later with ⟨⟨finishedToo, openedToo⟩, ds, passedToo, ofKindToo⟩
  exact ⟨⟨finishedToo.trans finished, openedToo.trans opened⟩, cs ++ ds, passed.trans passedToo,
    append cs ds ofKind ofKindToo⟩

theorem found_entityDeclaration (outside : b.openElements = []) (gives : entityDeclaration.Gives b c () b' after)
    (starts : "<!ENTITY".toList <+: c.rest) : ∃ body, Found true [.declaration "<!ENTITY" body] b c b' after := by
  have kind := textKind_level
  let Ended (cs : List Char) : Prop := ∃ body, cs = body ++ ['>'] ∧ Level body
  have append : ∀ cs ds, Level cs → Ended ds → Ended (cs ++ ds) := by
    rintro cs _ before ⟨ds, rfl, behind⟩
    exact ⟨cs ++ ds, (List.append_assoc _ _ _).symm, before.append behind⟩
  have spaces := covers_lift (Scan.covers_expectSpaces kind)
  have last : Covers (do
      Scan.skipSpaces
      Scan.expectChar '>') Ended :=
    (covers_lift (Scan.covers_skipSpaces kind)).before
      (fun _ => covers_lift fun _ _ _ gives => ⟨['>'], gives.of_expectChar, [], rfl, .nil⟩) append
  -- The sign of a parameter entity may stand before what is read of every entity.
  have signed {next : Bool → Build Unit} (named : ∀ isParameter, Covers (next isParameter) Ended) :
      Covers (do
        let isParameter ← Scan.looksAt "%"
        if isParameter then
          Scan.skip 1
          Scan.expectSpaces
          next isParameter
        else next isParameter) Ended := by
    intro b c a b' after gives
    rcases gives.of_lift_bind with ⟨isParameter, _, here, gives⟩
    rcases here.of_looksAt with ⟨found, rfl⟩
    split at gives
    · next isParameter =>
      rcases gives.of_lift_bind with ⟨_, middle, moves, gives⟩
      have passed := moves.of_skip _ (found.mp isParameter) (by decide)
      rcases spaces.before (fun _ => named _) append gives with ⟨same, cs, passedToo, ended⟩
      exact ⟨same, _, passed.trans passedToo, append _ cs (.of_plain (List.all_iff_forall_prop.mp (by decide))) ended⟩
    · exact named _ gives
  rw [entityDeclaration] at gives
  rcases gives.of_lift_bind with ⟨_, middle, moves, gives⟩
  have whole : (b'.finished = b.finished ∧ b'.openElements = b.openElements) ∧ ∃ cs, middle.Passed cs after ∧ Ended cs := by
    refine spaces.before (fun _ => signed fun isParameter => ?_) append gives
    refine (covers_lift (Scan.covers_name kind)).before (fun name => spaces.before (fun _ => ?_) append) append
    refine (covers_lift (Scan.covers_entityText !isParameter)).before (fun value => ?_) append
    cases value with
    | none => exact last
    | some value =>
        refine @Covers.before _ _ _ _ Level _ ?_ (fun _ => last) append
        intro b c a b' after gives
        rcases gives.of_modify with ⟨rfl, rfl⟩
        exact ⟨⟨rfl, rfl⟩, [], .nil c, .nil⟩
  rcases whole with ⟨⟨finished, opened⟩, _, passed, body, rfl, level⟩
  exact ⟨body, .single ⟨rfl, Or.inl ⟨rfl, level⟩⟩ ((moves.of_skip _ starts (by decide)).trans passed) finished
    (opened.trans outside)⟩

theorem of_looksAtUnused {found : Bool} (gives : looksAtUnused.Gives c found after) :
    (found = true → ∃ keyword ∈ SubsetPart.unusedKeywords, keyword.toList <+: c.rest) ∧ c = after := by
  rcases gives.exists_of_bind with ⟨isElement, _, here, gives⟩
  rcases here.of_looksAt with ⟨element, rfl⟩
  rcases gives.exists_of_bind with ⟨isAttributes, _, here, gives⟩
  rcases here.of_looksAt with ⟨attributes, rfl⟩
  rcases gives.exists_of_bind with ⟨isNotation, _, here, gives⟩
  rcases here.of_looksAt with ⟨notations, rfl⟩
  rcases gives.of_pure with ⟨rfl, rfl⟩
  refine ⟨fun found => ?_, rfl⟩
  rw [Bool.or_eq_true, Bool.or_eq_true] at found
  rcases found with (found | found) | found
  · exact ⟨_, by decide, element.mp found⟩
  · exact ⟨_, by decide, attributes.mp found⟩
  · exact ⟨_, by decide, notations.mp found⟩

/-- A declaration of which nothing is used is passed up to the first sign that can end it. -/
theorem found_unused (outside : b.openElements = []) {keyword : String}
    (listed : keyword ∈ SubsetPart.unusedKeywords) (starts : keyword.toList <+: c.rest) {run : List Char}
    {middle : Cursor} (takes : (Scan.takeWhile (· != '>')).Gives c run middle) (more : ¬ middle.rest.isEmpty = true)
    (moves : (Scan.skip 1).Gives middle () after) : ∃ body, Found true [.declaration keyword body] b c b after := by
  rcases takes.of_takeWhile with ⟨passed, inside, ends⟩
  rw [List.isEmpty_iff] at more
  rcases List.exists_cons_of_ne_nil more with ⟨d, ds, same⟩
  have closes : d = '>' := by
    have stops := ends d (by rw [same]; rfl)
    rw [bne_eq_false_iff_eq] at stops
    exact stops
  rw [closes] at same
  rw [passed.rest_eq, same, Text.prefix_append_cons_iff (SubsetPart.notMem_unused listed)] at starts
  rcases starts with ⟨body, rfl⟩
  have free : '>' ∉ body := by
    intro among
    have other := inside '>' (List.mem_append_right _ among)
    cases other
  refine ⟨body, .single ⟨rfl, Or.inr ⟨listed, free⟩⟩ ?_ rfl outside⟩
  rw [FrontPart.text, ← List.append_assoc]
  exact passed.trans (moves.of_skip _ ⟨ds, by rw [same]; rfl⟩ rfl)

/-- What one round between the brackets comes to. -/
inductive Round (start bound : Nat) (b : Builder) (c : Cursor) (b' : Builder) (after : Cursor) : Prop
  | ended (same : b = b' ∧ c = after) (empty : after.rest = [])
  | closed {blanks gap : List Char} {middle : Cursor} (found : Found true [.blank blanks] b c b' middle)
    (blank : ∀ d ∈ gap, Text.isXmlSpace d = true) (passed : middle.Passed (']' :: (gap ++ ['>'])) after)
  | further {blanks : List Char} {part : FrontPart} {mid : Builder} {middle : Cursor}
    (found : Found true ([.blank blanks] ++ [part]) b c mid middle) (nonempty : part.text ≠ [])
    (gives : (internalSubset start bound).Gives mid middle () b' after)

theorem round_internalSubset {start bound : Nat} (outside : b.openElements = [])
    (gives : (internalSubset start (bound + 1)).Gives b c () b' after) : Round start bound b c b' after := by
  rw [internalSubset] at gives
  rcases gives.of_lift_bind with ⟨ended, _, here, gives⟩
  rcases here.of_atEnd with ⟨rfl, rfl⟩
  split at gives
  · next empty =>
    rcases gives.of_pure with ⟨-, rfl, rfl⟩
    exact .ended ⟨rfl, rfl⟩ (List.isEmpty_iff.mp empty)
  rcases gives.of_lift_bind with ⟨_, first, spaces, gives⟩
  rcases @found_skipSpaces _ _ _ true outside spaces with ⟨blanks, before⟩
  rcases gives.of_lift_bind with ⟨isEntity, _, here, gives⟩
  rcases here.of_looksAt with ⟨entityStarts, rfl⟩
  split at gives
  · next isEntity =>
    rcases gives.exists_of_bind with ⟨_, mid, second, reads, gives⟩
    rcases found_entityDeclaration outside reads (entityStarts.mp isEntity) with ⟨body, found⟩
    exact .further (before.append found) (List.cons_ne_nil _ _) gives
  rcases gives.of_lift_bind with ⟨isComment, _, here, gives⟩
  rcases here.of_looksAt with ⟨commentStarts, rfl⟩
  split at gives
  · next isComment =>
    rcases gives.exists_of_bind with ⟨_, mid, second, reads, gives⟩
    rcases found_comment outside reads (commentStarts.mp isComment) with ⟨text, found⟩
    exact .further (before.append found) (List.cons_ne_nil _ _) gives
  rcases gives.of_lift_bind with ⟨isInstruction, _, here, gives⟩
  rcases here.of_looksAt with ⟨instructionStarts, rfl⟩
  split at gives
  · next isInstruction =>
    rcases gives.exists_of_bind with ⟨_, mid, second, reads, gives⟩
    rcases found_instruction outside reads (instructionStarts.mp isInstruction) with ⟨target, gap, value, found⟩
    exact .further (before.append found) (List.cons_ne_nil _ _) gives
  rcases gives.of_lift_bind with ⟨closes, _, here, gives⟩
  rcases here.of_looksAt with ⟨closing, rfl⟩
  split at gives
  · next closes =>
    rcases gives.of_lift_bind with ⟨_, second, moves, gives⟩
    rcases gives.of_lift_bind with ⟨_, third, spacesToo, gives⟩
    rcases gives.of_lift_bind with ⟨d, _, here, gives⟩
    rcases here.of_peek with ⟨⟨ds, front⟩, rfl⟩
    rcases spacesToo.of_skipSpaces with ⟨gap, passedGap, blank, -⟩
    have bracket := moves.of_skip _ (closing.mp closes) (by decide)
    split at gives
    · next same =>
      rw [beq_iff_eq] at same
      rcases gives.of_lift with ⟨moves, rfl⟩
      have last := moves.of_skip ['>'] ⟨ds, by rw [front, same]; rfl⟩ rfl
      exact .closed before blank (bracket.trans (passedGap.trans last))
    · exact absurd gives.of_lift.1 Scan.not_gives_fail
  rcases gives.of_lift_bind with ⟨isUnused, _, here, gives⟩
  rcases of_looksAtUnused here with ⟨unused, rfl⟩
  split at gives
  · next isUnused =>
    rcases unused isUnused with ⟨keyword, listed, starts⟩
    rcases gives.of_lift_bind with ⟨run, second, takes, gives⟩
    rcases gives.of_lift_bind with ⟨ended, _, here, gives⟩
    rcases here.of_atEnd with ⟨rfl, rfl⟩
    dsimp only at gives
    split at gives
    · rcases gives.of_lift_bind with ⟨_, _, impossible, -⟩
      cases impossible
    · next more =>
      rcases gives.of_lift_bind with ⟨_, third, moves, gives⟩
      rcases found_unused outside listed starts takes more moves with ⟨body, found⟩
      exact .further (before.append found) (List.append_ne_nil_of_right_ne_nil _ (List.append_ne_nil_of_right_ne_nil _
        (List.cons_ne_nil _ _))) gives
  · exact absurd gives.of_lift.1 Scan.not_gives_fail

/-- Behind the opening bracket come parts up to the closing one or to the end of the text. -/
theorem found_internalSubset {start bound : Nat} (outside : b.openElements = []) (enough : c.rest.length < bound)
    (gives : (internalSubset start bound).Gives b c () b' after) :
    ∃ parts middle, Found true parts b c b' middle ∧ (after.rest = [] ∨
      ∃ gap, (∀ d ∈ gap, Text.isXmlSpace d = true) ∧ middle.Passed (']' :: (gap ++ ['>'])) after) := by
  induction bound generalizing b c with
  | zero => exact absurd enough (Nat.not_lt_zero _)
  | succ bound inductionHypothesis =>
      cases round_internalSubset outside gives with
      | ended same empty =>
          rcases same with ⟨rfl, rfl⟩
          exact ⟨[], c, .nil outside, Or.inl empty⟩
      | @closed blanks gap middle found blank passed => exact ⟨_, middle, found, Or.inr ⟨gap, blank, passed⟩⟩
      | @further blanks part mid middle found nonempty gives =>
          have shorter := found.passed.length_eq
          rw [FrontPart.textOf_append, FrontPart.textOf, FrontPart.textOf, List.flatMap_singleton,
            List.flatMap_singleton, List.length_append] at shorter
          have positive := List.length_pos_iff.mpr nonempty
          rcases inductionHypothesis found.outside (by omega) gives with ⟨parts, last, later, ends⟩
          exact ⟨_, last, found.append later, ends⟩

end Build

/-! ## Document type declarations -/

/-- A document type declaration. -/
structure TypeDeclaration where
  /-- The name and the reference to another document. -/
  header : List Char
  /-- What stands between the brackets, if there are any, and the blanks behind them. -/
  subset : Option (List FrontPart × List Char)

namespace TypeDeclaration

def parts (d : TypeDeclaration) : List FrontPart :=
  d.subset.elim [] (·.1)

/-- What is written between the keyword and the last sign. -/
def body (d : TypeDeclaration) : List Char :=
  d.header ++ d.subset.elim [] fun (parts, gap) => '[' :: (FrontPart.textOf parts ++ (']' :: gap))

def text (d : TypeDeclaration) : List Char :=
  "<!DOCTYPE".toList ++ (d.body ++ ['>'])

theorem text_bracketed (header : List Char) (parts : List FrontPart) (gap : List Char) :
    text ⟨header, some (parts, gap)⟩ =
      "<!DOCTYPE".toList ++ header ++ ['['] ++ (FrontPart.textOf parts ++ (']' :: (gap ++ ['>']))) := by
  unfold text body
  generalize "<!DOCTYPE".toList = word
  simp only [Option.elim_some, List.append_assoc, List.cons_append, List.nil_append]

theorem text_plain (header : List Char) : text ⟨header, none⟩ = "<!DOCTYPE".toList ++ (header ++ ['>']) := by
  unfold text body
  rw [Option.elim_none, List.append_nil]

/-- The nodes that stand between the brackets of a declaration at some place. -/
def placed (d : TypeDeclaration) (offset : Nat) : List PlacedNode :=
  FrontPart.placed (offset + ("<!DOCTYPE".toList ++ (d.header ++ ['['])).length) d.parts

structure IsWellFormed (d : TypeDeclaration) : Prop where
  header : Level d.header
  parts : ∀ part ∈ d.parts, part.IsWellFormed true
  gap : ∀ parts gap, d.subset = some (parts, gap) → ∀ c ∈ gap, Text.isXmlSpace c = true

end TypeDeclaration

namespace Build

variable {b b' : Builder} {c after : Cursor}

/-- A document type declaration is read up to the sign that ends it, or to the end of the text. -/
theorem found_doctype (outside : b.openElements = []) (gives : doctype.Gives b c () b' after)
    (starts : "<!DOCTYPE".toList <+: c.rest) :
    b'.openElements = [] ∧
      ((∃ o parts, b'.finished = (FrontPart.placed o parts).reverse ++ b.finished ∧ after.rest = []) ∨
        ∃ d : TypeDeclaration, d.IsWellFormed ∧ c.Passed d.text after ∧
          b'.finished = (d.placed c.offset).reverse ++ b.finished) := by
  have kind := textKind_level
  rw [doctype] at gives
  rcases gives.of_lift_bind with ⟨start, _, here, gives⟩
  rcases here.of_offset with ⟨rfl, rfl⟩
  rcases gives.of_lift_bind with ⟨_, first, moves, gives⟩
  rcases gives.of_lift_bind with ⟨_, second, spaces, gives⟩
  rcases gives.of_lift_bind with ⟨_, third, names, gives⟩
  rcases gives.of_lift_bind with ⟨_, fourth, spacesToo, gives⟩
  rcases gives.of_lift_bind with ⟨_, fifth, refers, gives⟩
  rcases gives.of_lift_bind with ⟨_, sixth, lastSpaces, gives⟩
  have keyword := moves.of_skip _ starts (by decide)
  have header : ∃ header, first.Passed header sixth ∧ Level header := by
    rcases Scan.covers_expectSpaces kind spaces with ⟨_, passedSpaces, levelSpaces⟩
    rcases Scan.covers_skipName kind names with ⟨_, passedName, levelName⟩
    rcases Scan.covers_skipSpaces kind spacesToo with ⟨_, passedToo, levelToo⟩
    rcases Scan.covers_externalId refers with ⟨_, passedId, levelId⟩
    rcases Scan.covers_skipSpaces kind lastSpaces with ⟨_, passedLast, levelLast⟩
    exact ⟨_, passedSpaces.trans (passedName.trans (passedToo.trans (passedId.trans passedLast))),
      levelSpaces.append (levelName.append (levelToo.append (levelId.append levelLast)))⟩
  rcases header with ⟨header, passedHeader, level⟩
  rcases gives.of_lift_bind with ⟨d, _, here, gives⟩
  rcases here.of_peek with ⟨⟨ds, front⟩, rfl⟩
  split at gives
  · next opens =>
    rw [beq_iff_eq] at opens
    rcases gives.of_lift_bind with ⟨_, seventh, moves, gives⟩
    rcases gives.of_lift_bind with ⟨cs, _, here, gives⟩
    rcases here.of_rest with ⟨rfl, rfl⟩
    have bracket := moves.of_skip ['['] ⟨ds, by rw [front, opens]; rfl⟩ rfl
    have opening := (keyword.trans passedHeader).trans bracket
    rcases found_internalSubset outside (Nat.lt_succ_self _) gives with
      ⟨parts, last, found, empty | ⟨gap, blank, closes⟩⟩
    · exact ⟨found.outside, Or.inl ⟨_, parts, found.finished, empty⟩⟩
    refine ⟨found.outside, Or.inr ⟨⟨header, some (parts, gap)⟩, ⟨level, found.wellFormed, ?_⟩, ?_, ?_⟩⟩
    · rintro _ _ ⟨⟩
      exact blank
    · have whole := opening.trans (found.passed.trans closes)
      rw [← TypeDeclaration.text_bracketed] at whole
      exact whole
    · have place := opening.offset_eq
      rw [List.append_assoc] at place
      rw [found.finished, place]
      rfl
  · split at gives
    · next ends =>
      rw [beq_iff_eq] at ends
      rcases gives.of_lift with ⟨moves, rfl⟩
      have last := moves.of_skip ['>'] ⟨ds, by rw [front, ends]; rfl⟩ rfl
      refine ⟨outside, Or.inr ⟨⟨header, none⟩, ⟨level, List.forall_mem_nil _, fun _ _ impossible => ?_⟩, ?_, rfl⟩⟩
      · cases impossible
      have whole := keyword.trans (passedHeader.trans last)
      rw [← TypeDeclaration.text_plain] at whole
      exact whole
    · exact absurd gives.of_lift.1 Scan.not_gives_fail

end Build

/-! ## The whole front -/

/-- The text before the root element. -/
structure Front where
  /-- The mark of the byte order and the XML declaration. -/
  opening : List Char
  before : List FrontPart
  /-- The document type declaration and what stands behind it. -/
  doctype : Option (TypeDeclaration × List FrontPart)

namespace Front

/-- Everything before the document type declaration. -/
def head (f : Front) : List Char :=
  f.opening ++ FrontPart.textOf f.before

def tail (f : Front) : List Char :=
  f.doctype.elim [] fun (d, behind) => d.text ++ FrontPart.textOf behind

def text (f : Front) : List Char :=
  f.head ++ f.tail

/-- The nodes before the document type declaration. -/
def placedBefore (f : Front) : List PlacedNode :=
  FrontPart.placed f.opening.length f.before

/-- The nodes in the document type declaration and behind it. -/
def placedBehind (f : Front) : List PlacedNode :=
  f.doctype.elim [] fun (d, behind) =>
    d.placed f.head.length ++ FrontPart.placed (f.head.length + d.text.length) behind

theorem isElement_of_mem_placedBehind {f : Front} {p : PlacedNode} (listed : p ∈ f.placedBehind) :
    p.node.isElement = false := by
  rw [placedBehind] at listed
  cases declared : f.doctype with
  | none =>
      rw [declared] at listed
      cases listed
  | some found =>
      rw [declared, Option.elim_some, List.mem_append] at listed
      rcases listed with inside | behind
      · exact FrontPart.isElement_of_mem_placed inside
      · exact FrontPart.isElement_of_mem_placed behind

/-- Whether a text is an XML declaration or nothing. -/
def IsDeclaration (cs : List Char) : Prop :=
  cs = [] ∨ ∃ ds, Tagless ds ∧ ds.head? = some ' ' ∧ cs = "<?xml".toList ++ (ds ++ "?>".toList)

/-- Whether a text is the mark of the byte order and the XML declaration, either of which
may be missing. -/
def IsOpening (cs : List Char) : Prop :=
  ∃ mark declaration, cs = mark ++ declaration ∧ (mark = [] ∨ mark = ['\uFEFF']) ∧ IsDeclaration declaration

structure IsWellFormed (f : Front) : Prop where
  opening : IsOpening f.opening
  before : ∀ part ∈ f.before, part.IsWellFormed false
  doctype : ∀ d behind, f.doctype = some (d, behind) →
    d.IsWellFormed ∧ ∀ part ∈ behind, part.IsWellFormed false

end Front

namespace Build

variable {b b' : Builder} {c after : Cursor}

/-- Behind the front comes the root element, or nothing but more remarks. -/
theorem found_rootPart {bound : Nat} (outside : b.openElements = []) (gives : (rootPart bound).Gives b c () b' after) :
    (∃ parts, Found false parts b c b' after) ∨
      ∃ gap middle mid last, Found false [.blank gap] b c b middle ∧ ['<'] <+: middle.rest ∧
        rootElement.Gives b middle () mid last ∧ ∃ further, (miscellaneous bound).Gives mid last () b' further := by
  rw [rootPart] at gives
  rcases gives.of_lift_bind with ⟨_, middle, spaces, gives⟩
  rcases @found_skipSpaces _ _ _ false outside spaces with ⟨gap, blanks⟩
  rcases gives.of_lift_bind with ⟨isTag, _, here, gives⟩
  rcases here.of_looksAt with ⟨starts, rfl⟩
  have ending {mid : Builder} {last : Cursor} (gives : Gives (do
      miscellaneous bound
      unless ← Scan.atEnd do Scan.fail .unknownToken) mid last () b' after) :
      (miscellaneous bound).Gives mid last () b' after := by
    rcases gives.exists_of_bind with ⟨_, _, further, reads, gives⟩
    rcases gives.of_lift_bind with ⟨ended, _, here, gives⟩
    rcases here.of_atEnd with ⟨rfl, rfl⟩
    split at gives
    · rcases gives.of_pure with ⟨-, rfl, rfl⟩
      exact reads
    · exact absurd gives.of_lift.1 Scan.not_gives_fail
  dsimp only at gives
  split at gives
  · next isTag =>
    rcases gives.exists_of_bind with ⟨_, mid, last, reads, gives⟩
    exact Or.inr ⟨gap, middle, mid, last, blanks, starts.mp isTag, reads, after, ending gives⟩
  · rcases found_miscellaneous outside (ending gives) with ⟨parts, found⟩
    exact Or.inl ⟨_, blanks.append found⟩

/-- Whether nodes without elements were added. -/
def AddsNoElement (b b' : Builder) : Prop :=
  ∃ more, b'.finished = more ++ b.finished ∧ ∀ p ∈ more, p.node.isElement = false

theorem AddsNoElement.trans {mid : Builder} (first : AddsNoElement b mid) (second : AddsNoElement mid b') :
    AddsNoElement b b' := by
  rcases first with ⟨more, same, leaves⟩
  rcases second with ⟨others, sameToo, leavesToo⟩
  refine ⟨others ++ more, by rw [sameToo, same, List.append_assoc], ?_⟩
  exact List.forall_mem_append.mpr ⟨leavesToo, leaves⟩

theorem addsNoElement_of_placed {o : Nat} {parts : List FrontPart}
    (finished : b'.finished = (FrontPart.placed o parts).reverse ++ b.finished) : AddsNoElement b b' :=
  ⟨_, finished, fun _ listed => FrontPart.isElement_of_mem_placed (List.mem_reverse.mp listed)⟩

/-- What was read before the root element. -/
structure FoundFront (f : Front) (c : Cursor) (mid : Builder) (middle : Cursor) : Prop where
  wellFormed : f.IsWellFormed
  passed : c.Passed (FrontPart.textOf f.before ++ f.tail) middle
  finished : mid.finished = (f.placedBefore ++ f.placedBehind).reverse
  outside : mid.openElements = []

theorem found_body {opening : List Char} (opens : Front.IsOpening opening) (place : c.offset = opening.length)
    (outside : b.openElements = []) (fresh : b.finished = []) (gives : body.Gives b c () b' after) :
    AddsNoElement b b' ∨ ∃ f middle mid root last bound further, f.opening = opening ∧ FoundFront f c mid middle ∧
      ['<'] <+: middle.rest ∧ rootElement.Gives mid middle () root last ∧
      (miscellaneous bound).Gives root last () b' further := by
  rw [body] at gives
  rcases gives.of_lift_bind with ⟨cs, _, here, gives⟩
  rcases here.of_rest with ⟨rfl, rfl⟩
  rcases gives.exists_of_bind with ⟨_, first, second, reads, gives⟩
  rcases @found_miscellaneous _ _ _ _ false outside _ reads with ⟨parts, found⟩
  rcases gives.of_lift_bind with ⟨_, third, spaces, gives⟩
  rcases @found_skipSpaces _ _ _ false found.outside spaces with ⟨gap, blanks⟩
  have before := found.append blanks
  rcases gives.of_lift_bind with ⟨isDoctype, _, here, gives⟩
  rcases here.of_looksAt with ⟨starts, rfl⟩
  dsimp only at gives
  split at gives
  · next isDoctype =>
    rcases gives.exists_of_bind with ⟨_, fourth, fifth, reads, gives⟩
    rcases found_doctype found.outside reads (starts.mp isDoctype) with ⟨outsideToo, declared⟩
    rcases gives.exists_of_bind with ⟨_, sixth, seventh, readsToo, gives⟩
    rcases @found_miscellaneous _ _ _ _ false outsideToo _ readsToo with ⟨behind, later⟩
    have rooted := found_rootPart later.outside gives
    rcases declared with ⟨o, parts, finished, empty⟩ | ⟨d, wellFormed, passed, finished⟩
    · -- Where the text ends in the declaration, no root element follows.
      rcases rooted with ⟨more, last⟩ | ⟨_, middle, _, _, blanksToo, tag, -⟩
      · exact Or.inl ((addsNoElement_of_placed before.finished).trans ((addsNoElement_of_placed finished).trans
          ((addsNoElement_of_placed later.finished).trans (addsNoElement_of_placed last.finished))))
      · have left := (later.passed.trans blanksToo.passed).rest_eq
        rw [empty] at left
        rw [(List.append_eq_nil_iff.mp left.symm).2] at tag
        cases List.prefix_nil.mp tag
    · rcases rooted with ⟨more, last⟩ | ⟨_, middle, root, last, blanksToo, tag, readsRoot, further, ends⟩
      · refine Or.inl ((addsNoElement_of_placed before.finished).trans (AddsNoElement.trans ?_
          ((addsNoElement_of_placed later.finished).trans (addsNoElement_of_placed last.finished))))
        exact addsNoElement_of_placed finished
      · have whole := later.append blanksToo
        refine Or.inr ⟨⟨opening, _, some (d, _)⟩, middle, sixth, root, last, _, further, rfl,
          ⟨⟨opens, before.wellFormed, ?_⟩, before.passed.trans (passed.trans whole.passed), ?_, whole.outside⟩, tag,
          readsRoot, ends⟩
        · rintro _ _ ⟨⟩
          exact ⟨wellFormed, whole.wellFormed⟩
        · have placeToo := before.passed.offset_eq
          have placeBehind := passed.offset_eq
          rw [whole.finished, finished, before.finished, fresh, placeBehind, placeToo, place, List.append_nil,
            Front.placedBehind, Option.elim_some, List.reverse_append, List.reverse_append, List.append_assoc,
            Front.head, List.length_append]
          rfl
  · rcases found_rootPart found.outside gives with
      ⟨more, later⟩ | ⟨_, middle, root, last, blanksToo, tag, readsRoot, further, ends⟩
    · exact Or.inl ((addsNoElement_of_placed before.finished).trans (addsNoElement_of_placed later.finished))
    · have whole := before.append blanksToo
      refine Or.inr ⟨⟨opening, _, none⟩, middle, first, root, last, _, further, rfl,
        ⟨⟨opens, whole.wellFormed, fun _ _ impossible => ?_⟩, ?_, ?_, whole.outside⟩, tag, readsRoot, ends⟩
      · cases impossible
      · rw [Front.tail, Option.elim_none, List.append_nil]
        exact whole.passed
      · rw [whole.finished, fresh, place, List.append_nil, Front.placedBehind, Option.elim_none, List.append_nil]
        rfl

/-- Everything but an opening is read as the body of a document. -/
theorem exists_opening {text : List Char} (gives : document.Gives .start ⟨text, 0⟩ () b' after) :
    ∃ opening middle, Front.IsOpening opening ∧ (Cursor.mk text 0).Passed opening middle ∧
      body.Gives .start middle () b' after := by
  have declared {mark : List Char} {c : Cursor} (isMark : mark = [] ∨ mark = ['\uFEFF'])
      (passed : (Cursor.mk text 0).Passed mark c) (gives : Gives (do
        if ← Scan.looksAt "<?xml " then Scan.declaration
        body) .start c () b' after) :
      ∃ opening middle, Front.IsOpening opening ∧ (Cursor.mk text 0).Passed opening middle ∧
        body.Gives .start middle () b' after := by
    rcases gives.of_lift_bind with ⟨isDeclaration, _, here, gives⟩
    rcases here.of_looksAt with ⟨starts, rfl⟩
    dsimp only at gives
    split at gives
    · next isDeclaration =>
      rcases gives.of_lift_bind with ⟨_, middle, reads, gives⟩
      rcases reads.of_declaration (starts.mp isDeclaration) with ⟨ds, passedToo, tagless⟩
      have spaced : ds.head? = some ' ' := by
        have front := starts.mp isDeclaration
        rw [passedToo.rest_eq, List.append_assoc, show "<?xml ".toList = "<?xml".toList ++ [' '] from rfl,
          List.prefix_append_right_inj, List.append_assoc] at front
        cases ds with
        | nil => exact absurd (List.cons_prefix_cons.mp front).1 (by decide)
        | cons d ds => exact congrArg some (List.cons_prefix_cons.mp front).1.symm
      exact ⟨_, middle, ⟨mark, _, rfl, isMark, Or.inr ⟨ds, tagless, spaced, rfl⟩⟩, passed.trans passedToo, gives⟩
    · exact ⟨mark, c, ⟨mark, [], (List.append_nil _).symm, isMark, Or.inl rfl⟩, passed, gives⟩
  rw [document_eq] at gives
  rcases gives.of_lift_bind with ⟨cs, _, here, gives⟩
  rcases here.of_rest with ⟨rfl, rfl⟩
  dsimp only at gives
  split at gives
  · next marked =>
    rcases gives.of_lift_bind with ⟨_, middle, moves, gives⟩
    rw [beq_iff_eq] at marked
    rcases List.head?_eq_some_iff.mp marked with ⟨rest, same⟩
    exact declared (Or.inr rfl) (moves.of_skip _ ⟨rest, same.symm⟩ rfl) gives
  · exact declared (Or.inl rfl) (.nil _) gives

/-- The text of a document begins with a front, and the root element follows it. -/
theorem found_document {text : List Char} (gives : document.Gives .start ⟨text, 0⟩ () b' after) :
    AddsNoElement .start b' ∨ ∃ (f : Front) (middle : Cursor) (mid root : Builder) (last : Cursor) (bound : Nat)
      (further : Cursor), f.IsWellFormed ∧ (Cursor.mk text 0).Passed f.text middle ∧
        mid.finished = (f.placedBefore ++ f.placedBehind).reverse ∧ mid.openElements = [] ∧ ['<'] <+: middle.rest ∧
        rootElement.Gives mid middle () root last ∧ (miscellaneous bound).Gives root last () b' further := by
  rcases exists_opening gives with ⟨opening, c, opens, passed, gives⟩
  have place := passed.offset_eq
  rw [Nat.zero_add] at place
  rcases found_body opens place rfl rfl gives with
    leaves | ⟨f, middle, mid, root, last, bound, further, rfl, found, rest⟩
  · exact Or.inl leaves
  · have whole := passed.trans found.passed
    rw [← List.append_assoc] at whole
    exact Or.inr ⟨f, middle, mid, root, last, bound, further, found.wellFormed, whole, found.finished, found.outside,
      rest⟩

end Build

end Xml
end SlimSvg
