import SlimSvg.Proofs.Xml.Invariants

namespace SlimSvg
namespace Xml

/-!
# What was passed

Where a step of reading succeeds, the text before it is known from the step: it is what the
step passed, followed by what is left.  So a text that was accepted can be taken apart from
the front, step by step.
-/

/-- Whether a cursor has moved over some characters. -/
structure Cursor.Passed (c : Cursor) (cs : List Char) (after : Cursor) : Prop where
  rest_eq : c.rest = cs ++ after.rest
  offset_eq : after.offset = c.offset + cs.length

namespace Cursor.Passed

variable {c middle after : Cursor} {cs ds : List Char}

theorem nil (c : Cursor) : c.Passed [] c :=
  ⟨rfl, rfl⟩

theorem trans (first : c.Passed cs middle) (second : middle.Passed ds after) : c.Passed (cs ++ ds) after := by
  refine ⟨?_, ?_⟩
  · rw [first.rest_eq, second.rest_eq, List.append_assoc]
  · rw [second.offset_eq, first.offset_eq, List.length_append, Nat.add_assoc]

/-- What is left is no longer than what there was. -/
theorem length_eq (passed : c.Passed cs after) : c.rest.length = cs.length + after.rest.length := by
  rw [passed.rest_eq, List.length_append]

end Cursor.Passed

namespace Scan

theorem Ends.of_append {p : Char → Bool} {cs ds : List Char} (ends : Ends p (cs ++ ds)) : Ends p cs := by
  cases cs with
  | nil => exact ends_nil p
  | cons c rest => exact ends

variable {α β : Type} {c after : Cursor} {a b : α}

/-! ## Single steps -/

theorem Gives.of_pure (gives : (pure a : Scan α).Gives c b after) : a = b ∧ c = after :=
  Prod.mk.inj (Except.ok.inj gives)

theorem not_gives_fail {cause : FaultCause} : ¬ (fail cause : Scan α).Gives c a after := by
  intro gives
  cases gives

theorem Gives.of_offset {o : Nat} (gives : offset.Gives c o after) : c.offset = o ∧ c = after :=
  gives.of_pure

theorem Gives.of_rest {cs : List Char} (gives : rest.Gives c cs after) : c.rest = cs ∧ c = after :=
  gives.of_pure

theorem Gives.of_atEnd {ended : Bool} (gives : atEnd.Gives c ended after) : c.rest.isEmpty = ended ∧ c = after :=
  gives.of_pure

theorem Gives.of_looksAt {word : String} {found : Bool} (gives : (looksAt word).Gives c found after) :
    (found = true ↔ word.toList <+: c.rest) ∧ c = after := by
  rcases Prod.mk.inj (Except.ok.inj gives) with ⟨same, stays⟩
  rw [← same]
  exact ⟨List.isPrefixOf_iff_prefix, stays⟩

theorem Gives.of_peek {d : Char} (gives : peek.Gives c d after) : (∃ ds, c.rest = d :: ds) ∧ c = after := by
  rcases c with ⟨cs, o⟩
  cases cs with
  | nil => cases gives
  | cons e rest =>
      rcases gives.of_pure with ⟨rfl, stays⟩
      exact ⟨⟨rest, rfl⟩, stays⟩

/-- Characters that are known to come next are passed. -/
theorem Gives.of_skip {n : Nat} (gives : (skip n).Gives c () after) (word : List Char) (starts : word <+: c.rest)
    (counted : word.length = n) : c.Passed word after := by
  rcases starts with ⟨rest, same⟩
  rcases Prod.mk.inj (Except.ok.inj gives) with ⟨-, moved⟩
  rw [← moved, ← counted]
  refine ⟨?_, rfl⟩
  change c.rest = word ++ c.rest.drop word.length
  rw [← same, List.drop_left]

theorem Gives.of_takeWhile {p : Char → Bool} {run : List Char} (gives : (takeWhile p).Gives c run after) :
    c.Passed run after ∧ (∀ d ∈ run, p d = true) ∧ Ends p after.rest := by
  rcases gives.exists_of_bind with ⟨cs, _, here, gives⟩
  rcases here.of_rest with ⟨rfl, rfl⟩
  rcases gives.exists_of_bind with ⟨_, last, moves, gives⟩
  rcases gives.of_pure with ⟨rfl, rfl⟩
  have passed := moves.of_skip _ (List.takeWhile_prefix p) rfl
  have left : c.rest.dropWhile p = last.rest :=
    List.append_cancel_left (List.takeWhile_append_dropWhile.trans passed.rest_eq)
  refine ⟨passed, fun d inside => List.all_eq_true.mp List.all_takeWhile d inside, fun d first => ?_⟩
  have ends := List.head?_dropWhile_not p c.rest
  rw [left, first] at ends
  exact ends

/-- A run of characters up to a place where the rest of the text has a property. -/
theorem charsUntil_eq {stop : List Char → Bool} {cs run : List Char} {bad : Option Char}
    (found : charsUntil stop cs = (run, bad)) :
    ∃ rest, cs = run ++ rest ∧ ∀ tail, tail <:+ run → tail ≠ [] → stop (tail ++ rest) = false := by
  induction cs generalizing run with
  | nil =>
      rcases Prod.mk.inj found with ⟨rfl, -⟩
      exact ⟨[], rfl, fun tail suffix nonempty => absurd (List.suffix_nil.mp suffix) nonempty⟩
  | cons c cs inductionHypothesis =>
      rw [charsUntil] at found
      split at found
      · rcases Prod.mk.inj found with ⟨rfl, -⟩
        exact ⟨c :: cs, rfl, fun tail suffix nonempty => absurd (List.suffix_nil.mp suffix) nonempty⟩
      · split at found
        · rcases Prod.mk.inj found with ⟨rfl, -⟩
          exact ⟨c :: cs, rfl, fun tail suffix nonempty => absurd (List.suffix_nil.mp suffix) nonempty⟩
        · next goesOn =>
          rcases Prod.mk.inj found with ⟨rfl, same⟩
          rcases inductionHypothesis (Prod.ext rfl same) with ⟨rest, whole, later⟩
          refine ⟨rest, congrArg (c :: ·) whole, fun tail suffix nonempty => ?_⟩
          rcases List.suffix_cons_iff.mp suffix with rfl | inside
          · rw [List.cons_append, ← whole]
            exact Bool.not_eq_true _ ▸ goesOn
          · exact later tail inside nonempty

theorem Gives.of_takeUntil {stop : List Char → Bool} {run : List Char} (gives : (takeUntil stop).Gives c run after) :
    c.Passed run after ∧ ∀ tail, tail <:+ run → tail ≠ [] → stop (tail ++ after.rest) = false := by
  rcases gives.exists_of_bind with ⟨cs, _, here, gives⟩
  rcases here.of_rest with ⟨rfl, rfl⟩
  cases found : charsUntil stop c.rest with
  | mk taken bad =>
      rw [found] at gives
      rcases charsUntil_eq found with ⟨rest, whole, goesOn⟩
      rcases gives.exists_of_bind with ⟨_, _, moves, gives⟩
      have passed := moves.of_skip _ ⟨rest, whole.symm⟩ rfl
      cases bad with
      | some d => exact absurd gives not_gives_fail
      | none =>
          rcases gives.of_pure with ⟨rfl, rfl⟩
          have left := List.append_cancel_left (whole.symm.trans passed.rest_eq)
          rw [left] at goesOn
          exact ⟨passed, goesOn⟩

/-- What stands before a text does not hold it. -/
theorem Gives.of_takeBefore {word : String} {run : List Char} (gives : (takeBefore word).Gives c run after)
    (nonempty : word.toList ≠ []) : c.Passed run after ∧ ¬ word.toList <:+: run := by
  rcases gives.of_takeUntil with ⟨passed, goesOn⟩
  refine ⟨passed, ?_⟩
  rintro ⟨front, back, same⟩
  have away := goesOn (word.toList ++ back) ⟨front, by rw [← same, List.append_assoc]⟩
    (List.append_ne_nil_of_left_ne_nil nonempty back)
  rw [List.append_assoc, ← Bool.not_eq_true, List.isPrefixOf_iff_prefix] at away
  exact away (List.prefix_append _ _)

theorem Gives.of_expectChar {d : Char} (gives : (expectChar d).Gives c () after) : c.Passed [d] after := by
  rcases gives.exists_of_bind with ⟨e, _, here, gives⟩
  rcases here.of_peek with ⟨⟨ds, front⟩, rfl⟩
  split at gives
  · next same =>
    rw [beq_iff_eq] at same
    exact gives.of_skip _ ⟨ds, by rw [front, same]; rfl⟩ rfl
  · exact absurd gives not_gives_fail

theorem Gives.of_expectText {word : String} (gives : (expectText word).Gives c () after) :
    c.Passed word.toList after := by
  rcases gives.exists_of_bind with ⟨_, _, here, gives⟩
  rcases here.of_looksAt with ⟨found, rfl⟩
  split at gives
  · next starts => exact gives.of_skip _ (found.mp starts) String.length_toList
  · exact absurd gives not_gives_fail

theorem Gives.of_expectQuote {q : Char} (gives : expectQuote.Gives c q after) :
    c.Passed [q] after ∧ (q = '\'' ∨ q = '"') := by
  rcases gives.exists_of_bind with ⟨e, _, here, gives⟩
  rcases here.of_peek with ⟨⟨ds, front⟩, rfl⟩
  split at gives
  · next quoted =>
    rcases gives.exists_of_bind with ⟨_, _, moves, gives⟩
    rcases gives.of_pure with ⟨rfl, rfl⟩
    rw [Bool.or_eq_true, beq_iff_eq, beq_iff_eq] at quoted
    exact ⟨moves.of_skip _ ⟨ds, front.symm⟩ rfl, quoted⟩
  · exact absurd gives not_gives_fail

theorem Gives.of_skipSpaces (gives : skipSpaces.Gives c () after) :
    ∃ gap, c.Passed gap after ∧ (∀ d ∈ gap, Text.isXmlSpace d = true) ∧ Ends Text.isXmlSpace after.rest := by
  rcases gives.exists_of_bind with ⟨gap, _, takes, gives⟩
  rcases gives.of_pure with ⟨-, rfl⟩
  exact ⟨gap, takes.of_takeWhile⟩

theorem Gives.of_skipName {run : List Char} (gives : skipName.Gives c run after) :
    c.Passed run after ∧ (∀ d ∈ run, isNameChar d = true) ∧ Ends isNameChar after.rest := by
  rcases gives.exists_of_bind with ⟨cs, _, here, gives⟩
  rcases here.of_rest with ⟨rfl, rfl⟩
  split at gives
  · next empty =>
    rcases gives.of_pure with ⟨rfl, rfl⟩
    refine ⟨.nil c, List.forall_mem_nil _, ?_⟩
    rw [empty]
    exact ends_nil _
  · split at gives
    · exact gives.of_takeWhile
    · exact absurd gives not_gives_fail

theorem Gives.of_name {name : String} (gives : Scan.name.Gives c name after) :
    ∃ run, name = String.ofList run ∧ c.Passed run after ∧ run ≠ [] ∧ (∀ d ∈ run, isNameChar d = true) ∧
      Ends isNameChar after.rest := by
  rcases gives.exists_of_bind with ⟨start, _, here, gives⟩
  rcases here.of_offset with ⟨rfl, rfl⟩
  rcases gives.exists_of_bind with ⟨run, _, passes, gives⟩
  split at gives
  · cases gives
  · next nonempty =>
    rcases gives.of_pure with ⟨rfl, rfl⟩
    rcases passes.of_skipName with ⟨passed, named, ends⟩
    exact ⟨run, rfl, passed, fun empty => nonempty (List.isEmpty_iff.mpr empty), named, ends⟩

end Scan

/-! ## Texts in which nothing begins or ends -/

/-- The signs that begin or end something. -/
def signs : List Char :=
  ['<', '>', '[', ']', '"', '\'']

/-- Whether quotation marks come in pairs and no other sign stands outside of them. -/
inductive Level : List Char → Prop
  | nil : Level []
  | plain {c : Char} {cs : List Char} (ordinary : c ∉ signs) (rest : Level cs) : Level (c :: cs)
  | quoted {q : Char} {run cs : List Char} (mark : q = '\'' ∨ q = '"') (inside : q ∉ run) (rest : Level cs) :
    Level (q :: (run ++ q :: cs))

namespace Level

variable {cs ds : List Char}

theorem of_plain (ordinary : ∀ c ∈ cs, c ∉ signs) : Level cs := by
  induction cs with
  | nil => exact .nil
  | cons c rest inductionHypothesis =>
      rw [List.forall_mem_cons] at ordinary
      exact .plain ordinary.1 (inductionHypothesis ordinary.2)

theorem append (first : Level cs) (second : Level ds) : Level (cs ++ ds) := by
  induction first with
  | nil => exact second
  | plain ordinary _ inductionHypothesis => exact .plain ordinary inductionHypothesis
  | quoted mark inside _ inductionHypothesis =>
      rw [List.cons_append, List.append_assoc]
      exact .quoted mark inside inductionHypothesis

end Level

theorem notMem_signs_of_isXmlSpace {c : Char} (blank : Text.isXmlSpace c = true) : c ∉ signs := by
  simp only [Text.isXmlSpace, Bool.or_eq_true, beq_iff_eq] at blank
  rcases blank with ((rfl | rfl) | rfl) | rfl <;> decide

theorem notMem_signs_of_isNameChar {c : Char} (named : isNameChar c = true) : c ∉ signs := by
  intro listed
  have others : ∀ d ∈ signs, isNameChar d = false := List.all_iff_forall_prop.mp (by decide)
  exact Bool.false_ne_true ((others c listed).symm.trans named)

/-- A kind of texts that all texts without signs are of. -/
structure TextKind (L : List Char → Prop) : Prop where
  plain : ∀ cs, (∀ c ∈ cs, c ∉ signs) → L cs
  append : ∀ cs ds, L cs → L ds → L (cs ++ ds)

theorem textKind_level : TextKind Level :=
  ⟨fun _ ordinary => .of_plain ordinary, fun _ _ first second => first.append second⟩

/-- Whether moreover no tag begins between the quotation marks. -/
def Tagless (cs : List Char) : Prop :=
  Level cs ∧ '<' ∉ cs

theorem textKind_tagless : TextKind Tagless where
  plain := fun _ ordinary => ⟨.of_plain ordinary, fun inside => ordinary '<' inside (by decide)⟩
  append := fun _ _ first second => ⟨first.1.append second.1, fun inside =>
    (List.mem_append.mp inside).elim first.2 second.2⟩

namespace Scan

variable {α β : Type}

/-- Whether all that a step passes is of one kind. -/
def Covers (s : Scan α) (L : List Char → Prop) : Prop :=
  ∀ ⦃c a after⦄, s.Gives c a after → ∃ cs, c.Passed cs after ∧ L cs

theorem Covers.before {s : Scan α} {next : α → Scan β} {L M : List Char → Prop} (first : s.Covers L)
    (second : ∀ a, (next a).Covers M) (append : ∀ cs ds, L cs → M ds → M (cs ++ ds)) : (s >>= next).Covers M := by
  intro c b after gives
  rcases gives.exists_of_bind with ⟨a, middle, here, later⟩
  rcases first here with ⟨cs, passed, ofKind⟩
  rcases second a later with ⟨ds, passedToo, ofKindToo⟩
  exact ⟨cs ++ ds, passed.trans passedToo, append cs ds ofKind ofKindToo⟩

/-- Some steps are made only if something holds. -/
theorem covers_whenever {condition : Prop} [Decidable condition] {next last : Scan α} {L : List Char → Prop}
    (before : last.Covers L → next.Covers L) (covers : last.Covers L) : Covers (if condition then next else last) L := by
  split
  · exact before covers
  · exact covers

theorem covers_unless {condition : Prop} [Decidable condition] {next last : Scan α} {L : List Char → Prop}
    (before : last.Covers L → next.Covers L) (covers : last.Covers L) : Covers (if condition then last else next) L := by
  split
  · exact covers
  · exact before covers

section Kind

variable {L : List Char → Prop} (kind : TextKind L)

include kind

theorem Covers.bind {s : Scan α} {next : α → Scan β} (first : s.Covers L) (second : ∀ a, (next a).Covers L) :
    (s >>= next).Covers L :=
  first.before second fun cs ds => kind.append cs ds

/-- A step that only looks passes nothing. -/
theorem covers_of_stays {s : Scan α} (stays : ∀ ⦃c a after⦄, s.Gives c a after → c = after) : s.Covers L := by
  intro c a after gives
  cases stays gives
  exact ⟨[], .nil c, kind.plain [] (List.forall_mem_nil _)⟩

theorem covers_pure (a : α) : (pure a : Scan α).Covers L :=
  covers_of_stays kind fun _ _ _ gives => gives.of_pure.2

theorem covers_looksAt (word : String) : (looksAt word).Covers L :=
  covers_of_stays kind fun _ _ _ gives => gives.of_looksAt.2

theorem covers_skipSpaces : skipSpaces.Covers L := by
  intro c a after gives
  rcases gives.of_skipSpaces with ⟨gap, passed, blank, -⟩
  exact ⟨gap, passed, kind.plain gap fun d inside => notMem_signs_of_isXmlSpace (blank d inside)⟩

theorem covers_skipName : skipName.Covers L := by
  intro c run after gives
  rcases gives.of_skipName with ⟨passed, named, -⟩
  exact ⟨run, passed, kind.plain run fun d inside => notMem_signs_of_isNameChar (named d inside)⟩

theorem covers_name : name.Covers L := by
  intro c a after gives
  rcases gives.of_name with ⟨run, -, passed, -, named, -⟩
  exact ⟨run, passed, kind.plain run fun d inside => notMem_signs_of_isNameChar (named d inside)⟩

theorem covers_expectChar {d : Char} (ordinary : d ∉ signs) : (expectChar d).Covers L := by
  intro c a after gives
  refine ⟨[d], gives.of_expectChar, kind.plain [d] fun e inside => ?_⟩
  rw [List.mem_singleton.mp inside]
  exact ordinary

end Kind

theorem covers_fail {L : List Char → Prop} {cause : FaultCause} : (fail cause : Scan α).Covers L :=
  fun _ _ _ gives => absurd gives not_gives_fail

theorem covers_expectSpaces {L : List Char → Prop} (kind : TextKind L) : expectSpaces.Covers L := by
  rw [expectSpaces]
  refine (covers_of_stays kind fun _ _ _ gives => gives.of_peek.2).bind kind fun c => ?_
  split
  · exact covers_skipSpaces kind
  · exact covers_fail

theorem Gives.of_qualifiedName {c after : Cursor} {q : QName} (gives : qualifiedName.Gives c q after) :
    ∃ run, c.Passed run after ∧ run ≠ [] ∧ ∀ d ∈ run, isNameChar d = true := by
  rw [qualifiedName] at gives
  rcases gives.exists_of_bind with ⟨start, _, here, gives⟩
  rcases here.of_offset with ⟨rfl, rfl⟩
  rcases gives.exists_of_bind with ⟨cs, _, here, gives⟩
  rcases here.of_rest with ⟨rfl, rfl⟩
  refine ⟨c.rest.takeWhile isNameChar, ?_⟩
  have finished {result : QName} {accepted : Bool} {start : Nat} {cause : FaultCause}
      (nonempty : accepted = true → c.rest.takeWhile isNameChar ≠ []) (gives : Gives (do
        skip (c.rest.takeWhile isNameChar).length
        if accepted then return result else failAt start cause) c q after) :
      c.Passed (c.rest.takeWhile isNameChar) after ∧ c.rest.takeWhile isNameChar ≠ [] ∧
        ∀ d ∈ c.rest.takeWhile isNameChar, isNameChar d = true := by
    rcases gives.exists_of_bind with ⟨_, middle, moves, gives⟩
    split at gives
    · next accepted =>
      rcases gives.of_pure with ⟨-, rfl⟩
      exact ⟨moves.of_skip _ (List.takeWhile_prefix _) rfl, nonempty accepted,
        fun d inside => List.all_eq_true.mp List.all_takeWhile d inside⟩
    · cases gives
  have whole (empty : c.rest.takeWhile isNameChar = []) : Text.splitAt ':' (c.rest.takeWhile isNameChar) = [[]] := by
    rw [empty]
    rfl
  dsimp only at gives
  split at gives
  · next part cut =>
    refine finished (fun accepted empty => ?_) gives
    rw [← (List.cons.inj ((whole empty).symm.trans cut)).1, List.isEmpty_nil, Bool.not_true, Bool.and_false] at accepted
    cases accepted
  · next pre localPart cut =>
    refine finished (fun _ empty => ?_) gives
    cases (whole empty).symm.trans cut
  · cases gives

theorem covers_qualifiedName {L : List Char → Prop} (kind : TextKind L) : qualifiedName.Covers L := by
  intro c q after gives
  rcases gives.of_qualifiedName with ⟨run, passed, -, named⟩
  exact ⟨run, passed, kind.plain run fun d inside => notMem_signs_of_isNameChar (named d inside)⟩

/-! ### Quoted texts -/

theorem covers_quotedText : quotedText.Covers Level := by
  intro c a after gives
  rcases gives.exists_of_bind with ⟨q, _, opens, gives⟩
  rcases gives.exists_of_bind with ⟨run, _, takes, closes⟩
  rcases opens.of_expectQuote with ⟨first, mark⟩
  rcases takes.of_takeWhile with ⟨passed, others, -⟩
  refine ⟨[q] ++ run ++ [q], (first.trans passed).trans closes.of_expectChar, ?_⟩
  rw [List.append_assoc]
  exact .quoted mark (fun inside => bne_iff_ne.mp (others q inside) rfl) .nil

theorem covers_writtenAttribute : writtenAttribute.Covers Tagless := by
  have kind := textKind_tagless
  rw [writtenAttribute]
  refine (covers_qualifiedName kind).bind kind fun name => (covers_skipSpaces kind).bind kind fun _ =>
    (covers_expectChar kind (by decide)).bind kind fun _ => (covers_skipSpaces kind).bind kind fun _ => ?_
  intro c a after gives
  rcases gives.exists_of_bind with ⟨q, _, opens, gives⟩
  rcases gives.exists_of_bind with ⟨start, _, here, gives⟩
  rcases here.of_offset with ⟨rfl, rfl⟩
  rcases gives.exists_of_bind with ⟨value, _, takes, gives⟩
  rcases gives.exists_of_bind with ⟨_, _, closes, gives⟩
  rcases gives.of_pure with ⟨rfl, rfl⟩
  rcases opens.of_expectQuote with ⟨first, mark⟩
  rcases takes.of_takeUntil with ⟨passed, goesOn⟩
  have others : ∀ d ∈ value, d ≠ q ∧ d ≠ '<' := by
    intro d inside
    rcases List.append_of_mem inside with ⟨front, back, same⟩
    have away := goesOn (d :: back) ⟨front, same.symm⟩ (List.cons_ne_nil d back)
    rw [Bool.or_eq_false_iff, beq_eq_false_iff_ne, beq_eq_false_iff_ne] at away
    exact ⟨fun same => away.1 (congrArg some same), fun same => away.2 (congrArg some same)⟩
  refine ⟨[q] ++ value ++ [q], (first.trans passed).trans closes.of_expectChar, ?_, ?_⟩
  · rw [List.append_assoc]
    exact .quoted mark (fun inside => (others q inside).1 rfl) .nil
  · have noTag : '<' ≠ q := by
      rcases mark with rfl | rfl <;> decide
    simp only [List.mem_append, List.mem_singleton, noTag, false_or, or_false]
    exact fun inside => (others '<' inside).2 rfl

/-! ### References to other documents -/

/-- A word without signs that comes next is passed. -/
theorem covers_behind {L : List Char → Prop} (kind : TextKind L) {word : List Char} {n : Nat} (counted : word.length = n)
    (ordinary : ∀ d ∈ word, d ∉ signs) {next : Scan α} (later : next.Covers L) {c after : Cursor} {a : α}
    (gives : (skip n >>= fun _ => next).Gives c a after) (starts : word <+: c.rest) :
    ∃ cs, c.Passed cs after ∧ L cs := by
  rcases gives.exists_of_bind with ⟨_, middle, moves, gives⟩
  rcases later gives with ⟨cs, passed, ofKind⟩
  exact ⟨word ++ cs, (moves.of_skip _ starts counted).trans passed, kind.append word cs (kind.plain word ordinary) ofKind⟩

theorem covers_externalId : externalId.Covers Level := by
  have kind := textKind_level
  intro c a after gives
  rw [externalId] at gives
  rcases gives.exists_of_bind with ⟨isSystem, _, here, gives⟩
  rcases here.of_looksAt with ⟨system, rfl⟩
  rcases gives.exists_of_bind with ⟨isPublic, _, here, gives⟩
  rcases here.of_looksAt with ⟨publicly, rfl⟩
  split at gives
  · next found =>
    have later : Covers (do
        expectSpaces
        quotedText
        if isPublic then
          expectSpaces
          quotedText
        return true) Level := by
      refine (covers_expectSpaces kind).bind kind fun _ => covers_quotedText.bind kind fun _ => ?_
      dsimp only
      split
      · exact (covers_expectSpaces kind).bind kind fun _ => covers_quotedText.bind kind fun _ => covers_pure kind true
      · exact covers_pure kind true
    rcases Bool.or_eq_true _ _ ▸ found with isSystem | isPublic
    · exact covers_behind kind (by decide) (List.all_iff_forall_prop.mp (by decide)) later gives (system.mp isSystem)
    · exact covers_behind kind (by decide) (List.all_iff_forall_prop.mp (by decide)) later gives (publicly.mp isPublic)
  · exact covers_pure kind false gives

/-- A word that may stand somewhere is passed if it stands there. -/
theorem covers_ifLooksAt {L : List Char → Prop} (kind : TextKind L) {word : String} {n : Nat}
    (counted : word.toList.length = n) (ordinary : ∀ d ∈ word.toList, d ∉ signs) {next other : Scan α}
    (later : next.Covers L) (otherwise : other.Covers L) :
    Covers (do if ← looksAt word then (do skip n; next) else other) L := by
  intro c a after gives
  rcases gives.exists_of_bind with ⟨found, _, here, gives⟩
  rcases here.of_looksAt with ⟨starts, rfl⟩
  split at gives
  · next found => exact covers_behind kind counted ordinary later gives (starts.mp found)
  · exact otherwise gives

theorem covers_entityText (isGeneral : Bool) : (entityText isGeneral).Covers Level := by
  have kind := textKind_level
  intro c a after gives
  rw [entityText] at gives
  rcases gives.exists_of_bind with ⟨d, _, here, gives⟩
  rcases here.of_peek with ⟨⟨ds, front⟩, rfl⟩
  split at gives
  · next quoted =>
    rcases gives.exists_of_bind with ⟨_, _, moves, gives⟩
    rcases gives.exists_of_bind with ⟨start, _, here, gives⟩
    rcases here.of_offset with ⟨rfl, rfl⟩
    rcases gives.exists_of_bind with ⟨run, _, takes, gives⟩
    rcases gives.exists_of_bind with ⟨_, _, closes, gives⟩
    rcases gives.of_pure with ⟨rfl, rfl⟩
    rcases takes.of_takeWhile with ⟨passed, others, -⟩
    rw [Bool.or_eq_true, beq_iff_eq, beq_iff_eq] at quoted
    have first := moves.of_skip [d] ⟨ds, front.symm⟩ rfl
    refine ⟨[d] ++ run ++ [d], (first.trans passed).trans closes.of_expectChar, ?_⟩
    rw [List.append_assoc]
    exact .quoted quoted.symm (fun inside => bne_iff_ne.mp (others d inside) rfl) .nil
  · split at gives
    · refine (covers_externalId.bind kind fun found => ?_) gives
      refine covers_unless (fun last => covers_fail.bind kind fun _ => last) ?_
      refine covers_whenever (fun last => (covers_skipSpaces kind).bind kind fun _ => ?_) (covers_pure kind none)
      refine covers_ifLooksAt kind (by decide) (List.all_iff_forall_prop.mp (by decide)) ?_ last
      exact (covers_expectSpaces kind).bind kind fun _ => (covers_skipName kind).bind kind fun _ => last
    · exact absurd gives not_gives_fail

/-! ### The XML declaration -/

theorem covers_declarationSpaces : declarationSpaces.Covers Tagless := by
  have kind := textKind_tagless
  rw [declarationSpaces]
  refine (covers_of_stays (s := looksAtSpace) kind fun _ _ _ gives => gives.of_pure.2).bind kind fun spaced => ?_
  split
  · exact covers_skipSpaces kind
  refine (covers_looksAt kind _).bind kind fun closes => ?_
  split
  · exact covers_pure kind ()
  refine (covers_of_stays kind fun _ _ _ gives => gives.of_atEnd.2).bind kind fun ended => ?_
  split
  · exact covers_pure kind ()
  · exact (covers_of_stays kind fun _ _ _ gives => gives.of_peek.2).bind kind fun _ => covers_fail

/-- The declaration is passed up to the sign that ends it. -/
theorem Gives.of_declaration {c after : Cursor} (gives : declaration.Gives c () after)
    (starts : "<?xml ".toList <+: c.rest) :
    ∃ cs, c.Passed ("<?xml".toList ++ (cs ++ "?>".toList)) after ∧ Tagless cs := by
  have kind := textKind_tagless
  let Ended (cs : List Char) : Prop := ∃ ds, cs = ds ++ "?>".toList ∧ Tagless ds
  have append : ∀ cs ds, Tagless cs → Ended ds → Ended (cs ++ ds) := by
    rintro cs _ before ⟨ds, rfl, behind⟩
    exact ⟨cs ++ ds, (List.append_assoc _ _ _).symm, kind.append cs ds before behind⟩
  rw [declaration] at gives
  rcases gives.exists_of_bind with ⟨_, middle, moves, gives⟩
  have front : "<?xml".toList <+: c.rest := List.IsPrefix.trans (by decide) starts
  have behind : ∃ cs, middle.Passed cs after ∧ Ended cs := by
    refine (covers_declarationSpaces.before (fun _ => ?_) append) gives
    refine (covers_looksAt kind "version").before (fun _ => ?_) append
    refine covers_unless (fun last => (covers_fail (L := Tagless)).before (fun _ => last) append) ?_
    refine covers_writtenAttribute.before (fun _ => ?_) append
    refine covers_declarationSpaces.before (fun _ => ?_) append
    refine (covers_looksAt kind "encoding").before (fun _ => ?_) append
    refine covers_whenever (fun last => covers_writtenAttribute.before
      (fun _ => covers_declarationSpaces.before (fun _ => last) append) append) ?_
    refine (covers_looksAt kind "standalone").before (fun _ => ?_) append
    refine covers_whenever (fun last => covers_writtenAttribute.before (fun _ => last) append) ?_
    refine (covers_skipSpaces kind).before (fun _ _ _ _ gives => ?_) append
    exact ⟨_, gives.of_expectText, [], rfl, kind.plain [] (List.forall_mem_nil _)⟩
  rcases behind with ⟨_, passed, cs, rfl, tagless⟩
  exact ⟨cs, (moves.of_skip _ front (by decide)).trans passed, tagless⟩

end Scan

end Xml
end SlimSvg
