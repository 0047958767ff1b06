import SlimSvg.Proofs.Css.WrittenSelectors

namespace SlimSvg
namespace Css

/-!
# Selectors that are read back

A selector that was read is found again in its text if each of its parts is: no name
begins with a digit, the value of every attribute test comes back, and no text is cut too
early where it ends at a bracket or a comma.  Each reader is stated with the text that
stands behind what it reads, and the lists inside of pseudo-classes come back because
their texts are shorter than the one around them.
-/

namespace SelectorText

variable {nested : Bool → List Char → Except CssError (List Selector)} {size : Nat}

/-! ## Names -/

theorem requireName_name {n : String} (form : NameForm n) (writable : isPlainName n = true) (text : List Char)
    {tail : List Char} (ends : EndsName tail) : requireName text ((name n).toList ++ tail) = .ok (n, tail) := by
  rcases exists_front_escaped form.nonempty with ⟨c, rest, front, -⟩
  have nonempty : ¬ (n.toList.flatMap escaped).isEmpty = true := by
    rw [front]
    exact Bool.false_ne_true
  rw [requireName, toList_name writable, spanName_escaped _ ends]
  dsimp only
  rw [if_neg nonempty, unescape_escaped, String.ofList_toList]

theorem spanName_pseudoName {n : String} (form : PseudoNameForm n) {tail : List Char} (ends : EndsName tail) :
    spanName (n.toList ++ tail) = (n.toList, tail) := by
  have again := spanName_append n.toList ends
  rw [form.written] at again
  exact again

/-- The name of a pseudo-class does not begin with a colon. -/
theorem afterColon_pseudoName {n : String} (form : PseudoNameForm n) (tail : List Char) :
    afterColon (n.toList ++ tail) = (false, n.toList ++ tail) := by
  cases chars : n.toList with
  | nil => exact absurd chars form.nonempty
  | cons c rest =>
      have other : c ≠ ':' := by
        rintro rfl
        have ends : EndsName (':' :: rest) := by
          intro d first
          rw [← Option.some.inj first]
          decide
        have written := form.written
        rw [chars, spanName_of_endsName ends] at written
        exact List.cons_ne_nil _ _ (Prod.mk.inj written).2
      rw [List.cons_append]
      unfold afterColon
      split
      · next same => exact absurd (List.cons.inj same).1 other
      · rfl

/-! ## Pseudo-classes -/

/-- Whether a reader of shorter texts finds lists of selectors in what is written of them. -/
def ReadsBack (nested : Bool → List Char → Except CssError (List Selector)) (size : Nat) : Prop :=
  ∀ relative list, list ≠ [] → selectorsHaveForm relative list → selectorsAreWritable list = true →
    (listText list).length < size → nested relative (listText list) = .ok list

theorem selectorsAreWritable_iff {list : List Selector} :
    selectorsAreWritable list = true ↔ ∀ s ∈ list, isSeparable s.write.toList = true ∧ s.isWritable = true := by
  induction list with
  | nil => exact ⟨fun _ => List.forall_mem_nil _, fun _ => rfl⟩
  | cons s rest inductionHypothesis =>
      rw [selectorsAreWritable, Bool.and_eq_true, Bool.and_eq_true, inductionHypothesis, List.forall_mem_cons]

theorem isSeparable_iff {cs : List Char} : isSeparable cs = true ↔ Balanced ',' cs ∧ Balanced ')' cs := by
  rw [isSeparable, Bool.and_eq_true, decide_eq_true_iff, decide_eq_true_iff]

theorem balanced_listText {list : List Selector} (writable : selectorsAreWritable list = true) :
    Balanced ')' (listText list) := by
  induction list with
  | nil => exact balanced_nil
  | cons s rest inductionHypothesis =>
      rw [selectorsAreWritable, Bool.and_eq_true, Bool.and_eq_true] at writable
      have here := (isSeparable_iff.mp writable.1.1).2
      cases rest with
      | nil =>
          rw [listText_singleton]
          exact here
      | cons other more =>
          have comma : Balanced ')' [','] := rfl
          rw [listText_cons_cons]
          exact here.append (comma.append (inductionHypothesis writable.2))

/-- Arguments are read up to the parenthesis that closes them. -/
theorem arguments_write (reads : ReadsBack nested size) {args : PseudoArguments} {asSelectors relative : Bool}
    (suit : args.Suit asSelectors) (form : args.HasForm relative) (writable : args.isWritable = true)
    (short : args.write.toList.length ≤ size) {tail : List Char} (follows : Follows tail) :
    arguments nested asSelectors relative (args.write.toList ++ tail) = .ok (args, tail) := by
  cases args with
  | none => exact arguments_none _ _ follows.unopened
  | raw text =>
      have unwanted : ¬ asSelectors = true := Bool.eq_false_iff.mp suit
      rw [toList_writeRaw, List.cons_append, List.append_assoc, arguments_parenthesis, List.singleton_append,
        spanBefore?_append form.balanced rfl]
      change Except.map _ (argumentsOf nested asSelectors relative text.toList) = _
      rw [argumentsOf, if_neg unwanted, form.trimmed, String.ofList_toList]
      rfl
  | selectors list =>
      have shorter : (listText list).length < size := by
        rw [toList_writeArguments, List.length_cons, List.length_append] at short
        omega
      rw [toList_writeArguments, List.cons_append, List.append_assoc, arguments_parenthesis, List.singleton_append,
        spanBefore?_append (balanced_listText writable) rfl]
      change Except.map _ (argumentsOf nested asSelectors relative (listText list)) = _
      have wanted : asSelectors = true := suit
      rw [argumentsOf, if_pos wanted, reads relative list form.1 form.2 writable shorter]
      rfl

/-- The name of a pseudo-class ends before its arguments. -/
theorem endsName_writeArguments (args : PseudoArguments) {tail : List Char} (follows : Follows tail) :
    EndsName (args.write.toList ++ tail) := by
  have opens (later : List Char) : EndsName ('(' :: later) := by
    intro c first
    rw [← Option.some.inj first]
    decide
  cases args with
  | none => exact follows.ends
  | raw text =>
      rw [toList_writeRaw]
      exact opens _
  | selectors list =>
      rw [toList_writeArguments]
      exact opens _

theorem pseudoBehind_write (reads : ReadsBack nested size) {n : String} {args : PseudoArguments}
    {doubled wanted : Bool} (asked : (!doubled && takesSelectors n) = wanted) (named : PseudoNameForm n)
    (suit : args.Suit wanted) (form : args.HasForm (n == "has"))
    (writable : args.isWritable = true) (short : args.write.toList.length ≤ size) (text : List Char)
    {tail : List Char} (follows : Follows tail) :
    pseudoBehind nested text doubled (n.toList ++ (args.write.toList ++ tail)) =
      .ok (pseudoTest doubled n args, tail) := by
  have nonempty : ¬ n.toList.isEmpty = true := fun empty => named.nonempty (List.isEmpty_iff.mp empty)
  rw [pseudoBehind, spanName_pseudoName named (endsName_writeArguments args follows)]
  dsimp only
  rw [if_neg nonempty, String.ofList_toList, asked, arguments_write reads suit form writable short follows]
  rfl

/-! ## Tests -/

/-- A type is the only test that does not begin with a sign. -/
theorem testAt_name {n : String} (form : NameForm n) (writable : isPlainName n = true) (text : List Char)
    {tail : List Char} (ends : EndsName tail) :
    testAt nested text true ((name n).toList ++ tail) = .ok (some (.typeName n, tail)) := by
  rcases exists_front_escaped form.nonempty with ⟨c, rest, front, begins⟩
  have span := spanName_escaped n.toList ends
  have back := unescape_escaped n.toList
  have named : (isNameChar c || c == '\\') = true := by
    rw [Bool.or_eq_true, beq_iff_eq]
    exact begins
  have other {d : Char} (sign : d ∈ signs) : c ≠ d := by
    rintro rfl
    exact absurd begins (not_beginsName_of_mem_signs sign)
  rw [front, List.cons_append] at span
  rw [front] at back
  rw [toList_name writable, front, List.cons_append, testAt]
  · rw [if_pos named, span, back, String.ofList_toList]
    rfl
  all_goals exact other (by decide)

/-- A test is read up to the text behind it. -/
theorem testAt_write (reads : ReadsBack nested size) {t : SimpleSelector} {isFirst : Bool}
    (placed : isFirst = true ∨ t.isType = false) (form : t.HasForm) (writable : t.isWritable = true)
    (short : t.write.toList.length ≤ size) (text : List Char) {tail : List Char} (follows : Follows tail) :
    testAt nested text isFirst (t.write.toList ++ tail) = .ok (some (t, tail)) := by
  cases t with
  | universal => rfl
  | typeName n =>
      have first : isFirst = true := placed.resolve_right fun untyped => Bool.eq_false_iff.mp untyped rfl
      rw [toList_writeType, first]
      exact testAt_name form writable text follows.ends
  | className n =>
      rw [toList_writeClass, List.cons_append, testAt, requireName_name form writable text follows.ends]
      rfl
  | idName n =>
      rw [toList_writeId, List.cons_append, testAt, requireName_name form writable text follows.ends]
      rfl
  | attributeTest t =>
      rw [SimpleSelector.isWritable, AttributeTest.isWritable, Bool.and_eq_true, Bool.and_eq_true, Bool.or_eq_true,
        beq_iff_eq, decide_eq_true_iff] at writable
      rcases writable with ⟨⟨named, value⟩, balanced⟩
      change testAt nested text isFirst ((test t).toList ++ tail) = _
      rw [toList_test, List.cons_append, List.append_assoc, List.singleton_append, testAt,
        spanBefore?_append balanced rfl]
      change Option.elim (attributeTest? (insideTest t)) _ _ = _
      rw [attributeTest?_insideTest form named value]
      rfl
  | pseudoClass n args =>
      rcases form with ⟨named, unlegacy, suit, argsForm⟩
      have asked : (!false && takesSelectors n) = takesSelectors n := rfl
      rw [toList_writePseudoClass, List.length_cons, List.length_append] at short
      have inside : args.write.toList.length ≤ size := by omega
      rw [toList_writePseudoClass, List.cons_append, List.append_assoc, testAt, pseudo_eq, afterColon_pseudoName named]
      dsimp only
      rw [pseudoBehind_write reads asked named suit argsForm writable inside text follows, pseudoTest, unlegacy]
      rfl
  | pseudoElement n args =>
      rcases form with ⟨named, suit, argsForm⟩
      have otherForm : args.HasForm (n == "has") := hasForm_of_unwanted suit argsForm
      rw [toList_writePseudoElement, List.length_cons, List.length_append, List.length_append] at short
      have inside : args.write.toList.length ≤ size := by omega
      rw [toList_writePseudoElement, List.cons_append, List.append_assoc, List.append_assoc, testAt, pseudo_eq,
        secondColon]
      split
      · next legacy =>
        have unwanted : (!false && takesSelectors n) = false :=
          not_takesSelectors_of_legacy legacy
        rw [List.nil_append, afterColon_pseudoName named]
        dsimp only
        rw [pseudoBehind_write reads unwanted named suit otherForm writable inside text follows, pseudoTest, legacy]
        rfl
      · have unwanted : (!true && takesSelectors n) = false := rfl
        rw [List.singleton_append, afterColon]
        dsimp only
        rw [pseudoBehind_write reads unwanted named suit otherForm writable inside text follows]
        rfl

/-! ## Compounds -/

theorem testAt_endsCompound (text : List Char) (isFirst : Bool) {tail : List Char} (ends : EndsCompound tail) :
    testAt nested text isFirst tail = .ok none := by
  cases tail with
  | nil => rfl
  | cons c rest =>
      have first := ends c rfl
      simp only [Text.isCssSpace, Text.isXmlSpace, isCombinator, Bool.or_eq_true, beq_iff_eq] at first
      rcases first with ((((rfl | rfl) | rfl) | rfl) | rfl) | (rfl | rfl) | rfl
      all_goals rfl

/-- Tests are read behind those that are done, up to the end of their compound. -/
theorem compound_testsText (reads : ReadsBack nested size) (done : List SimpleSelector)
    {tests : List SimpleSelector} {bound : Nat} (form : testsHaveForm done.isEmpty tests)
    (writable : testsAreWritable tests = true) (enough : tests.length ≤ bound)
    (short : (testsText tests).length ≤ size) (text : List Char) {tail : List Char} (ends : EndsCompound tail) :
    compound nested text bound done (testsText tests ++ tail) = .ok (done.reverse ++ tests, tail) := by
  induction tests generalizing done bound with
  | nil =>
      rw [List.append_nil]
      cases bound with
      | zero => rfl
      | succ bound =>
          change compound nested text (bound + 1) done tail = _
          rw [compound_succ, testAt_endsCompound text _ ends]
          rfl
  | cons t rest inductionHypothesis =>
      rcases form with ⟨placed, here, later⟩
      rw [testsAreWritable, Bool.and_eq_true] at writable
      rw [testsText_cons, List.length_append] at short
      rw [testsText_cons, List.append_assoc]
      cases bound with
      | zero => exact absurd enough (Nat.not_succ_le_zero _)
      | succ bound =>
          rw [compound_succ, testAt_write reads placed here writable.1 (by omega) text (follows_testsText later ends)]
          change compound nested text bound (t :: done) (testsText rest ++ tail) = _
          rw [inductionHypothesis (t :: done) later writable.2 (Nat.le_of_succ_le_succ enough)
            ((Nat.le_add_left _ _).trans short), List.reverse_cons, List.append_assoc]
          rfl

/-- The relation to a compound is found before its text. -/
theorem further?_relationText (combinator : Combinator) {c : Char} {body rest : List Char} (front : body = c :: rest)
    (begins : BeginsTest c) : further? (relationText (some combinator) ++ body) = some (combinator, body) := by
  have solid := skipSpaces_eq_self front begins.solid
  have sign (d : Char) (signed : isCombinator d = true ∧ Text.isCssSpace d = false) :
      further? (d :: body) = some (combinatorOf d, body) := by
    rw [further?, skipSpaces_eq_self rfl signed.2]
    dsimp only
    rw [if_pos signed.1, solid]
  cases combinator with
  | descendant =>
      have blank : skipSpaces (relationText (some .descendant) ++ body) = body := solid
      rw [further?, blank, front]
      dsimp only
      rw [if_neg (Bool.eq_false_iff.mp begins.uncombined)]
  | child => exact sign '>' (by decide)
  | adjacent => exact sign '+' (by decide)
  | sibling => exact sign '~' (by decide)

/-- The tests of a compound are read, and then the compounds behind them. -/
theorem compounds_testsText (reads : ReadsBack nested size) {tests : List SimpleSelector} (nonempty : tests ≠ [])
    (form : testsHaveForm true tests) (writable : testsAreWritable tests = true)
    (short : (testsText tests).length ≤ size) (text : List Char) (bound : Nat) (combinator : Option Combinator)
    {tail : List Char} (ends : EndsCompound tail) :
    compounds nested text (bound + 1) combinator (testsText tests ++ tail) =
      (further? tail).elim (.ok [⟨combinator, tests⟩]) fun next =>
        (compounds nested text bound (some next.1) next.2).map (⟨combinator, tests⟩ :: ·) := by
  have enough : tests.length ≤ (testsText tests ++ tail).length := by
    rw [List.length_append]
    exact (length_le_testsText form).trans (Nat.le_add_right _ _)
  have listed : ¬ tests.isEmpty = true := fun empty => nonempty (List.isEmpty_iff.mp empty)
  have read := compound_testsText reads [] form writable enough short text ends
  rw [compounds_succ, read]
  change (if tests.isEmpty then _ else _) = _
  rw [if_neg listed]
  rfl

/-- Compounds are read behind the relation of the first one. -/
theorem compounds_compoundsText (reads : ReadsBack nested size) {combinator : Option Combinator}
    {tests : List SimpleSelector} {others : List Compound} {bound : Nat}
    (form : compoundsHaveForm (⟨combinator, tests⟩ :: others))
    (writable : compoundsAreWritable (⟨combinator, tests⟩ :: others) = true)
    (combined : ∀ c ∈ others, c.combinator.isSome) (enough : others.length ≤ bound)
    (short : (compoundsText (⟨combinator, tests⟩ :: others)).length ≤ size) (text : List Char) :
    compounds nested text (bound + 1) combinator (testsText tests ++ compoundsText others) =
      .ok (⟨combinator, tests⟩ :: others) := by
  induction others generalizing combinator tests bound with
  | nil =>
      rcases form with ⟨nonempty, testsForm, -⟩
      rw [compoundsAreWritable, Bool.and_eq_true] at writable
      have here := (length_testsText_le combinator tests _).trans short
      exact compounds_testsText reads nonempty testsForm writable.1 here text bound combinator
        (endsCompound_compoundsText combined)
  | cons second more inductionHypothesis =>
      rcases form with ⟨nonempty, testsForm, laterForm⟩
      rw [compoundsAreWritable, Bool.and_eq_true] at writable
      have here := (length_testsText_le combinator tests _).trans short
      rw [compounds_testsText reads nonempty testsForm writable.1 here text bound combinator
        (endsCompound_compoundsText combined)]
      rcases second with ⟨relation, secondTests⟩
      cases relation with
      | none => cases combined _ List.mem_cons_self
      | some next =>
          cases bound with
          | zero => exact absurd enough (Nat.not_succ_le_zero _)
          | succ bound =>
              have further : compounds nested text (bound + 1) (some next)
                  (testsText secondTests ++ compoundsText more) = .ok (⟨some next, secondTests⟩ :: more) :=
                inductionHypothesis laterForm writable.2
                  (fun c listed => combined c (List.mem_cons_of_mem _ listed)) (Nat.le_of_succ_le_succ enough)
                  ((length_compoundsText_le _ _).trans short)
              rcases exists_front_compounds laterForm with ⟨c, rest, front, begins⟩
              rw [compoundsText_cons, List.append_assoc, further?_relationText next front begins]
              change Except.map _ (compounds nested text (bound + 1) (some next) _) = _
              rw [further]
              rfl

/-! ## Selectors and lists of them -/

/-- The relation of the first compound is found before its text. -/
theorem leading_relationText {relative : Bool} {lead : Option Combinator} (may : MayLead relative lead) {c : Char}
    {body rest : List Char} (front : body = c :: rest) (begins : BeginsTest c) :
    leading relative (skipSpaces (relationText lead ++ body)) = (lead, body) := by
  have solid := skipSpaces_eq_self front begins.solid
  cases lead with
  | none =>
      have plain : ¬ (relative && isCombinator c) = true := by
        rw [begins.uncombined, Bool.and_false]
        exact Bool.false_ne_true
      change leading relative (skipSpaces body) = _
      rw [solid, front, leading, if_neg plain]
  | some combinator =>
      rcases may combinator rfl with ⟨relatively, bound⟩
      have sign (d : Char) (signed : isCombinator d = true ∧ Text.isCssSpace d = false) :
          leading relative (skipSpaces (d :: body)) = (some (combinatorOf d), body) := by
        rw [skipSpaces_eq_self rfl signed.2, leading, relatively, signed.1, solid]
        rfl
      cases combinator with
      | descendant => exact absurd rfl bound
      | child => exact sign '>' (by decide)
      | adjacent => exact sign '+' (by decide)
      | sibling => exact sign '~' (by decide)

/-- A selector is read from what is written of it. -/
theorem selector_write (reads : ReadsBack nested size) {relative : Bool} {s : Selector} (form : s.HasForm relative)
    (writable : s.isWritable = true) (short : s.write.toList.length ≤ size) :
    selector nested relative s.write.toList = .ok s := by
  have unspoiled : ¬ s.write.toList.contains '&' = true := fun listed =>
    s.plain_write form writable (List.contains_iff_mem.mp listed)
  rcases s with ⟨compounds, isSimple⟩
  rcases form with ⟨simple, ⟨lead, mayLead, first, others, whole, leads, combined⟩, compoundsForm⟩
  rcases first with ⟨combinator, tests⟩
  rw [selector_eq, if_neg unspoiled]
  rw [toList_write] at short ⊢
  dsimp only at whole leads short ⊢
  rw [whole] at compoundsForm short ⊢
  rw [Selector.isWritable, whole] at writable
  rcases exists_front_compounds compoundsForm with ⟨c, rest, front, begins⟩
  have enough : others.length ≤ (testsText tests ++ compoundsText others).length := by
    rw [List.length_append]
    exact (length_le_compoundsText combined).trans (Nat.le_add_left _ _)
  rw [← leads] at mayLead
  rw [compoundsText_cons, List.append_assoc, leading_relationText mayLead front begins]
  dsimp only
  rw [compounds_compoundsText reads compoundsForm writable combined enough short, ← whole]
  rw [Except.map, Selector.ofCompounds, simple]

/-- A list of selectors is read part by part. -/
theorem selectors_listText {one : List Char → Except CssError Selector} {list : List Selector} {bound : Nat}
    (nonempty : list ≠ []) (separable : ∀ s ∈ list, Balanced ',' s.write.toList)
    (each : ∀ s ∈ list, one s.write.toList = .ok s) (enough : list.length ≤ bound) :
    selectors one bound (listText list) = .ok list := by
  induction list generalizing bound with
  | nil => exact absurd rfl nonempty
  | cons s rest inductionHypothesis =>
      have here := separable s List.mem_cons_self
      have read := each s List.mem_cons_self
      cases bound with
      | zero => exact absurd enough (Nat.not_succ_le_zero _)
      | succ bound =>
          cases rest with
          | nil =>
              rw [listText_singleton, selectors, spanBefore?_eq_none here]
              dsimp only
              rw [read]
              rfl
          | cons other more =>
              have later := inductionHypothesis (List.cons_ne_nil other more)
                (fun t listed => separable t (List.mem_cons_of_mem s listed))
                (fun t listed => each t (List.mem_cons_of_mem s listed)) (Nat.le_of_succ_le_succ enough)
              rw [listText_cons_cons, selectors, spanBefore?_append here rfl]
              dsimp only
              rw [read, later]
              rfl

/-- With enough levels of nesting, lists of selectors come back from what is written of them. -/
theorem readsBack_listWithin (depth : Nat) : ReadsBack (listWithin depth) depth := by
  induction depth with
  | zero =>
      intro relative list _ _ _ impossible
      exact absurd impossible (Nat.not_lt_zero _)
  | succ depth inductionHypothesis =>
      intro relative list nonempty form writable shorter
      have short := Nat.le_of_lt_succ shorter
      have parts := selectorsAreWritable_iff.mp writable
      refine selectors_listText nonempty (fun s listed => (isSeparable_iff.mp (parts s listed).1).1) ?_
        (length_le_listText list)
      intro s listed
      exact selector_write inductionHypothesis (selectorsHaveForm_iff.mp form s listed) (parts s listed).2
        ((length_write_le_listText listed).trans short)

end SelectorText

namespace Selector

/-- A selector that was read and can be written is read again from its text. -/
theorem read_write {text : String} {s : Selector} (found : read text = .ok s) (writable : s.isWritable = true) :
    read s.write = .ok s :=
  SelectorText.selector_write (SelectorText.readsBack_listWithin _) (form_of_read found) writable le_rfl

/-- A selector with a combinator, a backslash, selectors inside of a pseudo-class and a quoted value. -/
theorem nested_selector_is_read_back :
    let s : Selector := .ofCompounds [⟨none, [.typeName "g"]⟩,
      ⟨some .child, [.className "a:b", .pseudoClass "not" (.selectors [.ofCompounds [⟨none, [.idName "x"]⟩],
        .ofCompounds [⟨none, [.attributeTest ⟨"id", .startsWith, "y z", true⟩]⟩]])]⟩]
    read "g > .a\\:b:not(#x, [id^='y z' i])" = .ok s ∧ s.isWritable = true ∧
      s.write = "g>.a\\:b:not(#x,[id^=\"y z\" i])" ∧ read s.write = .ok s := by
  intro s
  have found : read "g > .a\\:b:not(#x, [id^='y z' i])" = .ok s := rfl
  have writable : s.isWritable = true := by decide +kernel
  exact ⟨found, writable, by decide +kernel, read_write found writable⟩

/-- A digit in front is written as its number, and the number is read as a name. -/
theorem leading_digit_is_lost :
    read ".\\1" = .ok (.ofCompounds [⟨none, [.className "1"]⟩]) ∧
      read (ofCompounds [⟨none, [.className "1"]⟩]).write ≠ .ok (.ofCompounds [⟨none, [.className "1"]⟩]) := by
  have number : read (ofCompounds [⟨none, [.className "1"]⟩]).write =
    .ok (.ofCompounds [⟨none, [.className "31"]⟩]) := rfl
  refine ⟨rfl, ?_⟩
  rw [number]
  intro same
  have classes := congrArg requiredClasses (Except.ok.inj same)
  exact absurd classes (by decide)

end Selector
end Css
end SlimSvg
