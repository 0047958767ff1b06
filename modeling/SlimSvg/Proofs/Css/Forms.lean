import SlimSvg.Proofs.Css.Matching
import SlimSvg.Proofs.Css.Pieces

namespace SlimSvg
namespace Css

/-!
# The form of selectors that were read

The types of selectors hold more than what a text can say.  Reading gives every name
at least one character, puts a type first in its compound and a combinator between any
two compounds, and keeps selectors as arguments only where they are asked for.  No part
of a selector has an ampersand, since one anywhere in the text is refused.  The same is
true of the selectors inside of a pseudo-class, however deep they stand.
-/

/-- Whether a text is the name of a type, a class, an id or an attribute. -/
structure NameForm (name : String) : Prop where
  nonempty : name.toList ≠ []
  plain : '&' ∉ name.toList

/-- Whether a text is the name of a pseudo-class; these keep their backslashes. -/
structure PseudoNameForm (name : String) : Prop where
  nonempty : name.toList ≠ []
  written : spanName name.toList = (name.toList, [])
  plain : '&' ∉ name.toList

/-- Whether a text stood between parentheses. -/
structure ArgumentForm (text : String) : Prop where
  trimmed : Text.trimChars text.toList = text.toList
  balanced : Balanced ')' text.toList
  plain : '&' ∉ text.toList

structure AttributeTest.HasForm (t : AttributeTest) : Prop where
  name : NameForm t.name
  plain : '&' ∉ t.value.toList
  bare : t.operator = .present → t.value = "" ∧ t.ignoresCase = false

/-- Whether a test names a type. -/
def SimpleSelector.isType : SimpleSelector → Bool
  | .typeName _ => true
  | _ => false

/-- Whether arguments are selectors if those are asked for, and only then. -/
def PseudoArguments.Suit (wanted : Bool) : PseudoArguments → Prop
  | .none => True
  | .selectors _ => wanted = true
  | .raw _ => wanted = false

/-- Whether a combinator may stand before the first compound. -/
def MayLead (relative : Bool) (combinator : Option Combinator) : Prop :=
  ∀ c ∈ combinator, relative = true ∧ c ≠ .descendant

mutual

/-- Whether a test is one that reading makes. -/
def SimpleSelector.HasForm : SimpleSelector → Prop
  | .universal => True
  | .typeName name | .className name | .idName name => NameForm name
  | .attributeTest t => t.HasForm
  | .pseudoClass name args =>
    PseudoNameForm name ∧ isLegacyPseudoElement name = false ∧ args.Suit (takesSelectors name) ∧
      args.HasForm (name == "has")
  | .pseudoElement name args => PseudoNameForm name ∧ args.Suit false ∧ args.HasForm false

def PseudoArguments.HasForm (relative : Bool) : PseudoArguments → Prop
  | .none => True
  | .selectors list => list ≠ [] ∧ selectorsHaveForm relative list
  | .raw text => ArgumentForm text

/-- Whether a selector is one that reading makes, among relative ones if asked to. -/
def Selector.HasForm (relative : Bool) : Selector → Prop
  | ⟨compounds, isSimple⟩ =>
    isSimple = areSimple compounds ∧ (∃ lead, MayLead relative lead ∧ Joined lead compounds) ∧
      compoundsHaveForm compounds

def selectorsHaveForm (relative : Bool) : List Selector → Prop
  | [] => True
  | s :: rest => s.HasForm relative ∧ selectorsHaveForm relative rest

def compoundsHaveForm : List Compound → Prop
  | [] => True
  | ⟨_, tests⟩ :: rest => tests ≠ [] ∧ testsHaveForm true tests ∧ compoundsHaveForm rest

/-- Whether tests are such as reading makes; a type may only be the first one. -/
def testsHaveForm (isFirst : Bool) : List SimpleSelector → Prop
  | [] => True
  | t :: rest => (isFirst = true ∨ t.isType = false) ∧ t.HasForm ∧ testsHaveForm false rest

end

theorem selectorsHaveForm_iff {relative : Bool} {list : List Selector} :
    selectorsHaveForm relative list ↔ ∀ s ∈ list, s.HasForm relative := by
  induction list with
  | nil => exact ⟨fun _ => List.forall_mem_nil _, fun _ => True.intro⟩
  | cons s rest inductionHypothesis =>
      rw [selectorsHaveForm, inductionHypothesis]
      exact List.forall_mem_cons.symm

namespace SelectorText

/-! ## Names and attributes -/

theorem nameForm_unescape {cs : List Char} (nonempty : (spanName cs).1 ≠ []) (plain : '&' ∉ cs) :
    NameForm (String.ofList (unescape (spanName cs).1)) := by
  refine ⟨?_, ?_⟩
  · rw [String.toList_ofList]
    exact unescape_ne_nil nonempty
  · rw [String.toList_ofList]
    intro listed
    have whole := append_of_spanName cs
    exact plain (whole ▸ List.mem_append_left _ (mem_of_mem_unescape listed))

theorem suffix_of_spanName (cs : List Char) : (spanName cs).2 <:+ cs :=
  ⟨(spanName cs).1, append_of_spanName cs⟩

theorem form_of_requireName {text cs rest : List Char} {name : String}
    (read : requireName text cs = .ok (name, rest)) (plain : '&' ∉ cs) : NameForm name ∧ rest <:+ cs := by
  rw [requireName] at read
  dsimp only at read
  split at read
  · cases read
  · next found =>
    rcases Prod.mk.inj (Except.ok.inj read) with ⟨nameEq, restEq⟩
    rw [← nameEq, ← restEq]
    exact ⟨nameForm_unescape (fun empty => found (List.isEmpty_iff.mpr empty)) plain, suffix_of_spanName cs⟩

theorem operator?_spec {cs rest : List Char} {operator : AttributeOperator}
    (read : operator? cs = some (operator, rest)) : operator ≠ .present ∧ rest <:+ cs := by
  unfold operator? at read
  split at read
  case h_7 => cases read
  case h_1 =>
    rcases Prod.mk.inj (Option.some.inj read) with ⟨operatorEq, restEq⟩
    rw [← operatorEq, ← restEq]
    exact ⟨by decide, List.suffix_cons _ _⟩
  all_goals
    rcases Prod.mk.inj (Option.some.inj read) with ⟨operatorEq, restEq⟩
    rw [← operatorEq, ← restEq]
    exact ⟨by decide, (List.suffix_cons _ _).trans (List.suffix_cons _ _)⟩

theorem mem_of_testValue? {cs value rest : List Char} (read : testValue? cs = some (value, rest)) {c : Char}
    (listed : c ∈ value) : c ∈ cs := by
  cases cs with
  | nil => cases read
  | cons d later =>
      rw [testValue?] at read
      split at read
      · rw [append_of_spanQuoted? read]
        exact List.mem_cons_of_mem _ (List.mem_append_left _ listed)
      · dsimp only at read
        rw [← (Prod.mk.inj (Option.some.inj read)).1] at listed
        have whole := append_of_spanName (d :: later)
        exact whole ▸ List.mem_append_left _ (mem_of_mem_unescape listed)

theorem form_of_attributeTest? {cs : List Char} {t : AttributeTest} (read : attributeTest? cs = some t)
    (plain : '&' ∉ cs) : t.HasForm := by
  have spaced : ∀ ds : List Char, skipSpaces ds <:+ ds := fun ds => List.dropWhile_suffix _
  rw [attributeTest?] at read
  dsimp only at read
  split at read
  · cases read
  · next found =>
    have begins : '&' ∉ skipSpaces cs := fun listed => plain ((spaced cs).mem listed)
    have named := nameForm_unescape (fun empty => found (List.isEmpty_iff.mpr empty)) begins
    split at read
    · rw [← Option.some.inj read]
      exact ⟨named, List.not_mem_nil, fun _ => ⟨rfl, rfl⟩⟩
    · rcases Option.bind_eq_some_iff.mp read with ⟨⟨operator, afterOperator⟩, operatorRead, read⟩
      dsimp only at read
      rcases Option.bind_eq_some_iff.mp read with ⟨⟨value, afterValue⟩, valueRead, read⟩
      dsimp only at read
      rcases Option.bind_eq_some_iff.mp read with ⟨ignoresCase, -, same⟩
      rw [← Option.some.inj same]
      rcases operator?_spec operatorRead with ⟨compares, behind⟩
      refine ⟨named, ?_, fun impossible => absurd impossible compares⟩
      intro listed
      rw [String.toList_ofList] at listed
      have inside := (spaced _).mem (mem_of_testValue? valueRead listed)
      exact begins ((suffix_of_spanName _).mem ((spaced _).mem (behind.mem inside)))

variable {nested : Bool → List Char → Except CssError (List Selector)} {size : Nat}

/-! ## Pseudo-classes -/

/-- Whether a reader of shorter texts finds selectors of the form that reading makes. -/
def ReadsForm (nested : Bool → List Char → Except CssError (List Selector)) (size : Nat) : Prop :=
  ∀ relative cs list, cs.length < size → nested relative cs = .ok list →
    list ≠ [] ∧ selectorsHaveForm relative list

theorem form_of_arguments (reads : ReadsForm nested size) {asSelectors relative : Bool} {cs rest : List Char}
    {args : PseudoArguments} (read : arguments nested asSelectors relative cs = .ok (args, rest))
    (short : cs.length ≤ size) (plain : '&' ∉ cs) :
    args.Suit asSelectors ∧ args.HasForm relative ∧ rest <:+ cs := by
  unfold arguments at read
  split at read
  · next later =>
    rcases bind_eq_ok.mp read with ⟨⟨inner, after⟩, cutRead, read⟩
    rcases map_eq_ok.mp read with ⟨found, foundRead, same⟩
    rcases Prod.mk.inj same with ⟨argsEq, restEq⟩
    rcases balanced_of_spanBefore? (orEnd_eq_ok.mp cutRead) with ⟨whole, balanced⟩
    have inside : '&' ∉ inner := fun listed =>
      plain (List.mem_cons_of_mem _ (whole ▸ List.mem_append_left _ listed))
    have behind : after <:+ '(' :: later :=
      whole ▸ ((List.suffix_cons _ _).trans (List.suffix_append _ _)).trans (List.suffix_cons _ _)
    rw [← argsEq, ← restEq]
    rw [argumentsOf] at foundRead
    dsimp only at foundRead ⊢
    split at foundRead
    · next wanted =>
      rcases map_eq_ok.mp foundRead with ⟨list, listRead, listEq⟩
      have shorter : inner.length < size := by
        rw [whole, List.length_cons, List.length_append] at short
        omega
      rw [← listEq]
      exact ⟨wanted, reads relative inner list shorter listRead, behind⟩
    · next unwanted =>
      rw [← Except.ok.inj foundRead]
      refine ⟨Bool.eq_false_iff.mpr unwanted, ⟨?_, ?_, ?_⟩, behind⟩
      · rw [String.toList_ofList, Text.trimChars_trimChars]
      · rw [String.toList_ofList]
        exact balanced.trimChars rfl
      · rw [String.toList_ofList]
        rcases Text.exists_append_trimChars inner with ⟨front, back, parts, -⟩
        intro listed
        refine inside (parts ▸ ?_)
        exact List.mem_append_left _ (List.mem_append_right _ listed)
  · rcases Prod.mk.inj (Except.ok.inj read) with ⟨argsEq, restEq⟩
    rw [← argsEq, ← restEq]
    exact ⟨True.intro, True.intro, List.suffix_rfl⟩

theorem pseudoNameForm_of_spanName {cs : List Char} (nonempty : (spanName cs).1 ≠ []) (plain : '&' ∉ cs) :
    PseudoNameForm (String.ofList (spanName cs).1) := by
  have again := spanName_append cs endsName_nil
  rw [List.append_nil] at again
  refine ⟨?_, ?_, ?_⟩
  · rw [String.toList_ofList]
    exact nonempty
  · rw [String.toList_ofList]
    exact again
  · rw [String.toList_ofList]
    intro listed
    exact plain (append_of_spanName cs ▸ List.mem_append_left _ listed)

theorem not_takesSelectors_of_legacy {name : String} (legacy : isLegacyPseudoElement name = true) :
    takesSelectors name = false := by
  simp only [isLegacyPseudoElement, Bool.or_eq_true, beq_iff_eq] at legacy
  rcases legacy with ((rfl | rfl) | rfl) | rfl
  · rfl
  · rfl
  · rfl
  · rfl

/-- Arguments that are no selectors have one form for all pseudo-classes. -/
theorem hasForm_of_unwanted {args : PseudoArguments} (suit : args.Suit false) {relative other : Bool}
    (form : args.HasForm relative) : args.HasForm other := by
  cases args with
  | none => exact True.intro
  | selectors list => cases suit
  | raw text => exact form

theorem suffix_afterColon (cs : List Char) : (afterColon cs).2 <:+ cs := by
  unfold afterColon
  split
  · exact List.suffix_cons _ _
  · exact List.suffix_rfl

theorem form_of_pseudo (reads : ReadsForm nested size) {text cs rest : List Char} {test : SimpleSelector}
    (read : pseudo nested text cs = .ok (test, rest)) (short : cs.length ≤ size) (plain : '&' ∉ cs) :
    test.HasForm ∧ test.isType = false ∧ rest <:+ cs := by
  rw [pseudo_eq] at read
  have colons := suffix_afterColon cs
  generalize (afterColon cs).1 = doubled at read
  generalize (afterColon cs).2 = behind at read colons
  rw [pseudoBehind] at read
  split at read
  · cases read
  · next named =>
    have unspoiled : '&' ∉ behind := fun listed => plain (colons.mem listed)
    have form := pseudoNameForm_of_spanName (fun empty => named (List.isEmpty_iff.mpr empty)) unspoiled
    have after := suffix_of_spanName behind
    rcases map_eq_ok.mp read with ⟨⟨args, found⟩, argsRead, same⟩
    rcases Prod.mk.inj same with ⟨testEq, restEq⟩
    rcases form_of_arguments reads argsRead ((after.trans colons).length_le.trans short)
      (fun listed => unspoiled (after.mem listed)) with ⟨suit, argsForm, further⟩
    rw [← testEq, ← restEq]
    dsimp only at suit argsForm ⊢
    have behindAll := (further.trans after).trans colons
    generalize String.ofList (spanName behind).1 = name at suit argsForm form ⊢
    rw [pseudoTest]
    split
    · next element =>
      have unwanted : (!doubled && takesSelectors name) = false := by
        rcases Bool.or_eq_true_iff.mp element with twice | legacy
        · rw [twice]
          rfl
        · rw [not_takesSelectors_of_legacy legacy, Bool.and_false]
      rw [unwanted] at suit
      exact ⟨⟨form, suit, hasForm_of_unwanted suit argsForm⟩, rfl, behindAll⟩
    · next plainly =>
      rw [Bool.or_eq_true, not_or, Bool.not_eq_true, Bool.not_eq_true] at plainly
      rw [plainly.1, Bool.not_false, Bool.true_and] at suit
      exact ⟨⟨form, plainly.2, suit, argsForm⟩, rfl, behindAll⟩

/-! ## Compounds -/

theorem form_of_testAt (reads : ReadsForm nested size) {text cs rest : List Char} {isFirst : Bool}
    {test : SimpleSelector} (read : testAt nested text isFirst cs = .ok (some (test, rest)))
    (short : cs.length ≤ size) (plain : '&' ∉ cs) :
    test.HasForm ∧ (isFirst = true ∨ test.isType = false) ∧ rest <:+ cs := by
  unfold testAt at read
  split at read
  · cases Except.ok.inj read
  · next later =>
    rcases Prod.mk.inj (Option.some.inj (Except.ok.inj read)) with ⟨testEq, restEq⟩
    rw [← testEq, ← restEq]
    exact ⟨True.intro, .inr rfl, List.suffix_cons _ _⟩
  · next later =>
    rcases map_eq_ok.mp read with ⟨⟨name, after⟩, nameRead, same⟩
    rcases Prod.mk.inj (Option.some.inj same) with ⟨testEq, restEq⟩
    rcases form_of_requireName nameRead fun listed => plain (List.mem_cons_of_mem _ listed) with ⟨form, behind⟩
    rw [← testEq, ← restEq]
    exact ⟨form, .inr rfl, behind.trans (List.suffix_cons _ _)⟩
  · next later =>
    rcases map_eq_ok.mp read with ⟨⟨name, after⟩, nameRead, same⟩
    rcases Prod.mk.inj (Option.some.inj same) with ⟨testEq, restEq⟩
    rcases form_of_requireName nameRead fun listed => plain (List.mem_cons_of_mem _ listed) with ⟨form, behind⟩
    rw [← testEq, ← restEq]
    exact ⟨form, .inr rfl, behind.trans (List.suffix_cons _ _)⟩
  · next later =>
    rcases bind_eq_ok.mp read with ⟨⟨inner, after⟩, cutRead, read⟩
    rcases balanced_of_spanBefore? (orEnd_eq_ok.mp cutRead) with ⟨whole, -⟩
    dsimp only at read
    cases found : attributeTest? inner with
    | none =>
        rw [found] at read
        cases read
    | some t =>
        rw [found] at read
        rcases Prod.mk.inj (Option.some.inj (Except.ok.inj read)) with ⟨testEq, restEq⟩
        have inside : '&' ∉ inner := fun listed =>
          plain (List.mem_cons_of_mem _ (whole ▸ List.mem_append_left _ listed))
        rw [← testEq, ← restEq, whole]
        exact ⟨form_of_attributeTest? found inside, .inr rfl,
          ((List.suffix_cons _ _).trans (List.suffix_append _ _)).trans (List.suffix_cons _ _)⟩
  · next later =>
    rcases map_eq_ok.mp read with ⟨⟨found, after⟩, pseudoRead, same⟩
    rcases Prod.mk.inj (Option.some.inj same) with ⟨testEq, restEq⟩
    rcases form_of_pseudo reads pseudoRead ((Nat.le_succ _).trans short)
      (fun listed => plain (List.mem_cons_of_mem _ listed)) with ⟨form, untyped, behind⟩
    rw [← testEq, ← restEq]
    exact ⟨form, .inr untyped, behind.trans (List.suffix_cons _ _)⟩
  · next c later _ _ _ _ _ =>
    split at read
    · split at read
      · cases read
      · next named =>
        rw [Bool.or_eq_true, not_or, Bool.not_eq_true, Bool.not_eq_true] at named
        rcases Prod.mk.inj (Option.some.inj (Except.ok.inj read)) with ⟨testEq, restEq⟩
        rw [← testEq, ← restEq]
        refine ⟨nameForm_unescape (List.isEmpty_eq_false_iff.mp named.2) plain, .inl ?_, suffix_of_spanName _⟩
        rw [← Bool.not_not isFirst, named.1]
        rfl
    · split at read
      · cases Except.ok.inj read
      · cases read

/-- A compound is read behind the tests that are done; only the first test may be a type. -/
theorem form_of_compound (reads : ReadsForm nested size) {text : List Char} {bound : Nat}
    {done tests : List SimpleSelector} {cs rest : List Char}
    (read : compound nested text bound done cs = .ok (tests, rest)) (short : cs.length ≤ size) (plain : '&' ∉ cs) :
    ∃ more, tests = done.reverse ++ more ∧ testsHaveForm done.isEmpty more ∧ rest <:+ cs := by
  induction bound generalizing done cs with
  | zero =>
      rw [compound] at read
      rcases Prod.mk.inj (Except.ok.inj read) with ⟨testsEq, restEq⟩
      rw [← testsEq, ← restEq]
      exact ⟨[], (List.append_nil _).symm, True.intro, List.suffix_rfl⟩
  | succ bound inductionHypothesis =>
      rw [compound_succ] at read
      rcases bind_eq_ok.mp read with ⟨found, foundRead, read⟩
      cases found with
      | none =>
          rcases Prod.mk.inj (Except.ok.inj read) with ⟨testsEq, restEq⟩
          rw [← testsEq, ← restEq]
          exact ⟨[], (List.append_nil _).symm, True.intro, List.suffix_rfl⟩
      | some front =>
          rcases front with ⟨test, later⟩
          rcases form_of_testAt reads foundRead short plain with ⟨form, placed, behind⟩
          rcases inductionHypothesis read (behind.length_le.trans short) (fun listed => plain (behind.mem listed)) with
            ⟨more, testsEq, moreForm, further⟩
          refine ⟨test :: more, ?_, ⟨placed, form, moreForm⟩, further.trans behind⟩
          rw [testsEq, List.reverse_cons, List.append_assoc]
          rfl

/-- The form of compounds that were read; how they are joined is said elsewhere. -/
theorem form_of_compounds (reads : ReadsForm nested size) {text : List Char} {bound : Nat}
    {combinator : Option Combinator} {cs : List Char} {found : List Compound}
    (read : compounds nested text bound combinator cs = .ok found) (short : cs.length ≤ size) (plain : '&' ∉ cs) :
    compoundsHaveForm found := by
  induction bound generalizing combinator cs found with
  | zero => cases read
  | succ bound inductionHypothesis =>
      rw [compounds] at read
      rcases bind_eq_ok.mp read with ⟨⟨tests, rest⟩, testsRead, read⟩
      rcases form_of_compound reads testsRead short plain with ⟨more, testsEq, form, behind⟩
      have testsForm : testsHaveForm true tests := by
        rw [testsEq]
        exact form
      have spaced : skipSpaces rest <:+ cs := (List.dropWhile_suffix _).trans behind
      dsimp only at read
      split at read
      · cases read
      · next nonempty =>
        have listed : tests ≠ [] := fun empty => nonempty (List.isEmpty_iff.mpr empty)
        split at read
        · rw [← pure_eq_ok.mp read]
          exact ⟨listed, testsForm, True.intro⟩
        · next c after split =>
          rw [split] at spaced
          have afterSpaced : skipSpaces after <:+ cs :=
            ((List.dropWhile_suffix _).trans (List.suffix_cons _ _)).trans spaced
          split at read
          · rcases bind_eq_ok.mp read with ⟨others, othersRead, same⟩
            rw [← pure_eq_ok.mp same]
            exact ⟨listed, testsForm, inductionHypothesis othersRead (afterSpaced.length_le.trans short)
              fun among => plain (afterSpaced.mem among)⟩
          · rcases bind_eq_ok.mp read with ⟨others, othersRead, same⟩
            rw [← pure_eq_ok.mp same]
            exact ⟨listed, testsForm, inductionHypothesis othersRead (spaced.length_le.trans short)
              fun among => plain (spaced.mem among)⟩

/-! ## Selectors and lists of them -/

theorem combinatorOf_ne_descendant (c : Char) : combinatorOf c ≠ .descendant := by
  rw [combinatorOf]
  split
  · decide
  · split
    · decide
    · decide

theorem leading_spec (relative : Bool) (cs : List Char) :
    MayLead relative (leading relative cs).1 ∧ (leading relative cs).2 <:+ cs := by
  unfold leading
  split
  · next c rest =>
    split
    · next led =>
      refine ⟨?_, (List.dropWhile_suffix _).trans (List.suffix_cons _ _)⟩
      intro combinator among
      rw [← Option.some.inj among]
      exact ⟨(Bool.and_eq_true_iff.mp led).1, combinatorOf_ne_descendant c⟩
    · refine ⟨?_, List.suffix_rfl⟩
      intro combinator among
      cases among
  · refine ⟨?_, List.suffix_rfl⟩
    intro combinator among
    cases among

theorem form_of_selector (reads : ReadsForm nested size) {relative : Bool} {text : List Char} {s : Selector}
    (read : selector nested relative text = .ok s) (short : text.length ≤ size) : s.HasForm relative := by
  rw [selector_eq] at read
  split at read
  · cases read
  · next unspoiled =>
    dsimp only at read
    rcases leading_spec relative (skipSpaces text) with ⟨mayLead, behind⟩
    have inside : (leading relative (skipSpaces text)).2 <:+ text := behind.trans (List.dropWhile_suffix _)
    have plain : '&' ∉ (leading relative (skipSpaces text)).2 := fun listed =>
      unspoiled (List.contains_iff_mem.mpr (inside.mem listed))
    rcases map_eq_ok.mp read with ⟨found, foundRead, same⟩
    rw [← same]
    exact ⟨rfl, ⟨_, mayLead, joined_of_compounds foundRead⟩,
      form_of_compounds reads foundRead (inside.length_le.trans short) plain⟩

/-- A list is read part by part, and a reader that may take a step finds a part. -/
theorem forall_of_selectors {one : List Char → Except CssError Selector} {P : Selector → Prop} {bound : Nat}
    {cs : List Char} {list : List Selector} (read : selectors one bound cs = .ok list)
    (each : ∀ part s, part <:+: cs → one part = .ok s → P s) :
    (bound ≠ 0 → list ≠ []) ∧ ∀ s ∈ list, P s := by
  induction bound generalizing cs list with
  | zero =>
      rw [← Except.ok.inj read]
      exact ⟨fun impossible => absurd rfl impossible, List.forall_mem_nil _⟩
  | succ bound inductionHypothesis =>
      rw [selectors] at read
      cases cut : spanBefore? ',' cs with
      | none =>
          rw [cut] at read
          rcases bind_eq_ok.mp read with ⟨s, sRead, same⟩
          rw [← pure_eq_ok.mp same]
          exact ⟨fun _ => List.cons_ne_nil _ _, List.forall_mem_singleton.mpr (each cs s List.infix_rfl sRead)⟩
      | some parts =>
          rcases parts with ⟨part, rest⟩
          rw [cut] at read
          rcases bind_eq_ok.mp read with ⟨first, firstRead, read⟩
          rcases bind_eq_ok.mp read with ⟨others, othersRead, same⟩
          rcases balanced_of_spanBefore? cut with ⟨whole, -⟩
          have inFront : part <:+: cs := whole ▸ (List.prefix_append _ _).isInfix
          have behind : rest <:+: cs := whole ▸ ((List.suffix_cons _ _).trans (List.suffix_append _ _)).isInfix
          have further := inductionHypothesis othersRead fun other s inside =>
            each other s (inside.trans behind)
          rw [← pure_eq_ok.mp same]
          refine ⟨fun _ => List.cons_ne_nil _ _, ?_⟩
          intro s listed
          rcases List.mem_cons.mp listed with here | later
          · exact here ▸ each part first inFront firstRead
          · exact further.2 s later

theorem readsForm_listWithin (depth : Nat) : ReadsForm (listWithin depth) depth := by
  induction depth with
  | zero =>
      intro relative cs list impossible
      exact absurd impossible (Nat.not_lt_zero _)
  | succ depth inductionHypothesis =>
      intro relative cs list short read
      rw [listWithin] at read
      rcases forall_of_selectors (P := Selector.HasForm relative) read (fun part s inside partRead =>
        form_of_selector inductionHypothesis partRead (inside.length_le.trans (Nat.le_of_lt_succ short))) with
        ⟨nonempty, every⟩
      exact ⟨nonempty (Nat.succ_ne_zero _), selectorsHaveForm_iff.mpr every⟩

end SelectorText

namespace Selector

theorem form_of_read {text : String} {s : Selector} (found : read text = .ok s) : s.HasForm false :=
  SelectorText.form_of_selector (SelectorText.readsForm_listWithin _) found le_rfl

theorem form_of_readList {cs : List Char} {list : List Selector} (found : readList cs = .ok list) :
    ∀ s ∈ list, s.HasForm false :=
  selectorsHaveForm_iff.mp (SelectorText.readsForm_listWithin _ false cs list (Nat.lt_succ_self _) found).2

end Selector
end Css
end SlimSvg
