import SlimSvg.Proofs.Css.WrittenNames

namespace SlimSvg
namespace Css

/-!
# The text of selectors

What is written of a selector is the text of its tests and of the relations between them.
Every test begins with a sign or with the name of a type, so the end of a test, of a
compound and of a selector can be seen from the character behind it.  No ampersand gets
into the text that was not in the one that was read.
-/

/-! ## Selectors that can be written -/

/-- Whether the name and the value of a test come back, and the test ends at its bracket. -/
def AttributeTest.isWritable (t : AttributeTest) : Bool :=
  SelectorText.isPlainName t.name &&
    (t.operator == .present || SelectorText.isWritableValue t.value) &&
    decide (Balanced ']' (SelectorText.insideTest t))

/-- Whether a text in a list ends at a comma or at the end of the list. -/
def isSeparable (cs : List Char) : Bool :=
  decide (Balanced ',' cs) && decide (Balanced ')' cs)

mutual

/-- Whether a test is found again in its text. -/
def SimpleSelector.isWritable : SimpleSelector → Bool
  | .universal => true
  | .typeName name | .className name | .idName name => SelectorText.isPlainName name
  | .attributeTest t => t.isWritable
  | .pseudoClass _ args | .pseudoElement _ args => args.isWritable

def PseudoArguments.isWritable : PseudoArguments → Bool
  | .selectors list => selectorsAreWritable list
  | .none | .raw _ => true

/-- Whether all parts of a selector are found again in its text. -/
def Selector.isWritable : Selector → Bool
  | ⟨compounds, _⟩ => compoundsAreWritable compounds

def selectorsAreWritable : List Selector → Bool
  | [] => true
  | s :: rest => isSeparable s.write.toList && s.isWritable && selectorsAreWritable rest

def compoundsAreWritable : List Compound → Bool
  | [] => true
  | ⟨_, tests⟩ :: rest => testsAreWritable tests && compoundsAreWritable rest

def testsAreWritable : List SimpleSelector → Bool
  | [] => true
  | t :: rest => t.isWritable && testsAreWritable rest

end

namespace SelectorText

/-! ## The text of selectors -/

/-- The text of tests. -/
def testsText (tests : List SimpleSelector) : List Char :=
  tests.flatMap fun t => t.write.toList

/-- The text of the relation of a compound to the one before. -/
def relationText (combinator : Option Combinator) : List Char :=
  combinator.elim [] fun c => c.symbol.toList

/-- The text of compounds. -/
def compoundsText (compounds : List Compound) : List Char :=
  compounds.flatMap fun c => relationText c.combinator ++ testsText c.tests

/-- The text of selectors between commas. -/
def listText (list : List Selector) : List Char :=
  [','].intercalate (list.map fun s => s.write.toList)

theorem testsText_cons (t : SimpleSelector) (rest : List SimpleSelector) :
    testsText (t :: rest) = t.write.toList ++ testsText rest :=
  List.flatMap_cons

theorem compoundsText_cons (c : Compound) (rest : List Compound) :
    compoundsText (c :: rest) = relationText c.combinator ++ testsText c.tests ++ compoundsText rest :=
  List.flatMap_cons

theorem writeTests_eq_map (tests : List SimpleSelector) : writeTests tests = tests.map SimpleSelector.write := by
  induction tests with
  | nil => rfl
  | cons t rest inductionHypothesis => rw [writeTests, inductionHypothesis, List.map_cons]

theorem writeSelectors_eq_map (list : List Selector) : writeSelectors list = list.map Selector.write := by
  induction list with
  | nil => rfl
  | cons s rest inductionHypothesis => rw [writeSelectors, inductionHypothesis, List.map_cons]

theorem toList_join_writeTests (tests : List SimpleSelector) :
    (String.join (writeTests tests)).toList = testsText tests := by
  rw [writeTests_eq_map, String.toList_join, List.flatMap_map]
  rfl

theorem toList_join_writeCompounds (compounds : List Compound) :
    (String.join (writeCompounds compounds)).toList = compoundsText compounds := by
  induction compounds with
  | nil => rfl
  | cons c rest inductionHypothesis =>
      rcases c with ⟨combinator, tests⟩
      change (String.join ((_ ++ String.join (writeTests tests)) :: writeCompounds rest)).toList = _
      rw [String.join_cons, String.toList_append, inductionHypothesis, String.toList_append, toList_join_writeTests]
      cases combinator with
      | none => rfl
      | some c => rfl

theorem toList_write (s : Selector) : s.write.toList = compoundsText s.compounds := by
  rcases s with ⟨compounds, isSimple⟩
  exact toList_join_writeCompounds compounds

theorem toList_writeArguments (list : List Selector) :
    (PseudoArguments.selectors list).write.toList = '(' :: (listText list ++ [')']) := by
  rw [PseudoArguments.write, String.toList_append, String.toList_append, String.toList_intercalate,
    writeSelectors_eq_map, List.map_map]
  rfl

theorem listText_singleton (s : Selector) : listText [s] = s.write.toList :=
  List.intercalate_singleton

theorem listText_cons_cons (s other : Selector) (rest : List Selector) :
    listText (s :: other :: rest) = s.write.toList ++ ',' :: listText (other :: rest) := by
  rw [listText, List.map_cons, List.map_cons, List.intercalate_cons_cons, List.append_assoc]
  rfl

/-! ## Tests and their arguments -/

theorem toList_writeType (n : String) : (SimpleSelector.typeName n).write.toList = (name n).toList :=
  rfl

theorem toList_writeClass (n : String) : (SimpleSelector.className n).write.toList = '.' :: (name n).toList := by
  rw [SimpleSelector.write, String.toList_append]
  rfl

theorem toList_writeId (n : String) : (SimpleSelector.idName n).write.toList = '#' :: (name n).toList := by
  rw [SimpleSelector.write, String.toList_append]
  rfl

theorem toList_writePseudoClass (n : String) (args : PseudoArguments) :
    (SimpleSelector.pseudoClass n args).write.toList = ':' :: (n.toList ++ args.write.toList) := by
  rw [SimpleSelector.write, String.toList_append, String.toList_append]
  rfl

/-- The second colon before a pseudo-element. -/
def secondColon (n : String) : List Char :=
  if isLegacyPseudoElement n then [] else [':']

theorem toList_writePseudoElement (n : String) (args : PseudoArguments) :
    (SimpleSelector.pseudoElement n args).write.toList =
      ':' :: (secondColon n ++ (n.toList ++ args.write.toList)) := by
  rw [SimpleSelector.write, String.toList_append, String.toList_append, List.append_assoc, secondColon]
  split
  · rfl
  · rfl

theorem toList_writeRaw (text : String) :
    (PseudoArguments.raw text).write.toList = '(' :: (text.toList ++ [')']) := by
  rw [PseudoArguments.write, String.toList_append, String.toList_append]
  rfl

/-! ## What a test begins with -/

/-- The signs with which all tests but types begin. -/
def signs : List Char :=
  ['*', '.', '#', '[', ':']

theorem exists_sign_write {t : SimpleSelector} (untyped : t.isType = false) :
    ∃ c rest, t.write.toList = c :: rest ∧ c ∈ signs := by
  cases t with
  | universal => exact ⟨'*', [], rfl, by decide⟩
  | typeName n => cases untyped
  | className n => exact ⟨'.', _, toList_writeClass n, by decide⟩
  | idName n => exact ⟨'#', _, toList_writeId n, by decide⟩
  | attributeTest t => exact ⟨'[', _, toList_test t, by decide⟩
  | pseudoClass n args => exact ⟨':', _, toList_writePseudoClass n args, by decide⟩
  | pseudoElement n args => exact ⟨':', _, toList_writePseudoElement n args, by decide⟩

/-- Whether a character may begin a test: it is no blank, stands for no combinator and is no
sign at which a rule cannot begin. -/
structure BeginsTest (c : Char) : Prop where
  solid : Text.isCssSpace c = false
  uncombined : isCombinator c = false
  ruled : c ≠ '@' ∧ c ≠ '\x7d'

theorem BeginsName.beginsTest {c : Char} (begins : BeginsName c) : BeginsTest c := by
  refine ⟨begins.not_isCssSpace, ?_, ?_⟩
  · rw [Bool.eq_false_iff]
    intro combined
    simp only [isCombinator, Bool.or_eq_true, beq_iff_eq] at combined
    rcases begins with named | rfl
    · rcases combined with (rfl | rfl) | rfl
      all_goals exact absurd named (by decide)
    · exact absurd combined (by decide)
  · refine ⟨?_, ?_⟩
    all_goals
      rintro rfl
      exact absurd begins (by decide)

theorem beginsTest_of_mem_signs {c : Char} (sign : c ∈ signs) : BeginsTest c := by
  simp only [signs, List.mem_cons, List.not_mem_nil, or_false] at sign
  rcases sign with rfl | rfl | rfl | rfl | rfl
  all_goals exact ⟨rfl, rfl, by decide⟩

theorem not_beginsName_of_mem_signs {c : Char} (sign : c ∈ signs) : ¬ BeginsName c := by
  simp only [signs, List.mem_cons, List.not_mem_nil, or_false] at sign
  rcases sign with rfl | rfl | rfl | rfl | rfl
  all_goals exact fun begins => absurd begins (by decide)

theorem exists_front_write {t : SimpleSelector} (form : t.HasForm) :
    ∃ c rest, t.write.toList = c :: rest ∧ BeginsTest c := by
  cases untyped : t.isType with
  | false =>
      rcases exists_sign_write untyped with ⟨c, rest, front, sign⟩
      exact ⟨c, rest, front, beginsTest_of_mem_signs sign⟩
  | true =>
      cases t with
      | typeName n =>
          rcases exists_front_name (NameForm.nonempty form) with ⟨c, rest, front, begins⟩
          exact ⟨c, rest, front, begins.beginsTest⟩
      | _ => cases untyped

theorem exists_front_testsText {tests : List SimpleSelector} (nonempty : tests ≠ []) (form : testsHaveForm true tests)
    (tail : List Char) :
    ∃ c rest, testsText tests ++ tail = c :: rest ∧ BeginsTest c := by
  cases tests with
  | nil => exact absurd rfl nonempty
  | cons t others =>
      rcases exists_front_write form.2.1 with ⟨c, rest, front, begins⟩
      refine ⟨c, rest ++ (testsText others ++ tail), ?_, begins⟩
      rw [testsText_cons, List.append_assoc, front]
      rfl

theorem exists_front_compounds {combinator : Option Combinator} {tests : List SimpleSelector}
    {others : List Compound} (form : compoundsHaveForm (⟨combinator, tests⟩ :: others)) :
    ∃ c rest, testsText tests ++ compoundsText others = c :: rest ∧ BeginsTest c :=
  exists_front_testsText form.1 form.2.1 (compoundsText others)

/-- A selector that was read is written with a character in front that begins a test. -/
theorem exists_front_selector {s : Selector} (form : s.HasForm false) :
    ∃ c rest, s.write.toList = c :: rest ∧ BeginsTest c := by
  rcases s with ⟨compounds, isSimple⟩
  rcases form with ⟨-, ⟨lead, mayLead, ⟨combinator, tests⟩, others, whole, leads, -⟩, compoundsForm⟩
  have bare : combinator = none := by
    cases combinator with
    | none => rfl
    | some c => exact absurd (mayLead c leads.symm).1 (by decide)
  rw [whole, bare] at compoundsForm
  rw [toList_write, whole, bare]
  exact exists_front_compounds compoundsForm

/-! ## What stands behind a test -/

/-- Whether a text may stand behind a test: no name goes on, and no parenthesis opens. -/
structure Follows (cs : List Char) : Prop where
  ends : EndsName cs
  unopened : ∀ later, cs ≠ '(' :: later

/-- Whether a compound ends at the front of a text. -/
def EndsCompound (cs : List Char) : Prop :=
  ∀ c ∈ cs.head?, Text.isCssSpace c = true ∨ isCombinator c = true

theorem follows_cons {c : Char} {rest : List Char} (ends : isNameChar c = false ∧ c ≠ '\\') (unopened : c ≠ '(') :
    Follows (c :: rest) := by
  refine ⟨?_, ?_⟩
  · intro d first
    rw [← Option.some.inj first]
    exact ends
  · intro later same
    exact unopened (List.cons.inj same).1

theorem EndsCompound.follows {cs : List Char} (ends : EndsCompound cs) : Follows cs := by
  cases cs with
  | nil => exact ⟨endsName_nil, fun later => (List.cons_ne_nil _ _).symm⟩
  | cons c rest =>
      have first := ends c rfl
      simp only [Text.isCssSpace, Text.isXmlSpace, isCombinator, Bool.or_eq_true, beq_iff_eq] at first
      rcases first with ((((rfl | rfl) | rfl) | rfl) | rfl) | (rfl | rfl) | rfl
      all_goals exact follows_cons (by decide) (by decide)

theorem follows_testsText {tests : List SimpleSelector} (form : testsHaveForm false tests) {tail : List Char}
    (ends : EndsCompound tail) : Follows (testsText tests ++ tail) := by
  cases tests with
  | nil => exact ends.follows
  | cons t others =>
      rcases exists_sign_write (form.1.resolve_left Bool.false_ne_true) with ⟨c, rest, front, sign⟩
      rw [testsText_cons, front, List.cons_append, List.cons_append]
      simp only [signs, List.mem_cons, List.not_mem_nil, or_false] at sign
      rcases sign with rfl | rfl | rfl | rfl | rfl
      all_goals exact follows_cons (by decide) (by decide)

theorem endsCompound_compoundsText {compounds : List Compound} (combined : ∀ c ∈ compounds, c.combinator.isSome) :
    EndsCompound (compoundsText compounds) := by
  cases compounds with
  | nil =>
      intro c impossible
      cases impossible
  | cons c rest =>
      rcases c with ⟨combinator, tests⟩
      have some_combinator := combined _ List.mem_cons_self
      intro sign first
      rw [compoundsText_cons] at first
      cases combinator with
      | none => cases some_combinator
      | some c =>
          cases c with
          | descendant => exact .inl (Option.some.inj first ▸ rfl)
          | child => exact .inr (Option.some.inj first ▸ rfl)
          | adjacent => exact .inr (Option.some.inj first ▸ rfl)
          | sibling => exact .inr (Option.some.inj first ▸ rfl)

/-! ## Lengths -/

theorem length_le_testsText {isFirst : Bool} {tests : List SimpleSelector} (form : testsHaveForm isFirst tests) :
    tests.length ≤ (testsText tests).length := by
  induction tests generalizing isFirst with
  | nil => exact le_rfl
  | cons t rest inductionHypothesis =>
      rcases exists_front_write form.2.1 with ⟨c, later, front, -⟩
      have further := inductionHypothesis form.2.2
      rw [testsText_cons, front, List.length_append, List.length_cons, List.length_cons]
      omega

theorem length_le_compoundsText {compounds : List Compound} (combined : ∀ c ∈ compounds, c.combinator.isSome) :
    compounds.length ≤ (compoundsText compounds).length := by
  induction compounds with
  | nil => exact le_rfl
  | cons c rest inductionHypothesis =>
      have further := inductionHypothesis fun other listed => combined other (List.mem_cons_of_mem c listed)
      have sign : 0 < (relationText c.combinator).length := by
        have some_combinator := combined c List.mem_cons_self
        cases relation : c.combinator with
        | none =>
            rw [relation] at some_combinator
            cases some_combinator
        | some combinator => cases combinator <;> decide
      rw [compoundsText_cons, List.length_append, List.length_append, List.length_cons]
      omega

theorem length_testsText_le (combinator : Option Combinator) (tests : List SimpleSelector) (rest : List Compound) :
    (testsText tests).length ≤ (compoundsText (⟨combinator, tests⟩ :: rest)).length := by
  rw [compoundsText_cons, List.length_append, List.length_append]
  exact (Nat.le_add_left _ _).trans (Nat.le_add_right _ _)

theorem length_compoundsText_le (c : Compound) (rest : List Compound) :
    (compoundsText rest).length ≤ (compoundsText (c :: rest)).length := by
  rw [compoundsText_cons, List.length_append]
  exact Nat.le_add_left _ _

theorem length_le_listText (list : List Selector) : list.length ≤ (listText list).length.succ := by
  induction list with
  | nil => exact Nat.zero_le _
  | cons s rest inductionHypothesis =>
      cases rest with
      | nil => exact Nat.succ_le_succ (Nat.zero_le _)
      | cons other more =>
          rw [listText_cons_cons, List.length_append, List.length_cons, List.length_cons (a := ',')]
          omega

theorem length_write_le_listText {s : Selector} {list : List Selector} (listed : s ∈ list) :
    s.write.toList.length ≤ (listText list).length := by
  induction list with
  | nil => cases listed
  | cons first rest inductionHypothesis =>
      cases rest with
      | nil =>
          rw [List.mem_singleton.mp listed, listText_singleton]
      | cons other more =>
          rw [listText_cons_cons, List.length_append, List.length_cons]
          rcases List.mem_cons.mp listed with here | later
          · rw [here]
            omega
          · have further := inductionHypothesis later
            omega

/-! ## No ampersand -/

theorem mem_of_mem_escaped {c : Char} {cs : List Char} (listed : c ∈ cs.flatMap escaped) : c = '\\' ∨ c ∈ cs := by
  rcases List.mem_flatMap.mp listed with ⟨d, among, inside⟩
  rw [escaped] at inside
  split at inside
  · exact .inr (List.mem_singleton.mp inside ▸ among)
  · rcases List.mem_cons.mp inside with backslash | here
    · exact .inl backslash
    · exact .inr (List.mem_singleton.mp here ▸ among)

theorem plain_name {n : String} (form : NameForm n) (writable : isPlainName n = true) :
    '&' ∉ (name n).toList := by
  rw [toList_name writable]
  intro listed
  rcases mem_of_mem_escaped listed with impossible | among
  · exact absurd impossible (by decide)
  · exact form.plain among

theorem plain_value {v : String} (plain : '&' ∉ v.toList) : '&' ∉ (value v).toList := by
  rw [value]
  split
  · exact plain
  · rw [String.toList_append, String.toList_append, List.mem_append, List.mem_append]
    rintro ((impossible | listed) | impossible)
    · exact absurd impossible (by decide)
    · rw [String.toList_ofList] at listed
      rcases List.mem_flatMap.mp listed with ⟨c, among, inside⟩
      split at inside
      · exact absurd inside (by decide)
      · exact plain (List.mem_singleton.mp inside ▸ among)
    · exact absurd impossible (by decide)

theorem plain_insideTest {t : AttributeTest} (form : t.HasForm) (writable : isPlainName t.name = true) :
    '&' ∉ insideTest t := by
  rw [insideTest, List.mem_append]
  rintro (listed | listed)
  · exact plain_name form.name writable listed
  · by_cases present : t.operator = .present
    · rw [comparison, if_pos (beq_iff_eq.mpr present)] at listed
      cases listed
    · rw [toList_comparison present, List.mem_append, List.mem_append] at listed
      rcases listed with impossible | inside | impossible
      · revert impossible
        cases t.operator <;> decide
      · exact plain_value form.plain inside
      · revert impossible
        cases t.ignoresCase <;> decide

theorem plain_test {t : AttributeTest} (form : t.HasForm) (writable : isPlainName t.name = true) :
    '&' ∉ (test t).toList := by
  rw [toList_test, List.mem_cons, List.mem_append]
  rintro (impossible | listed | impossible)
  · exact absurd impossible (by decide)
  · exact plain_insideTest form writable listed
  · exact absurd impossible (by decide)

theorem plain_relationText (combinator : Option Combinator) : '&' ∉ relationText combinator := by
  cases combinator with
  | none => exact List.not_mem_nil
  | some c => cases c <;> decide

theorem plain_between {first last : Char} {cs : List Char} (other : '&' ≠ first ∧ '&' ≠ last) (plain : '&' ∉ cs) :
    '&' ∉ first :: (cs ++ [last]) := by
  rw [List.mem_cons, List.mem_append, List.mem_singleton]
  rintro (impossible | listed | impossible)
  · exact other.1 impossible
  · exact plain listed
  · exact other.2 impossible

end SelectorText

section

open SelectorText

mutual

/-- What is written of a test that was read holds no ampersand. -/
theorem SimpleSelector.plain_write :
    ∀ t : SimpleSelector, t.HasForm → t.isWritable = true → '&' ∉ t.write.toList
  | .universal, _, _ => by decide
  | .typeName n, form, writable => plain_name form writable
  | .className n, form, writable => by
    rw [toList_writeClass]
    exact List.not_mem_cons_of_ne_of_not_mem (by decide) (plain_name form writable)
  | .idName n, form, writable => by
    rw [toList_writeId]
    exact List.not_mem_cons_of_ne_of_not_mem (by decide) (plain_name form writable)
  | .attributeTest t, form, writable => by
    rw [SimpleSelector.isWritable, AttributeTest.isWritable, Bool.and_eq_true, Bool.and_eq_true] at writable
    exact plain_test form writable.1.1
  | .pseudoClass n args, form, writable => by
    rw [toList_writePseudoClass]
    exact List.not_mem_cons_of_ne_of_not_mem (by decide)
      (List.not_mem_append form.1.plain (args.plain_write form.2.2.2 writable))
  | .pseudoElement n args, form, writable => by
    have colon : '&' ∉ secondColon n := by
      rw [secondColon]
      split
      · decide
      · decide
    rw [toList_writePseudoElement]
    exact List.not_mem_cons_of_ne_of_not_mem (by decide) (List.not_mem_append colon
      (List.not_mem_append form.1.plain (args.plain_write form.2.2 writable)))
termination_by structural t => t

theorem PseudoArguments.plain_write {relative : Bool} :
    ∀ args : PseudoArguments, args.HasForm relative → args.isWritable = true → '&' ∉ args.write.toList
  | .none, _, _ => by decide
  | .raw text, form, _ => by
    rw [toList_writeRaw]
    exact plain_between (by decide) form.plain
  | .selectors list, form, writable => by
    rw [toList_writeArguments]
    exact plain_between (by decide) (plain_listText list form.2 writable)
termination_by structural args => args

theorem Selector.plain_write {relative : Bool} :
    ∀ s : Selector, s.HasForm relative → s.isWritable = true → '&' ∉ s.write.toList
  | ⟨compounds, _⟩, form, writable => by
    rw [toList_write]
    exact plain_compoundsText compounds form.2.2 writable
termination_by structural s => s

theorem plain_listText {relative : Bool} :
    ∀ list : List Selector, selectorsHaveForm relative list → selectorsAreWritable list = true →
      '&' ∉ listText list
  | [], _, _ => List.not_mem_nil
  | s :: rest, form, writable => by
    rw [selectorsAreWritable, Bool.and_eq_true, Bool.and_eq_true] at writable
    have here := s.plain_write form.1 writable.1.2
    have later := plain_listText rest form.2 writable.2
    cases rest with
    | nil =>
        rw [listText_singleton]
        exact here
    | cons other more =>
        rw [listText_cons_cons]
        exact List.not_mem_append here (List.not_mem_cons_of_ne_of_not_mem (by decide) later)
termination_by structural list => list

theorem plain_compoundsText :
    ∀ compounds : List Compound, compoundsHaveForm compounds → compoundsAreWritable compounds = true →
      '&' ∉ compoundsText compounds
  | [], _, _ => List.not_mem_nil
  | ⟨combinator, tests⟩ :: rest, form, writable => by
    rw [compoundsAreWritable, Bool.and_eq_true] at writable
    rw [compoundsText_cons]
    exact List.not_mem_append
      (List.not_mem_append (plain_relationText combinator) (plain_testsText tests form.2.1 writable.1))
      (plain_compoundsText rest form.2.2 writable.2)
termination_by structural compounds => compounds

theorem plain_testsText {isFirst : Bool} :
    ∀ tests : List SimpleSelector, testsHaveForm isFirst tests → testsAreWritable tests = true →
      '&' ∉ testsText tests
  | [], _, _ => List.not_mem_nil
  | t :: rest, form, writable => by
    rw [testsAreWritable, Bool.and_eq_true] at writable
    rw [testsText_cons]
    exact List.not_mem_append (t.plain_write form.2.1 writable.1) (plain_testsText rest form.2.2 writable.2)
termination_by structural tests => tests

end

end

end Css
end SlimSvg
