import SlimSvg.Proofs.Css.Forms

namespace SlimSvg
namespace Css

/-!
# Names and attribute tests that come back

A name is written with a backslash before every character that no name has, and reading
takes these backslashes away again.  A digit in front is the exception: it is written as
its number, and reading does not know numbers.  The value of an attribute test comes back
if it needs no quotation marks, or has none and no backslash that would hide the closing
one.
-/

namespace SelectorText

/-! ## Names -/

/-- A character as it stands in a name. -/
def escaped (c : Char) : List Char :=
  if isNameChar c then [c] else ['\\', c]

/-- Whether a name does not begin with a digit. -/
def isPlainName (name : String) : Bool :=
  name.toList.head?.all fun c => !c.isDigit

theorem nameChar_eq {isFirst : Bool} {c : Char} (plain : isFirst = true → c.isDigit = false) :
    nameChar isFirst c = escaped c := by
  have digit : c.isDigit = true → isFirst = false := by
    intro digit
    cases isFirst with
    | false => rfl
    | true => exact absurd digit (by rw [plain rfl]; decide)
  rw [nameChar, escaped, isNameChar, Char.isAlphanum]
  by_cases named : c.isDigit = true
  · rw [named, digit named]
    simp
  · rw [Bool.not_eq_true] at named
    rw [named]
    simp [Bool.or_comm, Bool.or_assoc, Bool.or_left_comm]

theorem toList_name {n : String} (plain : isPlainName n = true) : (name n).toList = n.toList.flatMap escaped := by
  rw [name]
  cases chars : n.toList with
  | nil => rfl
  | cons c rest =>
      rw [isPlainName, chars] at plain
      have first : nameChar true c = escaped c := nameChar_eq fun _ => by simpa using plain
      have others : rest.flatMap (nameChar false) = rest.flatMap escaped := by
        congr 1
        funext d
        exact nameChar_eq fun impossible => absurd impossible (by decide)
      rw [String.toList_ofList, first, others]
      rfl

theorem ne_backslash_of_isNameChar {c : Char} (named : isNameChar c = true) : c ≠ '\\' := by
  rintro rfl
  exact absurd named (by decide)

theorem spanName_escaped (cs : List Char) {tail : List Char} (ends : EndsName tail) :
    spanName (cs.flatMap escaped ++ tail) = (cs.flatMap escaped, tail) := by
  induction cs with
  | nil => exact spanName_of_endsName ends
  | cons c rest inductionHypothesis =>
      rw [List.flatMap_cons, List.append_assoc, escaped]
      split
      · next named =>
        rw [List.singleton_append, List.singleton_append, spanName, if_pos named, inductionHypothesis]
        intro d others same
        exact absurd same (ne_backslash_of_isNameChar named)
      · rw [List.cons_append, List.singleton_append, spanName, inductionHypothesis]
        rfl

theorem unescape_escaped (cs : List Char) : unescape (cs.flatMap escaped) = cs := by
  induction cs with
  | nil => rfl
  | cons c rest inductionHypothesis =>
      rw [List.flatMap_cons, escaped]
      split
      · next named =>
        have other := ne_backslash_of_isNameChar named
        rw [List.singleton_append, unescape, inductionHypothesis]
        · intro d others same
          exact absurd same other
        · exact fun same => absurd same other
      · rw [List.cons_append, List.singleton_append, unescape, inductionHypothesis]

/-- A character that may begin a written name. -/
def BeginsName (c : Char) : Prop :=
  isNameChar c = true ∨ c = '\\'

instance (c : Char) : Decidable (BeginsName c) :=
  inferInstanceAs (Decidable (_ ∨ _))

theorem exists_front_escaped {cs : List Char} (nonempty : cs ≠ []) :
    ∃ c rest, cs.flatMap escaped = c :: rest ∧ BeginsName c := by
  cases cs with
  | nil => exact absurd rfl nonempty
  | cons c rest =>
      rw [List.flatMap_cons, escaped]
      split
      · next named => exact ⟨c, rest.flatMap escaped, rfl, .inl named⟩
      · exact ⟨'\\', c :: rest.flatMap escaped, rfl, .inr rfl⟩

/-- A name with a character is written with one that may begin it, a digit behind a backslash. -/
theorem exists_front_name {n : String} (nonempty : n.toList ≠ []) :
    ∃ c rest, (name n).toList = c :: rest ∧ BeginsName c := by
  rw [name]
  cases chars : n.toList with
  | nil => exact absurd chars nonempty
  | cons c others =>
      dsimp only
      rw [String.toList_ofList, nameChar]
      split
      · next plain =>
        refine ⟨c, _, rfl, .inl ?_⟩
        simp only [Bool.or_eq_true, Bool.not_true, Bool.false_and] at plain
        simp only [isNameChar, Char.isAlphanum, Bool.or_eq_true]
        tauto
      · split
        · exact ⟨'\\', _, rfl, .inr rfl⟩
        · exact ⟨'\\', _, rfl, .inr rfl⟩

/-! ## Values -/

/-- Whether no backslash of a text is left without a character behind it. -/
def pairsBackslashes : List Char → Bool
  | [] => true
  | ['\\'] => false
  | '\\' :: _ :: rest => pairsBackslashes rest
  | _ :: rest => pairsBackslashes rest

/-- Whether the value of a test comes back from where it is written. -/
def isWritableValue (v : String) : Bool :=
  isBareValue v || !v.toList.contains '"' && pairsBackslashes v.toList

theorem spanQuoted?_append {cs : List Char} (paired : pairsBackslashes cs = true) (bare : '"' ∉ cs)
    (rest : List Char) : spanQuoted? '"' (cs ++ '"' :: rest) = some (cs, rest) := by
  fun_induction pairsBackslashes cs with
  | case1 => rfl
  | case2 => cases paired
  | case3 c later inductionHypothesis =>
      rw [List.cons_append, List.cons_append, spanQuoted?, inductionHypothesis paired fun listed =>
        bare (List.mem_cons_of_mem _ (List.mem_cons_of_mem _ listed))]
      rfl
  | case4 c later alone pair inductionHypothesis =>
      have other : ¬ (c == '"') = true := fun same => bare (beq_iff_eq.mp same ▸ List.mem_cons_self)
      rw [List.cons_append, spanQuoted?, if_neg other, inductionHypothesis paired fun listed =>
        bare (List.mem_cons_of_mem _ listed)]
      · rfl
      · intro d others backslash split
        cases later with
        | nil => exact alone backslash rfl
        | cons e more => exact pair e more backslash rfl

theorem flatMap_escaped_of_all {cs : List Char} (named : ∀ c ∈ cs, isNameChar c = true) : cs.flatMap escaped = cs := by
  induction cs with
  | nil => rfl
  | cons c rest inductionHypothesis =>
      rw [List.flatMap_cons, inductionHypothesis fun d listed => named d (List.mem_cons_of_mem c listed), escaped,
        if_pos (named c List.mem_cons_self)]
      rfl

theorem isNameChar_of_isBareValue {v : String} (bare : isBareValue v = true) :
    v.toList ≠ [] ∧ ∀ c ∈ v.toList, isNameChar c = true := by
  rw [isBareValue] at bare
  split at bare
  · cases bare
  · next c rest chars =>
    rw [chars]
    exact ⟨List.cons_ne_nil _ _, List.all_eq_true.mp (Bool.and_eq_true_iff.mp bare).2⟩

theorem flatMap_quotes {cs : List Char} (bare : '"' ∉ cs) :
    cs.flatMap (fun c => if c == '"' then ['\\', '"'] else [c]) = cs := by
  induction cs with
  | nil => rfl
  | cons c rest inductionHypothesis =>
      have other : ¬ (c == '"') = true := fun same => bare (beq_iff_eq.mp same ▸ List.mem_cons_self)
      rw [List.flatMap_cons, if_neg other, inductionHypothesis fun listed => bare (List.mem_cons_of_mem c listed)]
      rfl

theorem toList_value_of_quoted {v : String} (unbare : ¬ isBareValue v = true) (plain : '"' ∉ v.toList) :
    (value v).toList = '"' :: (v.toList ++ ['"']) := by
  rw [value, if_neg unbare, flatMap_quotes plain, String.ofList_toList, String.toList_append, String.toList_append]
  rfl

/-- The value of a test is read up to its end. -/
theorem testValue?_append {v : String} (writable : isWritableValue v = true) {tail : List Char}
    (ends : EndsName tail) : testValue? ((value v).toList ++ tail) = some (v.toList, tail) := by
  by_cases bare : isBareValue v = true
  · rcases isNameChar_of_isBareValue bare with ⟨nonempty, named⟩
    have span := spanName_escaped v.toList ends
    have name_eq := unescape_escaped v.toList
    rw [flatMap_escaped_of_all named] at span name_eq
    rw [value, if_pos bare]
    cases chars : v.toList with
    | nil => exact absurd chars nonempty
    | cons c rest =>
        have unquoted : ¬ isQuote c = true := by
          intro quote
          rw [isQuote, Bool.or_eq_true, beq_iff_eq, beq_iff_eq] at quote
          have first := named c (chars ▸ List.mem_cons_self)
          rcases quote with same | same
          · exact absurd (same ▸ first) (by decide)
          · exact absurd (same ▸ first) (by decide)
        rw [chars] at span name_eq
        rw [List.cons_append, testValue?, if_neg unquoted, ← List.cons_append, span]
        dsimp only
        rw [name_eq]
  · rw [isWritableValue, Bool.or_eq_true, Bool.and_eq_true, Bool.not_eq_true', Bool.eq_false_iff, Ne,
      List.contains_iff_mem] at writable
    rcases writable with bareValue | ⟨plain, paired⟩
    · exact absurd bareValue bare
    · rw [toList_value_of_quoted bare plain, List.cons_append, testValue?, if_pos (show isQuote '"' = true from rfl),
        List.append_assoc]
      exact spanQuoted?_append paired plain tail

theorem exists_front_value (v : String) : ∃ c rest, (value v).toList = c :: rest ∧ (isNameChar c = true ∨ c = '"') := by
  rw [value]
  split
  · next bare =>
    rcases isNameChar_of_isBareValue bare with ⟨nonempty, named⟩
    cases chars : v.toList with
    | nil => exact absurd chars nonempty
    | cons c rest => exact ⟨c, rest, rfl, .inl (named c (chars ▸ List.mem_cons_self))⟩
  · rw [String.toList_append, String.toList_append]
    exact ⟨'"', _, rfl, .inr rfl⟩

/-! ## Tests -/

/-- What is written of a test behind the name of the attribute. -/
def comparison (t : AttributeTest) : String :=
  if t.operator == .present then ""
  else t.operator.symbol ++ value t.value ++ if t.ignoresCase then " i" else ""

/-- What is written of a test between the brackets. -/
def insideTest (t : AttributeTest) : List Char :=
  (name t.name).toList ++ (comparison t).toList

theorem toList_test (t : AttributeTest) : (test t).toList = '[' :: (insideTest t ++ [']']) := by
  change ("[" ++ name t.name ++ comparison t ++ "]").toList = _
  rw [String.toList_append, String.toList_append, String.toList_append, insideTest]
  rfl

theorem skipSpaces_eq_self {cs rest : List Char} {c : Char} (front : cs = c :: rest)
    (solid : Text.isCssSpace c = false) : skipSpaces cs = cs := by
  rw [front, skipSpaces, List.dropWhile_cons_of_neg (Bool.eq_false_iff.mp solid)]

theorem not_isCssSpace_of_isNameChar {c : Char} (named : isNameChar c = true) : Text.isCssSpace c = false := by
  rw [Bool.eq_false_iff]
  intro blank
  simp only [Text.isCssSpace, Text.isXmlSpace, Bool.or_eq_true, beq_iff_eq] at blank
  rcases blank with (((rfl | rfl) | rfl) | rfl) | rfl
  all_goals exact absurd named (by decide)

theorem BeginsName.not_isCssSpace {c : Char} (begins : BeginsName c) : Text.isCssSpace c = false := by
  rcases begins with named | rfl
  · exact not_isCssSpace_of_isNameChar named
  · rfl

/-- The mark behind a value. -/
def flagText (ignoresCase : Bool) : List Char :=
  if ignoresCase then [' ', 'i'] else []

theorem caseFlag?_flagText (ignoresCase : Bool) : caseFlag? (skipSpaces (flagText ignoresCase)) = some ignoresCase := by
  cases ignoresCase with
  | false => rfl
  | true => rfl

theorem endsName_flagText (ignoresCase : Bool) : EndsName (flagText ignoresCase) := by
  cases ignoresCase with
  | false => exact endsName_nil
  | true =>
      intro c first
      rw [← Option.some.inj first]
      decide

theorem toList_comparison {t : AttributeTest} (compares : t.operator ≠ .present) :
    (comparison t).toList = t.operator.symbol.toList ++ ((value t.value).toList ++ flagText t.ignoresCase) := by
  have other : ¬ (t.operator == .present) = true := fun same => compares (beq_iff_eq.mp same)
  rw [comparison, if_neg other, String.toList_append, String.toList_append, List.append_assoc, flagText]
  split
  · rfl
  · rfl

/-- The sign of an operator ends the name before it, and it is read as the operator. -/
theorem symbol_spec {operator : AttributeOperator} (compares : operator ≠ .present) (rest : List Char) :
    EndsName (operator.symbol.toList ++ rest) ∧
      (∃ c later, operator.symbol.toList ++ rest = c :: later ∧ Text.isCssSpace c = false) ∧
      operator? (operator.symbol.toList ++ rest) = some (operator, rest) := by
  have ends {c : Char} (unnamed : isNameChar c = false ∧ c ≠ '\\') (later : List Char) : EndsName (c :: later) := by
    intro d first
    rw [← Option.some.inj first]
    exact unnamed
  cases operator with
  | present => exact absurd rfl compares
  | equals => exact ⟨ends (by decide) _, ⟨'=', _, rfl, rfl⟩, rfl⟩
  | includes => exact ⟨ends (by decide) _, ⟨'~', _, rfl, rfl⟩, rfl⟩
  | dashMatch => exact ⟨ends (by decide) _, ⟨'|', _, rfl, rfl⟩, rfl⟩
  | startsWith => exact ⟨ends (by decide) _, ⟨'^', _, rfl, rfl⟩, rfl⟩
  | endsWith => exact ⟨ends (by decide) _, ⟨'$', _, rfl, rfl⟩, rfl⟩
  | contains => exact ⟨ends (by decide) _, ⟨'*', _, rfl, rfl⟩, rfl⟩

/-- What is written between the brackets is read as the test. -/
theorem attributeTest?_insideTest {t : AttributeTest} (form : t.HasForm) (named : isPlainName t.name = true)
    (writable : t.operator = .present ∨ isWritableValue t.value = true) :
    attributeTest? (insideTest t) = some t := by
  rcases exists_front_escaped form.name.nonempty with ⟨c, rest, front, begins⟩
  have spaced (tail : List Char) : skipSpaces (t.name.toList.flatMap escaped ++ tail) =
      t.name.toList.flatMap escaped ++ tail :=
    skipSpaces_eq_self (front ▸ List.cons_append) begins.not_isCssSpace
  have nonempty : ¬ (t.name.toList.flatMap escaped).isEmpty = true := by
    rw [front]
    exact Bool.false_ne_true
  by_cases present : t.operator = .present
  · have nothing : (comparison t).toList = [] := by
      rw [comparison, if_pos (beq_iff_eq.mpr present)]
      rfl
    rcases form.bare present with ⟨value_eq, ignoresCase_eq⟩
    rw [attributeTest?, insideTest, toList_name named, nothing, spaced, spanName_escaped _ endsName_nil]
    dsimp only
    rw [if_neg nonempty, unescape_escaped, String.ofList_toList]
    dsimp only [skipSpaces, List.dropWhile_nil]
    rw [← present, ← value_eq, ← ignoresCase_eq]
  · rcases symbol_spec present ((value t.value).toList ++ flagText t.ignoresCase) with
      ⟨ends, ⟨d, later, sign, solid⟩, operatorRead⟩
    rcases exists_front_value t.value with ⟨e, more, valueFront, valueBegins⟩
    have solidValue : Text.isCssSpace e = false := by
      rcases valueBegins with valueNamed | rfl
      · exact not_isCssSpace_of_isNameChar valueNamed
      · rfl
    have spacedSign := skipSpaces_eq_self sign solid
    have spacedValue : skipSpaces ((value t.value).toList ++ flagText t.ignoresCase) =
        (value t.value).toList ++ flagText t.ignoresCase :=
      skipSpaces_eq_self (valueFront ▸ List.cons_append) solidValue
    have valueRead := testValue?_append (writable.resolve_left present) (endsName_flagText t.ignoresCase)
    rw [attributeTest?, insideTest, toList_name named, toList_comparison present, spaced, spanName_escaped _ ends]
    dsimp only
    rw [if_neg nonempty, unescape_escaped, String.ofList_toList, spacedSign]
    split
    · next empty =>
      rw [sign] at empty
      cases empty
    · rw [operatorRead]
      dsimp only [bind, Option.bind]
      rw [spacedValue, valueRead]
      dsimp only [bind, Option.bind]
      rw [caseFlag?_flagText, String.ofList_toList]

end SelectorText
end Css
end SlimSvg
