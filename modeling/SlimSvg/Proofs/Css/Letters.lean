import SlimSvg.Proofs.Css.Depth
import SlimSvg.Proofs.Css.WrittenSelectors

namespace SlimSvg
namespace Css
namespace SelectorText

/-!
# The characters of written selectors

No semicolon and no closing brace gets into the text of a selector that was read from a
text without them.  Writing adds the signs of the tests, commas, brackets, quotation marks,
backslashes and the numbers of digits to what was read, and nothing else.
-/

/-- Whether a character may not stand before the block of a rule. -/
def endsStart (x : Char) : Bool :=
  x == ';' || x == '\x7d'

variable {x : Char}

theorem eq_of_endsStart (ends : endsStart x = true) : x = ';' ∨ x = '\x7d' := by
  rw [endsStart, Bool.or_eq_true, beq_iff_eq, beq_iff_eq] at ends
  exact ends

/-- None of a few signs ends the start of a rule. -/
theorem notMem_signs (ends : endsStart x = true) {signs : List Char} (other : ';' ∉ signs ∧ '\x7d' ∉ signs) :
    x ∉ signs := by
  rcases eq_of_endsStart ends with rfl | rfl
  · exact other.1
  · exact other.2

theorem ne_sign (ends : endsStart x = true) {c : Char} (other : c ≠ ';' ∧ c ≠ '\x7d') : x ≠ c := by
  rintro rfl
  rcases eq_of_endsStart ends with same | same
  · exact other.1 same
  · exact other.2 same

/-! ## Names and attributes -/

theorem notMem_toDigits (ends : endsStart x = true) {c : Char} (digit : c.isDigit = true) :
    x ∉ Nat.toDigits 16 c.toNat := by
  have small : 48 ≤ c.toNat ∧ c.toNat ≤ 57 := by
    rw [Char.isDigit, Bool.and_eq_true, decide_eq_true_eq, decide_eq_true_eq] at digit
    exact digit
  have every : ∀ n : Fin 58, ';' ∉ Nat.toDigits 16 n.val ∧ '\x7d' ∉ Nat.toDigits 16 n.val := by decide
  exact notMem_signs ends (every ⟨c.toNat, Nat.lt_succ_of_le small.2⟩)

theorem notMem_nameChar (ends : endsStart x = true) {isFirst : Bool} {c : Char} (other : x ≠ c) :
    x ∉ nameChar isFirst c := by
  have alone : x ∉ [c] := fun listed => other (List.mem_singleton.mp listed)
  rw [nameChar]
  split
  · exact alone
  · split
    · next digit =>
      exact List.not_mem_append
        (List.not_mem_cons_of_ne_of_not_mem (ne_sign ends (by decide)) (notMem_toDigits ends digit))
        (notMem_signs ends (by decide))
    · exact List.not_mem_cons_of_ne_of_not_mem (ne_sign ends (by decide)) alone

theorem notMem_name (ends : endsStart x = true) {n : String} (absent : x ∉ n.toList) : x ∉ (name n).toList := by
  rw [name]
  cases chars : n.toList with
  | nil => exact List.not_mem_nil
  | cons c rest =>
      rw [chars, List.mem_cons, not_or] at absent
      dsimp only
      rw [String.toList_ofList]
      refine List.not_mem_append (notMem_nameChar ends absent.1) ?_
      intro listed
      rcases List.mem_flatMap.mp listed with ⟨d, among, inside⟩
      exact notMem_nameChar ends (fun same => absent.2 (same ▸ among)) inside

theorem notMem_value (ends : endsStart x = true) {v : String} (absent : x ∉ v.toList) : x ∉ (value v).toList := by
  rw [value]
  split
  · exact absent
  · rw [String.toList_append, String.toList_append]
    refine List.not_mem_append (List.not_mem_append (notMem_signs ends (by decide)) ?_) (notMem_signs ends (by decide))
    rw [String.toList_ofList]
    intro listed
    rcases List.mem_flatMap.mp listed with ⟨c, among, inside⟩
    split at inside
    · exact notMem_signs ends (by decide) inside
    · exact absent (List.mem_singleton.mp inside ▸ among)

/-- Between two signs nothing is added. -/
theorem notMem_between (ends : endsStart x = true) {first last : Char} {cs : List Char}
    (other : (first ≠ ';' ∧ first ≠ '\x7d') ∧ last ≠ ';' ∧ last ≠ '\x7d') (absent : x ∉ cs) :
    x ∉ first :: (cs ++ [last]) := by
  rw [List.mem_cons, List.mem_append, List.mem_singleton]
  rintro (here | inside | behind)
  · exact ne_sign ends other.1 here
  · exact absent inside
  · exact ne_sign ends other.2 behind

theorem notMem_test (ends : endsStart x = true) {t : AttributeTest} (absent : x ∉ t.name.toList ∧ x ∉ t.value.toList) :
    x ∉ (test t).toList := by
  rw [toList_test]
  refine notMem_between ends (by decide) (List.not_mem_append (notMem_name ends absent.1) ?_)
  by_cases present : t.operator = .present
  · rw [comparison, if_pos (beq_iff_eq.mpr present)]
    exact List.not_mem_nil
  · rw [toList_comparison present]
    refine List.not_mem_append ?_ (List.not_mem_append (notMem_value ends absent.2) ?_)
    · cases t.operator
      all_goals exact notMem_signs ends (by decide)
    · rw [flagText]
      split
      · exact notMem_signs ends (by decide)
      · exact List.not_mem_nil

theorem notMem_unescape {cs : List Char} (absent : x ∉ cs) :
    x ∉ (String.ofList (unescape (spanName cs).1)).toList := by
  rw [String.toList_ofList]
  intro listed
  exact absent (append_of_spanName cs ▸ List.mem_append_left _ (mem_of_mem_unescape listed))

theorem notMem_of_requireName {text cs rest : List Char} {name : String}
    (read : requireName text cs = .ok (name, rest)) (absent : x ∉ cs) : x ∉ name.toList := by
  rw [requireName] at read
  dsimp only at read
  split at read
  · cases read
  · rw [← (Prod.mk.inj (Except.ok.inj read)).1]
    exact notMem_unescape absent

theorem notMem_of_attributeTest? {cs : List Char} {t : AttributeTest} (read : attributeTest? cs = some t)
    (absent : x ∉ cs) : x ∉ t.name.toList ∧ x ∉ t.value.toList := by
  have spaced : ∀ ds : List Char, skipSpaces ds <:+ ds := fun ds => List.dropWhile_suffix _
  have begins : x ∉ skipSpaces cs := fun listed => absent ((spaced cs).mem listed)
  rw [attributeTest?] at read
  dsimp only at read
  split at read
  · cases read
  · split at read
    · rw [← Option.some.inj read]
      exact ⟨notMem_unescape begins, List.not_mem_nil⟩
    · rcases Option.bind_eq_some_iff.mp read with ⟨⟨operator, afterOperator⟩, operatorRead, read⟩
      dsimp only at read
      rcases Option.bind_eq_some_iff.mp read with ⟨⟨value, afterValue⟩, valueRead, read⟩
      dsimp only at read
      rcases Option.bind_eq_some_iff.mp read with ⟨ignoresCase, -, same⟩
      rw [← Option.some.inj same]
      refine ⟨notMem_unescape begins, ?_⟩
      intro listed
      rw [String.toList_ofList] at listed
      have inside := (spaced _).mem (mem_of_testValue? valueRead listed)
      exact begins ((suffix_of_spanName _).mem ((spaced _).mem ((operator?_spec operatorRead).2.mem inside)))

/-! ## Tests -/

variable {nested : Bool → List Char → Except CssError (List Selector)}

/-- Whether what a reader finds in a text without a character is written without it. -/
def KeepsOut (x : Char) (nested : Bool → List Char → Except CssError (List Selector)) : Prop :=
  ∀ relative cs list, nested relative cs = .ok list → x ∉ cs → x ∉ listText list

theorem notMem_of_arguments (ends : endsStart x = true) (keepsOut : KeepsOut x nested) {asSelectors relative : Bool}
    {cs rest : List Char} {args : PseudoArguments}
    (read : arguments nested asSelectors relative cs = .ok (args, rest)) (absent : x ∉ cs) :
    x ∉ args.write.toList := by
  unfold arguments at read
  split at read
  · next later =>
    rcases bind_eq_ok.mp read with ⟨⟨inner, after⟩, cutRead, read⟩
    rcases map_eq_ok.mp read with ⟨found, foundRead, same⟩
    rcases balanced_of_spanBefore? (orEnd_eq_ok.mp cutRead) with ⟨whole, -⟩
    have inside : x ∉ inner := fun listed =>
      absent (List.mem_cons_of_mem _ (whole ▸ List.mem_append_left _ listed))
    rw [← (Prod.mk.inj same).1]
    rw [argumentsOf] at foundRead
    dsimp only at foundRead ⊢
    split at foundRead
    · rcases map_eq_ok.mp foundRead with ⟨list, listRead, listEq⟩
      rw [← listEq, toList_writeArguments]
      exact notMem_between ends (by decide) (keepsOut relative inner list listRead inside)
    · rw [← Except.ok.inj foundRead, toList_writeRaw, String.toList_ofList]
      refine notMem_between ends (by decide) ?_
      rcases Text.exists_append_trimChars inner with ⟨front, back, parts, -⟩
      intro listed
      refine inside (parts ▸ ?_)
      exact List.mem_append_left _ (List.mem_append_right _ listed)
  · rw [← (Prod.mk.inj (Except.ok.inj read)).1]
    exact List.not_mem_nil

theorem notMem_of_pseudo (ends : endsStart x = true) (keepsOut : KeepsOut x nested) {text cs rest : List Char}
    {test : SimpleSelector} (read : pseudo nested text cs = .ok (test, rest)) (absent : x ∉ cs) :
    x ∉ test.write.toList := by
  have colon : x ≠ ':' := ne_sign ends (by decide)
  have behind : x ∉ (afterColon cs).2 := fun listed => absent ((suffix_afterColon cs).mem listed)
  rw [pseudo_eq, pseudoBehind] at read
  split at read
  · cases read
  · rcases map_eq_ok.mp read with ⟨⟨args, found⟩, argsRead, same⟩
    have argsText := notMem_of_arguments ends keepsOut argsRead fun listed =>
      behind ((suffix_of_spanName _).mem listed)
    have nameText : x ∉ (String.ofList (spanName (afterColon cs).2).1).toList := by
      rw [String.toList_ofList]
      intro listed
      exact behind (append_of_spanName (afterColon cs).2 ▸ List.mem_append_left _ listed)
    rw [← (Prod.mk.inj same).1]
    dsimp only
    rw [pseudoTest]
    split
    · rw [toList_writePseudoElement, secondColon]
      refine List.not_mem_cons_of_ne_of_not_mem colon (List.not_mem_append ?_ (List.not_mem_append nameText argsText))
      split
      · exact List.not_mem_nil
      · exact notMem_signs ends (by decide)
    · rw [toList_writePseudoClass]
      exact List.not_mem_cons_of_ne_of_not_mem colon (List.not_mem_append nameText argsText)

theorem notMem_of_testAt (ends : endsStart x = true) (keepsOut : KeepsOut x nested) {text cs rest : List Char}
    {isFirst : Bool} {test : SimpleSelector} (read : testAt nested text isFirst cs = .ok (some (test, rest)))
    (absent : x ∉ cs) : x ∉ test.write.toList := by
  unfold testAt at read
  split at read
  · cases Except.ok.inj read
  · rw [← (Prod.mk.inj (Option.some.inj (Except.ok.inj read))).1]
    exact notMem_signs ends (by decide)
  · rcases map_eq_ok.mp read with ⟨⟨name, after⟩, nameRead, same⟩
    rw [← (Prod.mk.inj (Option.some.inj same)).1, toList_writeClass]
    exact List.not_mem_cons_of_ne_of_not_mem (ne_sign ends (by decide)) (notMem_name ends
      (notMem_of_requireName nameRead fun listed => absent (List.mem_cons_of_mem _ listed)))
  · rcases map_eq_ok.mp read with ⟨⟨name, after⟩, nameRead, same⟩
    rw [← (Prod.mk.inj (Option.some.inj same)).1, toList_writeId]
    exact List.not_mem_cons_of_ne_of_not_mem (ne_sign ends (by decide)) (notMem_name ends
      (notMem_of_requireName nameRead fun listed => absent (List.mem_cons_of_mem _ listed)))
  · rcases bind_eq_ok.mp read with ⟨⟨inner, after⟩, cutRead, read⟩
    rcases balanced_of_spanBefore? (orEnd_eq_ok.mp cutRead) with ⟨whole, -⟩
    have inside : x ∉ inner := fun listed =>
      absent (List.mem_cons_of_mem _ (whole ▸ List.mem_append_left _ listed))
    dsimp only at read
    cases found : attributeTest? inner with
    | none =>
        rw [found] at read
        cases read
    | some t =>
        rw [found] at read
        rw [← (Prod.mk.inj (Option.some.inj (Except.ok.inj read))).1]
        exact notMem_test ends (notMem_of_attributeTest? found inside)
  · rcases map_eq_ok.mp read with ⟨⟨found, after⟩, pseudoRead, same⟩
    rw [← (Prod.mk.inj (Option.some.inj same)).1]
    exact notMem_of_pseudo ends keepsOut pseudoRead fun listed => absent (List.mem_cons_of_mem _ listed)
  · split at read
    · split at read
      · cases read
      · rw [← (Prod.mk.inj (Option.some.inj (Except.ok.inj read))).1]
        exact notMem_name ends (notMem_unescape absent)
    · split at read
      · cases Except.ok.inj read
      · cases read

/-! ## Compounds and selectors -/

theorem notMem_of_compound (ends : endsStart x = true) (keepsOut : KeepsOut x nested) {text : List Char} {bound : Nat}
    {done tests : List SimpleSelector} {cs rest : List Char}
    (read : compound nested text bound done cs = .ok (tests, rest)) (absent : x ∉ cs)
    (sofar : ∀ t ∈ done, x ∉ t.write.toList) : ∀ t ∈ tests, x ∉ t.write.toList := by
  have finished : ∀ t ∈ done.reverse, x ∉ t.write.toList := fun t listed => sofar t (List.mem_reverse.mp listed)
  induction bound generalizing done cs with
  | zero =>
      rw [compound] at read
      rw [← (Prod.mk.inj (Except.ok.inj read)).1]
      exact finished
  | succ bound inductionHypothesis =>
      rw [compound_succ] at read
      rcases bind_eq_ok.mp read with ⟨found, foundRead, read⟩
      cases found with
      | none =>
          rw [← (Prod.mk.inj (Except.ok.inj read)).1]
          exact finished
      | some front =>
          have next : ∀ t ∈ front.1 :: done, x ∉ t.write.toList :=
            List.forall_mem_cons.mpr ⟨notMem_of_testAt ends keepsOut foundRead absent, sofar⟩
          exact inductionHypothesis read (fun listed => absent ((suffix_of_testAt foundRead).mem listed)) next
            fun t listed => next t (List.mem_reverse.mp listed)

theorem notMem_of_compounds (ends : endsStart x = true) (keepsOut : KeepsOut x nested) {text : List Char} {bound : Nat}
    {combinator : Option Combinator} {cs : List Char} {found : List Compound}
    (read : compounds nested text bound combinator cs = .ok found) (absent : x ∉ cs) : x ∉ compoundsText found := by
  induction bound generalizing combinator cs found with
  | zero => cases read
  | succ bound inductionHypothesis =>
      rw [compounds_succ] at read
      rcases bind_eq_ok.mp read with ⟨⟨tests, rest⟩, testsRead, read⟩
      have relation : x ∉ relationText combinator := by
        cases combinator with
        | none => exact List.not_mem_nil
        | some c =>
            cases c
            all_goals exact notMem_signs ends (by decide)
      have testsClean : x ∉ testsText tests := by
        intro listed
        rcases List.mem_flatMap.mp listed with ⟨t, among, inside⟩
        exact notMem_of_compound ends keepsOut testsRead absent (List.forall_mem_nil _) t among inside
      have here : x ∉ relationText combinator ++ testsText tests := List.not_mem_append relation testsClean
      dsimp only at read
      split at read
      · cases read
      · cases next : further? rest with
        | none =>
            rw [next] at read
            rw [← Except.ok.inj read, compoundsText_cons]
            exact List.not_mem_append here List.not_mem_nil
        | some front =>
            rw [next] at read
            rcases map_eq_ok.mp read with ⟨others, othersRead, same⟩
            have behind := (suffix_of_further? next).trans (suffix_of_compound testsRead)
            rw [← same, compoundsText_cons]
            exact List.not_mem_append here (inductionHypothesis othersRead fun listed => absent (behind.mem listed))

theorem notMem_of_selector (ends : endsStart x = true) (keepsOut : KeepsOut x nested) {relative : Bool}
    {text : List Char} {s : Selector} (read : selector nested relative text = .ok s) (absent : x ∉ text) :
    x ∉ s.write.toList := by
  have inside : (leading relative (skipSpaces text)).2 <:+ text :=
    (leading_spec relative _).2.trans (List.dropWhile_suffix _)
  rw [selector_eq] at read
  split at read
  · cases read
  · rcases map_eq_ok.mp read with ⟨found, foundRead, same⟩
    rw [← same, toList_write]
    exact notMem_of_compounds ends keepsOut foundRead fun listed => absent (inside.mem listed)

theorem mem_listText {c : Char} {list : List Selector} (listed : c ∈ listText list) :
    c = ',' ∨ ∃ s ∈ list, c ∈ s.write.toList := by
  induction list with
  | nil => exact absurd listed List.not_mem_nil
  | cons s rest inductionHypothesis =>
      cases rest with
      | nil =>
          rw [listText_singleton] at listed
          exact .inr ⟨s, List.mem_cons_self, listed⟩
      | cons other more =>
          rw [listText_cons_cons, List.mem_append, List.mem_cons] at listed
          rcases listed with here | comma | later
          · exact .inr ⟨s, List.mem_cons_self, here⟩
          · exact .inl comma
          · rcases inductionHypothesis later with comma | ⟨t, among, inside⟩
            · exact .inl comma
            · exact .inr ⟨t, List.mem_cons_of_mem s among, inside⟩

/-- What ends the start of a rule gets into no selector, however deep the selector is nested. -/
theorem keepsOut_listWithin (ends : endsStart x = true) (depth : Nat) : KeepsOut x (listWithin depth) := by
  induction depth with
  | zero =>
      intro relative cs list read _
      rw [← Except.ok.inj read]
      exact List.not_mem_nil
  | succ depth inductionHypothesis =>
      intro relative cs list read absent listed
      rcases forall_of_selectors (P := fun s => x ∉ s.write.toList) read (fun part s inside partRead =>
        notMem_of_selector ends inductionHypothesis partRead fun among => absent (inside.subset among)) with ⟨-, every⟩
      rcases mem_listText listed with comma | ⟨s, among, inside⟩
      · exact ne_sign ends (by decide) comma
      · exact every s among inside

end SelectorText

/-- The selectors of a rule are written without what ends the start of a rule. -/
theorem Selector.notMem_write_of_readList {x : Char} (ends : SelectorText.endsStart x = true) {cs : List Char}
    {list : List Selector} (found : readList cs = .ok list) (absent : x ∉ cs) : ∀ s ∈ list, x ∉ s.write.toList :=
  (SelectorText.forall_of_selectors found fun _ _ inside partRead => SelectorText.notMem_of_selector ends
    (SelectorText.keepsOut_listWithin ends _) partRead fun among => absent (inside.subset among)).2

end Css
end SlimSvg
