import Mathlib.Data.Bool.AllAny
import SlimSvg.Proofs.Value.Shortest
import SlimSvg.Proofs.Value.SpelledReferences

namespace SlimSvg

/-!
# Custom properties in values

Whether a text refers to a custom property is asked of texts, while two values are
compared by their shortest texts.  The shortest text refers to a custom property
exactly if the text does: the only place where one can stand in a text that is read
is the id of a reference, and ids are written as they are.
-/

namespace Text

/-- Whether a text refers to a custom property. -/
def Variable (cs : List Char) : Prop :=
  ['v', 'a', 'r', '('] <:+: cs

section Variable

variable {cs before after : List Char}

theorem hasVariable_iff (s : String) : hasVariable s = true ↔ Variable s.toList :=
  hasPiece_iff ['v', 'a', 'r', '('] s.toList

theorem not_variable_of_notMem {c : Char} (needed : c ∈ ['v', 'a', 'r', '(']) (absent : c ∉ cs) :
    ¬ Variable cs :=
  fun occurs => absent (occurs.subset needed)

theorem variable_append_cons_iff {c : Char} (apart : c ∉ ['v', 'a', 'r', '(']) :
    Variable (before ++ c :: after) ↔ Variable before ∨ Variable after :=
  infix_append_cons_iff apart before after

theorem notMem_of_isWhiteSpace {c : Char} (blank : isWhiteSpace c = true) : c ∉ ['v', 'a', 'r', '('] := by
  simp only [List.mem_cons, List.not_mem_nil, or_false]
  rintro (rfl | rfl | rfl | rfl) <;> exact absurd blank (by decide)

theorem variable_append_iff {back : List Char} (apart : ∀ c ∈ back, c ∉ ['v', 'a', 'r', '(']) :
    Variable (cs ++ back) ↔ Variable cs :=
  infix_append_right_iff (List.cons_ne_nil _ _) apart cs

theorem variable_trimChars_iff (cs : List Char) : Variable (trimChars cs) ↔ Variable cs := by
  rcases exists_append_trimChars cs with ⟨front, back, same, frontBlank, backBlank, -⟩
  have around : Variable (front ++ trimChars cs ++ back) ↔ Variable (trimChars cs) := by
    rw [variable_append_iff fun c listed => notMem_of_isWhiteSpace (backBlank c listed)]
    exact infix_append_left_iff (List.cons_ne_nil _ _)
      (fun c listed => notMem_of_isWhiteSpace (frontBlank c listed)) (trimChars cs)
  rw [← same] at around
  exact around.symm

theorem hasVariable_trim (s : String) : hasVariable (trim s) = hasVariable s := by
  rw [Bool.eq_iff_iff, hasVariable_iff, hasVariable_iff, toList_trim, variable_trimChars_iff]

end Variable

end Text

open Text (Variable)

/-! ## Scanners that pass over no custom property -/

/-- Whether a piece of text cannot stand in a colour: the beginning of a custom property, or
of a reference. -/
structure IsForeign (piece : List Char) : Prop where
  opened : '(' ∈ piece
  named : 'v' ∈ piece ∨ 'u' ∈ piece
  solid : ∀ c ∈ piece, Text.isXmlSpace c = false

theorem isForeign_variable : IsForeign ['v', 'a', 'r', '('] where
  opened := by decide
  named := by decide
  solid := List.all_iff_forall_prop.mp (by decide)

theorem isForeign_reference : IsForeign ['u', 'r', 'l', '('] where
  opened := by decide
  named := by decide
  solid := List.all_iff_forall_prop.mp (by decide)

/-- The characters of blanks, numbers and punctuation, by what they are not. -/
def IsPlain (c : Char) : Prop :=
  c ≠ 'v' ∧ c ≠ 'u' ∧ c ≠ '('

instance : DecidablePred IsPlain :=
  fun c => inferInstanceAs (Decidable (c ≠ 'v' ∧ c ≠ 'u' ∧ c ≠ '('))

/-- Whether what stands before a rest is blanks, numbers and punctuation. -/
def Passes (cs rest : List Char) : Prop :=
  ∃ taken, cs = taken ++ rest ∧ ∀ c ∈ taken, IsPlain c

namespace Passes

variable {cs mid rest : List Char}

theorem refl (cs : List Char) : Passes cs cs :=
  ⟨[], rfl, fun _ impossible => nomatch impossible⟩

theorem trans (first : Passes cs mid) (second : Passes mid rest) : Passes cs rest := by
  rcases first with ⟨taken, rfl, plain⟩
  rcases second with ⟨further, rfl, furtherPlain⟩
  refine ⟨taken ++ further, (List.append_assoc _ _ _).symm, ?_⟩
  intro c listed
  rcases List.mem_append.mp listed with before | behind
  · exact plain c before
  · exact furtherPlain c behind

theorem cons {c : Char} (plain : IsPlain c) (passes : Passes cs rest) : Passes (c :: cs) rest :=
  trans ⟨[c], rfl, fun _ listed => List.mem_singleton.mp listed ▸ plain⟩ passes

theorem notMem {c : Char} (passes : Passes cs rest) (special : ¬ IsPlain c) (absent : c ∉ rest) : c ∉ cs := by
  rcases passes with ⟨taken, rfl, plain⟩
  intro listed
  rcases List.mem_append.mp listed with before | behind
  · exact special (plain c before)
  · exact absent behind

end Passes

section Scanners

variable {cs rest : List Char}

theorem isPlain_of_blank {c : Char} (blank : Text.isXmlSpace c = true) : IsPlain c :=
  ⟨Value.ne_of_blank blank rfl, Value.ne_of_blank blank rfl, Value.ne_of_blank blank rfl⟩

theorem isPlain_of_isNumeric {c : Char} (numeric : Value.IsNumeric c) : IsPlain c := by
  have others : ∀ d ∈ ['v', 'u', '('], c ≠ d := by
    rintro d listed rfl
    have none : ∀ d ∈ ['v', 'u', '('], ¬ Value.IsNumeric d := by
      unfold Value.IsNumeric
      exact List.all_iff_forall_prop.mp (by decide)
    exact none c listed numeric
  exact ⟨others 'v' (by decide), others 'u' (by decide), others '(' (by decide)⟩

theorem passes_skipSpaces (cs : List Char) : Passes cs (Value.skipSpaces cs) :=
  ⟨cs.takeWhile Text.isXmlSpace, List.takeWhile_append_dropWhile.symm,
    fun _ listed => isPlain_of_blank (List.mem_takeWhile_imp listed)⟩

theorem passes_skipSeparator (cs : List Char) : Passes cs (Value.skipSeparator cs) := by
  have blanks := passes_skipSpaces cs
  unfold Value.skipSeparator
  split
  · next rest found =>
    rw [found] at blanks
    exact blanks.trans (.cons (by decide) (.refl rest))
  · exact blanks

theorem passes_scanNumber? {x : Number.Binary} (found : Value.scanNumber? cs = some (x, rest)) :
    Passes cs rest := by
  rcases Value.exists_reads_of_scanNumber? found with ⟨front, lexeme, rfl, blank, reads, -⟩
  refine ⟨front ++ lexeme, (List.append_assoc _ _ _).symm, ?_⟩
  intro c listed
  rcases List.mem_append.mp listed with before | behind
  · exact isPlain_of_blank (blank c before)
  · exact isPlain_of_isNumeric (reads.numeric c behind)

theorem passes_scanListNumber? {x : Number.Binary} (found : Value.scanListNumber? cs = some (x, rest)) :
    Passes cs rest := by
  rcases Option.map_eq_some_iff.mp found with ⟨⟨number, behind⟩, scanned, same⟩
  rw [← (Prod.mk.inj same).2]
  exact (passes_scanNumber? scanned).trans (passes_skipSeparator behind)

end Scanners

/-! ## Colours -/

namespace Color

section Scan

variable {cs rest : List Char}

theorem passes_scanShare? {x : Number.Binary} (found : scanShare? cs = some (x, rest)) : Passes cs rest := by
  rcases Option.bind_eq_some_iff.mp found with ⟨⟨number, behind⟩, scanned, found⟩
  have passes := passes_scanNumber? scanned
  dsimp only at found
  split at found
  · next after =>
    rw [← (Prod.mk.inj (Option.some.inj found)).2]
    exact passes.trans (.cons (by decide) (passes_skipSeparator after))
  · rw [← (Prod.mk.inj (Option.some.inj found)).2]
    exact passes.trans (passes_skipSeparator _)

theorem passes_scanOpacity? {alpha : UInt8} (found : scanOpacity? cs = some (alpha, rest)) :
    Passes cs rest := by
  have blanks := passes_skipSpaces cs
  unfold scanOpacity? at found
  split at found
  · next after skipped =>
    rw [skipped] at blanks
    rw [← (Prod.mk.inj (Option.some.inj found)).2]
    exact blanks.trans (.cons (by decide) (.refl after))
  · rcases Option.bind_eq_some_iff.mp found with ⟨⟨number, behind⟩, scanned, found⟩
    have passes := blanks.trans ((passes_scanListNumber? scanned).trans (passes_skipSpaces behind))
    dsimp only at found
    split at found
    · next after skipped =>
      rw [skipped] at passes
      rw [← (Prod.mk.inj (Option.some.inj found)).2]
      exact passes.trans (.cons (by decide) (.refl after))
    · cases found

theorem passes_scanRgb? {c : Color} (found : scanRgb? cs = some (c, rest)) : Passes cs rest := by
  rcases Option.bind_eq_some_iff.mp found with ⟨⟨first, behind⟩, scannedFirst, found⟩
  refine (passes_scanNumber? scannedFirst).trans ?_
  dsimp only at found
  split at found
  · next after =>
    rcases Option.bind_eq_some_iff.mp found with ⟨⟨second, afterSecond⟩, scannedSecond, found⟩
    rcases Option.bind_eq_some_iff.mp found with ⟨⟨third, afterThird⟩, scannedThird, found⟩
    rcases Option.bind_eq_some_iff.mp found with ⟨channels, channelsEq, found⟩
    rw [← Option.some.inj channelsEq] at found
    rcases Option.bind_eq_some_iff.mp found with ⟨⟨alpha, last⟩, scannedAlpha, found⟩
    rw [← (Prod.mk.inj (Option.some.inj found)).2]
    exact .cons (by decide) ((passes_skipSeparator after).trans ((passes_scanShare? scannedSecond).trans
      ((passes_scanShare? scannedThird).trans (passes_scanOpacity? scannedAlpha))))
  · rcases Option.bind_eq_some_iff.mp found with ⟨⟨second, afterSecond⟩, scannedSecond, found⟩
    rcases Option.bind_eq_some_iff.mp found with ⟨⟨third, afterThird⟩, scannedThird, found⟩
    rcases Option.bind_eq_some_iff.mp found with ⟨channels, channelsEq, found⟩
    rw [← Option.some.inj channelsEq] at found
    rcases Option.bind_eq_some_iff.mp found with ⟨⟨alpha, last⟩, scannedAlpha, found⟩
    rw [← (Prod.mk.inj (Option.some.inj found)).2]
    exact (passes_skipSeparator _).trans ((passes_scanListNumber? scannedSecond).trans
      ((passes_scanListNumber? scannedThird).trans (passes_scanOpacity? scannedAlpha)))

theorem passes_scanHsl? {c : Color} (found : scanHsl? cs = some (c, rest)) : Passes cs rest := by
  rcases Option.bind_eq_some_iff.mp found with ⟨⟨angle, afterFirst⟩, scannedFirst, found⟩
  rcases Option.bind_eq_some_iff.mp found with ⟨⟨saturation, afterSecond⟩, scannedSecond, found⟩
  rcases Option.bind_eq_some_iff.mp found with ⟨⟨lightness, afterThird⟩, scannedThird, found⟩
  rcases Option.bind_eq_some_iff.mp found with ⟨⟨alpha, last⟩, scannedAlpha, found⟩
  rw [← (Prod.mk.inj (Option.some.inj found)).2]
  exact (passes_scanListNumber? scannedFirst).trans ((passes_scanShare? scannedSecond).trans
    ((passes_scanShare? scannedThird).trans (passes_scanOpacity? scannedAlpha)))

/-- Whether some text was taken off that has no parenthesis, or none of two letters. -/
def TakesPlain (cs rest : List Char) : Prop :=
  ∃ taken, cs = taken ++ rest ∧ ('(' ∉ taken ∨ 'v' ∉ taken ∧ 'u' ∉ taken)

theorem takesPlain_of_word {word : List Char} (solid : '(' ∉ word)
    (skipped : Value.skipSpaces cs = word ++ rest) : TakesPlain cs rest := by
  rcases passes_skipSpaces cs with ⟨blanks, csEq, blanksPlain⟩
  refine ⟨blanks ++ word, ?_, Or.inl ?_⟩
  · rw [List.append_assoc, ← skipped]
    exact csEq
  · rw [List.mem_append, not_or]
    exact ⟨fun listed => (blanksPlain _ listed).2.2 rfl, solid⟩

theorem takesPlain_of_function {name arguments : List Char} (solid : ∀ c ∈ ['v', 'u'], c ∉ name)
    (passes : Passes arguments rest) (skipped : Value.skipSpaces cs = name ++ '(' :: arguments) :
    TakesPlain cs rest := by
  rcases passes_skipSpaces cs with ⟨blanks, csEq, blanksPlain⟩
  rcases passes with ⟨inside, rfl, plain⟩
  have absent : ∀ c ∈ ['v', 'u'], c ∉ blanks ++ name ++ '(' :: inside := by
    intro c letter
    have special : ¬ IsPlain c := by
      have all : ∀ c ∈ ['v', 'u'], ¬ IsPlain c := List.all_iff_forall_prop.mp (by decide)
      exact all c letter
    have other : c ≠ '(' := by
      rintro rfl
      cases letter with | tail _ letter => cases letter with | tail _ none => cases none
    simp only [List.mem_append, List.mem_cons, not_or]
    exact ⟨⟨fun listed => special (blanksPlain c listed), solid c letter⟩, other,
      fun listed => special (plain c listed)⟩
  refine ⟨blanks ++ name ++ '(' :: inside, ?_, Or.inr ⟨absent 'v' (by decide), absent 'u' (by decide)⟩⟩
  rw [List.append_assoc, List.append_assoc]
  exact csEq.trans (congrArg (blanks ++ ·) skipped)

theorem notMem_of_name {name : List Char} {first second : String}
    (lack : ∀ c ∈ ['v', 'u'], c ∉ first.toList ∧ c ∉ second.toList)
    (named : (Text.toAsciiLower (String.ofList name) == first || Text.toAsciiLower (String.ofList name) == second) =
      true) : ∀ c ∈ ['v', 'u'], c ∉ name := by
  intro c letter
  have small : ∀ c ∈ ['v', 'u'], c.toLower = c := List.all_iff_forall_prop.mp (by decide)
  have lacks : ∀ {lower : String}, c ∉ lower.toList → Text.toAsciiLower (String.ofList name) = lower → c ∉ name := by
    intro lower absent same listed
    rw [← same, Text.toAsciiLower, String.toList_map, String.toList_ofList] at absent
    exact absent (List.mem_map.mpr ⟨c, listed, small c letter⟩)
  rw [Bool.or_eq_true, beq_iff_eq, beq_iff_eq] at named
  rcases named with same | same
  · exact lacks (lack c letter).1 same
  · exact lacks (lack c letter).2 same

/-- The text of a colour lacks a parenthesis or two letters: a keyword or a code has no
parenthesis, and the names of the two notations and what stands between their
parentheses have no `v` and no `u`. -/
theorem takesPlain_of_scan? {c : Color} (found : scan? cs = some (c, rest)) : TakesPlain cs rest := by
  unfold scan? at found
  split at found
  · next digits skipped =>
    rcases Option.bind_eq_some_iff.mp found with ⟨color, -, same⟩
    have restEq := (Prod.mk.inj (Option.some.inj same)).2
    have solid : '(' ∉ '#' :: digits.takeWhile isHexDigit := by
      rw [List.mem_cons, not_or]
      exact ⟨by decide, fun listed => absurd (List.mem_takeWhile_imp listed) (by decide)⟩
    apply takesPlain_of_word solid
    rw [skipped, ← restEq, List.cons_append, List.takeWhile_append_dropWhile]
  · have split : Value.skipSpaces cs = (Value.skipSpaces cs).takeWhile isKeywordChar ++
        (Value.skipSpaces cs).dropWhile isKeywordChar := List.takeWhile_append_dropWhile.symm
    have solid : '(' ∉ (Value.skipSpaces cs).takeWhile isKeywordChar :=
      fun listed => absurd (List.mem_takeWhile_imp listed) (by decide)
    generalize (Value.skipSpaces cs).takeWhile isKeywordChar = name at found split solid
    generalize (Value.skipSpaces cs).dropWhile isKeywordChar = behind at found split
    dsimp only at found
    split at found
    · next named =>
      split at found
      · exact takesPlain_of_function (notMem_of_name (List.all_iff_forall_prop.mp (by decide)) named) (passes_scanRgb? found) split
      · cases found
    · split at found
      · next named =>
        split at found
        · exact takesPlain_of_function (notMem_of_name (List.all_iff_forall_prop.mp (by decide)) named) (passes_scanHsl? found) split
        · cases found
      · split at found
        · have restEq := (Prod.mk.inj (Option.some.inj found)).2
          exact takesPlain_of_word solid (restEq ▸ split)
        · rcases Option.map_eq_some_iff.mp found with ⟨code, -, same⟩
          have restEq := (Prod.mk.inj same).2
          exact takesPlain_of_word solid (restEq ▸ split)

/-- A colour that is read has no foreign piece. -/
theorem not_infix_of_read? {piece : List Char} (foreign : IsForeign piece) {c : Color} (found : read? cs = some c) :
    ¬ piece <:+: cs := by
  rcases Option.bind_eq_some_iff.mp found with ⟨⟨color, rest⟩, scanned, ended⟩
  rcases takesPlain_of_scan? scanned with ⟨taken, rfl, lacks⟩
  dsimp only at ended
  split at ended
  · next blank =>
    have passes := passes_skipSpaces rest
    rw [List.isEmpty_iff.mp blank] at passes
    have absent {d : Char} (needed : d ∈ piece) (special : ¬ IsPlain d) (away : d ∉ taken) :
        ¬ piece <:+: taken ++ rest := by
      intro occurs
      rcases List.mem_append.mp (occurs.subset needed) with before | behind
      · exact away before
      · exact passes.notMem special List.not_mem_nil behind
    rcases lacks with noParenthesis | noLetter
    · exact absent foreign.opened (by decide) noParenthesis
    · rcases foreign.named with named | named
      · exact absent named (by decide) noLetter.1
      · exact absent named (by decide) noLetter.2
  · cases ended

theorem hexDigit_ne_parenthesis {n : Nat} (small : n < 16) : hexDigit n ≠ '(' := by
  have all : ∀ n < 16, hexDigit n ≠ '(' := by decide
  exact all n small

/-- Written colours mention no custom property. -/
theorem notMem_write (c : Color) : '(' ∉ c.write.toList := by
  have byte : ∀ b : UInt8, hexDigit (b.toNat / 16) ≠ '(' ∧ hexDigit (b.toNat % 16) ≠ '(' := by
    intro b
    have size := b.toNat_lt
    exact ⟨hexDigit_ne_parenthesis (by omega), hexDigit_ne_parenthesis (by omega)⟩
  have hex : '(' ∉ c.hexForm.toList := by
    rw [hexForm]
    split
    · rw [String.toList_ofList]
      simp only [List.map_cons, List.map_nil, List.mem_cons, List.not_mem_nil, or_false, not_or]
      exact ⟨by decide, (byte _).2.symm, (byte _).2.symm, (byte _).2.symm⟩
    · rw [String.toList_ofList]
      simp only [List.flatMap_cons, List.flatMap_nil, List.append_nil, List.cons_append, List.nil_append,
        List.mem_cons, List.not_mem_nil, or_false, not_or]
      exact ⟨by decide, (byte _).1.symm, (byte _).2.symm, (byte _).1.symm, (byte _).2.symm,
        (byte _).1.symm, (byte _).2.symm⟩
  rw [write]
  split
  · next name code found =>
    have listed := List.mem_of_find?_eq_some found
    split
    · have all : ∀ p ∈ shortKeywords, '(' ∉ p.1.toList := by decide
      exact all _ listed
    · exact hex
  · exact hex

end Scan

end Color

/-! ## References -/

namespace Reference

section Scan

variable {cs rest id : List Char}

theorem notMem_of_blank {c : Char} (blank : Text.isXmlSpace c = true) : c ∉ ['v', 'a', 'r', '('] :=
  Text.notMem_of_isWhiteSpace (Text.isWhiteSpace_of_isXmlSpace blank)

theorem notMem_of_isAround {c : Char} (around : IsAround c) : c ∉ ['v', 'a', 'r', '('] := by
  rcases around with blank | quote
  · exact Text.notMem_of_isWhiteSpace blank
  · rw [isQuote, Bool.or_eq_true, beq_iff_eq, beq_iff_eq] at quote
    rcases quote with rfl | rfl <;> decide

/-- The parts of a reference around its id mention no custom property. -/
theorem variable_around_id {front run between : List Char} (frontPlain : 'v' ∉ front)
    (betweenApart : ∀ c ∈ between, c ∉ ['v', 'a', 'r', '(']) (rest : List Char) :
    Variable (front ++ '#' :: (run ++ (between ++ ')' :: rest))) ↔ Variable run ∨ Variable rest := by
  have noneBefore : ¬ Variable front := Text.not_variable_of_notMem (by decide) frontPlain
  rw [Text.variable_append_cons_iff (by decide), or_iff_right noneBefore, ← List.append_assoc,
    Text.variable_append_cons_iff (by decide), Text.variable_append_iff betweenApart]

/-- In a reference that is read, a custom property can stand in the id only. -/
theorem variable_iff_of_scanFunction? (found : scanFunction? cs = some (id, rest)) :
    Variable cs ↔ Variable id ∨ Variable rest := by
  rcases exists_spells_of_scanFunction? found with ⟨quote, before, lead, closing, spells⟩
  rcases spells.closes.exists_around with ⟨between, rfl, around⟩
  have noV {front : List Char} (apart : ∀ c ∈ front, c ∉ ['v', 'a', 'r', '(']) : 'v' ∉ front :=
    fun listed => apart _ listed List.mem_cons_self
  have plain : 'v' ∉ before ++ 'u' :: 'r' :: 'l' :: '(' :: lead := by
    simp only [List.mem_append, List.mem_cons, not_or]
    exact ⟨noV fun c listed => notMem_of_blank (spells.blank c listed), by decide, by decide, by decide, by decide,
      noV fun c listed => notMem_of_isAround (spells.opens.isAround c listed)⟩
  have grouped : cs = (before ++ 'u' :: 'r' :: 'l' :: '(' :: lead) ++ '#' :: (id ++ (between ++ ')' :: rest)) := by
    rw [spells.text, List.append_assoc]
    rfl
  rw [grouped]
  exact variable_around_id plain (fun c listed => notMem_of_isAround (around c listed)) rest

/-- A written reference mentions what its id mentions, or what stands behind it. -/
theorem variable_function_iff (id : List Char) (behind : String) :
    Variable ("url(#" ++ String.ofList id ++ ")" ++ behind).toList ↔ Variable id ∨ Variable behind.toList := by
  have nothing : ∀ c ∈ ([] : List Char), c ∉ ['v', 'a', 'r', '('] := fun _ impossible => nomatch impossible
  have front : 'v' ∉ ['u', 'r', 'l', '('] := by decide
  have same : ("url(#" ++ String.ofList id ++ ")" ++ behind).toList =
      ['u', 'r', 'l', '('] ++ '#' :: (id ++ ([] ++ ')' :: behind.toList)) := by
    simp
  rw [same]
  exact variable_around_id front nothing behind.toList

theorem not_infix_of_blank {piece : List Char} (foreign : IsForeign piece) (blank : Value.skipSpaces cs = []) :
    ¬ piece <:+: cs := by
  have passes := passes_skipSpaces cs
  rw [blank] at passes
  exact fun occurs => passes.notMem (by decide) List.not_mem_nil (occurs.subset foreign.opened)

theorem variable_write_of_readFunction? {r : Reference} (found : readFunction? cs = some r) :
    Variable r.write.toList ↔ Variable cs := by
  rcases Option.bind_eq_some_iff.mp found with ⟨⟨id, rest⟩, scanned, ended⟩
  dsimp only at ended
  split at ended
  · next blank =>
    have noRest : ¬ Variable rest := not_infix_of_blank isForeign_variable (List.isEmpty_iff.mp blank)
    have written := variable_function_iff id ""
    rw [String.append_empty] at written
    rw [← Option.some.inj ended, variable_iff_of_scanFunction? scanned, or_iff_left noRest]
    exact written.trans (or_iff_left (Text.not_variable_of_notMem (c := 'v') (by decide) (by decide)))
  · cases ended

theorem variable_write_of_readFragment? {r : Reference} (found : readFragment? cs = some r) :
    Variable r.write.toList ↔ Variable cs := by
  have hashed : ∀ {front : List Char} (tail : List Char), 'v' ∉ front →
      (Variable (front ++ '#' :: tail) ↔ Variable tail) := by
    intro front tail absent
    rw [Text.variable_append_cons_iff (by decide)]
    exact or_iff_right (Text.not_variable_of_notMem (by decide) absent)
  rcases Option.bind_eq_some_iff.mp found with ⟨behind, hash, ended⟩
  rcases exists_blanks_append cs with ⟨blanks, csEq, before⟩
  dsimp only at ended
  split at ended
  · cases ended
  · split at ended
    · next blank =>
      have blankRest : ∀ c ∈ behind.dropWhile (· != ' '), c ∉ ['v', 'a', 'r', '('] :=
        fun c listed => notMem_of_blank (List.dropWhile_eq_nil_iff.mp (List.isEmpty_iff.mp blank) c listed)
      have shorter : Variable (behind.takeWhile (· != ' ') ++ behind.dropWhile (· != ' ')) ↔
          Variable (behind.takeWhile (· != ' ')) := Text.variable_append_iff blankRest
      rw [List.takeWhile_append_dropWhile] at shorter
      have written : (write (.fragment (String.ofList (behind.takeWhile (· != ' '))))).toList =
          [] ++ '#' :: behind.takeWhile (· != ' ') := by
        simp [write]
      have noV : 'v' ∉ blanks := fun listed => notMem_of_blank (before 'v' listed) List.mem_cons_self
      have whole : cs = blanks ++ '#' :: behind := by
        rw [csEq, Text.eq_append_of_isPrefixOf? hash]
        rfl
      rw [← Option.some.inj ended, written, hashed _ List.not_mem_nil, whole, hashed _ noV]
      exact shorter.symm
    · cases ended

/-- A reference that is read is written with the same custom properties. -/
theorem variable_write_iff {s : String} {r : Reference} (found : read? s = some r) :
    Variable r.write.toList ↔ Variable (Text.trimChars s.toList) := by
  unfold read? at found
  generalize Text.trimChars s.toList = cs at found
  dsimp only at found
  split at found
  · rw [← Option.some.inj found]
    exact iff_of_false (Text.not_variable_of_notMem (c := '(') (by decide) (by decide))
      (Text.not_variable_of_notMem (c := '(') (by decide) (by decide))
  · exact variable_write_of_readFunction? found
  · exact variable_write_of_readFragment? found
  · cases found

end Scan

end Reference

/-! ## Paints -/

namespace Paint

/-- What is read behind a reference has no foreign piece. -/
theorem not_infix_of_fallback? {piece cs : List Char} (foreign : IsForeign piece) {fallback : Option PaintFallback}
    (found : fallback? cs = some fallback) : ¬ piece <:+: cs := by
  have passes := passes_skipSpaces cs
  have lacking : ∀ {word : String}, '(' ∉ word.toList → String.ofList (Value.skipSpaces cs) = word →
      ¬ piece <:+: cs := by
    intro word absent same occurs
    rw [← same, String.toList_ofList] at absent
    exact passes.notMem (by decide) absent (occurs.subset foreign.opened)
  unfold fallback? at found
  split at found
  · next blank => exact Reference.not_infix_of_blank foreign blank
  · dsimp only at found
    split at found
    · next word => exact lacking (by decide) (eq_of_beq word)
    · split at found
      · next word => exact lacking (by decide) (eq_of_beq word)
      · rcases Option.map_eq_some_iff.mp found with ⟨c, opaqueColor, -⟩
        have readColor := (Option.filter_eq_some_iff.mp opaqueColor).1
        have skipped := Color.not_infix_of_read? foreign readColor
        rcases Reference.exists_blanks_append cs with ⟨blanks, same, blank⟩
        have apart : ∀ c ∈ blanks, c ∉ piece := by
          intro c listed own
          have solid := foreign.solid c own
          rw [blank c listed] at solid
          cases solid
        rw [same]
        exact fun occurs => skipped ((Text.infix_append_left_iff (List.ne_nil_of_mem foreign.opened) apart _).mp occurs)

theorem notMem_writeFallback (fallback : Option PaintFallback) : '(' ∉ (writeFallback fallback).toList := by
  unfold writeFallback
  split
  · decide
  · decide
  · decide
  · next c =>
    rw [String.toList_append, List.mem_append, not_or]
    exact ⟨by decide, Color.notMem_write c⟩

theorem variable_write_iff {s : String} {paint : Paint} (found : read? s = some paint) :
    Variable paint.write.toList ↔ Variable (Text.trimChars s.toList) := by
  rw [read?] at found
  generalize Text.trimChars s.toList = cs at found
  dsimp only at found
  have lacking : ∀ {word : String}, '(' ∉ word.toList → (String.ofList cs == word) = true →
      ¬ Variable cs := by
    intro word absent same
    rw [← eq_of_beq same, String.toList_ofList] at absent
    exact Text.not_variable_of_notMem (by decide) absent
  have noParenthesis : ∀ {cs : List Char}, '(' ∉ cs → ¬ Variable cs :=
    fun absent => Text.not_variable_of_notMem (by decide) absent
  split at found
  · next word =>
    rw [← Option.some.inj found]
    exact iff_of_false (noParenthesis (by decide)) (lacking (by decide) word)
  · split at found
    · cases found
    · split at found
      · next word =>
        rw [← Option.some.inj found]
        exact iff_of_false (noParenthesis (by decide)) (lacking (by decide) word)
      · split at found
        · next word =>
          rw [← Option.some.inj found]
          exact iff_of_false (noParenthesis (by decide)) (lacking (by decide) word)
        · split at found
          · next word =>
            rw [← Option.some.inj found]
            exact iff_of_false (noParenthesis (by decide)) (lacking (by decide) word)
          · split at found
            · rcases Option.bind_eq_some_iff.mp found with ⟨⟨id, rest⟩, scanned, found⟩
              rcases Option.bind_eq_some_iff.mp found with ⟨fallback, behind, same⟩
              have noRest : ¬ Variable rest := not_infix_of_fallback? isForeign_variable behind
              rw [← Option.some.inj same, Reference.variable_iff_of_scanFunction? scanned, or_iff_left noRest]
              exact (Reference.variable_function_iff id _).trans
                (or_iff_left (noParenthesis (notMem_writeFallback fallback)))
            · rcases Option.map_eq_some_iff.mp found with ⟨c, opaqueColor, same⟩
              have readColor := (Option.filter_eq_some_iff.mp opaqueColor).1
              rw [← same]
              exact iff_of_false (noParenthesis (Color.notMem_write c)) (Color.not_infix_of_read? isForeign_variable readColor)

end Paint

/-! ## Shortest texts -/

namespace TextForm

/-- Whether the written form of what is read refers to a custom property exactly if the
text does. -/
def KeepsVariables (α : Type) [TextForm α] : Prop :=
  ∀ {s : String} {a : α}, TextForm.read? s = some a →
    Text.hasVariable (TextForm.write a) = Text.hasVariable s

end TextForm

theorem Cached.hasVariable_minified {α : Type} [TextForm α] (keeps : TextForm.KeepsVariables α) (s : String) :
    Text.hasVariable (ofText s : Cached α).minified = Text.hasVariable s := by
  cases read : (TextForm.read? s : Option α) with
  | none => rw [minified_of_unread read, Text.hasVariable_trim]
  | some a =>
      rw [minified_of_read? read]
      split
      · exact keeps read
      · exact Text.hasVariable_trim s

section Types

theorem notMem_compact (x : Number.Binary) : '(' ∉ x.compact.toList := by
  intro listed
  rw [Number.Binary.compact, String.toList_ofList] at listed
  exact (isPlain_of_isNumeric (isNumeric_of_mem_compactChars listed)).2.2 rfl

/-- Neither of two texts without a parenthesis refers to a custom property. -/
theorem hasVariable_eq_of_notMem {s t : String} (first : '(' ∉ s.toList) (second : '(' ∉ t.toList) :
    Text.hasVariable s = Text.hasVariable t := by
  rw [Bool.eq_iff_iff, Text.hasVariable_iff, Text.hasVariable_iff]
  exact iff_of_false (Text.not_variable_of_notMem (by decide) first)
    (Text.not_variable_of_notMem (by decide) second)

theorem Paint.keepsVariables : TextForm.KeepsVariables Paint := by
  intro s paint read
  rw [Bool.eq_iff_iff, Text.hasVariable_iff, Text.hasVariable_iff, ← Text.variable_trimChars_iff s.toList]
  exact variable_write_iff read

theorem Reference.keepsVariables : TextForm.KeepsVariables Reference := by
  intro s r read
  rw [Bool.eq_iff_iff, Text.hasVariable_iff, Text.hasVariable_iff, ← Text.variable_trimChars_iff s.toList]
  exact variable_write_iff read

theorem Numeral.keepsVariables : TextForm.KeepsVariables Numeral := by
  intro s n read
  rcases Numeral.read?_eq_some.mp read with ⟨rest, scanned, blank⟩
  apply hasVariable_eq_of_notMem (notMem_compact n.number)
  refine (passes_scanNumber? scanned).notMem (by decide) ?_
  exact fun listed => (isPlain_of_blank (blank _ listed)).2.2 rfl

theorem Fraction.keepsVariables : TextForm.KeepsVariables Fraction := by
  intro s f read
  rcases Fraction.read?_eq_some.mp read with ⟨number, percent, rfl, scanned⟩
  apply hasVariable_eq_of_notMem (notMem_compact _)
  refine (passes_scanNumber? scanned).notMem (by decide) ?_
  cases percent <;> decide

theorem Length.notMem_suffix (unit : LengthUnit) : '(' ∉ unit.suffix.toList := by
  cases unit <;> decide

theorem Length.keepsVariables : TextForm.KeepsVariables Length := by
  intro s l read
  change readExact? (Text.trim s) = some l at read
  rw [readExact?] at read
  rcases Option.bind_eq_some_iff.mp read with ⟨⟨number, rest⟩, scanned, unitFound⟩
  rcases Option.bind_eq_some_iff.mp unitFound with ⟨unit, suffix, same⟩
  have spelled := List.find?_some suffix
  rw [beq_iff_eq] at spelled
  have restEq : rest = unit.suffix.toList := by rw [spelled, String.toList_ofList]
  rw [← Text.hasVariable_trim s, ← Option.some.inj same]
  apply hasVariable_eq_of_notMem
  · change '(' ∉ (write ⟨number, unit⟩).toList
    rw [write]
    split
    · exact notMem_compact _
    · rw [String.toList_append, List.mem_append, not_or]
      exact ⟨notMem_compact _, notMem_suffix unit⟩
  · refine (passes_scanNumber? scanned).notMem (by decide) ?_
    rw [restEq]
    exact notMem_suffix unit

end Types

/-- The shortest text of a property refers to a custom property exactly if its text does. -/
theorem PropertyValue.hasVariable_minified {property : String} (other : property ≠ "transform")
    (text : String) : Text.hasVariable (ofText property text).minified = Text.hasVariable text := by
  have simple := simpleType_ofText other
  generalize ofText property = read at simple
  cases simple with
  | generic => exact Text.hasVariable_trim text
  | paint => exact Cached.hasVariable_minified Paint.keepsVariables text
  | length => exact Cached.hasVariable_minified Length.keepsVariables text
  | lengthPercentage => exact Cached.hasVariable_minified Length.keepsVariables text
  | number => exact Cached.hasVariable_minified Numeral.keepsVariables text
  | url => exact Cached.hasVariable_minified Reference.keepsVariables text
  | opacity => exact Cached.hasVariable_minified Fraction.keepsVariables text

end SlimSvg
