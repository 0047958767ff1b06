import SlimSvg.Proofs.Number.ReadBack
import SlimSvg.Proofs.Text.Trim

namespace SlimSvg
namespace Value

/-!
# What the number scanner takes

The scanner splits a text into blanks, the characters of a number and the rest, and
blanks at the end of the text always go into the rest.  The number that it gives is a
value of the format.
-/

open Number

/-! ## The parts are cut from the front -/

/-- The characters of numbers with an exponent. -/
def IsNumeric (c : Char) : Prop :=
  c.isDigit = true ∨ c ∈ ['.', '+', '-', 'e', 'E']

theorem IsNumeric.not_isWhiteSpace {c : Char} (numeric : IsNumeric c) : Text.isWhiteSpace c = false := by
  rcases numeric with digit | listed
  · simp only [Char.isDigit, Bool.and_eq_true, decide_eq_true_eq, ge_iff_le, UInt32.le_iff_toNat_le] at digit
    have size : c.toNat = c.val.toNat := rfl
    have lower : 48 ≤ c.toNat := digit.1
    have upper : c.toNat ≤ 57 := digit.2
    simp only [Text.isWhiteSpace, Bool.or_eq_false_iff, Bool.and_eq_false_iff, decide_eq_false_iff_not,
      beq_eq_false_iff_ne]
    omega
  · simp only [List.mem_cons, List.not_mem_nil, or_false] at listed
    rcases listed with rfl | rfl | rfl | rfl | rfl <;> rfl

section Parts

variable {cs : List Char}

theorem splitSign_spec (cs : List Char) :
    cs = (splitSign cs).1 ++ (splitSign cs).2 ∧ ∀ c ∈ (splitSign cs).1, IsNumeric c := by
  unfold splitSign
  split
  · refine ⟨rfl, fun c listed => ?_⟩
    rw [List.mem_singleton.mp listed]
    exact Or.inr (by decide)
  · refine ⟨rfl, fun c listed => ?_⟩
    rw [List.mem_singleton.mp listed]
    exact Or.inr (by decide)
  · exact ⟨rfl, fun _ impossible => nomatch impossible⟩

theorem isNumeric_of_mem_takeWhile {c : Char} (listed : c ∈ cs.takeWhile Char.isDigit) : IsNumeric c :=
  Or.inl (List.mem_takeWhile_imp listed)

theorem splitFraction_spec (cs : List Char) :
    cs = (splitFraction cs).1 ++ (splitFraction cs).2 ∧ ∀ c ∈ (splitFraction cs).1, IsNumeric c := by
  unfold splitFraction
  split
  · next rest =>
    refine ⟨congrArg ('.' :: ·) List.takeWhile_append_dropWhile.symm, fun c listed => ?_⟩
    rcases List.mem_cons.mp listed with point | digit
    · rw [point]
      exact Or.inr (by decide)
    · exact isNumeric_of_mem_takeWhile digit
  · exact ⟨rfl, fun _ impossible => nomatch impossible⟩

theorem splitExponent?_spec {exponent rest : List Char} (found : splitExponent? cs = some (exponent, rest)) :
    cs = exponent ++ rest ∧ ∀ c ∈ exponent, IsNumeric c := by
  have nothing : ∀ c ∈ ([] : List Char), IsNumeric c := fun _ impossible => nomatch impossible
  unfold splitExponent? at found
  split at found
  · rcases Prod.mk.inj (Option.some.inj found) with ⟨rfl, rfl⟩
    exact ⟨rfl, nothing⟩
  · next c behind =>
    split at found
    · next letter =>
      have letterNumeric : IsNumeric c := by
        simp only [Bool.or_eq_true, beq_iff_eq] at letter
        rcases letter with rfl | rfl <;> exact Or.inr (by decide)
      split at found
      · cases found
      · next d after =>
        split at found
        · rcases Prod.mk.inj (Option.some.inj found) with ⟨rfl, rfl⟩
          exact ⟨rfl, nothing⟩
        · split at found
          · next sign =>
            rcases Prod.mk.inj (Option.some.inj found) with ⟨rfl, rfl⟩
            refine ⟨congrArg (fun tail => c :: d :: tail) List.takeWhile_append_dropWhile.symm, ?_⟩
            intro other listed
            rcases List.mem_cons.mp listed with here | listed
            · rw [here]
              exact letterNumeric
            · rcases List.mem_cons.mp listed with here | digit
              · rw [here]
                simp only [Bool.or_eq_true, beq_iff_eq] at sign
                rcases sign with rfl | rfl <;> exact Or.inr (by decide)
              · exact isNumeric_of_mem_takeWhile digit
          · split at found
            · rcases Prod.mk.inj (Option.some.inj found) with ⟨rfl, rfl⟩
              refine ⟨congrArg (c :: ·) List.takeWhile_append_dropWhile.symm, ?_⟩
              intro other listed
              rcases List.mem_cons.mp listed with here | digit
              · rw [here]
                exact letterNumeric
              · exact isNumeric_of_mem_takeWhile digit
            · cases found
    · rcases Prod.mk.inj (Option.some.inj found) with ⟨rfl, rfl⟩
      exact ⟨rfl, nothing⟩

theorem splitNumber?_spec {lexeme rest : List Char} (found : splitNumber? cs = some (lexeme, rest)) :
    cs = lexeme ++ rest ∧ ∀ c ∈ lexeme, IsNumeric c := by
  rcases splitSign_spec cs with ⟨signEq, signNumeric⟩
  rw [splitNumber?] at found
  generalize splitSign cs = parts at found signEq signNumeric
  rcases parts with ⟨sign, body⟩
  dsimp only at found signEq signNumeric
  split at found
  · rcases splitFraction_spec (body.dropWhile Char.isDigit) with ⟨fractionEq, fractionNumeric⟩
    generalize splitFraction (body.dropWhile Char.isDigit) = parts at found fractionEq fractionNumeric
    rcases parts with ⟨fraction, behind⟩
    dsimp only at found fractionEq fractionNumeric
    rcases Option.map_eq_some_iff.mp found with ⟨⟨exponent, after⟩, split, same⟩
    rcases splitExponent?_spec split with ⟨behindEq, exponentNumeric⟩
    rcases Prod.mk.inj same with ⟨rfl, rfl⟩
    constructor
    · rw [signEq, List.append_assoc, List.append_assoc, List.append_assoc, ← behindEq, ← fractionEq,
        List.takeWhile_append_dropWhile]
    · intro c listed
      simp only [List.mem_append] at listed
      rcases listed with ((inSign | inWhole) | inFraction) | inExponent
      · exact signNumeric c inSign
      · exact isNumeric_of_mem_takeWhile inWhole
      · exact fractionNumeric c inFraction
      · exact exponentNumeric c inExponent
  · cases found

end Parts

/-! ## Blanks at the end -/

section Blanks

variable {cs back : List Char}

theorem not_digit_of_blank {c : Char} (blank : Text.isXmlSpace c = true) : c.isDigit = false := by
  simp only [Text.isXmlSpace, Bool.or_eq_true, beq_iff_eq] at blank
  rcases blank with ((rfl | rfl) | rfl) | rfl <;> rfl

theorem ne_of_blank {c d : Char} (blank : Text.isXmlSpace c = true) (solid : Text.isXmlSpace d = false) :
    c ≠ d := by
  rintro rfl
  rw [solid] at blank
  cases blank

theorem splitExponent?_of_ne {c : Char} (small : c ≠ 'e') (capital : c ≠ 'E') (rest : List Char) :
    splitExponent? (c :: rest) = some ([], c :: rest) := by
  have noLetter : (c == 'e' || c == 'E') = false := by
    rw [beq_false_of_ne small, beq_false_of_ne capital]
    rfl
  unfold splitExponent?
  simp only [noLetter, Bool.false_eq_true, if_false]

variable (blank : ∀ c ∈ back, Text.isXmlSpace c = true)

include blank

theorem takeWhile_dropWhile_append (cs : List Char) :
    (cs ++ back).takeWhile Char.isDigit = cs.takeWhile Char.isDigit ∧
      (cs ++ back).dropWhile Char.isDigit = cs.dropWhile Char.isDigit ++ back := by
  induction cs with
  | nil =>
      cases back with
      | nil => exact ⟨rfl, rfl⟩
      | cons b rest =>
          have here := not_digit_of_blank (blank b List.mem_cons_self)
          constructor
          · exact List.takeWhile_cons_of_neg (by rw [here]; decide)
          · exact List.dropWhile_cons_of_neg (by rw [here]; decide)
  | cons c rest inductionHypothesis =>
      rw [List.cons_append, List.takeWhile_cons, List.takeWhile_cons, List.dropWhile_cons,
        List.dropWhile_cons, inductionHypothesis.1, inductionHypothesis.2]
      cases c.isDigit <;> exact ⟨rfl, rfl⟩

theorem splitSign_append (cs : List Char) :
    splitSign (cs ++ back) = ((splitSign cs).1, (splitSign cs).2 ++ back) := by
  cases cs with
  | nil =>
      cases back with
      | nil => rfl
      | cons b rest =>
          have here := blank b List.mem_cons_self
          rw [List.nil_append]
          unfold splitSign
          split
          · next same => exact absurd (List.cons.inj same).1 (ne_of_blank here rfl)
          · next same => exact absurd (List.cons.inj same).1 (ne_of_blank here rfl)
          · rfl
  | cons c rest =>
      rw [List.cons_append]
      by_cases plus : c = '+'
      · rw [plus]
        rfl
      · by_cases minus : c = '-'
        · rw [minus]
          rfl
        · have apart : ∀ tail, splitSign (c :: tail) = ([], c :: tail) := by
            intro tail
            unfold splitSign
            split
            · next same => exact absurd (List.cons.inj same).1 plus
            · next same => exact absurd (List.cons.inj same).1 minus
            · rfl
          rw [apart, apart]
          rfl

theorem splitFraction_append (cs : List Char) :
    splitFraction (cs ++ back) = ((splitFraction cs).1, (splitFraction cs).2 ++ back) := by
  have apart : ∀ {c : Char} {tail : List Char}, c ≠ '.' → splitFraction (c :: tail) = ([], c :: tail) := by
    intro c tail other
    unfold splitFraction
    split
    · next same => exact absurd (List.cons.inj same).1 other
    · rfl
  cases cs with
  | nil =>
      cases back with
      | nil => rfl
      | cons b rest => exact apart (ne_of_blank (blank b List.mem_cons_self) rfl)
  | cons c rest =>
      rw [List.cons_append]
      by_cases point : c = '.'
      · rcases takeWhile_dropWhile_append blank rest with ⟨taken, dropped⟩
        rw [point, splitFraction, splitFraction, taken, dropped]
      · rw [apart point, apart point]
        rfl

theorem splitExponent?_append (cs : List Char) :
    splitExponent? (cs ++ back) = (splitExponent? cs).map fun (exponent, rest) => (exponent, rest ++ back) := by
  cases cs with
  | nil =>
      cases back with
      | nil => rfl
      | cons b rest =>
          have here := blank b List.mem_cons_self
          exact splitExponent?_of_ne (ne_of_blank here rfl) (ne_of_blank here rfl) rest
  | cons c rest =>
      by_cases letter : c = 'e' ∨ c = 'E'
      · have isLetter : (c == 'e' || c == 'E') = true := by
          rcases letter with rfl | rfl <;> rfl
        cases rest with
        | nil =>
            cases back with
            | nil => rcases letter with rfl | rfl <;> rfl
            | cons b tail =>
                have here := blank b List.mem_cons_self
                have apart : ∀ {d : Char}, Text.isXmlSpace d = false → (b == d) = false :=
                  fun solid => beq_false_of_ne (ne_of_blank here solid)
                have noUnit : (b == 'm' || b == 'x') = false := by rw [apart rfl, apart rfl]; rfl
                have noSign : (b == '+' || b == '-') = false := by rw [apart rfl, apart rfl]; rfl
                have alone : splitExponent? [c] = none := by
                  unfold splitExponent?
                  simp only [isLetter, if_true]
                rw [alone, List.cons_append, List.nil_append]
                unfold splitExponent?
                simp only [isLetter, if_true, noUnit, noSign, not_digit_of_blank here, Bool.false_eq_true,
                  if_false, Option.map_none]
        | cons d after =>
            rcases takeWhile_dropWhile_append blank after with ⟨taken, dropped⟩
            rcases takeWhile_dropWhile_append blank (d :: after) with ⟨takenAll, droppedAll⟩
            rw [List.cons_append] at takenAll droppedAll
            rw [List.cons_append, List.cons_append]
            unfold splitExponent?
            simp only [isLetter, if_true, taken, dropped, takenAll, droppedAll]
            split
            · rfl
            · split
              · rfl
              · split <;> rfl
      · have small : c ≠ 'e' := fun same => letter (Or.inl same)
        have capital : c ≠ 'E' := fun same => letter (Or.inr same)
        rw [List.cons_append, splitExponent?_of_ne small capital, splitExponent?_of_ne small capital]
        rfl

/-- Blanks at the end are left over. -/
theorem splitNumber?_append (cs : List Char) :
    splitNumber? (cs ++ back) = (splitNumber? cs).map fun (lexeme, rest) => (lexeme, rest ++ back) := by
  rw [splitNumber?, splitSign_append blank, splitNumber?]
  generalize splitSign cs = parts
  rcases parts with ⟨sign, body⟩
  rcases takeWhile_dropWhile_append blank body with ⟨taken, dropped⟩
  have front : (((body ++ back).head?.map isNumberChar).getD false) =
      ((body.head?.map isNumberChar).getD false) := by
    cases body with
    | cons c rest => rfl
    | nil =>
        cases back with
        | nil => rfl
        | cons b rest =>
            have here := blank b List.mem_cons_self
            change isNumberChar b = false
            rw [isNumberChar, not_digit_of_blank here, beq_false_of_ne (ne_of_blank here rfl)]
            rfl
  dsimp only
  rw [front, taken, dropped, splitFraction_append blank]
  split
  · dsimp only
    rw [splitExponent?_append blank, Option.map_map, Option.map_map]
    rfl
  · rfl

end Blanks

/-! ## The scanner -/

/-- Whether a text without blanks is read as a finite number. -/
structure Reads (lexeme : List Char) (x : Binary) : Prop where
  numeric : ∀ c ∈ lexeme, IsNumeric c
  read : (Decimal.read? lexeme).map (·.toBinary double) = some x
  finite : x.isFinite = true

section Scanner

variable {cs rest lexeme : List Char} {x : Binary}

theorem Reads.ne_nil (reads : Reads lexeme x) : lexeme ≠ [] := by
  rintro rfl
  cases reads.read

theorem Reads.fits (reads : Reads lexeme x) : x.Fits double := by
  rcases Option.map_eq_some_iff.mp reads.read with ⟨decimal, -, rfl⟩
  exact decimal.fits_toBinary (by decide)

theorem Reads.tight (reads : Reads lexeme x) : Text.Tight lexeme where
  first c first := (reads.numeric c (List.mem_of_mem_head? first)).not_isWhiteSpace
  last c last := (reads.numeric c (List.mem_of_mem_getLast? last)).not_isWhiteSpace

theorem skipSpaces_of_numeric (numeric : ∀ c ∈ cs.head?, IsNumeric c) : skipSpaces cs = cs := by
  cases cs with
  | nil => rfl
  | cons c rest =>
      apply List.dropWhile_cons_of_neg
      intro blank
      have solid := (numeric c rfl).not_isWhiteSpace
      rw [Text.isWhiteSpace_of_isXmlSpace blank] at solid
      cases solid

theorem scanNumber?_of_reads (reads : Reads lexeme x)
    (split : splitNumber? (lexeme ++ rest) = some (lexeme, rest)) :
    scanNumber? (lexeme ++ rest) = some (x, rest) := by
  have solid : skipSpaces (lexeme ++ rest) = lexeme ++ rest := by
    apply skipSpaces_of_numeric
    intro c first
    rw [List.head?_append, List.head?_eq_some_head reads.ne_nil, Option.some_or] at first
    exact reads.numeric c (Option.some.inj first ▸ List.head_mem reads.ne_nil)
  rcases Option.map_eq_some_iff.mp reads.read with ⟨decimal, read, value⟩
  have finite := reads.finite
  rw [← value] at finite ⊢
  rw [scanNumber?, solid, split]
  change (Decimal.read? lexeme).bind _ = _
  rw [read, Option.bind_some, if_pos finite]

/-- What was scanned is blanks, a text that reads as the number, and the rest. -/
theorem exists_reads_of_scanNumber? (found : scanNumber? cs = some (x, rest)) :
    ∃ front lexeme, cs = front ++ (lexeme ++ rest) ∧ (∀ c ∈ front, Text.isXmlSpace c = true) ∧
      Reads lexeme x ∧ splitNumber? (lexeme ++ rest) = some (lexeme, rest) := by
  rw [scanNumber?] at found
  rcases Option.bind_eq_some_iff.mp found with ⟨⟨lexeme, behind⟩, split, found⟩
  rcases Option.bind_eq_some_iff.mp found with ⟨decimal, read, found⟩
  dsimp only at read found
  split at found
  · next finite =>
    rcases Prod.mk.inj (Option.some.inj found) with ⟨rfl, rfl⟩
    rcases splitNumber?_spec split with ⟨bodyEq, numeric⟩
    refine ⟨cs.takeWhile Text.isXmlSpace, lexeme, ?_, fun c listed => List.mem_takeWhile_imp listed,
      ⟨numeric, ?_, finite⟩, ?_⟩
    · rw [← bodyEq]
      exact List.takeWhile_append_dropWhile.symm
    · rw [read]
      rfl
    · rw [← bodyEq]
      exact split
  · cases found

/-- A text without its blanks at both ends is scanned to its end, if only blanks were
left. -/
theorem scanNumber?_trimChars (found : scanNumber? cs = some (x, rest))
    (blank : ∀ c ∈ rest, Text.isXmlSpace c = true) :
    scanNumber? (Text.trimChars cs) = some (x, []) := by
  rcases exists_reads_of_scanNumber? found with ⟨front, lexeme, rfl, frontBlank, reads, split⟩
  have trimmed : Text.trimChars (front ++ (lexeme ++ rest)) = lexeme := by
    rw [← List.append_assoc]
    exact Text.trimChars_of_tight reads.tight
      (fun c listed => Text.isWhiteSpace_of_isXmlSpace (frontBlank c listed))
      (fun c listed => Text.isWhiteSpace_of_isXmlSpace (blank c listed)) reads.ne_nil
  rw [splitNumber?_append blank] at split
  rcases Option.map_eq_some_iff.mp split with ⟨⟨taken, left⟩, split, same⟩
  rcases Prod.mk.inj same with ⟨rfl, leftEq⟩
  have none : left = [] := List.append_left_eq_self.mp leftEq
  rw [none] at split
  have again : splitNumber? (taken ++ []) = some (taken, []) := by
    rw [List.append_nil]
    exact split
  have whole := scanNumber?_of_reads reads again
  rw [List.append_nil] at whole
  rw [trimmed]
  exact whole

/-- What is left over stays if trimming does not change it. -/
theorem scanNumber?_trimChars_of_tight (found : scanNumber? cs = some (x, rest)) (tight : Text.Tight rest) :
    scanNumber? (Text.trimChars cs) = some (x, rest) := by
  rcases exists_reads_of_scanNumber? found with ⟨front, lexeme, rfl, frontBlank, reads, split⟩
  have whole : Text.Tight (lexeme ++ rest) := by
    constructor
    · intro c first
      rw [List.head?_append, List.head?_eq_some_head reads.ne_nil, Option.some_or,
        ← List.head?_eq_some_head reads.ne_nil] at first
      exact reads.tight.first c first
    · intro c last
      rw [List.getLast?_append] at last
      cases ending : rest.getLast? with
      | some d =>
          rw [ending, Option.some_or] at last
          exact tight.last c (ending.trans last)
      | none =>
          rw [ending, Option.none_or] at last
          exact reads.tight.last c last
  have nothing : ∀ c ∈ ([] : List Char), Text.isWhiteSpace c = true := fun _ impossible => nomatch impossible
  have trimmed := Text.trimChars_of_tight whole
    (fun c listed => Text.isWhiteSpace_of_isXmlSpace (frontBlank c listed)) nothing
    (List.append_ne_nil_of_left_ne_nil reads.ne_nil rest)
  rw [List.append_nil] at trimmed
  rw [trimmed]
  exact scanNumber?_of_reads reads split

end Scanner

end Value
end SlimSvg
