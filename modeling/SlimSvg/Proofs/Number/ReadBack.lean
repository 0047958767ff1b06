import SlimSvg.Value.Scan
import SlimSvg.Proofs.Number.Decimal
import SlimSvg.Proofs.Text.Trim

namespace SlimSvg
namespace Number

/-!
# Compact numbers are read back

The compact form is a row of digits with a point at most, and a reader of such a row
finds the digits and the exponent that were written, up to zeros at the end.  So it
finds the number again, except that every number without a finite nonzero size is
read as zero.  What follows the row does not matter as long as it cannot be read as
a part of the number.
-/

/-! ## Rows of digits -/

/-- A row of digits, or two rows around a point of which the second one is not empty. -/
inductive Spells : (text whole fraction : List Char) → Prop
  | whole {ds : List Char} (some : ds ≠ []) (digits : ∀ c ∈ ds, c.isDigit = true) : Spells ds ds []
  | pointed {ds fs : List Char} (some : fs ≠ []) (digits : ∀ c ∈ ds ++ fs, c.isDigit = true) :
    Spells (ds ++ '.' :: fs) ds fs

section Rows

variable {cs whole fraction : List Char}

theorem ne_point_of_isDigit {c : Char} (digit : c.isDigit = true) : c ≠ '.' := by
  rintro rfl
  exact absurd digit (by decide)

theorem isDigit_of_mem_replicate {k : Nat} {c : Char} (listed : c ∈ List.replicate k '0') :
    c.isDigit = true := by
  rw [List.eq_of_mem_replicate listed]
  rfl

/-- Whether a row of digits stands for `digits · 10 ^ exponent`. -/
def SpellsDecimal (cs : List Char) (digits : Nat) (exponent : Int) : Prop :=
  ∃ whole fraction, Spells cs whole fraction ∧
    ∀ p negative, (Decimal.mk negative (digitsValue (whole ++ fraction)) (-(fraction.length : Int))).toBinary p =
      (Decimal.mk negative digits exponent).toBinary p

theorem spellsDecimal_shifted (digits : Nat) {exponent : Int} (large : 0 ≤ exponent) :
    SpellsDecimal (digitsOf digits ++ List.replicate exponent.toNat '0') digits exponent := by
  refine ⟨digitsOf digits ++ List.replicate exponent.toNat '0', [], .whole ?_ ?_, ?_⟩
  · exact List.append_ne_nil_of_left_ne_nil (digitsOf_ne_nil digits) _
  · intro c member
    rcases List.mem_append.mp member with digit | zero
    · exact isDigit_of_mem_digitsOf digit
    · exact isDigit_of_mem_replicate zero
  · intro p negative
    have shifted := Decimal.toBinary_mul_pow p negative digits exponent.toNat 0
    rw [Int.zero_add, Int.toNat_of_nonneg large] at shifted
    rw [List.append_nil, digitsValue_append, digitsValue_replicate_zero, digitsValue_digitsOf,
      List.length_replicate, Nat.add_zero]
    exact shifted

/-- The point stands between the digits. -/
theorem spellsDecimal_cut {digits places : Nat} (some : 0 < places) (inside : places < (digitsOf digits).length) :
    let cut := (digitsOf digits).length - places
    SpellsDecimal ((digitsOf digits).take cut ++ '.' :: (digitsOf digits).drop cut) digits (-(places : Int)) := by
  intro cut
  have together := List.take_append_drop cut (digitsOf digits)
  have size : ((digitsOf digits).drop cut).length = places := by
    rw [List.length_drop]
    omega
  refine ⟨(digitsOf digits).take cut, (digitsOf digits).drop cut, .pointed ?_ ?_, ?_⟩
  · intro none
    rw [none, List.length_nil] at size
    omega
  · rw [together]
    exact fun _ => isDigit_of_mem_digitsOf
  · intro p negative
    rw [together, size, digitsValue_digitsOf]

/-- The point stands before the digits. -/
theorem spellsDecimal_padded {digits places : Nat} (outside : (digitsOf digits).length ≤ places) :
    let zeros := List.replicate (places - (digitsOf digits).length) '0'
    SpellsDecimal ('0' :: '.' :: (zeros ++ digitsOf digits)) digits (-(places : Int)) := by
  intro zeros
  have size : (zeros ++ digitsOf digits).length = places := by
    rw [List.length_append, List.length_replicate]
    omega
  have value : digitsValue (['0'] ++ (zeros ++ digitsOf digits)) = digits := by
    rw [digitsValue_append, digitsValue_append, digitsValue_replicate_zero, digitsValue_digitsOf]
    change 0 * _ + (0 * _ + digits) = digits
    omega
  refine ⟨['0'], zeros ++ digitsOf digits, @Spells.pointed ['0'] _ ?_ ?_, ?_⟩
  · exact List.append_ne_nil_of_right_ne_nil _ (digitsOf_ne_nil digits)
  · intro c member
    rcases List.mem_append.mp member with zero | further
    · rw [List.mem_singleton.mp zero]
      rfl
    · rcases List.mem_append.mp further with zero | digit
      · exact isDigit_of_mem_replicate zero
      · exact isDigit_of_mem_digitsOf digit
  · intro p negative
    rw [value, size]

/-- The positional form of a decimal spells a decimal with the same value. -/
theorem spellsDecimal_positional (digits : Nat) (exponent : Int) :
    SpellsDecimal (positional digits exponent) digits exponent := by
  rw [positional]
  dsimp only
  split
  · next large => exact spellsDecimal_shifted digits large
  · next small =>
    have places : exponent = -((-exponent).toNat : Int) := by omega
    generalize (-exponent).toNat = k at places
    rw [places]
    split
    · next inside => exact spellsDecimal_cut (by omega) inside
    · next outside => exact spellsDecimal_padded (Nat.le_of_not_lt outside)

/-- The zero before the point counts nothing. -/
theorem spells_dropLeadingZero (spells : Spells cs whole fraction) :
    ∃ whole', Spells (dropLeadingZero cs) whole' fraction ∧
      digitsValue (whole' ++ fraction) = digitsValue (whole ++ fraction) := by
  unfold dropLeadingZero
  split
  · next rest =>
    generalize textEq : '0' :: '.' :: rest = text at spells
    cases spells with
    | whole some digits =>
        rw [← textEq] at digits
        exact absurd rfl (ne_point_of_isDigit (digits '.' (List.mem_cons_of_mem _ List.mem_cons_self)))
    | pointed some digits =>
        rcases List.cons_eq_append_iff.mp textEq with ⟨none, tailEq⟩ | ⟨ds, wholeEq, tailEq⟩
        · exact absurd (List.cons.inj tailEq).1 (by decide)
        · rcases List.cons_eq_append_iff.mp tailEq with ⟨none, behind⟩ | ⟨more, dsEq, -⟩
          · rw [← (List.cons.inj behind).2]
            refine ⟨[], @Spells.pointed [] _ some ?_, ?_⟩
            · exact fun c listed => digits c (List.mem_append_right _ listed)
            · rw [wholeEq, none]
              rfl
          · rw [wholeEq, dsEq] at digits
            exact absurd rfl (ne_point_of_isDigit
              (digits '.' (List.mem_append_left _ (List.mem_cons_of_mem _ List.mem_cons_self))))
  · exact ⟨whole, spells, rfl⟩

theorem Spells.isNumberChar (spells : Spells cs whole fraction) {c : Char} (listed : c ∈ cs) :
    isNumberChar c = true := by
  rw [Number.isNumberChar, Bool.or_eq_true, beq_iff_eq]
  cases spells with
  | whole _ digits => exact Or.inl (digits c listed)
  | pointed _ digits =>
      rcases List.mem_append.mp listed with before | behind
      · exact Or.inl (digits c (List.mem_append_left _ before))
      · rcases List.mem_cons.mp behind with point | after
        · exact Or.inr point
        · exact Or.inl (digits c (List.mem_append_right _ after))

theorem Spells.ne_nil (spells : Spells cs whole fraction) : cs ≠ [] := by
  cases spells with
  | whole some _ => exact some
  | pointed => exact List.append_ne_nil_of_right_ne_nil _ (List.cons_ne_nil _ _)

end Rows

/-! ## Reading a row -/

/-- Whether a number cannot be read on into the text behind it. -/
structure EndsBefore (cs rest : List Char) : Prop where
  no_digit : ∀ c ∈ rest.head?, c.isDigit = false
  no_point : '.' ∈ rest.head? → '.' ∈ cs
  no_exponent : Value.splitExponent? rest = some ([], rest)

theorem endsBefore_nil (cs : List Char) : EndsBefore cs [] where
  no_digit _ impossible := by cases impossible
  no_point impossible := by cases impossible
  no_exponent := rfl

theorem EndsBefore.of_signed {negative : Bool} {cs rest : List Char} (ends : EndsBefore (signed negative cs) rest) :
    EndsBefore cs rest where
  no_digit := ends.no_digit
  no_exponent := ends.no_exponent
  no_point point := by
    have inside := ends.no_point point
    cases negative with
    | false => exact inside
    | true =>
        rcases List.mem_cons.mp inside with impossible | inside
        · exact absurd impossible (by decide)
        · exact inside

section Reading

variable {cs whole fraction rest : List Char}

theorem takeWhile_isDigit_append {ds : List Char} (digits : ∀ c ∈ ds, c.isDigit = true)
    (stop : ∀ c ∈ rest.head?, c.isDigit = false) :
    (ds ++ rest).takeWhile Char.isDigit = ds ∧ (ds ++ rest).dropWhile Char.isDigit = rest :=
  ⟨Text.takeWhile_append_of_all digits stop, Text.dropWhile_append_of_all digits stop⟩

/-- The first character of a row is no sign. -/
theorem Spells.splitSign_eq (spells : Spells cs whole fraction) (rest : List Char) :
    Value.splitSign (cs ++ rest) = ([], cs ++ rest) ∧ Decimal.splitSign cs = (false, cs) := by
  cases textEq : cs with
  | nil => exact absurd textEq spells.ne_nil
  | cons c tail =>
      have number := spells.isNumberChar (textEq ▸ List.mem_cons_self : c ∈ cs)
      have plus : c ≠ '+' := by
        rintro rfl
        exact absurd number (by decide)
      have minus : c ≠ '-' := by
        rintro rfl
        exact absurd number (by decide)
      constructor
      · rw [List.cons_append]
        unfold Value.splitSign
        split
        · next same => exact absurd (List.cons.inj same).1 plus
        · next same => exact absurd (List.cons.inj same).1 minus
        · rfl
      · unfold Decimal.splitSign
        split
        · next same => exact absurd (List.cons.inj same).1 minus
        · next same => exact absurd (List.cons.inj same).1 plus
        · rfl

theorem signed_append (negative : Bool) (cs : List Char) : signed negative [] ++ cs = signed negative cs := by
  cases negative <;> rfl

theorem Spells.splitSign_signed (spells : Spells cs whole fraction) (negative : Bool) (rest : List Char) :
    Value.splitSign (signed negative cs ++ rest) = (signed negative [], cs ++ rest) := by
  cases negative with
  | false => exact (spells.splitSign_eq rest).1
  | true => rfl

theorem Spells.read?_signed (spells : Spells cs whole fraction) (negative : Bool) :
    Decimal.read? (signed negative cs) =
      some ⟨negative, digitsValue (whole ++ fraction), -(fraction.length : Int)⟩ := by
  have sign : Decimal.splitSign (signed negative cs) = (negative, cs) := by
    cases negative with
    | false => exact (spells.splitSign_eq []).2
    | true => rfl
  have none : ∀ c ∈ ([] : List Char).head?, c.isDigit = false := fun _ impossible => nomatch impossible
  rw [Decimal.read?, sign]
  cases spells with
  | whole some digits =>
      rcases takeWhile_isDigit_append digits none with ⟨taken, dropped⟩
      rw [List.append_nil] at taken dropped
      have someDigit : cs.isEmpty = false := List.isEmpty_eq_false_iff.mpr some
      simp only [taken, dropped, someDigit, Bool.false_and, List.append_nil]
      rfl
  | pointed some digits =>
      have point : ∀ c ∈ ('.' :: fraction).head?, c.isDigit = false := by
        rintro c ⟨⟩
        rfl
      have before : ∀ c ∈ whole, c.isDigit = true := fun c listed => digits c (List.mem_append_left _ listed)
      have behind : ∀ c ∈ fraction, c.isDigit = true := fun c listed => digits c (List.mem_append_right _ listed)
      rcases takeWhile_isDigit_append before point with ⟨taken, dropped⟩
      rcases takeWhile_isDigit_append behind none with ⟨takenBehind, droppedBehind⟩
      rw [List.append_nil] at takenBehind droppedBehind
      have someDigit : fraction.isEmpty = false := List.isEmpty_eq_false_iff.mpr some
      simp only [taken, dropped, takenBehind, droppedBehind, someDigit, Bool.and_false]
      change Option.some (Decimal.mk _ _ (0 - (fraction.length : Int))) = _
      rw [Int.zero_sub]

/-- The digits of a row and its point are cut off from what follows. -/
theorem Spells.splitFraction_eq (spells : Spells cs whole fraction) (ends : EndsBefore cs rest) :
    ∃ point, Value.splitFraction ((cs ++ rest).dropWhile Char.isDigit) = (point, rest) ∧
      (cs ++ rest).takeWhile Char.isDigit ++ point = cs := by
  cases spells with
  | whole some digits =>
      rcases takeWhile_isDigit_append digits ends.no_digit with ⟨taken, dropped⟩
      have noPoint : Value.splitFraction rest = ([], rest) := by
        unfold Value.splitFraction
        split
        · exact absurd rfl (ne_point_of_isDigit (digits '.' (ends.no_point rfl)))
        · rfl
      rw [taken, dropped]
      exact ⟨[], noPoint, List.append_nil _⟩
  | pointed some digits =>
      have point : ∀ c ∈ ('.' :: (fraction ++ rest)).head?, c.isDigit = false := by
        rintro c ⟨⟩
        rfl
      have before : ∀ c ∈ whole, c.isDigit = true := fun c listed => digits c (List.mem_append_left _ listed)
      have behind : ∀ c ∈ fraction, c.isDigit = true := fun c listed => digits c (List.mem_append_right _ listed)
      rcases takeWhile_isDigit_append before point with ⟨taken, dropped⟩
      rcases takeWhile_isDigit_append behind ends.no_digit with ⟨takenBehind, droppedBehind⟩
      have grouped : whole ++ '.' :: fraction ++ rest = whole ++ '.' :: (fraction ++ rest) :=
        List.append_assoc _ _ _
      rw [grouped, taken, dropped, Value.splitFraction, takenBehind, droppedBehind]
      exact ⟨_, rfl, rfl⟩

/-- The scanner cuts off a row with its sign, and nothing else. -/
theorem Spells.splitNumber?_signed (spells : Spells cs whole fraction) (negative : Bool)
    (ends : EndsBefore cs rest) :
    Value.splitNumber? (signed negative cs ++ rest) = some (signed negative cs, rest) := by
  have front : ((cs ++ rest).head?.map Number.isNumberChar).getD false = true := by
    cases textEq : cs with
    | nil => exact absurd textEq spells.ne_nil
    | cons c tail => exact spells.isNumberChar (textEq ▸ List.mem_cons_self : c ∈ cs)
  rcases spells.splitFraction_eq ends with ⟨point, cut, joined⟩
  rw [Value.splitNumber?, spells.splitSign_signed]
  dsimp only
  rw [if_pos front, cut]
  dsimp only
  rw [ends.no_exponent, Option.map_some, List.append_nil, List.append_assoc, joined, signed_append]

end Reading

/-! ## What is read is a value of the format -/

theorem Decimal.fits_toBinary {p : Precision} (bits : 0 < p.bits) (d : Decimal) :
    (d.toBinary p).Fits p := by
  rcases d with ⟨negative, digits, exponent⟩
  by_cases zero : digits = 0
  · rw [toBinary, if_pos zero]
    exact Or.inl ⟨rfl, rfl⟩
  · rw [toBinary_eq zero]
    split
    · exact True.intro
    · split
      · exact Or.inl ⟨rfl, rfl⟩
      · exact Binary.fits_ofRatio bits (sides_snd_pos digits exponent)

theorem Binary.fits_div {p : Precision} (bits : 0 < p.bits) (x y : Binary) : (Binary.div p x y).Fits p := by
  unfold Binary.div
  split
  · exact True.intro
  · exact True.intro
  · exact True.intro
  · exact True.intro
  · exact Or.inl ⟨rfl, rfl⟩
  · next m₂ _ =>
    split
    · split <;> exact True.intro
    · next nonzero =>
      have positive := Nat.pos_of_ne_zero nonzero
      dsimp only
      split
      · exact Binary.fits_ofRatio bits positive
      · exact Binary.fits_ofRatio bits (Nat.mul_pos positive (Nat.pow_pos (by decide)))

/-! ## The compact form -/

namespace Binary

/-- The number that the compact form says. -/
def said : Binary → Binary
  | finite negative m e => if m = 0 then zero false else finite negative m e
  | _ => zero false

theorem compactChars_said (x : Binary) : x.said.compactChars = x.compactChars := by
  cases x with
  | nan => rfl
  | infinite => rfl
  | finite negative m e =>
      rw [said]
      split
      · next zeroSize =>
        rw [zeroSize]
        rfl
      · rfl

theorem spells_zero : Spells ['0'] ['0'] [] := by
  refine .whole (List.cons_ne_nil _ _) ?_
  intro c listed
  rw [List.mem_singleton.mp listed]
  rfl

/-- The compact form of any number is a row of digits with a sign. -/
theorem exists_signed_compactChars (x : Binary) :
    ∃ negative cs whole fraction, x.compactChars = signed negative cs ∧ Spells cs whole fraction := by
  have asZero : x.compactChars = ['0'] →
      ∃ negative cs whole fraction, x.compactChars = signed negative cs ∧ Spells cs whole fraction :=
    fun written => ⟨false, ['0'], ['0'], [], written, spells_zero⟩
  cases x with
  | nan => exact asZero rfl
  | infinite => exact asZero rfl
  | finite negative m e =>
      by_cases zeroSize : m = 0
      · exact asZero (if_pos zeroSize)
      · rcases spellsDecimal_positional (shortestDigits double m e).1 (shortestDigits double m e).2 with
          ⟨whole, fraction, spells, -⟩
        rcases spells_dropLeadingZero spells with ⟨shorter, spellsShorter, -⟩
        refine ⟨negative, _, shorter, fraction, ?_, spellsShorter⟩
        rw [compactChars, if_neg zeroSize, magnitude, if_neg zeroSize]

/-- The compact form is a row of digits with a sign, and the row has the value of the
number. -/
theorem exists_spells_compactChars {x : Binary} (fits : x.Fits double) :
    ∃ negative cs whole fraction, x.compactChars = signed negative cs ∧ Spells cs whole fraction ∧
      (Decimal.mk negative (digitsValue (whole ++ fraction)) (-(fraction.length : Int))).toBinary double =
        x.said := by
  have asZero : x.compactChars = ['0'] → x.said = zero false →
      ∃ negative cs whole fraction, x.compactChars = signed negative cs ∧ Spells cs whole fraction ∧
        (Decimal.mk negative (digitsValue (whole ++ fraction)) (-(fraction.length : Int))).toBinary double =
          x.said := by
    intro written read
    rw [written, read]
    exact ⟨false, ['0'], ['0'], [], rfl, spells_zero, rfl⟩
  cases x with
  | nan => exact asZero rfl rfl
  | infinite => exact asZero rfl rfl
  | finite negative m e =>
      by_cases zeroSize : m = 0
      · exact asZero (if_pos zeroSize) (if_pos zeroSize)
      · have sized : Number.Fits double m e := by
          rcases fits with ⟨none, -⟩ | sized
          · exact absurd none zeroSize
          · exact sized
        rcases spellsDecimal_positional (shortestDigits double m e).1 (shortestDigits double m e).2 with
          ⟨whole, fraction, spells, value⟩
        rcases spells_dropLeadingZero spells with ⟨shorter, spellsShorter, valueEq⟩
        refine ⟨negative, _, shorter, fraction, ?_, spellsShorter, ?_⟩
        · rw [compactChars, if_neg zeroSize, magnitude, if_neg zeroSize]
        · rw [valueEq, value, toBinary_shortestDigits sized, said, if_neg zeroSize]

theorem isFinite_said (x : Binary) : x.said.isFinite = true := by
  unfold said
  split
  · split <;> rfl
  · rfl

/-- A compact number is read back, whatever stands behind it, if this cannot be read
as a part of the number. -/
theorem scanNumber?_compactChars {x : Binary} (fits : x.Fits double) {rest : List Char}
    (ends : EndsBefore x.compactChars rest) :
    Value.scanNumber? (x.compactChars ++ rest) = some (x.said, rest) := by
  rcases exists_spells_compactChars fits with ⟨negative, cs, whole, fraction, written, spells, value⟩
  have solid : Value.skipSpaces (signed negative cs ++ rest) = signed negative cs ++ rest := by
    cases negative with
    | true => rfl
    | false =>
        cases textEq : cs with
        | nil => exact absurd textEq spells.ne_nil
        | cons c tail =>
            have number := spells.isNumberChar (textEq ▸ List.mem_cons_self : c ∈ cs)
            apply List.dropWhile_cons_of_neg
            intro blank
            simp only [Text.isXmlSpace, Bool.or_eq_true, beq_iff_eq] at blank
            rcases blank with ((rfl | rfl) | rfl) | rfl <;> exact absurd number (by decide)
  rw [written] at ends ⊢
  rw [Value.scanNumber?, solid, spells.splitNumber?_signed negative ends.of_signed]
  change ((Decimal.read? (signed negative cs)).bind fun decimal =>
    if (decimal.toBinary double).isFinite then some (decimal.toBinary double, rest) else none) = _
  rw [spells.read?_signed negative, Option.bind_some, value, if_pos (isFinite_said x)]

end Binary

end Number
end SlimSvg
