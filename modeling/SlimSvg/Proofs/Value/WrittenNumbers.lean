import SlimSvg.Proofs.Value.Shortest

namespace SlimSvg

/-!
# Written numbers and lengths

Numbers are read as they were written, up to the sign of zero.  A unit is never read as a
part of the number before it: the two that begin like an exponent are known to the reader.
In a row of numbers each one ends where the next one begins, set off by a blank or not.
-/

open Number

namespace Number.Binary

theorem eq_self {x : Binary} (finite : x.isFinite = true) : x.eq x = true := by
  cases x with
  | nan => cases finite
  | infinite => cases finite
  | finite negative m e =>
      rw [Binary.eq, beq_self_eq_true, Bool.or_true]
      · exact fun impossible => Binary.noConfusion impossible
      · exact fun impossible => Binary.noConfusion impossible

/-- A finite number is equal to the one that its compact form says. -/
theorem said_eq {x : Binary} (finite : x.isFinite = true) : x.said.eq x = true := by
  cases x with
  | nan => cases finite
  | infinite => cases finite
  | finite negative m e =>
      rw [said]
      split
      · next zeroSize =>
        rw [zeroSize]
        rfl
      · exact eq_self rfl

end Number.Binary

theorem isFinite_of_scanNumber? {cs rest : List Char} {x : Binary}
    (found : Value.scanNumber? cs = some (x, rest)) : x.isFinite = true := by
  rcases Value.exists_reads_of_scanNumber? found with ⟨_, _, _, _, reads, _⟩
  exact reads.finite

/-! ## Lengths -/

namespace Length

theorem ofSuffix?_suffix (unit : LengthUnit) : LengthUnit.ofSuffix? unit.suffix = some unit := by
  cases unit <;> rfl

theorem endsBefore_suffix (cs : List Char) (unit : LengthUnit) : EndsBefore cs unit.suffix.toList where
  no_digit := (Option.any_eq_false Char.isDigit _).mp (by cases unit <;> rfl)
  no_point := by
    intro point
    cases unit <;> exact absurd point (by decide)
  no_exponent := by cases unit <;> rfl

/-- A number with its unit behind it is read as it was written. -/
theorem readExact?_compact {x : Binary} (fits : x.Fits double) (unit : LengthUnit) :
    readExact? (x.compact ++ unit.suffix) = some ⟨x.said, unit⟩ := by
  have scanned := Binary.scanNumber?_compactChars fits (endsBefore_suffix x.compactChars unit)
  rw [readExact?, String.toList_append, Binary.compact, String.toList_ofList, scanned]
  change (LengthUnit.ofSuffix? (String.ofList unit.suffix.toList)).bind _ = _
  rw [String.ofList_toList, ofSuffix?_suffix]
  rfl

theorem trim_compact (x : Binary) (unit : LengthUnit) :
    Text.trim (x.compact ++ unit.suffix) = x.compact ++ unit.suffix := by
  refine Text.trim_of_solid fun c listed => ?_
  rw [String.toList_append, Binary.compact, String.toList_ofList] at listed
  rcases List.mem_append.mp listed with number | letter
  · exact (isNumeric_of_mem_compactChars number).not_isWhiteSpace
  · have solid : unit.suffix.toList.any Text.isWhiteSpace = false := by cases unit <;> rfl
    exact Bool.eq_false_iff.mpr (List.any_eq_false.mp solid c letter)

theorem scanNumber?_of_readExact? {s : String} {l : Length} (read : readExact? s = some l) :
    ∃ rest, Value.scanNumber? s.toList = some (l.number, rest) := by
  rcases Option.bind_eq_some_iff.mp read with ⟨⟨number, rest⟩, scanned, found⟩
  rcases Option.bind_eq_some_iff.mp found with ⟨unit, -, same⟩
  rw [← Option.some.inj same]
  exact ⟨rest, scanned⟩

/-- Whether a length means the same as another one: it is the same number in the same unit,
or a zero without the unit of the other, which is not percent. -/
def Means (l other : Length) : Prop :=
  l.number.eq other.number = true ∧
    (l.unit = other.unit ∨ other.isZero = true ∧ other.unit ≠ .percent ∧ l.unit = .none)

theorem means_self {s : String} {l : Length} (read : readExact? s = some l) : l.Means l := by
  rcases scanNumber?_of_readExact? read with ⟨rest, scanned⟩
  exact ⟨Binary.eq_self (isFinite_of_scanNumber? scanned), .inl rfl⟩

/-- A length is read as it was written, except that a zero may have lost its unit. -/
theorem read?_write {s : String} {l : Length} (read : readExact? s = some l) :
    ∃ again : Length, TextForm.read? l.write = some again ∧ again.Means l := by
  rcases scanNumber?_of_readExact? read with ⟨rest, scanned⟩
  have fits := fits_of_scanNumber? scanned
  have equal := Binary.said_eq (isFinite_of_scanNumber? scanned)
  have readAgain (unit : LengthUnit) :
      (TextForm.read? (l.number.compact ++ unit.suffix) : Option Length) = some ⟨l.number.said, unit⟩ := by
    change readExact? (Text.trim _) = _
    rw [trim_compact, readExact?_compact fits]
  rw [write]
  split
  · next unitless =>
    rw [Bool.and_eq_true, bne_iff_ne] at unitless
    have plain := readAgain .none
    rw [LengthUnit.suffix, String.append_empty] at plain
    exact ⟨_, plain, equal, .inr ⟨unitless.1, unitless.2, rfl⟩⟩
  · exact ⟨_, readAgain l.unit, equal, .inl rfl⟩

end Length

/-! ## Numbers -/

namespace Numeral

/-- Whether two numbers are equal. -/
def Means (n other : Numeral) : Prop :=
  n.number.eq other.number = true

theorem means_self {s : String} {n : Numeral} (read : read? s = some n) : n.Means n := by
  rcases read?_eq_some.mp read with ⟨rest, scanned, -⟩
  exact Binary.eq_self (isFinite_of_scanNumber? scanned)

theorem read?_write {s : String} {n : Numeral} (read : read? s = some n) :
    ∃ again : Numeral, read? n.number.compact = some again ∧ again.Means n := by
  rcases read?_eq_some.mp read with ⟨rest, scanned, -⟩
  have scannedAgain := scanNumber?_compact (fits_of_scanNumber? scanned)
  exact ⟨⟨n.number.said⟩, read?_eq_some.mpr ⟨[], scannedAgain, List.forall_mem_nil _⟩,
    Binary.said_eq (isFinite_of_scanNumber? scanned)⟩

end Numeral

namespace Percentage

/-- Whether two numbers are equal and both are percentages or none is. -/
def Means (p other : Percentage) : Prop :=
  p.number.eq other.number = true ∧ p.isPercent = other.isPercent

theorem means_self {s : String} {p : Percentage} (read : read? s = some p) : p.Means p :=
  ⟨Binary.eq_self (isFinite_of_scanNumber? (read?_eq_some.mp read)), rfl⟩

theorem read?_write {s : String} {p : Percentage} (read : read? s = some p) :
    ∃ again : Percentage, read? p.write = some again ∧ again.Means p := by
  have scanned := read?_eq_some.mp read
  have fits := fits_of_scanNumber? scanned
  have equal := Binary.said_eq (isFinite_of_scanNumber? scanned)
  rw [write]
  split
  · next percent =>
    refine ⟨⟨p.number.said, true⟩, ?_, equal, percent.symm⟩
    have readAgain : Length.readExact? (p.number.compact ++ "%") = some ⟨p.number.said, .percent⟩ :=
      Length.readExact?_compact fits .percent
    rw [read?, readAgain]
    rfl
  · next plain =>
    refine ⟨⟨p.number.said, false⟩, ?_, equal, (Bool.not_eq_true _ ▸ plain).symm⟩
    exact read?_eq_some.mpr (scanNumber?_compact fits)

end Percentage

namespace Fraction

/-- Whether two fractions are equal. -/
def Means (f other : Fraction) : Prop :=
  f.number.eq other.number = true

theorem isFinite_clamp {x : Binary} (number : x ≠ .nan) : (x.clamp (Binary.zero false) one).isFinite = true := by
  rw [Binary.clamp]
  split
  · rfl
  · split
    · rfl
    · next low high =>
      cases x with
      | nan => exact absurd rfl number
      | infinite negative =>
          cases negative with
          | false => exact absurd rfl high
          | true => exact absurd rfl low
      | finite => rfl

theorem ofRatio_ne_nan (negative : Bool) (num den : Nat) : Binary.ofRatio double negative num den ≠ .nan := by
  unfold Binary.ofRatio
  split
  · exact fun impossible => Binary.noConfusion impossible
  · dsimp only
    split
    · exact fun impossible => Binary.noConfusion impossible
    · split
      · exact fun impossible => Binary.noConfusion impossible
      · exact fun impossible => Binary.noConfusion impossible

theorem div_hundred_ne_nan {x : Binary} (finite : x.isFinite = true) : Binary.div double x hundred ≠ .nan := by
  have divisor : hundred = .finite false 25 2 := by decide +kernel
  cases x with
  | nan => cases finite
  | infinite => cases finite
  | finite negative m e =>
      rw [divisor, Binary.div, if_neg (by decide)]
      dsimp only
      split
      · exact ofRatio_ne_nan _ _ _
      · exact ofRatio_ne_nan _ _ _

theorem isFinite_ofPercentage {p : Percentage} (finite : p.number.isFinite = true) :
    (ofPercentage p).number.isFinite = true := by
  rw [ofPercentage]
  apply isFinite_clamp
  split
  · exact div_hundred_ne_nan finite
  · intro impossible
    rw [impossible] at finite
    cases finite

theorem means_self {s : String} {f : Fraction} (read : TextForm.read? s = some f) : f.Means f := by
  rcases read?_eq_some.mp read with ⟨number, percent, rfl, scanned⟩
  exact Binary.eq_self (isFinite_ofPercentage (isFinite_of_scanNumber? scanned))

theorem read?_write {s : String} {f : Fraction} (read : TextForm.read? s = some f) :
    ∃ again : Fraction, TextForm.read? f.number.compact = some again ∧ again.Means f := by
  rcases read?_eq_some.mp read with ⟨number, percent, rfl, scanned⟩
  have fits : (ofPercentage ⟨number, percent⟩).number.Fits double :=
    fits_number_ofPercentage (fits_of_scanNumber? scanned)
  have finite := isFinite_ofPercentage (p := ⟨number, percent⟩) (isFinite_of_scanNumber? scanned)
  refine ⟨ofPercentage ⟨_, false⟩, read?_eq_some.mpr ⟨_, false, rfl, scanNumber?_compact fits⟩, ?_⟩
  have moved : (ofPercentage ⟨(ofPercentage ⟨number, percent⟩).number.said, false⟩).number =
      (ofPercentage ⟨number, percent⟩).number.said := clamp_said _
  rw [Means, moved]
  exact Binary.said_eq finite

end Fraction

/-! ## Numbers in a row -/

section Rows

variable {x y : Binary} {before next rest : List Char} {xs ys : List Binary}

/-- A number is not set off from the one before it if it begins with a sign, or with a point
while the number before has one. -/
theorem joins_of_needsBlank (x : Binary) (joined : needsBlank x.compactChars next = false) :
    '-' ∈ next.head? ∨ '.' ∈ next.head? ∧ '.' ∈ x.compactChars := by
  rcases x.exists_signed_compactChars with ⟨negative, cs, whole, fraction, written, spells⟩
  have row : x.compactChars.reverse.takeWhile isNumberChar = cs.reverse := by
    have inRow : ∀ c ∈ cs.reverse, isNumberChar c = true :=
      fun c listed => spells.isNumberChar (List.mem_reverse.mp listed)
    rw [written]
    cases negative with
    | false => exact List.takeWhile_eq_self_iff.mpr inRow
    | true =>
        rw [signed, if_pos rfl, List.reverse_cons, List.takeWhile_append_of_pos inRow,
          List.takeWhile_cons_of_neg (by decide), List.append_nil]
  rw [needsBlank, row] at joined
  split at joined
  · next none => exact absurd (List.reverse_eq_nil_iff.mp none) spells.ne_nil
  · split at joined
    · exact .inl rfl
    · rw [Bool.not_eq_false', List.contains_iff_mem, List.mem_reverse] at joined
      refine .inr ⟨rfl, ?_⟩
      rw [written, signed]
      split
      · exact List.mem_cons_of_mem _ joined
      · exact joined
    · cases joined

theorem compactChars_ne_nil (x : Binary) : x.compactChars ≠ [] := by
  rcases x.exists_signed_compactChars with ⟨negative, cs, whole, fraction, written, spells⟩
  rw [written]
  cases negative with
  | false => exact spells.ne_nil
  | true => exact List.cons_ne_nil _ _

theorem writeNumbers_cons (before : List Char) (x : Binary) (xs : List Binary) :
    writeNumbers before (x :: xs) =
      (if needsBlank before x.compactChars then [' '] else []) ++ (x.compactChars ++ writeNumbers x.compactChars xs) := by
  rw [writeNumbers]
  split <;> rfl

theorem writeNumbers_nil_cons (x : Binary) (xs : List Binary) :
    writeNumbers [] (x :: xs) = x.compactChars ++ writeNumbers x.compactChars xs := by
  rw [writeNumbers_cons]
  rfl

/-- A number ends where the next one of its row begins. -/
theorem endsBefore_writeNumbers (x y : Binary) (ys : List Binary) (rest : List Char) :
    EndsBefore x.compactChars (writeNumbers x.compactChars (y :: ys) ++ rest) := by
  have begins {c : Char} {behind : List Char} (digit : c.isDigit = false) (point : c = '.' → '.' ∈ x.compactChars)
      (small : c ≠ 'e') (capital : c ≠ 'E') : EndsBefore x.compactChars (c :: behind) := by
    refine ⟨?_, ?_, Value.splitExponent?_of_ne small capital behind⟩
    · rintro d ⟨⟩
      exact digit
    · rintro ⟨⟩
      exact point rfl
  rw [writeNumbers_cons]
  cases apart : needsBlank x.compactChars y.compactChars with
  | true => exact begins rfl (fun impossible => absurd impossible (by decide)) (by decide) (by decide)
  | false =>
      rcases joins_of_needsBlank x apart with sign | ⟨point, pointBefore⟩
      · rcases List.head?_eq_some_iff.mp sign with ⟨behind, same⟩
        rw [same]
        exact begins rfl (fun impossible => absurd impossible (by decide)) (by decide) (by decide)
      · rcases List.head?_eq_some_iff.mp point with ⟨behind, same⟩
        rw [same]
        exact begins rfl (fun _ => pointBefore) (by decide) (by decide)

theorem isNumeric_of_head? {c : Char} (first : c ∈ (x.compactChars ++ rest).head?) : Value.IsNumeric c := by
  rw [List.head?_append, List.head?_eq_some_head (compactChars_ne_nil x), Option.some_or] at first
  exact isNumeric_of_mem_compactChars (Option.some.inj first ▸ List.head_mem _)

theorem skipSpaces_compactChars (x : Binary) (rest : List Char) :
    Value.skipSpaces (x.compactChars ++ rest) = x.compactChars ++ rest :=
  Value.skipSpaces_of_numeric fun _ first => isNumeric_of_head? first

/-- A written number may have a blank before it. -/
theorem skipSpaces_writeNumbers (before : List Char) (x : Binary) (xs : List Binary) (rest : List Char) :
    Value.skipSpaces (writeNumbers before (x :: xs) ++ rest) =
      x.compactChars ++ (writeNumbers x.compactChars xs ++ rest) := by
  rw [writeNumbers_cons]
  split
  · rw [List.append_assoc, List.append_assoc]
    exact skipSpaces_compactChars x _
  · rw [List.nil_append, List.append_assoc]
    exact skipSpaces_compactChars x _

theorem skipSeparator_of_ne_comma (other : ',' ∉ (Value.skipSpaces next).head?) :
    Value.skipSeparator next = Value.skipSpaces next := by
  unfold Value.skipSeparator
  split
  · next same =>
    rw [same] at other
    exact absurd rfl other
  · rfl

/-- What separates a row of numbers from the text before it can be skipped. -/
theorem skipSeparator_writeNumbers (before : List Char) (x : Binary) (xs : List Binary) (rest : List Char) :
    Value.skipSeparator (writeNumbers before (x :: xs) ++ rest) = writeNumbers [] (x :: xs) ++ rest := by
  rw [skipSeparator_of_ne_comma, skipSpaces_writeNumbers, writeNumbers_nil_cons, List.append_assoc]
  rw [skipSpaces_writeNumbers]
  intro comma
  exact absurd (isNumeric_of_head? comma) (by unfold Value.IsNumeric; decide)

/-- The first number of a row is read as it was written; what separates it from the next one
is gone. -/
theorem scanListNumber?_writeNumbers (fits : x.Fits double) (before : List Char)
    (ends : EndsBefore x.compactChars (writeNumbers x.compactChars xs ++ rest)) :
    Value.scanListNumber? (writeNumbers before (x :: xs) ++ rest) =
      some (x.said, Value.skipSeparator (writeNumbers x.compactChars xs ++ rest)) := by
  have scanned : Value.scanNumber? (writeNumbers before (x :: xs) ++ rest) =
      some (x.said, writeNumbers x.compactChars xs ++ rest) := by
    rw [← Binary.scanNumber?_compactChars fits ends, Value.scanNumber?, Value.scanNumber?,
      skipSpaces_writeNumbers, skipSpaces_compactChars]
  rw [Value.scanListNumber?, scanned]
  rfl

/-- A row of numbers is read as it was written, whatever stands behind it, if this cannot be
read as a part of the last number. -/
theorem scanListNumbers?_writeNumbers (fits : ∀ y ∈ x :: xs, y.Fits double) (before : List Char)
    (ends : ∀ y ∈ (x :: xs).getLast?, EndsBefore y.compactChars rest) :
    Value.scanListNumbers? (x :: xs).length (writeNumbers before (x :: xs) ++ rest) =
      some ((x :: xs).map Binary.said, Value.skipSeparator rest) := by
  induction xs generalizing x before with
  | nil =>
      have first : EndsBefore x.compactChars (writeNumbers x.compactChars [] ++ rest) := ends x rfl
      change (Value.scanListNumber? _).bind _ = _
      rw [scanListNumber?_writeNumbers (fits x List.mem_cons_self) before first]
      rfl
  | cons y ys inductionHypothesis =>
      have later := inductionHypothesis (fun z listed => fits z (List.mem_cons_of_mem x listed)) []
        fun z last => ends z (by rw [List.getLast?_cons_cons]; exact last)
      change (Value.scanListNumber? _).bind _ = _
      rw [scanListNumber?_writeNumbers (fits x List.mem_cons_self) before (endsBefore_writeNumbers x y ys rest),
        skipSeparator_writeNumbers]
      change (Value.scanListNumbers? (y :: ys).length _).bind _ = _
      rw [later]
      rfl

example : Value.scanListNumbers? 3 ".5-.5.25)".toList =
    some ([.finite false 1 (-1), .finite true 1 (-1), .finite false 1 (-2)], [')']) := by
  decide +kernel

end Rows

end SlimSvg
