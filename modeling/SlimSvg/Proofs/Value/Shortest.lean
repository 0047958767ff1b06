import SlimSvg.Proofs.Value.Scan
import SlimSvg.Value.Attribute

namespace SlimSvg

/-!
# Shortest texts and trimmed texts

A style keeps the trimmed text of an attribute, while the shortest text of a value is
found from the text as it was written.  For most types this is no difference, since
their readers trim the text themselves.  The readers of plain numbers and of fractions
know fewer blanks than trimming does, so trimming can make a text readable; but then its
shortest text was the trimmed text before, and what is compared with it is settled: the
shortest text of a trimmed text stays as it is.
-/

open Number

namespace TextForm

/-- Whether the reader of a type trims the text first. -/
def TrimsFirst (α : Type) [TextForm α] : Prop :=
  ∀ s : String, (TextForm.read? (Text.trim s) : Option α) = TextForm.read? s

/-- What the reader and the writer of a type promise if the reader does not trim. -/
structure Settles (α : Type) [TextForm α] : Prop where
  read?_trim : ∀ {s : String} {a : α}, TextForm.read? s = some a → TextForm.read? (Text.trim s) = some a
  trim_write : ∀ {s : String} {a : α}, TextForm.read? s = some a → Text.trim (TextForm.write a) = TextForm.write a
  read?_write : ∀ {s : String} {a : α}, TextForm.read? s = some a →
    ∃ b : α, TextForm.read? (TextForm.write a) = some b ∧ TextForm.write b = TextForm.write a

end TextForm

namespace Cached

variable {α : Type} [TextForm α] {s t v : String}

theorem parsed_ofText (s : String) : (ofText s : Cached α).parsed = TextForm.read? s :=
  rfl

theorem minified_of_read? {a : α} (read : TextForm.read? s = some a) :
    (ofText s : Cached α).minified =
      if Text.size (TextForm.write a) ≤ Text.size (Text.trim s) then TextForm.write a else Text.trim s := by
  change shortestText (TextForm.read? s : Option α) (some s) = _
  rw [read]
  rfl

theorem minified_of_unread (unread : (TextForm.read? s : Option α) = none) :
    (ofText s : Cached α).minified = Text.trim s := by
  change shortestText (TextForm.read? s : Option α) (some s) = _
  rw [unread]
  rfl

theorem minified_trim (trimsFirst : TextForm.TrimsFirst α) (s : String) :
    (ofText (Text.trim s) : Cached α).minified = (ofText s : Cached α).minified := by
  have same := trimsFirst s
  cases read : (TextForm.read? s : Option α) with
  | some a => rw [minified_of_read? read, minified_of_read? (same.trans read), Text.trim_trim]
  | none => rw [minified_of_unread read, minified_of_unread (same.trans read), Text.trim_trim]

/-- The shortest text of a trimmed text is its own shortest text. -/
theorem minified_minified (settles : TextForm.Settles α) (trimmed : Text.trim v = v) :
    (ofText (ofText v : Cached α).minified : Cached α).minified = (ofText v : Cached α).minified := by
  cases read : (TextForm.read? v : Option α) with
  | none =>
      have own := minified_of_unread read
      rw [trimmed] at own
      rw [own, own]
  | some a =>
      have own := minified_of_read? read
      rw [trimmed] at own
      by_cases shorter : Text.size (TextForm.write a) ≤ Text.size v
      · rcases settles.read?_write read with ⟨b, readAgain, same⟩
        rw [own, if_pos shorter, minified_of_read? readAgain, same, settles.trim_write read]
        exact if_pos (Nat.le_refl _)
      · rw [if_neg shorter] at own
        rw [own, own]

/-- A trimmed text is as good as the text when compared with the shortest text of
another trimmed text. -/
theorem minified_trim_of_eq (settles : TextForm.Settles α) (trimmed : Text.trim v = v)
    (same : (ofText t : Cached α).minified = (ofText v : Cached α).minified) :
    (ofText (Text.trim t) : Cached α).minified = (ofText v : Cached α).minified := by
  cases read : (TextForm.read? t : Option α) with
  | some a =>
      rw [minified_of_read? read] at same
      rw [minified_of_read? (settles.read?_trim read), Text.trim_trim]
      exact same
  | none =>
      rw [minified_of_unread read] at same
      rw [same]
      exact minified_minified settles trimmed

end Cached

/-! ## The types -/

theorem Length.trimsFirst : TextForm.TrimsFirst Length := by
  intro s
  change readExact? _ = readExact? _
  rw [Text.trim_trim]

theorem Paint.trimsFirst : TextForm.TrimsFirst Paint := by
  intro s
  change read? _ = read? _
  rw [read?, read?, Text.toList_trim, Text.trimChars_trimChars]

theorem Reference.trimsFirst : TextForm.TrimsFirst Reference := by
  intro s
  change read? _ = read? _
  rw [read?, read?, Text.toList_trim, Text.trimChars_trimChars]

section Numbers

theorem isNumeric_of_mem_compactChars {x : Binary} {c : Char} (listed : c ∈ x.compactChars) :
    Value.IsNumeric c := by
  rcases x.exists_signed_compactChars with ⟨negative, cs, whole, fraction, written, spells⟩
  rw [written, signed] at listed
  have inRow : c ∈ cs → Value.IsNumeric c := by
    intro listed
    have number := spells.isNumberChar listed
    rw [isNumberChar, Bool.or_eq_true, beq_iff_eq] at number
    rcases number with digit | rfl
    · exact Or.inl digit
    · exact Or.inr (by decide)
  split at listed
  · rcases List.mem_cons.mp listed with rfl | listed
    · exact Or.inr (by decide)
    · exact inRow listed
  · exact inRow listed

theorem trim_compact (x : Binary) : Text.trim x.compact = x.compact := by
  refine Text.trim_of_solid fun c listed => ?_
  rw [Binary.compact, String.toList_ofList] at listed
  exact (isNumeric_of_mem_compactChars listed).not_isWhiteSpace

theorem scanNumber?_compact {x : Binary} (fits : x.Fits double) :
    Value.scanNumber? x.compact.toList = some (x.said, []) := by
  have scanned := Binary.scanNumber?_compactChars fits (endsBefore_nil x.compactChars)
  rw [List.append_nil] at scanned
  rw [Binary.compact, String.toList_ofList]
  exact scanned

theorem fits_of_scanNumber? {cs rest : List Char} {x : Binary}
    (found : Value.scanNumber? cs = some (x, rest)) : x.Fits double := by
  rcases Value.exists_reads_of_scanNumber? found with ⟨_, _, _, _, reads, _⟩
  exact reads.fits

end Numbers

namespace Numeral

theorem read?_eq_some {s : String} {n : Numeral} :
    read? s = some n ↔ ∃ rest, Value.scanNumber? s.toList = some (n.number, rest) ∧
      ∀ c ∈ rest, Text.isXmlSpace c = true := by
  constructor
  · intro read
    rcases Option.bind_eq_some_iff.mp read with ⟨⟨x, rest⟩, scanned, ended⟩
    dsimp only at ended
    split at ended
    · next blank =>
      rw [← Option.some.inj ended]
      refine ⟨rest, scanned, ?_⟩
      rw [List.isEmpty_iff] at blank
      exact List.dropWhile_eq_nil_iff.mp blank
    · cases ended
  · rintro ⟨rest, scanned, blank⟩
    have none : Value.skipSpaces rest = [] := List.dropWhile_eq_nil_iff.mpr blank
    rw [read?, scanned]
    change (if (Value.skipSpaces rest).isEmpty then _ else _) = _
    rw [none]
    rfl

theorem settles : TextForm.Settles Numeral where
  read?_trim {s n} read := by
    rcases read?_eq_some.mp read with ⟨rest, scanned, blank⟩
    refine read?_eq_some.mpr ⟨[], ?_, fun _ impossible => nomatch impossible⟩
    rw [Text.toList_trim]
    exact Value.scanNumber?_trimChars scanned blank
  trim_write {s n} _ := trim_compact n.number
  read?_write {s n} read := by
    rcases read?_eq_some.mp read with ⟨rest, scanned, -⟩
    have scannedAgain := scanNumber?_compact (fits_of_scanNumber? scanned)
    refine ⟨⟨n.number.said⟩, read?_eq_some.mpr ⟨[], scannedAgain, fun _ impossible => nomatch impossible⟩, ?_⟩
    exact congrArg String.ofList (Binary.compactChars_said n.number)

end Numeral

namespace Percentage

theorem tight_percent (percent : Bool) : Text.Tight (if percent then ['%'] else []) := by
  cases percent with
  | false =>
      constructor
      · rintro c ⟨⟩
      · rintro c ⟨⟩
  | true =>
      constructor
      · rintro c ⟨⟩
        rfl
      · rintro c ⟨⟩
        rfl

theorem read?_eq_some {s : String} {p : Percentage} :
    read? s = some p ↔
      Value.scanNumber? s.toList = some (p.number, if p.isPercent then ['%'] else []) := by
  rcases p with ⟨number, percent⟩
  constructor
  · intro read
    rcases Option.bind_eq_some_iff.mp read with ⟨length, readLength, asPercentage⟩
    rcases Option.bind_eq_some_iff.mp readLength with ⟨⟨number, rest⟩, scanned, unitFound⟩
    rcases Option.bind_eq_some_iff.mp unitFound with ⟨unit, suffix, lengthEq⟩
    have spelled := List.find?_some suffix
    rw [beq_iff_eq] at spelled
    rw [← Option.some.inj lengthEq] at asPercentage
    have restEq : rest = unit.suffix.toList := by
      rw [spelled, String.toList_ofList]
    cases unit with
    | none =>
        cases asPercentage
        rw [scanned, restEq]
        rfl
    | percent =>
        cases asPercentage
        rw [scanned, restEq]
        rfl
    | _ => cases asPercentage
  · intro scanned
    change (Length.readExact? s).bind _ = _
    rw [Length.readExact?, scanned]
    cases percent <;> rfl

theorem read?_trim {s : String} {p : Percentage} (read : read? s = some p) : read? (Text.trim s) = some p := by
  rw [read?_eq_some] at read ⊢
  rw [Text.toList_trim]
  exact Value.scanNumber?_trimChars_of_tight read (tight_percent p.isPercent)

end Percentage

namespace Fraction

theorem fits_clamp {x : Binary} (fits : x.Fits double) : (x.clamp (Binary.zero false) one).Fits double := by
  rw [Binary.clamp]
  split
  · exact Or.inl ⟨rfl, rfl⟩
  · split
    · have bits : 0 < double.bits := by decide
      rw [one, Binary.ofNat]
      exact Binary.fits_ofRatio bits Nat.one_pos
    · exact fits

theorem fits_number_ofPercentage {p : Percentage} (fits : p.number.Fits double) :
    (ofPercentage p).number.Fits double := by
  rw [ofPercentage]
  apply fits_clamp
  split
  · exact Binary.fits_div (by decide) _ _
  · exact fits

/-- What was moved into the unit interval stays there when it is read again. -/
theorem clamp_said (x : Binary) :
    (x.clamp (Binary.zero false) one).said.clamp (Binary.zero false) one =
      (x.clamp (Binary.zero false) one).said := by
  have zeroStays : (Binary.zero false).clamp (Binary.zero false) one = Binary.zero false := by
    decide +kernel
  have oneStays : one.said.clamp (Binary.zero false) one = one.said := by
    decide +kernel
  by_cases low : x.lt (Binary.zero false) = true
  · have moved : x.clamp (Binary.zero false) one = Binary.zero false := by rw [Binary.clamp, if_pos low]
    rw [moved]
    exact zeroStays
  · by_cases high : one.lt x = true
    · have moved : x.clamp (Binary.zero false) one = one := by rw [Binary.clamp, if_neg low, if_pos high]
      rw [moved, oneStays]
    · have stays : x.clamp (Binary.zero false) one = x := by
        rw [Binary.clamp, if_neg low, if_neg high]
      rw [stays]
      unfold Binary.said
      split
      · split
        · exact zeroStays
        · exact stays
      · exact zeroStays

theorem read?_eq_some {s : String} {f : Fraction} :
    (TextForm.read? s : Option Fraction) = some f ↔
      ∃ number percent, f = ofPercentage ⟨number, percent⟩ ∧
        Value.scanNumber? s.toList = some (number, if percent then ['%'] else []) := by
  constructor
  · intro read
    rcases Option.map_eq_some_iff.mp read with ⟨⟨number, percent⟩, readPercentage, same⟩
    exact ⟨number, percent, same.symm, Percentage.read?_eq_some.mp readPercentage⟩
  · rintro ⟨number, percent, rfl, scanned⟩
    exact Option.map_eq_some_iff.mpr ⟨⟨number, percent⟩, Percentage.read?_eq_some.mpr scanned, rfl⟩

theorem settles : TextForm.Settles Fraction where
  read?_trim {s f} read := by
    rcases Option.map_eq_some_iff.mp read with ⟨p, readPercentage, same⟩
    exact Option.map_eq_some_iff.mpr ⟨p, Percentage.read?_trim readPercentage, same⟩
  trim_write {s f} _ := trim_compact f.number
  read?_write {s f} read := by
    rcases read?_eq_some.mp read with ⟨number, percent, rfl, scanned⟩
    have fits : (ofPercentage ⟨number, percent⟩).number.Fits double :=
      fits_number_ofPercentage (fits_of_scanNumber? scanned)
    exact ⟨ofPercentage ⟨_, false⟩, read?_eq_some.mpr ⟨_, false, rfl, scanNumber?_compact fits⟩,
      (congrArg Binary.compact (clamp_said _)).trans (congrArg String.ofList (Binary.compactChars_said _))⟩

end Fraction

/-! ## Property values -/

namespace PropertyValue

/-- The types of property values, lists of transformations apart. -/
inductive SimpleType : (String → PropertyValue) → Prop
  | generic : SimpleType .generic
  | paint : SimpleType fun text => .paint (.ofText text)
  | length : SimpleType fun text => .length (.ofText text)
  | lengthPercentage : SimpleType fun text => .lengthPercentage (.ofText text)
  | number : SimpleType fun text => .number (.ofText text)
  | url : SimpleType fun text => .url (.ofText text)
  | opacity : SimpleType fun text => .opacity (.ofText text)

theorem simpleType_ofText {property : String} (other : property ≠ "transform") :
    SimpleType (ofText property) := by
  fun_cases ofText property ""
  all_goals first
    | exact SimpleType.paint
    | exact SimpleType.length
    | exact SimpleType.lengthPercentage
    | exact SimpleType.number
    | exact absurd rfl other
    | exact SimpleType.url
    | exact SimpleType.opacity
    | skip
  · have generic : ofText property = PropertyValue.generic := by
      funext text
      simp only [ofText, *]
    rw [generic]
    exact SimpleType.generic

/-- A value keeps the text that it was read from. -/
theorem text_ofText (name text : String) : (ofText name text).text = text := by
  by_cases transforms : name = "transform"
  · rw [transforms]
    rfl
  · have simple := simpleType_ofText transforms
    generalize ofText name = read at simple ⊢
    cases simple <;> rfl

/-- A style may keep the trimmed text of an attribute instead of the text itself, as
long as shortest texts are compared with those of trimmed texts. -/
theorem minified_trim_of_eq {property t v : String} (other : property ≠ "transform")
    (trimmed : Text.trim v = v) (same : (ofText property t).minified = (ofText property v).minified) :
    (ofText property (Text.trim t)).minified = (ofText property v).minified := by
  have simple := simpleType_ofText other
  generalize ofText property = read at simple same
  cases simple with
  | generic =>
      change Text.trim (Text.trim t) = Text.trim v
      rw [Text.trim_trim]
      exact same
  | paint => exact (Cached.minified_trim Paint.trimsFirst t).trans same
  | length => exact (Cached.minified_trim Length.trimsFirst t).trans same
  | lengthPercentage => exact (Cached.minified_trim Length.trimsFirst t).trans same
  | number => exact Cached.minified_trim_of_eq Numeral.settles trimmed same
  | url => exact (Cached.minified_trim Reference.trimsFirst t).trans same
  | opacity => exact Cached.minified_trim_of_eq Fraction.settles trimmed same

end PropertyValue

/-! ## Attribute values -/

theorem AttributeValue.text_ofAttribute (element name text : String) :
    (ofAttribute element name text).text = text := by
  unfold ofAttribute
  split
  all_goals first
    | rfl
    | split
    | skip
  all_goals first
    | rfl
    | exact PropertyValue.text_ofText _ text

end SlimSvg
