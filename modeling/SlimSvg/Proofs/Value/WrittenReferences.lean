import SlimSvg.Proofs.Text.Trim
import SlimSvg.Value.Paint
import SlimSvg.Proofs.Value.SpelledReferences

namespace SlimSvg

/-!
# Written paints

An opaque colour is written as the digits of its bytes, or as a keyword that is shorter.
Both are read as the colour that was written, on their own and behind a reference.
A reference is written without quotation marks.  A quoted id may hold blanks and closing
parentheses, which end an id without quotation marks, so only a bare id is found again.
-/

namespace Color

/-! ## Digits -/

theorem hexValue?_hexDigit {n : Nat} (small : n < 16) : hexValue? (hexDigit n) = some n := by
  have each : ∀ i : Fin 16, hexValue? (hexDigit i) = some i.val := by decide
  exact each ⟨n, small⟩

/-- The digits of the shorter form. -/
def hexDigits (c : Color) : List Nat :=
  let bytes := [c.red, c.green, c.blue]
  if bytes.all isDoubled then bytes.map fun b => b.toNat % 16
  else bytes.flatMap fun b => [b.toNat / 16, b.toNat % 16]

theorem toList_hexForm (c : Color) : c.hexForm.toList = '#' :: c.hexDigits.map hexDigit := by
  rw [hexForm, hexDigits]
  split
  · rw [String.toList_ofList]
    rfl
  · rw [String.toList_ofList]
    rfl

theorem lt_of_mem_hexDigits {c : Color} {d : Nat} (listed : d ∈ c.hexDigits) : d < 16 := by
  have low (b : UInt8) : b.toNat % 16 < 16 := Nat.mod_lt _ (by decide)
  have high (b : UInt8) : b.toNat / 16 < 16 := Nat.div_lt_of_lt_mul b.toNat_lt
  rw [hexDigits] at listed
  split at listed
  · rcases List.mem_map.mp listed with ⟨b, -, rfl⟩
    exact low b
  · rcases List.mem_flatMap.mp listed with ⟨b, -, among⟩
    rcases List.mem_cons.mp among with rfl | last
    · exact high b
    · rw [List.mem_singleton.mp last]
      exact low b

theorem ofNat_halves (b : UInt8) : UInt8.ofNat (b.toNat / 16 * 16 + b.toNat % 16) = b := by
  rw [Nat.div_add_mod']
  exact UInt8.ofNat_toNat

/-- A digit that stands for two of them. -/
theorem ofNat_doubled {b : UInt8} (doubled : isDoubled b = true) : UInt8.ofNat (b.toNat % 16 * 17) = b := by
  have same : b.toNat / 16 = b.toNat % 16 := beq_iff_eq.mp doubled
  have twice : b.toNat % 16 * 17 = b.toNat / 16 * 16 + b.toNat % 16 := by omega
  rw [twice, ofNat_halves]

theorem ofHexDigits?_hexDigits {c : Color} (opaqueColor : c.isOpaque = true) : ofHexDigits? c.hexDigits = some c := by
  have alpha : (255 : UInt8) = c.alpha := (beq_iff_eq.mp opaqueColor).symm
  rw [hexDigits]
  split
  · next doubled =>
    have each := List.all_eq_true.mp doubled
    have red := ofNat_doubled (each c.red (by simp))
    have green := ofNat_doubled (each c.green (by simp))
    have blue := ofNat_doubled (each c.blue (by simp))
    change some (⟨UInt8.ofNat (c.red.toNat % 16 * 17), UInt8.ofNat (c.green.toNat % 16 * 17),
      UInt8.ofNat (c.blue.toNat % 16 * 17), 255⟩ : Color) = some c
    rw [red, green, blue, alpha]
  · change some (⟨UInt8.ofNat (c.red.toNat / 16 * 16 + c.red.toNat % 16),
      UInt8.ofNat (c.green.toNat / 16 * 16 + c.green.toNat % 16),
      UInt8.ofNat (c.blue.toNat / 16 * 16 + c.blue.toNat % 16), 255⟩ : Color) = some c
    rw [ofNat_halves, ofNat_halves, ofNat_halves, alpha]

/-- Digits are read up to their end. -/
theorem scan?_digits {digits : List Nat} (small : ∀ d ∈ digits, d < 16) :
    scan? ('#' :: digits.map hexDigit) = (ofHexDigits? digits).map fun c => (c, []) := by
  have solid : ∀ c ∈ digits.map hexDigit, isHexDigit c = true := by
    intro c listed
    rcases List.mem_map.mp listed with ⟨d, among, rfl⟩
    rw [isHexDigit, hexValue?_hexDigit (small d among)]
    rfl
  have values : (digits.map hexDigit).filterMap hexValue? = digits := by
    induction digits with
    | nil => rfl
    | cons d rest inductionHypothesis =>
        rcases List.forall_mem_cons.mp small with ⟨here, later⟩
        rw [List.map_cons, List.filterMap_cons_some (hexValue?_hexDigit here)]
        refine congrArg (d :: ·) (inductionHypothesis later ?_)
        exact (List.forall_mem_cons.mp solid).2
  have taken : (digits.map hexDigit).takeWhile isHexDigit = digits.map hexDigit :=
    List.takeWhile_eq_self_iff.mpr solid
  have dropped : (digits.map hexDigit).dropWhile isHexDigit = [] := List.dropWhile_eq_nil_iff.mpr solid
  change (ofHexDigits? (((digits.map hexDigit).takeWhile isHexDigit).filterMap hexValue?)).bind
    (fun color => some (color, (digits.map hexDigit).dropWhile isHexDigit)) = _
  rw [taken, values, dropped, Option.map_eq_bind]
  rfl

theorem read?_hexForm {c : Color} (opaqueColor : c.isOpaque = true) : read? c.hexForm.toList = some c := by
  rw [toList_hexForm, read?, scan?_digits fun d => lt_of_mem_hexDigits, ofHexDigits?_hexDigits opaqueColor]
  rfl

/-! ## Keywords -/

theorem ofCode_code {c : Color} (opaqueColor : c.isOpaque = true) : ofCode c.code = c := by
  have alpha : (255 : UInt8) = c.alpha := (beq_iff_eq.mp opaqueColor).symm
  have red := c.red.toNat_lt
  have green := c.green.toNat_lt
  have blue := c.blue.toNat_lt
  have part {code : Nat} {b : UInt8} (same : code % 256 = b.toNat) : UInt8.ofNat code = b := by
    rw [← UInt8.toNat_inj, UInt8.toNat_ofNat']
    exact same
  rw [ofCode, code, part (b := c.red) (by omega), part (b := c.green) (by omega), part (b := c.blue) (by omega), alpha]

/-- An opaque colour is written as its digits or as a keyword for it. -/
theorem write_spec {c : Color} (opaqueColor : c.isOpaque = true) :
    c.write = c.hexForm ∨ ∃ keyword ∈ shortKeywords, c.write = keyword.1 ∧ ofCode keyword.2 = c := by
  rw [write]
  split
  · next name code found =>
    split
    · have coded : (code == c.code) = true := by
        have chosen := List.find?_some found
        exact chosen
      refine .inr ⟨(name, code), List.mem_of_find?_eq_some found, rfl, ?_⟩
      rw [beq_iff_eq.mp coded, ofCode_code opaqueColor]
    · exact .inl rfl
  · exact .inl rfl

end Color

/-! ## Colours as paints -/

namespace Paint

theorem isOpaque_of_opaqueColor? {cs : List Char} {c : Color} (found : opaqueColor? cs = some c) :
    c.isOpaque = true :=
  (Option.filter_eq_some_iff.mp found).2

theorem opaqueColor?_hexForm {c : Color} (opaqueColor : c.isOpaque = true) :
    opaqueColor? c.hexForm.toList = some c := by
  rw [opaqueColor?, Color.read?_hexForm opaqueColor]
  exact Option.filter_some_pos opaqueColor

theorem ofList_ne {c : Char} {word : String} (front : c ∉ word.toList.head?) (cs : List Char) :
    ¬(String.ofList (c :: cs) == word) = true := by
  intro same
  rw [← beq_iff_eq.mp same, String.toList_ofList] at front
  exact front rfl

theorem tight_hexForm (c : Color) : Text.Tight c.hexForm.toList := by
  rw [Color.toList_hexForm]
  constructor
  · rintro d ⟨⟩
    rfl
  · intro d last
    rcases List.mem_cons.mp (List.mem_of_mem_getLast? last) with rfl | digit
    · rfl
    · rcases List.mem_map.mp digit with ⟨n, listed, rfl⟩
      have each : ∀ i : Fin 16, Text.isWhiteSpace (Color.hexDigit i) = false := by decide
      exact each ⟨n, Color.lt_of_mem_hexDigits listed⟩

theorem tight_write {c : Color} (opaqueColor : c.isOpaque = true) : Text.Tight c.write.toList := by
  rcases Color.write_spec opaqueColor with digits | ⟨keyword, listed, written, -⟩
  · rw [digits]
    exact tight_hexForm c
  · have each : ∀ keyword ∈ Color.shortKeywords, Text.Tight keyword.1.toList := by decide
    rw [written]
    exact each keyword listed

theorem toList_write_ne_nil {c : Color} (opaqueColor : c.isOpaque = true) : c.write.toList ≠ [] := by
  rcases Color.write_spec opaqueColor with digits | ⟨keyword, listed, written, -⟩
  · rw [digits, Color.toList_hexForm]
    exact List.cons_ne_nil _ _
  · have each : ∀ keyword ∈ Color.shortKeywords, keyword.1.toList ≠ [] := by decide
    rw [written]
    exact each keyword listed

theorem read?_write_color {c : Color} (opaqueColor : c.isOpaque = true) : read? c.write = some (.color c) := by
  rcases Color.write_spec opaqueColor with digits | ⟨keyword, listed, written, named⟩
  · have digitsRead := opaqueColor?_hexForm opaqueColor
    rw [digits, read?, Text.trimChars_eq_self (tight_hexForm c)]
    rw [Color.toList_hexForm] at digitsRead ⊢
    have noReference (cs : List Char) : Text.startsWith (String.ofList ('#' :: cs)) "url(" = false := by
      rw [Text.startsWith, String.toList_ofList, String.toList_ofList]
      rfl
    dsimp only
    rw [if_neg (ofList_ne (by decide) _), if_neg (ofList_ne (by decide) _), if_neg (ofList_ne (by decide) _),
      if_neg (ofList_ne (by decide) _), if_neg (ofList_ne (by decide) _), noReference, digitsRead]
    rfl
  · have each : ∀ keyword ∈ Color.shortKeywords, read? keyword.1 = some (.color (Color.ofCode keyword.2)) := by
      decide +kernel
    rw [written, each keyword listed, named]

theorem fallback?_write_color {c : Color} (opaqueColor : c.isOpaque = true) :
    fallback? (' ' :: c.write.toList) = some (some (.color c)) := by
  rcases Color.write_spec opaqueColor with digits | ⟨keyword, listed, written, named⟩
  · have digitsRead := opaqueColor?_hexForm opaqueColor
    rw [digits]
    rw [Color.toList_hexForm] at digitsRead ⊢
    have behindBlank (cs : List Char) : fallback? (' ' :: '#' :: cs) =
        if String.ofList ('#' :: cs) == "none" then some (some .none)
        else if String.ofList ('#' :: cs) == "currentColor" then some (some .currentColor)
        else (opaqueColor? ('#' :: cs)).map fun c => some (PaintFallback.color c) := rfl
    rw [behindBlank]
    rw [if_neg (ofList_ne (by decide) _), if_neg (ofList_ne (by decide) _), digitsRead]
    rfl
  · have each : ∀ keyword ∈ Color.shortKeywords,
        fallback? (' ' :: keyword.1.toList) = some (some (.color (Color.ofCode keyword.2))) := by
      decide +kernel
    rw [written, each keyword listed, named]

end Paint

/-! ## Written references -/

namespace Reference

/-- Whether an id needs no quotation marks. -/
def IsBare (id : String) : Prop :=
  ' ' ∉ id.toList ∧ ')' ∉ id.toList

instance (id : String) : Decidable (IsBare id) :=
  inferInstanceAs (Decidable (_ ∧ _))

section Scan

variable {cs rest id : List Char}

theorem scanFunction?_spec (found : scanFunction? cs = some (id, rest)) :
    id ≠ [] ∧ ∀ c ∈ id, isQuote c = false := by
  rcases exists_spells_of_scanFunction? found with ⟨quote, before, lead, closing, spells⟩
  exact ⟨spells.name.nonempty, spells.name.unquoted⟩

/-- An id without quotation marks is read up to the parenthesis. -/
theorem scanFunction?_bare (nonempty : id ≠ []) (unquoted : ∀ c ∈ id, isQuote c = false)
    (bare : IsBare (String.ofList id)) (rest : List Char) :
    scanFunction? ('u' :: 'r' :: 'l' :: '(' :: '#' :: (id ++ ')' :: rest)) = some (id, rest) := by
  have nothing : ∀ c ∈ ([] : List Char), Text.isXmlSpace c = true := fun _ impossible => nomatch impossible
  have inside : ∀ c ∈ id, c ≠ ' ' ∧ c ≠ ')' := by
    rw [IsBare, String.toList_ofList] at bare
    exact fun c listed => ⟨fun same => bare.1 (same ▸ listed), fun same => bare.2 (same ▸ listed)⟩
  have name : IsName Option.none id := ⟨nonempty, unquoted, fun _ => inside, fun impossible => nomatch impossible⟩
  exact Spells.scanFunction?_eq_some ⟨rfl, nothing, .bare nothing, name, .bare nothing fun _ impossible => nomatch impossible⟩

end Scan

theorem function_eq (id : List Char) (behind : String) :
    "url(#" ++ String.ofList id ++ ")" ++ behind =
      String.ofList ('u' :: 'r' :: 'l' :: '(' :: '#' :: (id ++ ')' :: behind.toList)) := by
  rw [← String.toList_inj]
  simp

theorem read?_of_trimChars {s : String} {cs : List Char}
    (trimmed : Text.trimChars s.toList = 'u' :: 'r' :: 'l' :: '(' :: cs) :
    read? s = readFunction? ('u' :: 'r' :: 'l' :: '(' :: cs) := by
  rw [read?, trimmed]
  rfl

theorem read?_function {cs : List Char} (tight : Text.Tight ('u' :: 'r' :: 'l' :: '(' :: cs)) :
    read? (String.ofList ('u' :: 'r' :: 'l' :: '(' :: cs)) = readFunction? ('u' :: 'r' :: 'l' :: '(' :: cs) :=
  read?_of_trimChars (by rw [String.toList_ofList, Text.trimChars_eq_self tight])

theorem read?_fragment {cs : List Char} (tight : Text.Tight ('#' :: cs)) :
    read? (String.ofList ('#' :: cs)) = readFragment? ('#' :: cs) := by
  rw [read?, String.toList_ofList, Text.trimChars_eq_self tight]
  rfl

/-- A fragment without white space around it is written as it stands. -/
theorem write_of_readFragment? {behind : List Char} {r : Reference} (tight : Text.Tight ('#' :: behind))
    (found : readFragment? ('#' :: behind) = some r) : r.write = String.ofList ('#' :: behind) := by
  change (if (behind.takeWhile (· != ' ')).isEmpty then Option.none
    else if (Value.skipSpaces (behind.dropWhile (· != ' '))).isEmpty then
      some (fragment (String.ofList (behind.takeWhile (· != ' ')))) else Option.none) = some r at found
  rcases Option.ite_none_left_eq_some.mp found with ⟨-, found⟩
  rcases Option.ite_none_right_eq_some.mp found with ⟨blank, same⟩
  have joined : behind.takeWhile (· != ' ') ++ behind.dropWhile (· != ' ') = behind :=
    List.takeWhile_append_dropWhile
  have nothing : behind.dropWhile (· != ' ') = [] := by
    refine @Text.Tight.eq_nil_of_blank ('#' :: behind.takeWhile (· != ' ')) _ ?_ fun c listed => ?_
    · rw [List.cons_append, joined]
      exact tight
    · exact Text.isWhiteSpace_of_isXmlSpace (List.dropWhile_eq_nil_iff.mp (List.isEmpty_iff.mp blank) c listed)
  rw [nothing, List.append_nil] at joined
  rw [← Option.some.inj same, joined, write, ← String.toList_inj, String.toList_append, String.toList_ofList,
    String.toList_ofList, String.toList_ofList]
  rfl

/-- A reference is read as it was written, if its id needs no quotation marks. -/
theorem read?_write {s : String} {r : Reference} (read : read? s = some r)
    (bare : ∀ id, r = .function id → IsBare id) : read? r.write = some r := by
  rcases Text.exists_append_trimChars s.toList with ⟨-, -, -, -, -, tight⟩
  rw [read?] at read
  generalize Text.trimChars s.toList = cs at read tight
  split at read
  · rw [← Option.some.inj read]
    rfl
  · rcases Option.bind_eq_some_iff.mp read with ⟨⟨id, rest⟩, scanned, ended⟩
    rcases Option.ite_none_right_eq_some.mp ended with ⟨-, same⟩
    rcases scanFunction?_spec scanned with ⟨nonempty, unquoted⟩
    have function : function (String.ofList id) = r := Option.some.inj same
    have scannedAgain := scanFunction?_bare nonempty unquoted (bare _ function.symm) []
    have written : r.write = String.ofList ('u' :: 'r' :: 'l' :: '(' :: '#' :: (id ++ [')'])) := by
      have whole := function_eq id ""
      rw [String.append_empty] at whole
      rw [← function]
      exact whole
    have tightAgain : Text.Tight ('u' :: 'r' :: 'l' :: '(' :: '#' :: (id ++ [')'])) := by
      constructor
      · rintro c ⟨⟩
        rfl
      · intro c last
        rw [← List.cons_append, ← List.cons_append, ← List.cons_append, ← List.cons_append, ← List.cons_append,
          List.getLast?_concat] at last
        rw [← Option.some.inj last]
        rfl
    rw [written, read?_function tightAgain, readFunction?, scannedAgain, ← function]
    rfl
  · rw [write_of_readFragment? tight read, read?_fragment tight, read]
  · cases read

end Reference

namespace Paint

/-- What every paint is that was read: its colours are opaque, and its id could be scanned. -/
def WasRead : Paint → Prop
  | .color c => c.isOpaque = true
  | .server id fallback => (id.toList ≠ [] ∧ ∀ c ∈ id.toList, Reference.isQuote c = false) ∧
      ∀ c, fallback = some (.color c) → c.isOpaque = true
  | _ => True

theorem isOpaque_of_fallback? {cs : List Char} {c : Color} (found : fallback? cs = some (some (.color c))) :
    c.isOpaque = true := by
  unfold fallback? at found
  split at found
  · cases found
  · dsimp only at found
    split at found
    · cases found
    · split at found
      · cases found
      · rcases Option.map_eq_some_iff.mp found with ⟨d, opaqueColor, same⟩
        cases same
        exact isOpaque_of_opaqueColor? opaqueColor

theorem wasRead_of_read? {s : String} {paint : Paint} (read : read? s = some paint) : paint.WasRead := by
  rw [read?] at read
  generalize Text.trimChars s.toList = cs at read
  dsimp only at read
  split at read
  · exact Option.some.inj read ▸ True.intro
  split at read
  · cases read
  split at read
  · exact Option.some.inj read ▸ True.intro
  split at read
  · exact Option.some.inj read ▸ True.intro
  split at read
  · exact Option.some.inj read ▸ True.intro
  split at read
  · rcases Option.bind_eq_some_iff.mp read with ⟨⟨id, rest⟩, scanned, read⟩
    rcases Option.bind_eq_some_iff.mp read with ⟨fallback, behind, same⟩
    rw [← Option.some.inj same]
    refine ⟨?_, fun c colored => isOpaque_of_fallback? (colored ▸ behind)⟩
    rw [String.toList_ofList]
    exact Reference.scanFunction?_spec scanned
  · rcases Option.map_eq_some_iff.mp read with ⟨c, opaqueColor, same⟩
    rw [← same]
    exact isOpaque_of_opaqueColor? opaqueColor

theorem fallback?_writeFallback {fallback : Option PaintFallback}
    (opaqueColor : ∀ c, fallback = some (.color c) → c.isOpaque = true) :
    fallback? (writeFallback fallback).toList = some fallback := by
  cases fallback with
  | none => rfl
  | some word =>
      cases word with
      | none => rfl
      | currentColor => rfl
      | color c =>
          rw [writeFallback, String.toList_append]
          exact fallback?_write_color (opaqueColor c rfl)

theorem tight_server {fallback : Option PaintFallback}
    (opaqueColor : ∀ c, fallback = some (.color c) → c.isOpaque = true) (id : List Char) :
    Text.Tight ('u' :: 'r' :: 'l' :: '(' :: '#' :: (id ++ ')' :: (writeFallback fallback).toList)) := by
  have behind : Text.Tight (')' :: (writeFallback fallback).toList) := by
    cases fallback with
    | none => decide
    | some word =>
        cases word with
        | none => decide
        | currentColor => decide
        | color c =>
            have isOpaque := opaqueColor c rfl
            refine ⟨by rintro d ⟨⟩; rfl, fun d last => ?_⟩
            rw [writeFallback, String.toList_append, ← List.cons_append, List.getLast?_append,
              List.getLast?_eq_some_getLast (toList_write_ne_nil isOpaque), Option.some_or,
              ← List.getLast?_eq_some_getLast] at last
            exact (tight_write isOpaque).last d last
  constructor
  · rintro c ⟨⟩
    rfl
  · intro c last
    have whole : 'u' :: 'r' :: 'l' :: '(' :: '#' :: (id ++ ')' :: (writeFallback fallback).toList) =
        ('u' :: 'r' :: 'l' :: '(' :: '#' :: id) ++ ')' :: (writeFallback fallback).toList := rfl
    rw [whole, List.getLast?_append, List.getLast?_eq_some_getLast (List.cons_ne_nil _ _), Option.some_or,
      ← List.getLast?_eq_some_getLast] at last
    exact behind.last c last

theorem read?_of_trimChars {s : String} {cs : List Char}
    (trimmed : Text.trimChars s.toList = 'u' :: 'r' :: 'l' :: '(' :: cs) :
    read? s = (Reference.scanFunction? ('u' :: 'r' :: 'l' :: '(' :: cs)).bind fun found =>
      (fallback? found.2).bind fun fallback => some (.server (String.ofList found.1) fallback) := by
  have begins : Text.startsWith (String.ofList ('u' :: 'r' :: 'l' :: '(' :: cs)) "url(" = true := by
    rw [Text.startsWith, String.toList_ofList, String.toList_ofList]
    rfl
  rw [read?, trimmed]
  dsimp only
  rw [if_neg (ofList_ne (by decide) _), if_neg (ofList_ne (by decide) _), if_neg (ofList_ne (by decide) _),
    if_neg (ofList_ne (by decide) _), if_neg (ofList_ne (by decide) _), if_pos begins]
  rfl

theorem read?_function {cs : List Char} (tight : Text.Tight ('u' :: 'r' :: 'l' :: '(' :: cs)) :
    read? (String.ofList ('u' :: 'r' :: 'l' :: '(' :: cs)) =
      (Reference.scanFunction? ('u' :: 'r' :: 'l' :: '(' :: cs)).bind fun found =>
        (fallback? found.2).bind fun fallback => some (.server (String.ofList found.1) fallback) :=
  read?_of_trimChars (by rw [String.toList_ofList, Text.trimChars_eq_self tight])

/-- A paint is read as it was written, if its id needs no quotation marks. -/
theorem read?_write {paint : Paint} (wasRead : paint.WasRead)
    (bare : ∀ id fallback, paint = .server id fallback → Reference.IsBare id) : read? paint.write = some paint := by
  cases paint with
  | none => rfl
  | currentColor => decide
  | contextFill => decide
  | contextStroke => decide
  | color c => exact read?_write_color wasRead
  | server id fallback =>
      rcases wasRead with ⟨⟨nonempty, unquoted⟩, opaqueColor⟩
      have bareId := bare id fallback rfl
      rw [← String.ofList_toList (s := id)] at bareId
      have written : write (.server id fallback) = String.ofList
          ('u' :: 'r' :: 'l' :: '(' :: '#' :: (id.toList ++ ')' :: (writeFallback fallback).toList)) := by
        rw [← Reference.function_eq, String.ofList_toList]
        rfl
      rw [written, read?_function (tight_server opaqueColor _), Reference.scanFunction?_bare nonempty unquoted bareId]
      change (fallback? (writeFallback fallback).toList).bind _ = _
      rw [fallback?_writeFallback opaqueColor, String.ofList_toList]
      rfl

end Paint

end SlimSvg
