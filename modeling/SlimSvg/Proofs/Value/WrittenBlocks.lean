import Mathlib.Data.Bool.AllAny
import SlimSvg.Proofs.Value.Meaning
import SlimSvg.Proofs.Value.TermRuns
import SlimSvg.Proofs.Value.WrittenPaths

namespace SlimSvg

/-!
# Written declaration blocks

A block is written with nothing between its declarations but a semicolon.  It is read again
as it was if its properties are names and its values are runs of terms.  What was read is
spelled like this, and so is what is written for the values.
-/

namespace DeclarationScan

/-! ## Entries -/

section Entries

variable {cs name rest : List Char}

/-- Whether a text is a name, with or without a hyphen before it. -/
def IsName (name : List Char) : Prop :=
  ∃ hyphen c behind, (hyphen = [] ∨ hyphen = ['-']) ∧ name = hyphen ++ c :: behind ∧ isNameStart c = true ∧
    ∀ d ∈ behind, isNameChar d = true

theorem isName_of_scanName (found : scanName cs = (some name, rest)) (more : rest ≠ []) : IsName name := by
  have inside (behind : List Char) : ∀ d ∈ behind.takeWhile isNameChar, isNameChar d = true :=
    fun d listed => List.mem_takeWhile_imp listed
  cases cs with
  | nil => cases found
  | cons c behind =>
      by_cases hyphen : c = '-'
      · rw [hyphen] at found
        cases behind with
        | nil =>
            cases found
            exact absurd rfl more
        | cons d behind =>
            change (if isNameStart d then (some ('-' :: d :: behind.takeWhile isNameChar), behind.dropWhile isNameChar)
              else (none, d :: behind)) = _ at found
            split at found
            · next start =>
              cases found
              exact ⟨['-'], d, _, .inr rfl, rfl, start, inside behind⟩
            · cases found
      · rw [scanName_word hyphen] at found
        split at found
        · next start =>
          cases found
          exact ⟨[], c, _, .inl rfl, rfl, start, inside behind⟩
        · cases found

theorem ne_hyphen_of_isNameStart {c : Char} (start : isNameStart c = true) : c ≠ '-' := by
  rintro rfl
  exact absurd start (by decide)

/-- A name is scanned up to a character that cannot go on. -/
theorem IsName.scanName_eq (isName : IsName name) (stop : ∀ d ∈ rest.head?, isNameChar d = false) :
    scanName (name ++ rest) = (some name, rest) := by
  rcases isName with ⟨hyphen, c, behind, plain | hyphened, rfl, start, inside⟩
  · rw [plain, List.nil_append, List.cons_append, scanName_word (ne_hyphen_of_isNameStart start), if_pos start,
      Text.takeWhile_append_of_all inside stop, Text.dropWhile_append_of_all inside stop]
  · rw [hyphened]
    change (if isNameStart c then (some ('-' :: c :: (behind ++ rest).takeWhile isNameChar), (behind ++ rest).dropWhile isNameChar)
      else (none, c :: (behind ++ rest))) = _
    rw [if_pos start, Text.takeWhile_append_of_all inside stop, Text.dropWhile_append_of_all inside stop]
    rfl

theorem IsName.exists_cons (isName : IsName name) : ∃ c behind, name = c :: behind ∧ isNameChar c = true := by
  rcases isName with ⟨hyphen, c, behind, plain | hyphened, rfl, start, inside⟩
  · exact ⟨c, behind, by rw [plain]; rfl, isNameChar_of_isNameStart start⟩
  · exact ⟨'-', c :: behind, by rw [hyphened]; rfl, rfl⟩

/-- Nothing is skipped before a character of a name. -/
theorem skipBlank?_of_solid {c : Char} (solid : Text.isCssSpace c = false) (slash : c ≠ '/') (rest : List Char) :
    skipBlank? (c :: rest) = some (c :: rest) := by
  have kept : (c :: rest).dropWhile Text.isCssSpace = c :: rest :=
    List.dropWhile_cons_of_neg (Bool.eq_false_iff.mp solid)
  rw [skipBlank?_of_no_comment, kept]
  rw [kept]
  intro behind comment
  exact slash (List.cons.inj comment).1

theorem IsName.skipBlank?_append (isName : IsName name) (rest : List Char) :
    skipBlank? (name ++ rest) = some (name ++ rest) := by
  rcases isName.exists_cons with ⟨c, behind, rfl, named⟩
  refine skipBlank?_of_solid (isCssSpace_of_isGap (isGap_of_isNameChar named)) ?_ _
  rintro rfl
  exact absurd named (by decide)

theorem IsRun.skipBlank?_append (run : IsRun cs) (rest : List Char) :
    skipBlank? (cs ++ rest) = some (cs ++ rest) := by
  rcases List.exists_cons_of_ne_nil run.nonempty with ⟨c, behind, rfl⟩
  rcases run.first c rfl with ⟨solid, slash⟩
  exact skipBlank?_of_solid (isCssSpace_of_isGap solid) slash _

/-- The mark of an important declaration, if it is one. -/
def markChars (important : Bool) : List Char :=
  if important then "!important".toList else []

/-- Whether a text goes on with another declaration, or ends. -/
def IsNext (rest : List Char) : Prop :=
  rest = [] ∨ ∃ name behind, rest = name ++ behind ∧ IsName name

theorem IsNext.skipBlank?_eq (isNext : IsNext rest) : skipBlank? rest = some rest := by
  rcases isNext with rfl | ⟨name, behind, rfl, isName⟩
  · exact skipBlank?_of_stops stops_nil
  · exact isName.skipBlank?_append behind

theorem IsNext.skipSemicolons?_eq (isNext : IsNext rest) (bound : Nat) :
    skipSemicolons? bound rest = some rest := by
  have other : rest.head? ≠ some ';' := by
    rcases isNext with rfl | ⟨name, behind, rfl, isName⟩
    · exact fun impossible => nomatch impossible
    · rcases isName.exists_cons with ⟨c, behind, rfl, named⟩
      intro same
      rw [Option.some.inj same] at named
      exact absurd named (by decide)
  unfold skipSemicolons?
  split
  · exact absurd rfl other
  · rfl

theorem stops_semicolon {semicolon : List Char} (ended : semicolon = [';'] ∨ semicolon = [] ∧ rest = []) :
    Stops (semicolon ++ rest) := by
  rcases ended with rfl | ⟨rfl, rfl⟩
  · exact .of_mem (by decide)
  · exact stops_nil

theorem scanImportant?_mark (important : Bool) {behind : List Char} (stops : Stops behind) (noMark : '!' ∉ behind.head?) :
    scanImportant? (markChars important ++ behind) = some (important, behind) := by
  cases important with
  | true =>
      change (skipBlank? ("important".toList ++ behind)).bind _ = _
      have solid : skipBlank? ("important".toList ++ behind) = some ("important".toList ++ behind) :=
        skipBlank?_of_solid (c := 'i') (by decide) (by decide) _
      rw [solid, Option.bind_some, Text.isPrefixOf?_append]
  | false =>
      change scanImportant? behind = _
      unfold scanImportant?
      split
      · exact absurd rfl noMark
      · rfl

/-- The entry with a name whose value begins here, and what follows it. -/
def entryOfValue? (name start : List Char) : Option (Entry × List Char) := do
  let (last, rest) ← scanTerms? start.length start start
  let value := Text.trimChars (start.take (start.length - last.length))
  let rest ← skipBlank? rest
  let (important, rest) ← scanImportant? rest
  let rest ← skipBlank? rest
  let rest ← skipSemicolons? rest.length rest
  let rest ← skipBlank? rest
  if value.isEmpty then none
  else some (⟨String.ofList name, String.ofList value, important⟩, rest)

/-- The entry whose name begins here, and what follows it. -/
def entryOfName? (cs : List Char) : Option (Entry × List Char) := do
  let (some name, rest) := scanName cs | none
  let rest ← skipBlank? rest
  let rest ← [':'].isPrefixOf? rest
  let start ← skipBlank? rest
  entryOfValue? name start

theorem scanEntry?_eq (cs : List Char) :
    scanEntry? cs = (skipBlank? cs).bind fun begun => entryOfName? (behindStar begun) :=
  rfl

theorem entryOfName?_of_unnamed (unnamed : (scanName cs).1 = none) : entryOfName? cs = none := by
  rw [entryOfName?]
  split
  · next named => rw [named] at unnamed; cases unnamed
  · rfl

theorem entryOfName?_of_named (named : scanName cs = (some name, rest)) :
    entryOfName? cs = (skipBlank? rest).bind fun colon => ([':'].isPrefixOf? colon).bind fun behind =>
      (skipBlank? behind).bind (entryOfValue? name) := by
  rw [entryOfName?, named]
  rfl

/-- A written declaration is read with the value and the mark that were written; the
semicolon behind it is taken, too. -/
theorem scanEntry?_written {value : List Char} (isName : IsName name) (run : IsRun value) (tight : Text.Tight value)
    (important : Bool) {semicolon : List Char} (isNext : IsNext rest)
    (ended : semicolon = [';'] ∨ semicolon = [] ∧ rest = []) :
    scanEntry? (name ++ ':' :: (value ++ (markChars important ++ (semicolon ++ rest)))) =
      some (⟨String.ofList name, String.ofList value, important⟩, rest) := by
  have behindMark := stops_semicolon ended
  have noMark : '!' ∉ (semicolon ++ rest).head? := by
    rcases ended with rfl | ⟨rfl, rfl⟩
    · exact fun same => absurd (Option.some.inj same) (by decide)
    · exact fun impossible => nomatch impossible
  have behindValue : Stops (markChars important ++ (semicolon ++ rest)) := by
    cases important with
    | true => exact .of_mem (by decide)
    | false => exact behindMark
  have important_eq := scanImportant?_mark important behindMark noMark
  generalize markChars important ++ (semicolon ++ rest) = behind at behindValue important_eq
  have terms := run.scanned behind behindValue (value ++ behind).length (value ++ behind) (by rw [List.length_append])
  have valueEq : Text.trimChars ((value ++ behind).take ((value ++ behind).length - behind.length)) = value := by
    rw [List.length_append, Nat.add_sub_cancel, List.take_left, Text.trimChars_eq_self tight]
  have semicolons : skipSemicolons? (semicolon ++ rest).length (semicolon ++ rest) = some rest := by
    rcases ended with rfl | ⟨rfl, rfl⟩
    · change (skipBlank? rest).bind _ = _
      rw [isNext.skipBlank?_eq]
      exact isNext.skipSemicolons?_eq _
    · exact isNext.skipSemicolons?_eq _
  have named : scanName (name ++ ':' :: (value ++ behind)) = (some name, ':' :: (value ++ behind)) :=
    isName.scanName_eq (by rintro d ⟨⟩; decide)
  have noStar : behindStar (name ++ ':' :: (value ++ behind)) = name ++ ':' :: (value ++ behind) := by
    rcases isName.exists_cons with ⟨c, later, rfl, nameChar⟩
    unfold behindStar
    split
    · next same =>
      rw [(List.cons.inj same).1] at nameChar
      exact absurd nameChar (by decide)
    · rfl
  rw [scanEntry?_eq, isName.skipBlank?_append, Option.bind_some, noStar, entryOfName?_of_named named,
    skipBlank?_of_solid (c := ':') (by decide) (by decide), Option.bind_some]
  change (skipBlank? (value ++ behind)).bind _ = _
  rw [run.skipBlank?_append, Option.bind_some, entryOfValue?, terms]
  simp only [Option.bind_eq_bind, Option.bind_some, skipBlank?_of_stops behindValue, important_eq,
    skipBlank?_of_stops behindMark, semicolons, isNext.skipBlank?_eq, valueEq]
  rw [if_neg fun none => run.nonempty (List.isEmpty_iff.mp none)]

end Entries

end DeclarationScan

/-! ## Blocks -/

namespace Declarations

open DeclarationScan

/-- Whether a declaration is spelled as one that can be read: its property is a name, and its
value is a run of terms without white space around it. -/
structure Spelled (item : String × Declaration) : Prop where
  named : IsName item.1.toList
  run : IsRun item.2.value.toList
  tight : Text.Tight item.2.value.toList

/-- The declaration as it is read. -/
def entryOf (item : String × Declaration) : Entry :=
  ⟨item.1, item.2.value, item.2.important⟩

theorem toList_writeItem {item : String × Declaration} (spelled : Spelled item) :
    (writeItem item.1 item.2).toList =
      item.1.toList ++ ':' :: (item.2.value.toList ++ markChars item.2.important) := by
  have mark : (if item.2.important then "!important" else "").toList = markChars item.2.important := by
    rw [markChars]
    split <;> rfl
  rw [writeItem, String.toList_append, String.toList_append, String.toList_append, mark, Text.toList_trim,
    Text.trimChars_eq_self spelled.tight, List.append_assoc, List.append_assoc]
  rfl

theorem exists_semicolon {item : String × Declaration} {rest : List (String × Declaration)}
    (spelled : ∀ other ∈ item :: rest, Spelled other) :
    ∃ semicolon behind, (writeBlock ⟨item :: rest⟩).toList =
        item.1.toList ++ ':' :: (item.2.value.toList ++ (markChars item.2.important ++ (semicolon ++ behind))) ∧
      behind = (writeBlock ⟨rest⟩).toList ∧ (semicolon = [';'] ∨ semicolon = [] ∧ behind = []) := by
  rcases List.forall_mem_cons.mp spelled with ⟨here, later⟩
  cases rest with
  | nil =>
      refine ⟨[], [], ?_, rfl, .inr ⟨rfl, rfl⟩⟩
      rw [writeBlock, String.toList_intercalate, List.map_singleton, List.map_singleton, List.intercalate_singleton,
        toList_writeItem here, List.append_nil, List.append_nil]
  | cons next rest =>
      refine ⟨[';'], _, ?_, rfl, .inl rfl⟩
      rw [writeBlock, String.toList_intercalate, List.map_cons, List.map_cons, List.map_cons, List.map_cons,
        List.intercalate_cons_cons, toList_writeItem here, writeBlock, String.toList_intercalate, List.map_cons, List.map_cons]
      simp

/-- The declarations of a written block are read in order. -/
theorem scanEntries_writeBlock {items : List (String × Declaration)} (spelled : ∀ item ∈ items, Spelled item)
    {bound : Nat} (enough : items.length ≤ bound) :
    scanEntries bound (writeBlock ⟨items⟩).toList = items.map entryOf := by
  induction items generalizing bound with
  | nil =>
      cases bound with
      | zero => rfl
      | succ bound =>
        have nothing : (writeBlock ⟨[]⟩).toList = [] := rfl
        rw [scanEntries, nothing, skipBlank?_of_stops stops_nil]
        rfl
  | cons item rest inductionHypothesis =>
      rcases List.forall_mem_cons.mp spelled with ⟨here, later⟩
      cases bound with
      | zero => exact absurd enough (Nat.not_succ_le_zero _)
      | succ bound =>
        have behindRead := inductionHypothesis later (Nat.le_of_succ_le_succ enough)
        rcases exists_semicolon spelled with ⟨semicolon, behind, text, behindEq, ended⟩
        have isNext : IsNext behind := by
          rw [behindEq]
          cases rest with
          | nil => exact .inl rfl
          | cons next rest =>
              rcases exists_semicolon later with ⟨_, _, nextText, -⟩
              exact .inr ⟨next.1.toList, _, nextText, (later next List.mem_cons_self).named⟩
        have entry := scanEntry?_written here.named here.run here.tight item.2.important isNext ended
        have front := here.named.skipBlank?_append
          (':' :: (item.2.value.toList ++ (markChars item.2.important ++ (semicolon ++ behind))))
        have nonempty : item.1.toList ++
            ':' :: (item.2.value.toList ++ (markChars item.2.important ++ (semicolon ++ behind))) ≠ [] :=
          List.append_ne_nil_of_right_ne_nil _ (List.cons_ne_nil _ _)
        rw [text, scanEntries, front]
        generalize item.1.toList ++ ':' :: (item.2.value.toList ++ (markChars item.2.important ++ (semicolon ++ behind))) = cs
          at entry nonempty
        cases cs with
        | nil => exact absurd rfl nonempty
        | cons c cs =>
          dsimp only
          rw [entry, String.ofList_toList, String.ofList_toList]
          change entryOf item :: scanEntries bound behind = _
          rw [behindEq, behindRead]
          rfl

theorem length_le_length_writeBlock {items : List (String × Declaration)} (spelled : ∀ item ∈ items, Spelled item) :
    items.length ≤ (writeBlock ⟨items⟩).toList.length := by
  induction items with
  | nil => exact Nat.zero_le _
  | cons item rest inductionHypothesis =>
      have later := inductionHypothesis (List.forall_mem_cons.mp spelled).2
      rcases exists_semicolon spelled with ⟨semicolon, behind, text, behindEq, -⟩
      rw [text]
      rw [← behindEq] at later
      simp only [List.length_append, List.length_cons]
      omega

theorem cascade_of_absent {block : Declarations} {name : String} (absent : name ∉ block.items.map (·.1)) (value : String)
    (important : Bool) : block.cascade name value important = ⟨block.items ++ [(name, ⟨value, important⟩)]⟩ := by
  have undeclared : block.has name = false := by
    rw [has, List.any_eq_false]
    intro item listed same
    exact absent (List.mem_map.mpr ⟨item, listed, beq_iff_eq.mp same⟩)
  rw [cascade, declare, undeclared]
  rfl

theorem foldl_cascade_of_distinct {block : Declarations} {items : List (String × Declaration)}
    (distinct : ((block.items ++ items).map (·.1)).Nodup) :
    (items.map entryOf).foldl (fun block entry => block.cascade entry.name entry.value entry.important) block =
      ⟨block.items ++ items⟩ := by
  induction items generalizing block with
  | nil => rw [List.append_nil, List.map_nil, List.foldl_nil]
  | cons item rest inductionHypothesis =>
      have absent : item.1 ∉ block.items.map (·.1) := by
        rw [List.map_append, List.map_cons] at distinct
        intro listed
        exact (List.nodup_append.mp distinct).2.2 item.1 listed item.1 List.mem_cons_self rfl
      have grouped : block.items ++ item :: rest = (block.items ++ [item]) ++ rest := List.append_cons _ _ _
      rw [grouped] at distinct ⊢
      rw [List.map_cons, List.foldl_cons, entryOf, cascade_of_absent absent]
      exact inductionHypothesis distinct

/-- A block that declares each property once is read as it was written. -/
theorem read_writeBlock {block : Declarations} (spelled : ∀ item ∈ block.items, Spelled item)
    (distinct : block.Distinct) : read block.writeBlock = block := by
  have entries := scanEntries_writeBlock spelled (length_le_length_writeBlock spelled)
  rw [read]
  change List.foldl _ empty (scanEntries (writeBlock ⟨block.items⟩).toList.length (writeBlock ⟨block.items⟩).toList) = _
  rw [entries]
  exact foldl_cascade_of_distinct distinct

end Declarations

/-! ## Values that are written -/

namespace DeclarationScan

open Number

section WrittenValues

variable {cs rest : List Char}

theorem IsRun.of_scanTerm (found : scanTerm cs = (true, [])) : IsRun cs := by
  have nonempty : cs ≠ [] := by
    rintro rfl
    cases found
  have scanned : scanTerms? 1 cs (cs ++ []) = some ([], []) := by
    rw [List.append_nil, scanTerms?, found]
    change (skipBlank? []).bind _ = _
    rw [skipBlank?_of_stops stops_nil]
    rfl
  exact isRun_of_scanTerms? scanned nonempty

/-- A term can stand before a run of terms, with blanks between them or not. -/
theorem IsRun.behind_term {between : List Char} (run : IsRun rest) (blank : ∀ c ∈ between, Text.isCssSpace c = true)
    (found : scanTerm cs = (true, between ++ rest)) : IsRun cs := by
  have nonempty : cs ≠ [] := by
    rintro rfl
    cases found
  have front : skipBlank? (between ++ rest) = some rest := by
    rcases List.exists_cons_of_ne_nil run.nonempty with ⟨c, behind, rfl⟩
    rcases run.first c rfl with ⟨solid, slash⟩
    have dropped : (between ++ c :: behind).dropWhile Text.isCssSpace = c :: behind :=
      Text.dropWhile_append_of_all blank (by rintro d ⟨⟩; exact isCssSpace_of_isGap solid)
    rw [skipBlank?_of_no_comment, dropped]
    rw [dropped]
    exact fun _ comment => slash (List.cons.inj comment).1
  have terms := run.scanned [] stops_nil rest.length (between ++ rest) (Nat.le_refl _)
  rw [List.append_nil] at terms
  have scanned : scanTerms? (rest.length + 1) cs (cs ++ []) = some ([], []) := by
    rw [List.append_nil, scanTerms?, found]
    change (skipBlank? (between ++ rest)).bind _ = _
    rw [front]
    exact terms
  exact isRun_of_scanTerms? scanned nonempty

/-! ### Numbers -/

theorem beginsNumber_of_isDigit {c : Char} (digit : c.isDigit = true) : beginsNumber c = true := by
  rw [beginsNumber, digit, Bool.or_true]

theorem scanTerm_number {c : Char} (number : beginsNumber c = true) (cs : List Char) :
    scanTerm (c :: cs) = (true, behindUnit (behindFraction (cs.dropWhile Char.isDigit))) := by
  have notHash : (c == '#') = false := by
    refine beq_false_of_ne ?_
    rintro rfl
    exact absurd number (by decide)
  rw [scanTerm_cons, notHash, number]
  rfl

theorem behindUnit_suffix (unit : LengthUnit) : behindUnit unit.suffix.toList = [] := by
  cases unit <;> rfl

theorem behindFraction_suffix (unit : LengthUnit) : behindFraction unit.suffix.toList = unit.suffix.toList := by
  cases unit <;> rfl

theorem dropWhile_digits {ds : List Char} (digits : ∀ c ∈ ds, c.isDigit = true)
    (stop : ∀ c ∈ rest.head?, c.isDigit = false) : (ds ++ rest).dropWhile Char.isDigit = rest :=
  Text.dropWhile_append_of_all digits stop

theorem suffix_stops (unit : LengthUnit) : ∀ c ∈ unit.suffix.toList.head?, c.isDigit = false :=
  (Option.any_eq_false Char.isDigit _).mp (by cases unit <;> rfl)

theorem digits_of_spells_point {whole fraction : List Char} (spells : Spells ('.' :: cs) whole fraction) :
    ∀ c ∈ cs, c.isDigit = true := by
  generalize rowEq : '.' :: cs = row at spells
  cases spells with
  | whole some digits => exact absurd (digits '.' (rowEq ▸ List.mem_cons_self)) (by decide)
  | pointed some digits =>
      cases whole with
      | nil =>
          rw [(List.cons.inj rowEq).2]
          exact digits
      | cons d ds => exact absurd (digits '.' ((List.cons.inj rowEq).1 ▸ List.mem_cons_self)) (by decide)

/-- What stands behind the first character of a number with a unit is read to its end. -/
theorem behind_row {row whole fraction : List Char} (spells : Spells row whole fraction) (unit : LengthUnit) :
    behindUnit (behindFraction ((row ++ unit.suffix.toList).dropWhile Char.isDigit)) = [] := by
  cases spells with
  | whole some digits => rw [dropWhile_digits digits (suffix_stops unit), behindFraction_suffix, behindUnit_suffix]
  | pointed some digits =>
      have front : ∀ c ∈ whole, c.isDigit = true := fun c listed => digits c (List.mem_append_left _ listed)
      have back : ∀ c ∈ fraction, c.isDigit = true := fun c listed => digits c (List.mem_append_right _ listed)
      have point : ((whole ++ '.' :: fraction) ++ unit.suffix.toList).dropWhile Char.isDigit =
          '.' :: (fraction ++ unit.suffix.toList) := by
        rw [List.append_assoc]
        exact dropWhile_digits front (by rintro c ⟨⟩; rfl)
      rw [point]
      change behindUnit ((fraction ++ unit.suffix.toList).dropWhile Char.isDigit) = []
      rw [dropWhile_digits back (suffix_stops unit), behindUnit_suffix]

theorem scanTerm_compact (x : Binary) (unit : LengthUnit) :
    scanTerm (x.compact ++ unit.suffix).toList = (true, []) := by
  rw [String.toList_append, Binary.compact, String.toList_ofList]
  rcases x.exists_signed_compactChars with ⟨negative, row, whole, fraction, written, spells⟩
  rw [written, signed]
  cases negative with
  | true => exact (scanTerm_number (by decide) _).trans (congrArg _ (behind_row spells unit))
  | false =>
      have row_behind := behind_row spells unit
      rcases List.exists_cons_of_ne_nil spells.ne_nil with ⟨c, behind, rfl⟩
      have number := spells.isNumberChar List.mem_cons_self
      rw [isNumberChar, Bool.or_eq_true, beq_iff_eq] at number
      rcases number with digit | rfl
      · rw [List.cons_append, List.dropWhile_cons_of_pos digit] at row_behind
        exact (scanTerm_number (beginsNumber_of_isDigit digit) _).trans (congrArg _ row_behind)
      · have digits := digits_of_spells_point spells
        refine (scanTerm_number (by decide) _).trans (congrArg _ ?_)
        change behindUnit (behindFraction ((behind ++ unit.suffix.toList).dropWhile Char.isDigit)) = []
        rw [dropWhile_digits digits (suffix_stops unit), behindFraction_suffix, behindUnit_suffix]

theorem isRun_compact (x : Binary) : IsRun x.compact.toList := by
  have term := scanTerm_compact x .none
  rw [LengthUnit.suffix, String.append_empty] at term
  exact .of_scanTerm term

theorem isRun_write_length (l : Length) : IsRun l.write.toList := by
  rw [Length.write]
  split
  · exact isRun_compact l.number
  · exact .of_scanTerm (scanTerm_compact l.number l.unit)

/-! ### Colours and references -/

theorem isRun_write_color {c : Color} (isOpaque : c.isOpaque = true) : IsRun c.write.toList := by
  rcases Color.write_spec isOpaque with digits | ⟨keyword, listed, written, -⟩
  · rw [digits, Color.toList_hexForm]
    have hex : ∀ d ∈ c.hexDigits.map Color.hexDigit, Color.isHexDigit d = true := by
      intro d among
      rcases List.mem_map.mp among with ⟨n, listed, rfl⟩
      rw [Color.isHexDigit, Color.hexValue?_hexDigit (Color.lt_of_mem_hexDigits listed)]
      rfl
    have nothing : (scanName (c.hexDigits.map Color.hexDigit)).2.dropWhile Color.isHexDigit = [] :=
      List.dropWhile_eq_nil_iff.mpr fun d listed => hex d ((scanName_spec _).1.sublist.subset listed)
    exact .of_scanTerm ((scanTerm_cons _ _).trans (congrArg (true, ·) nothing))
  · have each : ∀ keyword ∈ Color.shortKeywords, scanTerm keyword.1.toList = (true, []) := by decide +kernel
    rw [written]
    exact .of_scanTerm (each keyword listed)

theorem scanTerm_word {c : Char} (start : isNameStart c = true) (cs : List Char) :
    scanTerm (c :: cs) = behindCall (cs.dropWhile isNameChar) := by
  have other {d : Char} (apart : isNameStart d = false) : (c == d) = false := by
    refine beq_false_of_ne ?_
    rintro rfl
    rw [start] at apart
    cases apart
  have noDigit : c.isDigit = false := by
    rw [← Bool.not_eq_true]
    intro digit
    simp only [isNameStart, isAlpha_iff, Char.isDigit, Bool.or_eq_true, Bool.and_eq_true, decide_eq_true_eq, beq_iff_eq,
      ge_iff_le, UInt32.le_iff_toNat_le] at start digit
    have first : 48 ≤ c.val.toNat := digit.1
    have last : c.val.toNat ≤ 57 := digit.2
    rcases start with (rfl | (⟨upper, -⟩ | ⟨lower, -⟩)) | large
    · exact absurd last (by decide)
    · have upper : 65 ≤ c.val.toNat := upper
      omega
    · have lower : 97 ≤ c.val.toNat := lower
      omega
    · have large : 237 < c.val.toNat := large
      omega
  rw [scanTerm_cons, other (by decide), beginsNumber, other (by decide), other (by decide), other (by decide), noDigit,
    Reference.isQuote, other (by decide), other (by decide), other (by decide), start]
  rfl

/-- A function is one term up to its first closing parenthesis. -/
theorem scanTerm_call {c : Char} {name arguments : List Char} (start : isNameStart c = true)
    (named : ∀ d ∈ name, isNameChar d = true) (closed : ')' ∉ arguments) (rest : List Char) :
    scanTerm (c :: (name ++ '(' :: (arguments ++ ')' :: rest))) = (true, rest) := by
  have inside : ∀ d ∈ arguments, (d != ')') = true := by
    intro d listed
    refine bne_iff_ne.mpr ?_
    rintro rfl
    exact closed listed
  have stop := @Text.dropWhile_append_of_all (')' :: rest) (· != ')') arguments inside (by rintro d ⟨⟩; rfl)
  rw [scanTerm_word start, Text.dropWhile_append_of_all named (by rintro d ⟨⟩; decide), behindCall, stop]

theorem scanTerm_function {id : List Char} (closed : ')' ∉ id) (rest : List Char) :
    scanTerm ('u' :: 'r' :: 'l' :: '(' :: '#' :: (id ++ ')' :: rest)) = (true, rest) :=
  @scanTerm_call 'u' ['r', 'l'] ('#' :: id) (by decide) (List.all_iff_forall_prop.mp (by decide))
    (fun listed => closed (List.mem_of_ne_of_mem (by decide) listed)) rest

theorem isRun_write_paint {paint : Paint} (wasRead : paint.WasRead)
    (closed : ∀ id fallback, paint = .server id fallback → ')' ∉ id.toList) : IsRun paint.write.toList := by
  cases paint with
  | color c => exact isRun_write_color wasRead
  | server id fallback =>
      have written := Reference.function_eq id.toList (Paint.writeFallback fallback)
      rw [String.ofList_toList] at written
      have term := scanTerm_function (closed id fallback rfl) (Paint.writeFallback fallback).toList
      rw [Paint.write, written, String.toList_ofList]
      have blank : ∀ c ∈ [' '], Text.isCssSpace c = true := List.all_iff_forall_prop.mp (by decide)
      cases fallback with
      | none => exact .of_scanTerm term
      | some word =>
          cases word with
          | none =>
              have run : IsRun "none".toList := .of_scanTerm (by decide +kernel)
              exact run.behind_term blank term
          | currentColor =>
              have run : IsRun "currentColor".toList := .of_scanTerm (by decide +kernel)
              exact run.behind_term blank term
          | color c =>
              have behind : (Paint.writeFallback (some (.color c))).toList = [' '] ++ c.write.toList := by
                rw [Paint.writeFallback, String.toList_append]
                rfl
              rw [behind] at term ⊢
              exact (isRun_write_color (wasRead.2 c rfl)).behind_term blank term
  | none => exact .of_scanTerm (by decide +kernel)
  | currentColor => exact .of_scanTerm (by decide +kernel)
  | contextFill => exact .of_scanTerm (by decide +kernel)
  | contextStroke => exact .of_scanTerm (by decide +kernel)

/-! ### Transformations -/

theorem notMem_writeNumbers (before : List Char) (numbers : List Binary) : ')' ∉ writeNumbers before numbers := by
  induction numbers generalizing before with
  | nil => exact List.not_mem_nil
  | cons x rest inductionHypothesis =>
      have number : ')' ∉ x.compactChars := fun listed =>
        absurd (isNumeric_of_mem_compactChars listed) (by unfold Value.IsNumeric; decide)
      rw [writeNumbers_cons]
      refine List.not_mem_append ?_ (List.not_mem_append number (inductionHypothesis _))
      split
      · decide
      · exact List.not_mem_nil

theorem scanTerm_write_item (item : TransformItem) (rest : List Char) : scanTerm (item.write ++ rest) = (true, rest) := by
  have names : ∀ name ∈ TransformList.functionNames,
      (name.toList.head?.any isNameStart && name.toList.all isNameChar) = true := by decide
  have named := names _ (TransformList.fst_parts_mem item)
  rw [Bool.and_eq_true, Option.any_eq_true, List.all_eq_true] at named
  rcases named with ⟨⟨c, first, start⟩, named⟩
  have written : item.write ++ rest = item.parts.1.toList ++ '(' :: (writeNumbers [] item.parts.2 ++ ')' :: rest) := by
    rw [TransformItem.write, List.append_assoc, List.append_assoc]
    rfl
  rcases List.head?_eq_some_iff.mp first with ⟨name, nameEq⟩
  rw [nameEq] at named
  rw [written, nameEq]
  exact scanTerm_call start (fun d listed => named d (List.mem_cons_of_mem c listed)) (notMem_writeNumbers _ _) rest

theorem isRun_write_transform {items : List TransformItem} (nonempty : items ≠ []) :
    IsRun (items.flatMap TransformItem.write) := by
  induction items with
  | nil => exact absurd rfl nonempty
  | cons item rest inductionHypothesis =>
      have term := scanTerm_write_item item (rest.flatMap TransformItem.write)
      rw [List.flatMap_cons]
      cases rest with
      | nil => exact .of_scanTerm term
      | cons next rest => exact (inductionHypothesis (List.cons_ne_nil _ _)).behind_term (List.forall_mem_nil _) term

end WrittenValues

end DeclarationScan

/-! ## Blocks that were read -/

namespace DeclarationScan

/-- Whether no white space of a text can stand in a name. -/
def IsPlain (cs : List Char) : Prop :=
  ∀ c ∈ cs, Text.isWhiteSpace c = true → isNameChar c = false

theorem IsPlain.isGap {cs : List Char} (plain : IsPlain cs) {c : Char} (listed : c ∈ cs) :
    isGap c = Text.isWhiteSpace c := by
  rw [DeclarationScan.isGap]
  cases white : Text.isWhiteSpace c with
  | true =>
      rw [plain c listed white]
      rfl
  | false => rfl

theorem IsRun.tight {cs : List Char} (run : IsRun cs) (plain : IsPlain cs) : Text.Tight cs := by
  constructor
  · intro c first
    rw [← plain.isGap (List.mem_of_mem_head? first)]
    exact (run.first c first).1
  · intro c last
    rw [← plain.isGap (List.mem_of_mem_getLast? last)]
    exact run.last c last

theorem IsName.isNameChar {name : List Char} (isName : IsName name) : ∀ c ∈ name, isNameChar c = true := by
  rcases isName with ⟨hyphen, c, behind, optional, rfl, start, inside⟩
  have hyphenNamed : ∀ d ∈ hyphen, DeclarationScan.isNameChar d = true := by
    rcases optional with rfl | rfl
    · exact List.forall_mem_nil _
    · exact List.forall_mem_singleton.mpr (by decide)
  exact List.forall_mem_append.mpr
    ⟨hyphenNamed, List.forall_mem_cons.mpr ⟨isNameChar_of_isNameStart start, inside⟩⟩

theorem IsName.solid {name : List Char} (isName : IsName name) (plain : IsPlain name) :
    ∀ c ∈ name, Text.isWhiteSpace c = false := by
  intro c listed
  rw [← plain.isGap listed]
  exact isGap_of_isNameChar (isName.isNameChar c listed)

/-- The entries of a plain text have names and runs of terms. -/
theorem entry_of_scanEntry? {cs rest : List Char} {entry : Entry} (plain : IsPlain cs)
    (scanned : scanEntry? cs = some (entry, rest)) :
    IsName entry.name.toList ∧ IsRun entry.value.toList := by
  rcases Option.bind_eq_some_iff.mp scanned with ⟨begun, skipped, scanned⟩
  have begins := (suffix_behindStar begun).trans (suffix_of_skipBlank? skipped)
  dsimp only at scanned
  split at scanned
  · next name afterName found =>
    have behindName := (scanName_spec (behindStar begun)).1
    rw [show scanName (behindStar begun) = (some name, afterName) from found] at behindName
    rcases Option.bind_eq_some_iff.mp scanned with ⟨colon, colonBlank, scanned⟩
    rcases Option.bind_eq_some_iff.mp scanned with ⟨afterColon, colonCut, scanned⟩
    rcases Option.bind_eq_some_iff.mp scanned with ⟨start, startBlank, scanned⟩
    rcases Option.bind_eq_some_iff.mp scanned with ⟨⟨last, afterTerms⟩, terms, scanned⟩
    rcases Option.bind_eq_some_iff.mp scanned with ⟨mark, markBlank, scanned⟩
    rcases Option.bind_eq_some_iff.mp scanned with ⟨⟨important, afterMark⟩, marked, scanned⟩
    rcases Option.bind_eq_some_iff.mp scanned with ⟨semicolons, semicolonsBlank, scanned⟩
    rcases Option.bind_eq_some_iff.mp scanned with ⟨afterSemicolons, ended, scanned⟩
    rcases Option.bind_eq_some_iff.mp scanned with ⟨final, finalBlank, scanned⟩
    rcases Option.ite_none_left_eq_some.mp scanned with ⟨nonempty, same⟩
    rcases Prod.mk.inj (Option.some.inj same) with ⟨rfl, -⟩
    have more : afterName ≠ [] := by
      rintro rfl
      rw [skipBlank?_of_stops stops_nil] at colonBlank
      cases colonBlank
      cases colonCut
    have startBehind : start <:+ cs := by
      have colonBehind := suffix_of_skipBlank? colonBlank
      rw [Text.eq_append_of_isPrefixOf? colonCut] at colonBehind
      exact (suffix_of_skipBlank? startBlank).trans ((List.suffix_append _ _).trans (colonBehind.trans
        (behindName.trans begins)))
    rcases suffixes_of_scanTerms? List.suffix_rfl terms with ⟨⟨value, startEq⟩, -⟩
    dsimp only at startEq
    have valueEq : start.take (start.length - last.length) = value := by
      rw [← startEq, List.length_append, Nat.add_sub_cancel, List.take_left]
    have moved : start ≠ last := by
      rintro rfl
      rw [Nat.sub_self] at nonempty
      exact nonempty rfl
    rw [← startEq] at terms
    have run : IsRun value := isRun_of_scanTerms? terms (startEq ▸ moved)
    have tight := run.tight fun c listed => plain c (startBehind.sublist.subset (startEq ▸ List.mem_append_left _ listed))
    rw [String.toList_ofList, String.toList_ofList, valueEq, Text.trimChars_eq_self tight]
    exact ⟨isName_of_scanName found more, run⟩
  · cases scanned

theorem IsPlain.of_sublist {cs part : List Char} (plain : IsPlain cs) (sublist : part.Sublist cs) : IsPlain part :=
  fun c listed => plain c (sublist.subset listed)

end DeclarationScan

namespace Declarations

open DeclarationScan

theorem entry_of_mem_scanEntries {bound : Nat} {cs : List Char} (plain : DeclarationScan.IsPlain cs) :
    ∀ entry ∈ scanEntries bound cs, (IsName entry.name.toList ∧ DeclarationScan.IsPlain entry.name.toList) ∧
      IsRun entry.value.toList ∧ DeclarationScan.IsPlain entry.value.toList := by
  induction bound generalizing cs with
  | zero => exact List.forall_mem_nil _
  | succ bound inductionHypothesis =>
      rw [scanEntries]
      split
      · exact List.forall_mem_nil _
      · exact List.forall_mem_nil _
      · next begun skipped =>
        have begunPlain := plain.of_sublist (suffix_of_skipBlank? skipped).sublist
        split
        · exact List.forall_mem_nil _
        · next entry rest scanned =>
          have pieces := scanEntry?_spec scanned
          have valuePiece := (List.sublist_append_right _ _).trans pieces
          rcases entry_of_scanEntry? begunPlain scanned with ⟨named, run⟩
          exact List.forall_mem_cons.mpr ⟨⟨⟨named, begunPlain.of_sublist ((List.sublist_append_left _ _).trans pieces)⟩, run,
              begunPlain.of_sublist ((List.sublist_append_left _ _).trans valuePiece)⟩,
            inductionHypothesis (begunPlain.of_sublist ((List.sublist_append_right _ _).trans valuePiece))⟩

/-- The declarations of a block that was read from a plain text are spelled as such, and
their names have no white space. -/
theorem spelled_of_read {s : String} (plain : DeclarationScan.IsPlain s.toList) :
    ∀ item ∈ (read s).items, Spelled item ∧ ∀ c ∈ item.1.toList, Text.isWhiteSpace c = false := by
  intro item listed
  rcases @forall_read (fun name value => (IsName name.toList ∧ DeclarationScan.IsPlain name.toList) ∧
    IsRun value.toList ∧ DeclarationScan.IsPlain value.toList) s (entry_of_mem_scanEntries plain) item listed with
    ⟨⟨named, namePlain⟩, run, valuePlain⟩
  exact ⟨⟨named, run, run.tight valuePlain⟩, named.solid namePlain⟩

end Declarations

end SlimSvg
