import SlimSvg.Proofs.Value.BlockCascade
import SlimSvg.Proofs.Value.WrittenBlocks

namespace SlimSvg

/-!
# Declarations between semicolons

A text without strings, comments and open parentheses reaches over no semicolon behind it: what
is read of it alone is read of it in front of a semicolon, too.  Reading goes on behind the
semicolon if the text was read to its end.  So of texts with semicolons between them the valid
ones are heard up to the first one that cannot be read, and the others are lost.
-/

namespace DeclarationScan

/-! ## Texts in front of a semicolon -/

/-- Whether something closes behind every parenthesis that opens in a text. -/
def closesAll : List Char → Bool
  | [] => true
  | c :: rest => (c != '(' || rest.contains ')') && closesAll rest

/-- Whether nothing in a text reaches over a semicolon behind it. -/
structure IsClosed (cs : List Char) : Prop where
  noSemicolon : ';' ∉ cs
  noQuote : cs.any Reference.isQuote = false
  noComment : ¬ ['/', '*'] <:+: cs
  closes : closesAll cs = true

instance (cs : List Char) : Decidable (IsClosed cs) :=
  decidable_of_iff (';' ∉ cs ∧ cs.any Reference.isQuote = false ∧ ¬ ['/', '*'] <:+: cs ∧ closesAll cs = true)
    ⟨fun ⟨noSemicolon, noQuote, noComment, closes⟩ => ⟨noSemicolon, noQuote, noComment, closes⟩,
      fun closed => ⟨closed.noSemicolon, closed.noQuote, closed.noComment, closed.closes⟩⟩

section Closed

variable {cs rest more : List Char}

theorem closesAll_append {front : List Char} (closes : closesAll (front ++ rest) = true) : closesAll rest = true := by
  induction front with
  | nil => exact closes
  | cons c front inductionHypothesis => exact inductionHypothesis (Bool.and_eq_true_iff.mp closes).2

theorem IsClosed.of_suffix (closed : IsClosed cs) (suffix : rest <:+ cs) : IsClosed rest := by
  rcases suffix with ⟨front, rfl⟩
  refine ⟨fun listed => closed.noSemicolon (List.mem_append_right _ listed), ?_, fun inside => closed.noComment ?_,
    closesAll_append closed.closes⟩
  · exact (Bool.or_eq_false_iff.mp (List.any_append.symm.trans closed.noQuote)).2
  · exact inside.trans (List.suffix_append front rest).isInfix

theorem stops_semicolon_cons (more : List Char) : Stops (';' :: more) :=
  .of_mem (by decide)

theorem skipBlank?_of_noComment (noComment : ¬ ['/', '*'] <:+: cs) :
    skipBlank? cs = some (cs.dropWhile Text.isCssSpace) := by
  refine skipBlank?_of_no_comment fun rest opened => noComment ?_
  have suffix : '/' :: '*' :: rest <:+ cs := opened ▸ List.dropWhile_suffix _
  exact (List.prefix_append ['/', '*'] rest).isInfix.trans suffix.isInfix

theorem IsClosed.skipBlank?_eq (closed : IsClosed cs) : skipBlank? cs = some (cs.dropWhile Text.isCssSpace) :=
  skipBlank?_of_noComment closed.noComment

theorem IsClosed.skipBlank?_append (closed : IsClosed cs) (more : List Char) :
    skipBlank? (cs ++ ';' :: more) = some (cs.dropWhile Text.isCssSpace ++ ';' :: more) := by
  refine @skipBlank?_exchange cs _ [] _ (stops_semicolon_cons more) ?_
  rw [List.append_nil, List.append_nil]
  exact closed.skipBlank?_eq

theorem IsClosed.behindBlank (closed : IsClosed cs) : IsClosed (cs.dropWhile Text.isCssSpace) :=
  closed.of_suffix (List.dropWhile_suffix _)

theorem behindStar_append (cs more : List Char) :
    behindStar (cs ++ ';' :: more) = behindStar cs ++ ';' :: more := by
  match cs with
  | [] => rfl
  | c :: cs =>
    by_cases star : c = '*'
    · rw [star]
      rfl
    · have other (rest : List Char) : behindStar (c :: rest) = c :: rest := by
        unfold behindStar
        split
        · next same => exact absurd (List.cons.inj same).1 star
        · rfl
      rw [List.cons_append, other, other, List.cons_append]

/-- A name that ends inside of a text does not depend on what follows it. -/
theorem scanName_append {name : List Char} (found : scanName cs = (some name, rest)) (inside : rest ≠ [])
    (more : List Char) : scanName (cs ++ more) = (some name, rest ++ more) := by
  have whole := (scanName_spec cs).2 name (by rw [found]; rfl)
  rw [found] at whole
  rw [whole, List.append_assoc]
  refine (isName_of_scanName found inside).scanName_eq fun d first => head_of_scanName found d ?_
  rwa [List.head?_append_of_ne_nil _ inside] at first

/-- Where there is no name, there is none in front of a semicolon. -/
theorem fst_scanName_append (unnamed : (scanName cs).1 = none) (more : List Char) :
    (scanName (cs ++ ';' :: more)).1 = none := by
  rcases cs with _ | ⟨c, cs⟩
  · rfl
  · by_cases hyphen : c = '-'
    · rw [hyphen] at unnamed ⊢
      rcases cs with _ | ⟨d, cs⟩
      · cases unnamed
      · change (if isNameStart d then (some _, _) else (none, _)).1 = _ at unnamed
        change (if isNameStart d then (some _, _) else (none, _)).1 = _
        split at unnamed
        · cases unnamed
        · next other => rw [if_neg other]
    · rw [scanName_word hyphen] at unnamed
      rw [List.cons_append, scanName_word hyphen]
      split at unnamed
      · cases unnamed
      · next other => rw [if_neg other]

/-! ### Terms -/

/-- In a closed text every function ends. -/
theorem IsClosed.fst_behindCall (closed : IsClosed cs) : (behindCall cs).1 = true := by
  unfold behindCall
  split
  · next inside =>
    have ends : ')' ∈ inside := List.contains_iff_mem.mp (Bool.and_eq_true_iff.mp closed.closes).1
    split
    · rfl
    · next none =>
      have passed := List.dropWhile_eq_nil_iff.mp none ')' ends
      cases passed
  · rfl

/-- A term, or what is no term, ends in front of a semicolon as it ends alone. -/
theorem IsClosed.scanTerm_append (closed : IsClosed cs) (more : List Char) :
    scanTerm (cs ++ ';' :: more) = ((scanTerm cs).1, (scanTerm cs).2 ++ ';' :: more) := by
  cases cs with
  | nil => exact scanTerm_of_stops (stops_semicolon_cons more)
  | cons c cs =>
      cases found : scanTerm (c :: cs) with
      | mk isTerm rest =>
          cases isTerm with
          | true =>
              refine @scanTerm_exchange cs rest [] _ (stops_semicolon_cons more) c ?_
              rw [List.append_nil, List.append_nil]
              exact found
          | false =>
              -- The text fails at its first character, for functions and strings end inside of it.
              rw [scanTerm_cons] at found
              rw [List.cons_append, scanTerm_cons]
              split at found
              · cases found
              · next hash =>
                rw [if_neg hash]
                split at found
                · cases found
                · next number =>
                  have noQuote := (Bool.or_eq_false_iff.mp closed.noQuote).1
                  rw [if_neg number, noQuote]
                  rw [noQuote] at found
                  simp only [Bool.false_eq_true, if_false] at found ⊢
                  split at found
                  · cases found
                  · next comma =>
                    rw [if_neg comma]
                    split at found
                    · have behind : IsClosed (cs.dropWhile isNameChar) :=
                        closed.of_suffix ((List.dropWhile_suffix _).trans (List.suffix_cons c cs))
                      have called := behind.fst_behindCall
                      rw [found] at called
                      cases called
                    · next start =>
                      rw [if_neg start, ← (Prod.mk.inj found).2]
                      rfl

theorem IsClosed.scanTerms?_append {bound bound' : Nat} {last : List Char} (closed : IsClosed cs) (more : List Char)
    (enough : cs.length ≤ bound) (enough' : (cs ++ ';' :: more).length ≤ bound') :
    ∃ last' after, scanTerms? bound last cs = some (last', after) ∧
      scanTerms? bound' (last ++ ';' :: more) (cs ++ ';' :: more) =
        some (last' ++ ';' :: more, after ++ ';' :: more) := by
  induction bound generalizing cs last bound' with
  | zero =>
      rw [List.length_eq_zero_iff.mp (Nat.le_zero.mp enough)] at enough' ⊢
      refine ⟨last, [], rfl, ?_⟩
      cases bound' with
      | zero => cases enough'
      | succ bound' =>
          rw [List.nil_append, scanTerms?, scanTerm_of_stops (stops_semicolon_cons more)]
  | succ bound inductionHypothesis =>
      cases bound' with
      | zero =>
          rw [List.length_append, List.length_cons] at enough'
          omega
      | succ bound' =>
          rw [scanTerms?, scanTerms?, closed.scanTerm_append more]
          cases found : scanTerm cs with
          | mk isTerm rest =>
              cases isTerm with
              | false => exact ⟨last, rest, rfl, rfl⟩
              | true =>
                  have shorter := length_of_scanTerm found
                  have behind := suffix_of_scanTerm cs
                  rw [found] at behind
                  have closedBehind := closed.of_suffix behind
                  have blanks := (List.dropWhile_sublist Text.isCssSpace (l := rest)).length_le
                  rw [List.length_append, List.length_cons] at enough'
                  have enoughBehind : (rest.dropWhile Text.isCssSpace ++ ';' :: more).length ≤ bound' := by
                    rw [List.length_append, List.length_cons]
                    omega
                  rcases @inductionHypothesis (rest.dropWhile Text.isCssSpace) bound' rest closedBehind.behindBlank
                    (by omega) enoughBehind with ⟨last', after, alone, joined⟩
                  refine ⟨last', after, ?_, ?_⟩
                  · change (skipBlank? rest).bind _ = _
                    rw [closedBehind.skipBlank?_eq]
                    exact alone
                  · change (skipBlank? (rest ++ ';' :: more)).bind _ = _
                    rw [closedBehind.skipBlank?_append more]
                    exact joined

/-! ### Marks and semicolons -/

/-- A piece without a semicolon does not reach over one. -/
theorem isPrefixOf?_append_semicolon {piece : List Char} (apart : ';' ∉ piece) (cs more : List Char) :
    piece.isPrefixOf? (cs ++ ';' :: more) = (piece.isPrefixOf? cs).map (· ++ ';' :: more) := by
  induction piece generalizing cs with
  | nil => rfl
  | cons p piece inductionHypothesis =>
      rw [List.mem_cons, not_or] at apart
      cases cs with
      | nil =>
          change (if p == ';' then _ else none) = _
          rw [beq_false_of_ne (Ne.symm apart.1)]
          rfl
      | cons c cs =>
          change (if p == c then piece.isPrefixOf? (cs ++ ';' :: more) else none) =
            (if p == c then piece.isPrefixOf? cs else none).map _
          split
          · exact inductionHypothesis apart.2 cs
          · rfl

theorem IsClosed.scanImportant?_append (closed : IsClosed cs) (more : List Char) :
    ∃ important after, scanImportant? cs = some (important, after) ∧
      scanImportant? (cs ++ ';' :: more) = some (important, after ++ ';' :: more) := by
  have unmarked {c : Char} (other : c ≠ '!') (rest : List Char) :
      scanImportant? (c :: rest) = some (false, c :: rest) := by
    unfold scanImportant?
    split
    · next same => exact absurd (List.cons.inj same).1 other
    · rfl
  rcases cs with _ | ⟨c, cs⟩
  · exact ⟨false, [], rfl, unmarked (by decide) more⟩
  · by_cases mark : c = '!'
    · have behind : IsClosed cs := closed.of_suffix (List.suffix_cons c cs)
      rw [mark, List.cons_append, scanImportant?, scanImportant?, behind.skipBlank?_eq, behind.skipBlank?_append more]
      have apart : ';' ∉ "important".toList := by decide
      simp only [Option.bind_eq_bind, Option.bind_some, isPrefixOf?_append_semicolon apart]
      cases "important".toList.isPrefixOf? (cs.dropWhile Text.isCssSpace) with
      | none => exact ⟨false, _, rfl, rfl⟩
      | some after => exact ⟨true, after, rfl, rfl⟩
    · exact ⟨false, c :: cs, unmarked mark cs, unmarked mark _⟩

/-- What separates one declaration from the next one. -/
def isSeparator (c : Char) : Bool :=
  Text.isCssSpace c || c == ';'

theorem dropWhile_isSeparator (cs : List Char) :
    (cs.dropWhile Text.isCssSpace).dropWhile isSeparator = cs.dropWhile isSeparator := by
  induction cs with
  | nil => rfl
  | cons c cs inductionHypothesis =>
      cases blank : Text.isCssSpace c with
      | true =>
          have separates : isSeparator c = true := by rw [isSeparator, blank, Bool.true_or]
          rw [List.dropWhile_cons_of_pos blank, List.dropWhile_cons_of_pos separates, inductionHypothesis]
      | false => rw [List.dropWhile_cons_of_neg (Bool.eq_false_iff.mp blank)]

theorem skipSemicolons?_of_ne {c : Char} (other : c ≠ ';') (bound : Nat) :
    skipSemicolons? bound (c :: cs) = some (c :: cs) := by
  unfold skipSemicolons?
  split
  · next same => exact absurd (List.cons.inj same).1 other
  · rfl

theorem skipSemicolons?_nil (bound : Nat) : skipSemicolons? bound [] = some [] := by
  cases bound <;> rfl

/-- All separators are passed. -/
theorem skipSemicolons?_semicolon (noComment : ¬ ['/', '*'] <:+: more) {bound : Nat} (enough : more.length < bound) :
    skipSemicolons? bound (';' :: more) = some (more.dropWhile isSeparator) := by
  induction bound generalizing more with
  | zero => cases enough
  | succ bound inductionHypothesis =>
      change (skipBlank? more).bind _ = _
      rw [skipBlank?_of_noComment noComment, Option.bind_some, ← dropWhile_isSeparator]
      have behind := List.dropWhile_suffix Text.isCssSpace (l := more)
      have solid := List.head?_dropWhile_not Text.isCssSpace more
      generalize more.dropWhile Text.isCssSpace = rest at behind solid ⊢
      cases rest with
      | nil => exact skipSemicolons?_nil bound
      | cons c rest =>
          by_cases semicolon : c = ';'
          · rw [semicolon] at behind ⊢
            have shorter := behind.length_le
            rw [List.length_cons] at shorter
            have later := (List.suffix_cons ';' rest).trans behind
            rw [inductionHypothesis (fun inside => noComment (inside.trans later.isInfix)) (by omega),
              List.dropWhile_cons_of_pos (by decide)]
          · have stays : isSeparator c = false := by
              rw [isSeparator, beq_false_of_ne semicolon, Bool.or_false]
              exact solid
            rw [skipSemicolons?_of_ne semicolon, List.dropWhile_cons_of_neg (Bool.eq_false_iff.mp stays)]

/-! ### Entries -/

/-- What remains behind an entry, if a semicolon and more texts follow what remained of its own
text. -/
def behindEntry (more rest : List Char) : List Char :=
  if rest.isEmpty then more.dropWhile isSeparator else rest ++ ';' :: more

theorem dropWhile_blank_isSeparator (cs : List Char) :
    (cs.dropWhile isSeparator).dropWhile Text.isCssSpace = cs.dropWhile isSeparator := by
  have stop := List.head?_dropWhile_not isSeparator cs
  cases behind : cs.dropWhile isSeparator with
  | nil => rfl
  | cons c rest =>
      rw [behind] at stop
      have solid : Text.isCssSpace c = false := (Bool.or_eq_false_iff.mp stop).1
      exact List.dropWhile_cons_of_neg (Bool.eq_false_iff.mp solid)

/-- Semicolons behind an entry are passed, and with them the blanks between them. -/
theorem IsClosed.passes_semicolons (closed : IsClosed cs) (solid : cs.dropWhile Text.isCssSpace = cs)
    (noComment : ¬ ['/', '*'] <:+: more) :
    (∃ passed, skipSemicolons? cs.length cs = some passed ∧ skipBlank? passed = some cs) ∧
      ∃ passed, skipSemicolons? (cs ++ ';' :: more).length (cs ++ ';' :: more) = some passed ∧
        skipBlank? passed = some (behindEntry more cs) := by
  have kept : skipBlank? cs = some cs := closed.skipBlank?_eq.trans (congrArg some solid)
  cases cs with
  | nil =>
      have later : ¬ ['/', '*'] <:+: more.dropWhile isSeparator := fun inside =>
        noComment (inside.trans (List.dropWhile_suffix _).isInfix)
      refine ⟨⟨[], skipSemicolons?_nil _, kept⟩, _, skipSemicolons?_semicolon noComment (Nat.lt_succ_self _), ?_⟩
      rw [skipBlank?_of_noComment later, dropWhile_blank_isSeparator]
      rfl
  | cons c rest =>
      have other : c ≠ ';' := fun same => closed.noSemicolon (same ▸ List.mem_cons_self)
      refine ⟨⟨_, skipSemicolons?_of_ne other _, kept⟩, _, skipSemicolons?_of_ne other _, ?_⟩
      change skipBlank? (c :: rest ++ ';' :: more) = _
      rw [closed.skipBlank?_append more, solid]
      rfl

theorem IsClosed.entryOfValue?_append (closed : IsClosed cs) (noComment : ¬ ['/', '*'] <:+: more) (name : List Char) :
    entryOfValue? name (cs ++ ';' :: more) =
      (entryOfValue? name cs).map fun (entry, rest) => (entry, behindEntry more rest) := by
  rcases @IsClosed.scanTerms?_append cs cs.length (cs ++ ';' :: more).length cs closed more (Nat.le_refl _)
    (Nat.le_refl _) with ⟨last, afterTerms, alone, joined⟩
  rcases suffixes_of_scanTerms? List.suffix_rfl alone with ⟨⟨front, same⟩, termsBehind⟩
  dsimp only at same termsBehind
  have lastBehind : last <:+ cs := ⟨front, same⟩
  have closedTerms := closed.of_suffix (termsBehind.trans lastBehind)
  rcases closedTerms.behindBlank.scanImportant?_append more with ⟨important, afterMark, markAlone, markJoined⟩
  have closedMark : IsClosed afterMark := closedTerms.behindBlank.of_suffix (suffix_of_scanImportant? markAlone)
  have value : (cs ++ ';' :: more).take ((cs ++ ';' :: more).length - (last ++ ';' :: more).length) =
      cs.take (cs.length - last.length) := by
    have before (rest : List Char) : (front ++ rest).length - rest.length = front.length := by
      rw [List.length_append, Nat.add_sub_cancel]
    rw [← same, List.append_assoc, before, before, List.take_left, List.take_left]
  rcases closedMark.behindBlank.passes_semicolons (List.dropWhile_idempotent ..) noComment with
    ⟨⟨passed, passes, final⟩, passedJoined, passesJoined, finalJoined⟩
  rw [entryOfValue?, entryOfValue?, joined, alone]
  simp only [Option.bind_eq_bind, Option.bind_some, value, closedTerms.skipBlank?_append more, closedTerms.skipBlank?_eq,
    markJoined, markAlone, closedMark.skipBlank?_append more, closedMark.skipBlank?_eq, passes, final, passesJoined,
    finalJoined]
  split <;> rfl

/-- A name alone is no declaration, whether or not it is a name in front of a semicolon. -/
theorem entryOfName?_of_name_alone {name : List Char} (found : scanName cs = (some name, [])) (more : List Char) :
    entryOfName? cs = none ∧ entryOfName? (cs ++ ';' :: more) = none := by
  have alone : entryOfName? cs = none := by
    rw [entryOfName?_of_named found, skipBlank?_of_stops stops_nil]
    rfl
  have after : (scanName (cs ++ ';' :: more)).2 = [] ++ ';' :: more := by
    refine @scanName_exchange cs [] [] _ (stops_semicolon_cons more) ?_
    rw [List.append_nil, found]
    rfl
  refine ⟨alone, ?_⟩
  cases joined : scanName (cs ++ ';' :: more) with
  | mk name? behind =>
      rw [joined] at after
      cases name? with
      | none => exact entryOfName?_of_unnamed (congrArg Prod.fst joined)
      | some other =>
          rw [entryOfName?_of_named joined, show behind = ';' :: more from after,
            skipBlank?_of_stops (stops_semicolon_cons more)]
          rfl

theorem IsClosed.entryOfName?_append (closed : IsClosed cs) (noComment : ¬ ['/', '*'] <:+: more) :
    entryOfName? (cs ++ ';' :: more) = (entryOfName? cs).map fun (entry, rest) => (entry, behindEntry more rest) := by
  have nameBehind := (scanName_spec cs).1
  cases found : scanName cs with
  | mk name? rest =>
      rw [found] at nameBehind
      have closedName : IsClosed rest := closed.of_suffix nameBehind
      cases name? with
      | none =>
          rw [entryOfName?_of_unnamed (fst_scanName_append (congrArg Prod.fst found) more),
            entryOfName?_of_unnamed (congrArg Prod.fst found)]
          rfl
      | some name =>
          by_cases inside : rest = []
          · rcases entryOfName?_of_name_alone (inside ▸ found) more with ⟨alone, joined⟩
            rw [alone, joined]
            rfl
          · rw [entryOfName?_of_named found, entryOfName?_of_named (scanName_append found inside _),
              closedName.skipBlank?_append more, closedName.skipBlank?_eq, Option.bind_some, Option.bind_some,
              isPrefixOf?_append_semicolon (by decide)]
            cases colon : [':'].isPrefixOf? (rest.dropWhile Text.isCssSpace) with
            | none => rfl
            | some behind =>
                have closedBehind : IsClosed behind := by
                  refine closedName.behindBlank.of_suffix ?_
                  rw [Text.eq_append_of_isPrefixOf? colon]
                  exact List.suffix_append _ _
                rw [Option.map_some, Option.bind_some, Option.bind_some, closedBehind.skipBlank?_append more,
                  closedBehind.skipBlank?_eq, Option.bind_some, Option.bind_some]
                exact closedBehind.behindBlank.entryOfValue?_append noComment name

/-- The first entry of a closed text is the first one, too, if a semicolon follows. -/
theorem IsClosed.scanEntry?_append (closed : IsClosed cs) (noComment : ¬ ['/', '*'] <:+: more) :
    scanEntry? (cs ++ ';' :: more) = ( scanEntry? cs).map fun (entry, rest) => (entry, behindEntry more rest) := by
  rw [scanEntry?_eq, scanEntry?_eq, closed.skipBlank?_append more, closed.skipBlank?_eq, Option.bind_some,
    Option.bind_some, behindStar_append,
    (closed.behindBlank.of_suffix (suffix_behindStar _)).entryOfName?_append noComment]

end Closed

/-! ## Reading to the end -/

section Reading

variable {cs begun rest more : List Char} {entry : Entry} {bound : Nat}

/-- What follows an entry is an end of the text without blanks at its front, and the entry has a
value. -/
theorem entryOfValue?_behind {name : List Char} (found : entryOfValue? name cs = some (entry, rest)) :
    (∃ before, before <:+ cs ∧ skipBlank? before = some rest) ∧ entry.value.toList ≠ [] := by
  rcases Option.bind_eq_some_iff.mp found with ⟨⟨last, afterTerms⟩, terms, found⟩
  rcases Option.bind_eq_some_iff.mp found with ⟨mark, markBlank, found⟩
  rcases Option.bind_eq_some_iff.mp found with ⟨⟨important, afterMark⟩, marked, found⟩
  rcases Option.bind_eq_some_iff.mp found with ⟨semicolons, semicolonsBlank, found⟩
  rcases Option.bind_eq_some_iff.mp found with ⟨afterSemicolons, ended, found⟩
  rcases Option.bind_eq_some_iff.mp found with ⟨final, finalBlank, found⟩
  rcases suffixes_of_scanTerms? List.suffix_rfl terms with ⟨lastBehind, termsBehind⟩
  have markBehind := (suffix_of_skipBlank? markBlank).trans (termsBehind.trans lastBehind)
  have semicolonsBehind := (suffix_of_skipBlank? semicolonsBlank).trans ((suffix_of_scanImportant? marked).trans
    markBehind)
  split at found
  · cases found
  · next valued =>
    rcases Prod.mk.inj (Option.some.inj found) with ⟨rfl, rfl⟩
    refine ⟨⟨afterSemicolons, (suffix_of_skipSemicolons? ended).trans semicolonsBehind, finalBlank⟩, ?_⟩
    intro nothing
    rw [String.toList_ofList] at nothing
    exact valued (List.isEmpty_iff.mpr nothing)

theorem scanEntry?_behind (found : scanEntry? cs = some (entry, rest)) :
    (∃ before, before <:+ cs ∧ skipBlank? before = some rest) ∧ entry.value.toList ≠ [] := by
  rw [scanEntry?_eq] at found
  rcases Option.bind_eq_some_iff.mp found with ⟨begun, skipped, found⟩
  have begins := (suffix_behindStar begun).trans (suffix_of_skipBlank? skipped)
  cases named : scanName (behindStar begun) with
  | mk name? afterName =>
      have nameBehind := (scanName_spec (behindStar begun)).1
      rw [named] at nameBehind
      cases name? with
      | none =>
          rw [entryOfName?_of_unnamed (congrArg Prod.fst named)] at found
          cases found
      | some name =>
          rw [entryOfName?_of_named named] at found
          rcases Option.bind_eq_some_iff.mp found with ⟨colon, colonBlank, found⟩
          rcases Option.bind_eq_some_iff.mp found with ⟨afterColon, colonCut, found⟩
          rcases Option.bind_eq_some_iff.mp found with ⟨start, startBlank, found⟩
          rcases entryOfValue?_behind found with ⟨⟨before, suffix, blank⟩, valued⟩
          have colonBehind := suffix_of_skipBlank? colonBlank
          rw [Text.eq_append_of_isPrefixOf? colonCut] at colonBehind
          have startBehind : start <:+ cs := (suffix_of_skipBlank? startBlank).trans
            ((List.suffix_append _ _).trans (colonBehind.trans (nameBehind.trans begins)))
          exact ⟨⟨before, suffix.trans startBehind, blank⟩, valued⟩

theorem length_of_scanEntry? (found : scanEntry? cs = some (entry, rest)) : rest.length < cs.length := by
  have pieces := (scanEntry?_spec found).length_le
  have value := List.length_pos_iff.mpr (scanEntry?_behind found).2
  rw [List.length_append, List.length_append] at pieces
  omega

/-- Whether reading the entries of a text leaves nothing of it. -/
def readsOut : (bound : Nat) → List Char → Bool
  | 0, cs => cs.isEmpty
  | bound + 1, cs =>
    match skipBlank? cs with
    | none => false
    | some [] => true
    | some begun =>
      match scanEntry? begun with
      | none => false
      | some (_, rest) => readsOut bound rest

/-- The entries of a text, as far as they can be read. -/
def entriesOf (cs : List Char) : List Entry :=
  scanEntries cs.length cs

def isReadOut (cs : List Char) : Bool :=
  readsOut cs.length cs

/-- A text is read alike with any bound that is large enough. -/
theorem read_of_bounds {bound' : Nat} (enough : cs.length ≤ bound) (enough' : cs.length ≤ bound') :
    scanEntries bound cs = scanEntries bound' cs ∧ readsOut bound cs = readsOut bound' cs := by
  have nothing (bound : Nat) : scanEntries bound [] = [] ∧ readsOut bound [] = true := by
    cases bound with
    | zero => exact ⟨rfl, rfl⟩
    | succ bound =>
        rw [scanEntries, readsOut, skipBlank?_of_stops stops_nil]
        exact ⟨rfl, rfl⟩
  induction bound generalizing cs bound' with
  | zero =>
      rw [List.length_eq_zero_iff.mp (Nat.le_zero.mp enough)]
      exact ⟨(nothing 0).1.trans (nothing bound').1.symm, (nothing 0).2.trans (nothing bound').2.symm⟩
  | succ bound inductionHypothesis =>
      cases bound' with
      | zero =>
          rw [List.length_eq_zero_iff.mp (Nat.le_zero.mp enough')]
          exact ⟨(nothing _).1.trans (nothing 0).1.symm, (nothing _).2.trans (nothing 0).2.symm⟩
      | succ bound' =>
          rw [scanEntries, scanEntries, readsOut, readsOut]
          cases skipped : skipBlank? cs with
          | none => exact ⟨rfl, rfl⟩
          | some begun =>
              cases begun with
              | nil => exact ⟨rfl, rfl⟩
              | cons c begun =>
                  dsimp only
                  cases found : scanEntry? (c :: begun) with
                  | none => exact ⟨rfl, rfl⟩
                  | some result =>
                      rcases result with ⟨entry, rest⟩
                      have shorter := length_of_scanEntry? found
                      have begins := (suffix_of_skipBlank? skipped).length_le
                      rcases @inductionHypothesis rest bound' (by omega) (by omega) with ⟨entries, out⟩
                      exact ⟨congrArg (entry :: ·) entries, out⟩

/-- How a text is read from its first entry on. -/
theorem read_of_none (skipped : skipBlank? cs = some begun) (found : scanEntry? begun = none) :
    entriesOf cs = [] ∧ isReadOut cs = begun.isEmpty := by
  rcases cs with _ | ⟨c, cs⟩
  · rw [skipBlank?_of_stops stops_nil] at skipped
    rw [← Option.some.inj skipped]
    exact ⟨rfl, rfl⟩
  · rw [entriesOf, isReadOut, List.length_cons, scanEntries, readsOut, skipped]
    rcases begun with _ | ⟨d, begun⟩
    · exact ⟨rfl, rfl⟩
    · dsimp only
      rw [found]
      exact ⟨rfl, rfl⟩

theorem read_of_some (skipped : skipBlank? cs = some begun) (found : scanEntry? begun = some (entry, rest)) :
    entriesOf cs = entry :: entriesOf rest ∧ isReadOut cs = isReadOut rest := by
  have shorter := length_of_scanEntry? found
  have begins := (suffix_of_skipBlank? skipped).length_le
  rcases begun with _ | ⟨d, begun⟩
  · cases shorter
  · rcases cs with _ | ⟨c, cs⟩
    · cases begins
    · have enough : rest.length ≤ cs.length := Nat.le_of_lt_succ (Nat.lt_of_lt_of_le shorter begins)
      rcases read_of_bounds enough (Nat.le_refl rest.length) with ⟨entries, out⟩
      rw [entriesOf, isReadOut, List.length_cons, scanEntries, readsOut, skipped]
      dsimp only
      rw [found]
      exact ⟨congrArg (entry :: ·) entries, out⟩

/-- Blanks in front of a text change nothing. -/
theorem read_behind_blank (noComment : ¬ ['/', '*'] <:+: cs) :
    entriesOf (cs.dropWhile Text.isCssSpace) = entriesOf cs ∧
      isReadOut (cs.dropWhile Text.isCssSpace) = isReadOut cs := by
  have skipped := skipBlank?_of_noComment noComment
  have behind : skipBlank? (cs.dropWhile Text.isCssSpace) = some (cs.dropWhile Text.isCssSpace) := by
    rw [skipBlank?_of_noComment fun inside => noComment (inside.trans (List.dropWhile_suffix _).isInfix),
      List.dropWhile_idempotent]
  cases found : scanEntry? (cs.dropWhile Text.isCssSpace) with
  | none =>
      rcases read_of_none skipped found with ⟨entries, out⟩
      rcases read_of_none behind found with ⟨entriesBehind, outBehind⟩
      exact ⟨entriesBehind.trans entries.symm, outBehind.trans out.symm⟩
  | some result =>
      rcases read_of_some skipped found with ⟨entries, out⟩
      rcases read_of_some behind found with ⟨entriesBehind, outBehind⟩
      exact ⟨entriesBehind.trans entries.symm, outBehind.trans out.symm⟩

/-- Behind a text that is read to its end, reading goes on. -/
theorem IsClosed.entriesOf_append (closed : IsClosed cs) (solid : skipBlank? cs = some cs) (nonempty : cs ≠ [])
    (noComment : ¬ ['/', '*'] <:+: more) :
    entriesOf (cs ++ ';' :: more) =
      entriesOf cs ++ if isReadOut cs then entriesOf (more.dropWhile isSeparator) else [] := by
  induction bound : cs.length using Nat.strong_induction_on generalizing cs with
  | h n inductionHypothesis =>
      have kept : cs.dropWhile Text.isCssSpace = cs := Option.some.inj (closed.skipBlank?_eq.symm.trans solid)
      have skipped : skipBlank? (cs ++ ';' :: more) = some (cs ++ ';' :: more) := by
        rw [closed.skipBlank?_append more, kept]
      have joined := closed.scanEntry?_append noComment
      cases found : scanEntry? cs with
      | none =>
          rw [found] at joined
          rw [(read_of_none skipped joined).1, (read_of_none solid found).1, (read_of_none solid found).2,
            List.isEmpty_eq_false_iff.mpr nonempty]
          rfl
      | some result =>
          rcases result with ⟨entry, rest⟩
          rw [found] at joined
          rw [(read_of_some skipped joined).1, (read_of_some solid found).1, (read_of_some solid found).2]
          by_cases ended : rest = []
          · rw [ended]
            rfl
          · rcases scanEntry?_behind found with ⟨⟨before, suffix, blank⟩, -⟩
            have closedBefore := closed.of_suffix suffix
            have same : before.dropWhile Text.isCssSpace = rest :=
              Option.some.inj (closedBefore.skipBlank?_eq.symm.trans blank)
            have closedRest : IsClosed rest := same ▸ closedBefore.behindBlank
            have solidRest : skipBlank? rest = some rest := by
              rw [closedRest.skipBlank?_eq, ← same, List.dropWhile_idempotent]
            have shorter := length_of_scanEntry? found
            have later := inductionHypothesis rest.length (by omega) closedRest solidRest ended rfl
            rw [behindEntry, List.isEmpty_eq_false_iff.mpr ended]
            exact congrArg (entry :: ·) later

end Reading

/-! ## Texts with semicolons between them -/

section Joined

variable {cs : List Char} {texts : List (List Char)}

/-- What is heard of texts with semicolons between them.  Reading does not begin at a semicolon,
so nothing is heard behind a first text that is blank. -/
def heard (isFirst : Bool) : List (List Char) → List Entry
  | [] => []
  | t :: rest =>
    if isFirst && t.all Text.isCssSpace then []
    else entriesOf t ++ if isReadOut t then heard false rest else []

/-- The declaration that a text is, if it is nothing else. -/
def single? (cs : List Char) : Option Entry :=
  ( scanEntry? cs).bind fun (entry, rest) => if rest.isEmpty then some entry else none

/-- Whether a text is one declaration, or none can be read of it. -/
def isWhole (cs : List Char) : Bool :=
  ( scanEntry? cs).all fun (_, rest) => rest.isEmpty

/-- Whether no declaration stands behind a text that ends the reading: one that cannot be read
and is not blank, or is the first one. -/
def losesNothing (isFirst : Bool) : List (List Char) → Bool
  | [] => true
  | t :: rest =>
    if ( scanEntry? t).isNone && (isFirst || !t.all Text.isCssSpace) then rest.all fun u => (single? u).isNone
    else losesNothing false rest

theorem dropWhile_of_blank (blank : cs.all Text.isCssSpace = true) : cs.dropWhile Text.isCssSpace = [] :=
  List.dropWhile_eq_nil_iff.mpr (List.all_eq_true.mp blank)

theorem ne_nil_of_not_blank (solid : ¬ cs.all Text.isCssSpace = true) : cs.dropWhile Text.isCssSpace ≠ [] :=
  fun nothing => solid (List.all_eq_true.mpr (List.dropWhile_eq_nil_iff.mp nothing))

theorem scanEntry?_nil : scanEntry? [] = none := by
  rw [scanEntry?_eq, skipBlank?_of_stops stops_nil]
  rfl

theorem scanEntry?_semicolon (cs : List Char) : scanEntry? (';' :: cs) = none := by
  rw [scanEntry?_eq, skipBlank?_of_stops (stops_semicolon_cons cs)]
  exact @entryOfName?_of_unnamed (';' :: cs) rfl

theorem IsClosed.scanEntry?_behindBlank (closed : IsClosed cs) :
    scanEntry? (cs.dropWhile Text.isCssSpace) = scanEntry? cs := by
  rw [scanEntry?_eq, scanEntry?_eq, closed.behindBlank.skipBlank?_eq, closed.skipBlank?_eq, List.dropWhile_idempotent]

/-- Of a blank text nothing is left. -/
theorem IsClosed.read_of_blank (closed : IsClosed cs) (blank : cs.all Text.isCssSpace = true) :
    entriesOf cs = [] ∧ isReadOut cs = true ∧ scanEntry? cs = none := by
  have skipped := closed.skipBlank?_eq
  have found := closed.scanEntry?_behindBlank
  rw [dropWhile_of_blank blank] at skipped found
  rw [scanEntry?_nil] at found
  rcases read_of_none skipped scanEntry?_nil with ⟨entries, out⟩
  exact ⟨entries, out, found.symm⟩

/-- A text that is not blank and cannot be read ends the reading. -/
theorem IsClosed.read_of_invalid (closed : IsClosed cs) (found : scanEntry? cs = none)
    (solid : ¬ cs.all Text.isCssSpace = true) : entriesOf cs = [] ∧ isReadOut cs = false := by
  rw [← closed.scanEntry?_behindBlank] at found
  rcases read_of_none closed.skipBlank?_eq found with ⟨entries, out⟩
  exact ⟨entries, out.trans (List.isEmpty_eq_false_iff.mpr (ne_nil_of_not_blank solid))⟩

theorem IsClosed.read_of_valid (closed : IsClosed cs) {entry : Entry} (found : scanEntry? cs = some (entry, [])) :
    entriesOf cs = [entry] ∧ isReadOut cs = true ∧ ¬ cs.all Text.isCssSpace = true := by
  have solid : ¬ cs.all Text.isCssSpace = true := by
    intro blank
    rw [(closed.read_of_blank blank).2.2] at found
    cases found
  rw [← closed.scanEntry?_behindBlank] at found
  rcases read_of_some closed.skipBlank?_eq found with ⟨entries, out⟩
  exact ⟨entries, out, solid⟩

theorem dropWhile_isSeparator_of_notMem (noSemicolon : ';' ∉ cs) :
    cs.dropWhile isSeparator = cs.dropWhile Text.isCssSpace := by
  rw [← dropWhile_isSeparator]
  have solid := List.head?_dropWhile_not Text.isCssSpace cs
  have inside := (List.dropWhile_suffix Text.isCssSpace (l := cs)).subset
  cases behind : cs.dropWhile Text.isCssSpace with
  | nil => rfl
  | cons c rest =>
      rw [behind] at solid inside
      have other : c ≠ ';' := fun same => noSemicolon (same ▸ inside List.mem_cons_self)
      refine List.dropWhile_cons_of_neg (Bool.eq_false_iff.mp ?_)
      rw [isSeparator, beq_false_of_ne other, Bool.or_false]
      exact solid

/-- Blanks, and separators, go up to the first text that is not blank. -/
theorem dropWhile_append_of_solid (solid : ¬ cs.all Text.isCssSpace = true) (more : List Char) :
    (cs ++ more).dropWhile Text.isCssSpace = cs.dropWhile Text.isCssSpace ++ more := by
  rw [List.dropWhile_append, List.isEmpty_eq_false_iff.mpr (ne_nil_of_not_blank solid)]
  rfl

theorem dropWhile_isSeparator_append (noSemicolon : ';' ∉ cs) (solid : ¬ cs.all Text.isCssSpace = true)
    (more : List Char) : (cs ++ more).dropWhile isSeparator = cs.dropWhile Text.isCssSpace ++ more := by
  rw [List.dropWhile_append, dropWhile_isSeparator_of_notMem noSemicolon,
    List.isEmpty_eq_false_iff.mpr (ne_nil_of_not_blank solid)]
  rfl

theorem intercalate_step (t u : List Char) (rest : List (List Char)) :
    [';'].intercalate (t :: u :: rest) = t ++ ';' :: [';'].intercalate (u :: rest) := by
  rw [List.intercalate_cons_cons, List.append_assoc]
  rfl

theorem noComment_intercalate (closed : ∀ t ∈ texts, IsClosed t) : ¬ ['/', '*'] <:+: [';'].intercalate texts := by
  induction texts with
  | nil => exact fun inside => List.cons_ne_nil _ _ (List.infix_nil.mp inside)
  | cons t rest inductionHypothesis =>
      rcases List.forall_mem_cons.mp closed with ⟨here, later⟩
      cases rest with
      | nil =>
          rw [List.intercalate_singleton]
          exact here.noComment
      | cons u rest =>
          rw [intercalate_step, Text.infix_append_cons_iff (by decide), not_or]
          exact ⟨here.noComment, inductionHypothesis later⟩

/-- Behind separators texts are heard. -/
theorem entriesOf_behindSeparators (closed : ∀ t ∈ texts, IsClosed t) :
    entriesOf (([';'].intercalate texts).dropWhile isSeparator) = heard false texts := by
  induction texts with
  | nil => rfl
  | cons t rest inductionHypothesis =>
      rcases List.forall_mem_cons.mp closed with ⟨here, later⟩
      have own := read_behind_blank here.noComment
      rw [heard, Bool.false_and, if_neg Bool.false_ne_true]
      cases rest with
      | nil =>
          rw [List.intercalate_singleton, dropWhile_isSeparator_of_notMem here.noSemicolon, own.1, heard, ite_self,
            List.append_nil]
      | cons u rest =>
          rw [intercalate_step, ← inductionHypothesis later]
          by_cases blank : t.all Text.isCssSpace = true
          · have passed : t.dropWhile isSeparator = [] := by
              rw [dropWhile_isSeparator_of_notMem here.noSemicolon, dropWhile_of_blank blank]
            rcases here.read_of_blank blank with ⟨entries, out, -⟩
            rw [entries, out, List.dropWhile_append, passed]
            rfl
          · have solid : skipBlank? (t.dropWhile Text.isCssSpace) = some (t.dropWhile Text.isCssSpace) := by
              rw [here.behindBlank.skipBlank?_eq, List.dropWhile_idempotent]
            rw [dropWhile_isSeparator_append here.noSemicolon blank,
              here.behindBlank.entriesOf_append solid (ne_nil_of_not_blank blank) (noComment_intercalate later), own.1,
              own.2]

theorem entriesOf_intercalate (closed : ∀ t ∈ texts, IsClosed t) :
    entriesOf ([';'].intercalate texts) = heard true texts := by
  have noComment := noComment_intercalate closed
  cases texts with
  | nil => rfl
  | cons t rest =>
      have here := closed t List.mem_cons_self
      by_cases blank : t.all Text.isCssSpace = true
      · rw [heard, blank]
        cases rest with
        | nil =>
            rw [List.intercalate_singleton]
            exact (here.read_of_blank blank).1
        | cons u rest =>
            rw [intercalate_step]
            refine (read_of_none (here.skipBlank?_append _) ?_).1
            rw [dropWhile_of_blank blank]
            exact scanEntry?_semicolon _
      · have parts : ∃ more, [';'].intercalate (t :: rest) = t ++ more := by
          cases rest with
          | nil => exact ⟨[], by rw [List.intercalate_singleton, List.append_nil]⟩
          | cons u rest => exact ⟨_, intercalate_step t u rest⟩
        have separated := entriesOf_behindSeparators closed
        rcases parts with ⟨more, same⟩
        rw [heard, Bool.false_and, if_neg Bool.false_ne_true] at separated
        rw [heard, Bool.true_and, if_neg blank, ← separated, ← (read_behind_blank noComment).1, same,
          dropWhile_append_of_solid blank, dropWhile_isSeparator_append here.noSemicolon blank]

/-- If no text is read in part, all declarations are heard exactly if none stands behind a text
that ends the reading. -/
theorem heard_eq_iff (isFirst : Bool) (closed : ∀ t ∈ texts, IsClosed t) (whole : ∀ t ∈ texts, isWhole t = true) :
    heard isFirst texts = texts.filterMap single? ↔ losesNothing isFirst texts = true := by
  induction texts generalizing isFirst with
  | nil => exact iff_of_true rfl rfl
  | cons t rest inductionHypothesis =>
      rcases List.forall_mem_cons.mp closed with ⟨here, later⟩
      rcases List.forall_mem_cons.mp whole with ⟨wholeHere, wholeLater⟩
      have next := inductionHypothesis false later wholeLater
      have nothing : [] = rest.filterMap single? ↔ (rest.all fun u => (single? u).isNone) = true := by
        rw [eq_comm, List.filterMap_eq_nil_iff, List.all_eq_true]
        exact forall₂_congr fun _ _ => Option.isNone_iff_eq_none.symm
      rw [heard, losesNothing]
      cases found : scanEntry? t with
      | none =>
          have none : single? t = Option.none := by rw [single?, found]; rfl
          rw [List.filterMap_cons_none none]
          by_cases blank : t.all Text.isCssSpace = true
          · rw [blank]
            cases isFirst with
            | true => exact nothing
            | false =>
                rcases here.read_of_blank blank with ⟨entries, out, -⟩
                rw [entries, out]
                exact next
          · rcases here.read_of_invalid found blank with ⟨entries, out⟩
            rw [entries, out, Bool.eq_false_iff.mpr blank, Bool.and_false, Bool.not_false, Bool.or_true]
            exact nothing
      | some result =>
          rcases result with ⟨entry, behind⟩
          rw [isWhole, found] at wholeHere
          obtain rfl : behind = [] := List.isEmpty_iff.mp wholeHere
          have one : single? t = some entry := by rw [single?, found]; rfl
          rcases here.read_of_valid found with ⟨entries, out, solid⟩
          rw [List.filterMap_cons_some one, entries, out, Bool.eq_false_iff.mpr solid, Bool.and_false]
          change entry :: heard false rest = entry :: rest.filterMap single? ↔ losesNothing false rest = true
          rw [List.cons.injEq, ← next]
          exact and_iff_right rfl

end Joined

end DeclarationScan

namespace Declarations

open DeclarationScan

/-- Texts with semicolons between them are heard up to the first one that cannot be read.  If each
of them is one declaration or none, all the declarations are read exactly if none stands behind a
text that ends the reading.  The block is then the cascade of them all, and minifying it loses none
of their properties. -/
theorem joined_declarations_are_heard (texts : List String) (closed : ∀ t ∈ texts, IsClosed t.toList) :
    let parts := texts.map String.toList
    let joined := ";".intercalate texts
    let valid := parts.filterMap single?
    read joined = empty.cascadeAll (heard true parts) ∧
      ((∀ t ∈ parts, isWhole t = true) →
        (entriesOf joined.toList = valid ↔ losesNothing true parts = true) ∧
          (losesNothing true parts = true → read joined = empty.cascadeAll valid ∧
            (read joined).minifyValues.items.map (·.1) = (valid.map (·.name)).eraseDups)) := by
  intro parts joined valid
  have closedParts : ∀ t ∈ parts, IsClosed t := List.forall_mem_map.mpr closed
  have heardAll : entriesOf joined.toList = heard true parts := by
    change entriesOf (";".intercalate texts).toList = _
    rw [String.toList_intercalate]
    exact entriesOf_intercalate closedParts
  have block : read joined = empty.cascadeAll (heard true parts) := congrArg empty.cascadeAll heardAll
  refine ⟨block, fun whole => ⟨heardAll ▸ heard_eq_iff true closedParts whole, fun kept => ?_⟩⟩
  have all : read joined = empty.cascadeAll valid := by
    rw [block, (heard_eq_iff true closedParts whole).mpr kept]
  refine ⟨all, ?_⟩
  rw [names_minifyValues, all, names_cascadeAll]

/-- A blank text between declarations and an invalid one behind them hide nothing. -/
theorem last_invalid_text_hides_nothing :
    let texts := ["fill:url(#a)", " ", "stroke:blue", "x"]
    (∀ t ∈ texts, IsClosed t.toList) ∧
      read (";".intercalate texts) = empty.cascadeAll [⟨"fill", "url(#a)", false⟩, ⟨"stroke", "blue", false⟩] := by
  intro texts
  have closed : ∀ t ∈ texts, IsClosed t.toList := by decide +kernel
  have parts := (joined_declarations_are_heard texts closed).2 (List.all_iff_forall_prop.mp (by decide +kernel))
  refine ⟨closed, (parts.2 (by decide +kernel)).1.trans ?_⟩
  decide +kernel

/-- What stands behind an invalid declaration is not heard. -/
theorem invalid_text_hides_the_next :
    read "fill;stroke:red" = empty ∧ single? "stroke:red".toList = some ⟨"stroke", "red", false⟩ ∧
      read (";".intercalate ["fill", "stroke:red"]) ≠
        empty.cascadeAll (["fill".toList, "stroke:red".toList].filterMap single?) := by
  decide +kernel

end Declarations

end SlimSvg
