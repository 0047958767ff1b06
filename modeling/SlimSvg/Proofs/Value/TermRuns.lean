import SlimSvg.Proofs.Text.Search
import SlimSvg.Proofs.Value.BlockText

namespace SlimSvg

/-!
# Terms and what stops them

A value in a declaration block is a run of terms with blanks and comments between them.  The
reader takes as many terms as there are, and so do the scans inside of a term: each of them
stops at the first character that cannot go on.  None of them goes on at a colon, a semicolon
or an exclamation mark, so a run that was read before one text is read before every text that
begins with such a mark, or is empty.
-/

namespace DeclarationScan

/-! ## Where terms end -/

/-- Whether nothing that stands here can belong to the name or the value before it: a
declaration ends, or it is marked as important. -/
def Stops (cs : List Char) : Prop :=
  ∀ c ∈ cs.head?, c = ':' ∨ c = ';' ∨ c = '!'

theorem stops_nil : Stops [] :=
  fun _ impossible => nomatch impossible

theorem Stops.of_mem {c : Char} {cs : List Char} (mark : c ∈ [':', ';', '!']) : Stops (c :: cs) := by
  rintro d ⟨⟩
  simpa using mark

section Exchange

variable {p : Char → Bool} {t u r r' : List Char}

theorem eq_of_suffix_append (behind : u ++ r <:+ r) : u = [] := by
  have shorter := behind.length_le
  rw [List.length_append] at shorter
  exact List.eq_nil_of_length_eq_zero (by omega)

/-- A scan that stops inside of a text does not see what follows it. -/
theorem dropWhile_exchange_of_ne_nil (found : (t ++ r).dropWhile p = u ++ r) (inside : u ≠ []) :
    (t ++ r').dropWhile p = u ++ r' := by
  induction t with
  | nil => exact absurd (eq_of_suffix_append (found ▸ List.dropWhile_suffix p)) inside
  | cons c t inductionHypothesis =>
      rw [List.cons_append, List.dropWhile_cons] at found ⊢
      split at found
      · next holds => exact (if_pos holds).trans (inductionHypothesis found)
      · next fails =>
        obtain rfl : c :: t = u := List.append_cancel_right found
        exact if_neg fails

/-- A scan that stops at the end of a text stops there, too, if something else follows that
stops it. -/
theorem dropWhile_exchange (stops : ∀ c ∈ r'.head?, p c = false) (found : (t ++ r).dropWhile p = u ++ r) :
    (t ++ r').dropWhile p = u ++ r' := by
  induction t with
  | nil =>
      obtain rfl : u = [] := eq_of_suffix_append (found ▸ List.dropWhile_suffix p)
      exact Text.dropWhile_append_of_all (List.forall_mem_nil _) stops
  | cons c t inductionHypothesis =>
      rw [List.cons_append, List.dropWhile_cons] at found ⊢
      split at found
      · next holds => exact (if_pos holds).trans (inductionHypothesis found)
      · next fails =>
        obtain rfl : c :: t = u := List.append_cancel_right found
        exact if_neg fails

end Exchange

/-! ## Names -/

section Names

variable {t u r r' : List Char}

theorem stops_apart {c : Char} (mark : c = ':' ∨ c = ';' ∨ c = '!') :
    isNameChar c = false ∧ isNameStart c = false ∧ c.isDigit = false ∧ Color.isHexDigit c = false ∧
      Text.isCssSpace c = false ∧ c ∉ ['-', '.', '%', '(', '/', '*', '#', '+', ','] ∧ Reference.isQuote c = false := by
  rcases mark with rfl | rfl | rfl <;> decide

theorem Stops.ne {c d : Char} {rest : List Char} (stops : Stops (c :: rest)) (apart : d ∉ [':', ';', '!']) : c ≠ d := by
  rintro rfl
  exact apart (by simpa using stops c rfl)

/-- What follows a name without a hyphen. -/
def behindWord : List Char → List Char
  | [] => []
  | c :: rest => if isNameStart c then rest.dropWhile isNameChar else c :: rest

theorem snd_scanName_hyphen (cs : List Char) : (scanName ('-' :: cs)).2 = behindWord cs := by
  cases cs with
  | nil => rfl
  | cons c rest =>
      change (if isNameStart c then (some _, rest.dropWhile isNameChar) else (none, c :: rest)).2 = _
      rw [behindWord]
      split <;> rfl

theorem scanName_word {c : Char} (word : c ≠ '-') (rest : List Char) :
    scanName (c :: rest) =
      if isNameStart c then (some (c :: rest.takeWhile isNameChar), rest.dropWhile isNameChar) else (none, c :: rest) := by
  unfold scanName
  split
  next hyphen body found =>
  split at found
  · next same => exact absurd (List.cons.inj same).1 word
  · cases found
    rfl

theorem snd_scanName_word {c : Char} (word : c ≠ '-') (rest : List Char) :
    (scanName (c :: rest)).2 = behindWord (c :: rest) := by
  rw [scanName_word word, behindWord]
  split <;> rfl

theorem behindWord_of_stops (stops : Stops r) : behindWord r = r := by
  cases r with
  | nil => rfl
  | cons c rest =>
      rw [behindWord, (stops_apart (stops c rfl)).2.1]
      rfl

theorem suffix_behindWord (cs : List Char) : behindWord cs <:+ cs := by
  cases cs with
  | nil => exact List.suffix_rfl
  | cons c rest =>
      rw [behindWord]
      split
      · exact (List.dropWhile_suffix _).trans (List.suffix_cons _ _)
      · exact List.suffix_rfl

theorem behindWord_exchange (stops : Stops r') (found : behindWord (t ++ r) = u ++ r) :
    behindWord (t ++ r') = u ++ r' := by
  cases t with
  | nil =>
      obtain rfl : u = [] := eq_of_suffix_append (found ▸ suffix_behindWord r)
      exact behindWord_of_stops stops
  | cons c t =>
      rw [List.cons_append, behindWord] at found ⊢
      split at found
      · next start =>
        exact (if_pos start).trans (dropWhile_exchange (fun c first => (stops_apart (stops c first)).1) found)
      · next other =>
        obtain rfl : c :: t = u := List.append_cancel_right found
        exact if_neg other

theorem snd_scanName_of_stops (stops : Stops r) : (scanName r).2 = r := by
  cases r with
  | nil => rfl
  | cons c rest =>
      have word : c ≠ '-' := fun same => (stops_apart (stops c rfl)).2.2.2.2.2.1 (same ▸ List.mem_cons_self)
      rw [snd_scanName_word word, behindWord_of_stops stops]

/-- A name ends where it ended, if what follows stops it. -/
theorem scanName_exchange (stops : Stops r') (found : (scanName (t ++ r)).2 = u ++ r) :
    (scanName (t ++ r')).2 = u ++ r' := by
  cases t with
  | nil =>
      obtain rfl : u = [] := eq_of_suffix_append (found ▸ (scanName_spec r).1)
      exact snd_scanName_of_stops stops
  | cons c t =>
      by_cases hyphen : c = '-'
      · rw [hyphen, List.cons_append, snd_scanName_hyphen] at found ⊢
        exact behindWord_exchange stops found
      · rw [List.cons_append, snd_scanName_word hyphen, ← List.cons_append] at found ⊢
        exact behindWord_exchange stops found

end Names

/-! ## Terms -/

section Terms

variable {cs t u r r' : List Char}

theorem isNameChar_of_isNameStart {c : Char} (start : isNameStart c = true) : isNameChar c = true := by
  rw [isNameChar, start]
  rfl

theorem isNameChar_of_isDigit {c : Char} (digit : c.isDigit = true) : isNameChar c = true := by
  rw [isNameChar, digit, Bool.or_true, Bool.true_or]

/-- Letters by their codes. -/
theorem isAlpha_iff {c : Char} :
    c.isAlpha = true ↔ 65 ≤ c.val.toNat ∧ c.val.toNat ≤ 90 ∨ 97 ≤ c.val.toNat ∧ c.val.toNat ≤ 122 := by
  unfold Char.isAlpha Char.isUpper Char.isLower
  simp only [Bool.or_eq_true, Bool.and_eq_true, decide_eq_true_eq, ge_iff_le, UInt32.le_iff_toNat_le]
  rfl

theorem isNameChar_of_isHexDigit {c : Char} (digit : Color.isHexDigit c = true) : isNameChar c = true := by
  have alpha : c.isAlpha = true ∨ c.isDigit = true := by
    rw [Color.isHexDigit, Color.hexValue?] at digit
    split at digit
    · next decimal => exact .inr decimal
    · refine .inl (isAlpha_iff.mpr ?_)
      split at digit
      · next small =>
        have first : 97 ≤ c.val.toNat := UInt32.le_iff_toNat_le.mp (Char.le_def.mp small.1)
        have last : c.val.toNat ≤ 102 := UInt32.le_iff_toNat_le.mp (Char.le_def.mp small.2)
        exact .inr ⟨first, Nat.le_trans last (by decide)⟩
      · split at digit
        · next capital =>
          have first : 65 ≤ c.val.toNat := UInt32.le_iff_toNat_le.mp (Char.le_def.mp capital.1)
          have last : c.val.toNat ≤ 70 := UInt32.le_iff_toNat_le.mp (Char.le_def.mp capital.2)
          exact .inl ⟨first, Nat.le_trans last (by decide)⟩
        · cases digit
  rw [isNameChar, isNameStart]
  rcases alpha with alpha | digit
  · rw [alpha, Bool.or_true, Bool.true_or, Bool.true_or, Bool.true_or]
  · rw [digit, Bool.or_true, Bool.true_or]

theorem head_of_scanName {name : List Char} (found : scanName cs = (some name, r)) :
    ∀ c ∈ r.head?, isNameChar c = false := by
  have behind (rest : List Char) : ∀ c ∈ (rest.dropWhile isNameChar).head?, isNameChar c = false := by
    intro c first
    have stop := List.head?_dropWhile_not isNameChar rest
    rw [Option.mem_def.mp first] at stop
    exact stop
  cases cs with
  | nil => cases found
  | cons c rest =>
      by_cases hyphen : c = '-'
      · rw [hyphen] at found
        cases rest with
        | nil =>
            cases found
            exact fun _ impossible => nomatch impossible
        | cons d rest =>
            change (if isNameStart d then (some _, rest.dropWhile isNameChar) else (none, d :: rest)) = _ at found
            split at found
            · cases found
              exact behind rest
            · cases found
      · rw [scanName_word hyphen] at found
        split at found
        · cases found
          exact behind rest
        · cases found

/-- What follows the digits behind a point. -/
def behindFraction : List Char → List Char
  | '.' :: rest => rest.dropWhile Char.isDigit
  | rest => rest

/-- What follows a unit. -/
def behindUnit : List Char → List Char
  | '%' :: rest => rest
  | rest => (scanName rest).2

/-- What follows a name, or a function of that name. -/
def behindCall : List Char → Bool × List Char
  | '(' :: rest =>
    match rest.dropWhile (· != ')') with
    | _ :: rest => (true, rest)
    | [] => (false, [])
  | rest => (true, rest)

/-- Whether a character begins a number. -/
def beginsNumber (c : Char) : Bool :=
  c == '+' || c == '-' || c == '.' || c.isDigit

/-- The kinds of terms, by their first characters. -/
theorem scanTerm_cons (c : Char) (cs : List Char) :
    scanTerm (c :: cs) =
      if c == '#' then (true, (scanName cs).2.dropWhile Color.isHexDigit)
      else if beginsNumber c then (true, behindUnit (behindFraction (cs.dropWhile Char.isDigit)))
      else if Reference.isQuote c then
        match afterString? c c cs with
        | some rest => (true, rest)
        | none => (false, [])
      else if c == ',' then (true, cs)
      else if isNameStart c then behindCall (cs.dropWhile isNameChar) else (false, c :: cs) := by
  rw [scanTerm]
  split
  · split
    · next name rest found =>
      have kept : rest.dropWhile Color.isHexDigit = rest := by
        refine Text.dropWhile_append_of_all (List.forall_mem_nil _) fun d first => Bool.eq_false_iff.mpr fun digit => ?_
        exact Bool.eq_false_iff.mp (head_of_scanName found d first) (isNameChar_of_isHexDigit digit)
      rw [found, kept]
    · next rest found =>
      rw [found]
  · split
    · next number =>
      rw [beginsNumber, if_pos number]
      change (match behindFraction (cs.dropWhile Char.isDigit) with
        | '%' :: rest => (true, rest)
        | rest => (true, (scanName rest).2)) = _
      generalize behindFraction (cs.dropWhile Char.isDigit) = behind
      unfold behindUnit
      split <;> rfl
    · next other =>
      rw [beginsNumber, if_neg other]
      split
      · rfl
      · split
        · rfl
        · have word : c ≠ '-' := by
            rintro rfl
            exact other rfl
          rw [scanName_word word]
          by_cases start : isNameStart c = true
          · rw [if_pos start, if_pos start]
            generalize cs.dropWhile isNameChar = behind
            cases behind with
            | nil => rfl
            | cons d rest =>
                by_cases opened : d = '('
                · rw [opened]
                  rfl
                · simp [behindCall, opened]
          · rw [if_neg start, if_neg start]

theorem length_of_afterString? {quote previous : Char} (found : afterString? quote previous cs = some r) :
    r.length < cs.length := by
  induction cs generalizing previous with
  | nil => cases found
  | cons c later inductionHypothesis =>
      rw [afterString?] at found
      split at found
      · cases found
        exact Nat.lt_succ_self _
      · exact Nat.lt_succ_of_lt (inductionHypothesis found)

theorem afterString?_exchange {quote previous : Char} (found : afterString? quote previous (t ++ r) = some (u ++ r)) :
    afterString? quote previous (t ++ r') = some (u ++ r') := by
  induction t generalizing previous with
  | nil =>
      have shorter := length_of_afterString? found
      rw [List.nil_append, List.length_append] at shorter
      omega
  | cons c t inductionHypothesis =>
      rw [List.cons_append, afterString?] at found ⊢
      split at found
      · next ended =>
        obtain rfl : t = u := List.append_cancel_right (Option.some.inj found)
        exact if_pos ended
      · next inside => exact (if_neg inside).trans (inductionHypothesis found)

theorem suffix_behindFraction (cs : List Char) : behindFraction cs <:+ cs := by
  unfold behindFraction
  split
  · exact (List.dropWhile_suffix _).trans (List.suffix_cons _ _)
  · exact List.suffix_rfl

theorem behindFraction_of_ne {c : Char} (other : c ≠ '.') (rest : List Char) : behindFraction (c :: rest) = c :: rest := by
  unfold behindFraction
  split
  · next same => exact absurd (List.cons.inj same).1 other
  · rfl

theorem behindFraction_exchange (stops : Stops r') (found : behindFraction (t ++ r) = u ++ r) :
    behindFraction (t ++ r') = u ++ r' := by
  cases t with
  | nil =>
      obtain rfl : u = [] := eq_of_suffix_append (found ▸ suffix_behindFraction r)
      cases r' with
      | nil => rfl
      | cons c rest => exact behindFraction_of_ne (stops.ne (by decide)) rest
  | cons c t =>
      by_cases point : c = '.'
      · rw [point] at found ⊢
        exact dropWhile_exchange (fun c first => (stops_apart (stops c first)).2.2.1) found
      · rw [List.cons_append, behindFraction_of_ne point] at found ⊢
        obtain rfl : c :: t = u := List.append_cancel_right found
        rfl

theorem suffix_behindUnit (cs : List Char) : behindUnit cs <:+ cs := by
  unfold behindUnit
  split
  · exact List.suffix_cons _ _
  · exact (scanName_spec _).1

theorem behindUnit_of_ne {c : Char} (other : c ≠ '%') (rest : List Char) :
    behindUnit (c :: rest) = (scanName (c :: rest)).2 := by
  unfold behindUnit
  split
  · next same => exact absurd (List.cons.inj same).1 other
  · rfl

theorem behindUnit_exchange (stops : Stops r') (found : behindUnit (t ++ r) = u ++ r) :
    behindUnit (t ++ r') = u ++ r' := by
  cases t with
  | nil =>
      obtain rfl : u = [] := eq_of_suffix_append (found ▸ suffix_behindUnit r)
      cases r' with
      | nil => rfl
      | cons c rest => exact (behindUnit_of_ne (stops.ne (by decide)) rest).trans (snd_scanName_of_stops stops)
  | cons c t =>
      by_cases percent : c = '%'
      · rw [percent] at found ⊢
        obtain rfl : t = u := List.append_cancel_right found
        rfl
      · rw [List.cons_append, behindUnit_of_ne percent, ← List.cons_append] at found ⊢
        exact scanName_exchange stops found

theorem behindCall_of_ne {c : Char} (other : c ≠ '(') (rest : List Char) : behindCall (c :: rest) = (true, c :: rest) := by
  unfold behindCall
  split
  · next same => exact absurd (List.cons.inj same).1 other
  · rfl

theorem suffix_behindCall (cs : List Char) : (behindCall cs).2 <:+ cs := by
  unfold behindCall
  split
  · next rest =>
    have closed : rest.dropWhile (· != ')') <:+ '(' :: rest := (List.dropWhile_suffix _).trans (List.suffix_cons _ _)
    split
    · next behind =>
      rw [behind] at closed
      exact (List.suffix_cons _ _).trans closed
    · exact List.nil_suffix
  · exact List.suffix_rfl

theorem behindCall_exchange (stops : Stops r') (found : behindCall (t ++ r) = (true, u ++ r)) :
    behindCall (t ++ r') = (true, u ++ r') := by
  cases t with
  | nil =>
      have behind := suffix_behindCall r
      rw [show (behindCall r).2 = u ++ r from congrArg Prod.snd found] at behind
      obtain rfl : u = [] := eq_of_suffix_append behind
      cases r' with
      | nil => rfl
      | cons c rest => exact behindCall_of_ne (stops.ne (by decide)) rest
  | cons c t =>
      by_cases opened : c = '('
      · rw [opened] at found ⊢
        rw [List.cons_append, behindCall] at found ⊢
        split at found
        · next closing rest closed =>
          have inside := @dropWhile_exchange_of_ne_nil _ t (closing :: u) r r' (by rw [closed, (Prod.mk.inj found).2]; rfl) (List.cons_ne_nil _ _)
          rw [inside]
          rfl
        · cases found
      · rw [List.cons_append, behindCall_of_ne opened] at found ⊢
        obtain rfl : c :: t = u := List.append_cancel_right (Prod.mk.inj found).2
        rfl

theorem exists_append_of_suffix {x : List Char} (behind : u ++ r <:+ x) : ∃ v, x = v ++ r := by
  rcases (List.suffix_append u r).trans behind with ⟨v, same⟩
  exact ⟨v, same.symm⟩

/-- A term ends where it ended, if what follows stops it. -/
theorem scanTerm_exchange (stops : Stops r') {c : Char} (found : scanTerm (c :: t ++ r) = (true, u ++ r)) :
    scanTerm (c :: t ++ r') = (true, u ++ r') := by
  rw [List.cons_append, scanTerm_cons] at found ⊢
  split at found
  · next hash =>
    have behind := (Prod.mk.inj found).2
    rcases exists_append_of_suffix (behind ▸ List.dropWhile_suffix _) with ⟨v, named⟩
    rw [named] at behind
    rw [if_pos hash, scanName_exchange stops named,
      dropWhile_exchange (fun c first => (stops_apart (stops c first)).2.2.2.1) behind]
  · next notHash =>
    rw [if_neg notHash]
    split at found
    · next number =>
      have behind := (Prod.mk.inj found).2
      rcases exists_append_of_suffix (behind ▸ suffix_behindUnit _) with ⟨w, afterFraction⟩
      rcases exists_append_of_suffix (afterFraction ▸ suffix_behindFraction _) with ⟨v, afterDigits⟩
      rw [afterFraction] at behind
      rw [afterDigits] at afterFraction
      rw [if_pos number, dropWhile_exchange (fun c first => (stops_apart (stops c first)).2.2.1) afterDigits,
        behindFraction_exchange stops afterFraction, behindUnit_exchange stops behind]
    · next notNumber =>
      rw [if_neg notNumber]
      split at found
      · next quote =>
        rw [if_pos quote]
        split at found
        · next rest string =>
          rw [(Prod.mk.inj found).2] at string
          rw [afterString?_exchange string]
        · cases found
      · next notQuote =>
        rw [if_neg notQuote]
        split at found
        · next comma =>
          obtain rfl : t = u := List.append_cancel_right (Prod.mk.inj found).2
          exact if_pos comma
        · next notComma =>
          rw [if_neg notComma]
          split at found
          · next start =>
            have behind := suffix_behindCall ((t ++ r).dropWhile isNameChar)
            rw [found] at behind
            rcases exists_append_of_suffix behind with ⟨v, named⟩
            rw [named] at found
            rw [if_pos start, dropWhile_exchange (fun c first => (stops_apart (stops c first)).1) named]
            exact behindCall_exchange stops found
          · cases found

end Terms

/-! ## Runs of terms -/

section Runs

variable {cs last t u r r' : List Char}

theorem skipBlank?_comment {before after : List Char} (front : cs.dropWhile Text.isCssSpace = '/' :: '*' :: r)
    (cut : Text.cut? ['*', '/'] r = some (before, after)) : skipBlank? cs = skipBlank? after := by
  rw [skipBlank?]
  split
  · next rest same =>
    rw [front] at same
    cases same
    rw [cut]
  · next other => exact absurd front (other r)

theorem skipBlank?_of_no_comment (other : ∀ rest, cs.dropWhile Text.isCssSpace ≠ '/' :: '*' :: rest) :
    skipBlank? cs = some (cs.dropWhile Text.isCssSpace) := by
  rw [skipBlank?]
  split
  · next rest same => exact absurd same (other rest)
  · rfl

/-- Blanks and comments inside of a text do not depend on what follows it. -/
theorem skipBlank?_exchange (stops : Stops r') (found : skipBlank? (t ++ r) = some (u ++ r)) :
    skipBlank? (t ++ r') = some (u ++ r') := by
  generalize whole : t ++ r = cs at found
  fun_induction skipBlank? cs generalizing t with
  | case1 cs later front before after cut inductionHypothesis =>
      subst whole
      rcases exists_append_of_suffix (suffix_of_skipBlank? found) with ⟨w, rfl⟩
      have comment := Text.eq_append_of_cut? cut
      have opened : (t ++ r).dropWhile Text.isCssSpace = ('/' :: '*' :: (before ++ (['*', '/'] ++ w))) ++ r := by
        rw [front, comment]
        simp
      have openedAgain := @dropWhile_exchange_of_ne_nil _ t _ r r' opened (List.cons_ne_nil _ _)
      rw [comment, List.append_assoc] at cut
      have cutAgain := @Text.cut?_exchange _ _ _ (w ++ r') cut
      rw [skipBlank?_comment openedAgain (by simpa using cutAgain)]
      exact inductionHypothesis rfl found
  | case2 => cases found
  | case3 cs other =>
      subst whole
      have solid := dropWhile_exchange (fun c first => (stops_apart (stops c first)).2.2.2.2.1) (Option.some.inj found)
      rw [skipBlank?_of_no_comment, solid]
      rw [solid]
      rw [Option.some.inj found] at other
      intro rest comment
      rcases u with _ | ⟨c, _ | ⟨d, u⟩⟩
      · rw [show r' = '/' :: '*' :: rest from comment] at stops
        exact stops.ne (by decide) rfl
      · rw [show r' = '*' :: rest from (List.cons.inj comment).2] at stops
        exact stops.ne (by decide) rfl
      · have second := (List.cons.inj comment).2
        refine other (u ++ r) ?_
        rw [(List.cons.inj comment).1, (List.cons.inj second).1]
        rfl

theorem skipBlank?_of_stops (stops : Stops r) : skipBlank? r = some r := by
  have solid : r.dropWhile Text.isCssSpace = r :=
    Text.dropWhile_append_of_all (List.forall_mem_nil _) fun c first => (stops_apart (stops c first)).2.2.2.2.1
  rw [skipBlank?_of_no_comment, solid]
  rw [solid]
  rintro rest rfl
  exact stops.ne (by decide) rfl

theorem scanTerm_of_stops (stops : Stops r) : scanTerm r = (false, r) := by
  cases r with
  | nil => rfl
  | cons c rest =>
      rcases stops_apart (stops c rfl) with ⟨-, word, digit, -, -, other, quote⟩
      have number : beginsNumber c = false := by
        rw [beginsNumber, digit, beq_false_of_ne (stops.ne (by decide)), beq_false_of_ne (stops.ne (by decide)),
          beq_false_of_ne (stops.ne (by decide))]
        rfl
      rw [scanTerm_cons, beq_false_of_ne (stops.ne (by decide)), number, quote, beq_false_of_ne (stops.ne (by decide)), word]
      rfl

/-- Reading terms goes on behind the first term unless nothing was read. -/
theorem exists_of_scanTerms? {bound : Nat} {after : List Char} (scanned : scanTerms? (bound + 1) last cs = some (r, after))
    (moved : last ≠ r) :
    ∃ rest next, scanTerm cs = (true, rest) ∧ skipBlank? rest = some next ∧
      scanTerms? bound rest next = some (r, after) ∧ r <:+ rest := by
  rw [scanTerms?] at scanned
  split at scanned
  · cases scanned
    exact absurd rfl moved
  · next rest found =>
    rcases Option.bind_eq_some_iff.mp scanned with ⟨next, skipped, further⟩
    exact ⟨rest, next, found, skipped, further, (suffixes_of_scanTerms? (suffix_of_skipBlank? skipped) further).1⟩

/-- A term takes at least one character. -/
theorem suffix_of_scanTerm_cons {c : Char} (found : scanTerm (c :: cs) = (true, r)) : r <:+ cs := by
  rw [scanTerm_cons] at found
  split at found
  · rw [← (Prod.mk.inj found).2]
    exact (List.dropWhile_suffix _).trans (scanName_spec cs).1
  · split at found
    · rw [← (Prod.mk.inj found).2]
      exact (suffix_behindUnit _).trans ((suffix_behindFraction _).trans (List.dropWhile_suffix _))
    · split at found
      · split at found
        · next string =>
          rw [← (Prod.mk.inj found).2]
          exact suffix_of_afterString? string
        · cases found
      · split at found
        · rw [← (Prod.mk.inj found).2]
        · split at found
          · have behind := suffix_behindCall (cs.dropWhile isNameChar)
            rw [found] at behind
            exact behind.trans (List.dropWhile_suffix _)
          · cases found

theorem length_of_scanTerm (found : scanTerm cs = (true, r)) : r.length < cs.length := by
  cases cs with
  | nil => cases found
  | cons c cs => exact Nat.lt_succ_of_le (suffix_of_scanTerm_cons found).length_le

/-- Whether a character is white space that stands in no name. -/
def isGap (c : Char) : Bool :=
  Text.isWhiteSpace c && !isNameChar c

theorem isGap_of_isNameChar {c : Char} (named : isNameChar c = true) : isGap c = false := by
  rw [isGap, named, Bool.not_true, Bool.and_false]

theorem isCssSpace_of_isGap {c : Char} (solid : isGap c = false) : Text.isCssSpace c = false := by
  rw [← Bool.not_eq_true]
  intro space
  simp only [Text.isCssSpace, Text.isXmlSpace, Bool.or_eq_true, beq_iff_eq] at space
  rcases space with (((rfl | rfl) | rfl) | rfl) | rfl <;> exact absurd solid (by decide)

/-- A term begins with no gap and no comment. -/
theorem first_of_scanTerm {c : Char} (found : scanTerm (c :: cs) = (true, r)) : isGap c = false ∧ c ≠ '/' := by
  have word (named : isNameChar c = true) : isGap c = false ∧ c ≠ '/' := by
    refine ⟨isGap_of_isNameChar named, ?_⟩
    rintro rfl
    exact absurd named (by decide)
  rw [scanTerm_cons] at found
  split at found
  · next hash =>
    rw [beq_iff_eq.mp hash]
    decide
  · split at found
    · next number =>
      simp only [beginsNumber, Bool.or_eq_true, beq_iff_eq] at number
      rcases number with ((rfl | rfl) | rfl) | digit
      · decide
      · decide
      · decide
      · exact word (isNameChar_of_isDigit digit)
    · split at found
      · next quote =>
        simp only [Reference.isQuote, Bool.or_eq_true, beq_iff_eq] at quote
        rcases quote with rfl | rfl
        · decide
        · decide
      · split at found
        · next comma =>
          rw [beq_iff_eq.mp comma]
          decide
        · split at found
          · next start => exact word (isNameChar_of_isNameStart start)
          · cases found

/-- Whether a scan takes a part of a text that ends with no gap. -/
def Takes (cs rest : List Char) : Prop :=
  ∃ part, cs = part ++ rest ∧ ∀ c ∈ part.getLast?, isGap c = false

theorem Takes.refl (cs : List Char) : Takes cs cs :=
  ⟨[], rfl, fun _ impossible => nomatch impossible⟩

theorem Takes.trans {mid : List Char} (first : Takes cs mid) (second : Takes mid r) : Takes cs r := by
  rcases first with ⟨front, rfl, frontLast⟩
  rcases second with ⟨back, rfl, backLast⟩
  exact ⟨front ++ back, (List.append_assoc _ _ _).symm, Text.last_append (fun _ => frontLast) backLast⟩

theorem takes_cons {c : Char} (solid : isGap c = false) (cs : List Char) : Takes (c :: cs) cs := by
  refine ⟨[c], rfl, ?_⟩
  rintro d ⟨⟩
  exact solid

theorem takes_append {front : List Char} {c : Char} (solid : isGap c = false) (rest : List Char) :
    Takes (front ++ c :: rest) rest := by
  refine ⟨front ++ [c], List.append_cons front c rest, fun d last => ?_⟩
  rw [List.getLast?_concat] at last
  exact Option.some.inj last ▸ solid

theorem takes_dropWhile {p : Char → Bool} (solid : ∀ c, p c = true → isGap c = false) (cs : List Char) :
    Takes cs (cs.dropWhile p) :=
  ⟨cs.takeWhile p, List.takeWhile_append_dropWhile.symm, fun c last =>
    solid c (List.mem_takeWhile_imp (List.mem_of_mem_getLast? last))⟩

theorem takes_behindWord (cs : List Char) : Takes cs (behindWord cs) := by
  cases cs with
  | nil => exact .refl []
  | cons c rest =>
      rw [behindWord]
      split
      · next start =>
        have named := isNameChar_of_isNameStart start
        exact (takes_cons (isGap_of_isNameChar named) rest).trans (takes_dropWhile (fun _ => isGap_of_isNameChar) rest)
      · exact .refl _

theorem takes_scanName (cs : List Char) : Takes cs (scanName cs).2 := by
  cases cs with
  | nil => exact .refl []
  | cons c rest =>
      by_cases hyphen : c = '-'
      · rw [hyphen, snd_scanName_hyphen]
        exact (takes_cons (show isGap '-' = false by decide) rest).trans (takes_behindWord rest)
      · rw [snd_scanName_word hyphen]
        exact takes_behindWord _

theorem exists_append_of_afterString? {quote previous : Char} (found : afterString? quote previous cs = some r) :
    ∃ front, cs = front ++ quote :: r := by
  induction cs generalizing previous with
  | nil => cases found
  | cons c later inductionHypothesis =>
      rw [afterString?] at found
      split at found
      · next ended =>
        rw [Bool.and_eq_true, beq_iff_eq] at ended
        exact ⟨[], by rw [ended.1, Option.some.inj found]; rfl⟩
      · rcases inductionHypothesis found with ⟨front, rfl⟩
        exact ⟨c :: front, rfl⟩

theorem takes_behindCall (found : behindCall cs = (true, r)) : Takes cs r := by
  unfold behindCall at found
  split at found
  · next rest =>
    split at found
    · next closing behind closed =>
      have stop := List.head?_dropWhile_not (· != ')') rest
      rw [closed] at stop
      have whole := List.takeWhile_append_dropWhile (p := (· != ')')) (l := rest)
      rw [closed] at whole
      rw [← whole, ← (Prod.mk.inj found).2]
      have solid : isGap closing = false := by
        rw [show closing = ')' by simpa using stop]
        decide
      exact @takes_append ('(' :: rest.takeWhile (· != ')')) closing solid behind
    · cases found
  · rw [← (Prod.mk.inj found).2]
    exact .refl _

/-- A term ends with no gap. -/
theorem takes_of_scanTerm {c : Char} (found : scanTerm (c :: cs) = (true, r)) : Takes (c :: cs) r := by
  have solid := (first_of_scanTerm found).1
  have digits (cs : List Char) : Takes cs (cs.dropWhile Char.isDigit) :=
    takes_dropWhile (fun c digit => isGap_of_isNameChar (isNameChar_of_isDigit digit)) cs
  refine (takes_cons solid cs).trans ?_
  rw [scanTerm_cons] at found
  split at found
  · rw [← (Prod.mk.inj found).2]
    exact (takes_scanName cs).trans (takes_dropWhile (fun c digit => isGap_of_isNameChar (isNameChar_of_isHexDigit digit)) _)
  · split at found
    · rw [← (Prod.mk.inj found).2]
      have fraction (cs : List Char) : Takes cs (behindFraction cs) := by
        unfold behindFraction
        split
        · next rest =>
          exact (takes_cons (show isGap '.' = false by decide) rest).trans (digits rest)
        · exact .refl _
      have unit (cs : List Char) : Takes cs (behindUnit cs) := by
        unfold behindUnit
        split
        · exact takes_cons (by decide) _
        · exact takes_scanName _
      exact (digits cs).trans ((fraction _).trans (unit _))
    · split at found
      · next quote =>
        split at found
        · next string =>
          rw [← (Prod.mk.inj found).2]
          rcases exists_append_of_afterString? string with ⟨front, rfl⟩
          exact takes_append solid _
        · cases found
      · split at found
        · rw [← (Prod.mk.inj found).2]
          exact .refl cs
        · split at found
          · refine (takes_dropWhile (fun _ => isGap_of_isNameChar) cs).trans ?_
            exact takes_behindCall found
          · cases found

/-- A row of terms with blanks and comments between them, whatever stops it. -/
structure IsRun (cs : List Char) : Prop where
  nonempty : cs ≠ []
  first : ∀ c ∈ cs.head?, isGap c = false ∧ c ≠ '/'
  last : ∀ c ∈ cs.getLast?, isGap c = false
  scanned : ∀ rest, Stops rest → ∀ bound last, cs.length + rest.length ≤ bound →
    scanTerms? bound last (cs ++ rest) = some (rest, rest)

theorem scanTerms?_of_stops (stops : Stops r) (bound : Nat) : scanTerms? bound r r = some (r, r) := by
  cases bound with
  | zero => rfl
  | succ bound =>
      rw [scanTerms?, scanTerm_of_stops stops]

/-- What was read as a value is a run of terms. -/
theorem isRun_of_scanTerms? {bound : Nat} {after : List Char} (scanned : scanTerms? bound last (t ++ r) = some (r, after))
    (moved : last ≠ r) : IsRun t := by
  induction bound generalizing last t with
  | zero => exact absurd (Prod.mk.inj (Option.some.inj scanned)).1 moved
  | succ bound inductionHypothesis =>
      rcases exists_of_scanTerms? scanned moved with ⟨rest, next, term, skipped, further, u, rfl⟩
      have shorter := length_of_scanTerm term
      cases t with
      | nil =>
          rw [List.nil_append, List.length_append] at shorter
          omega
      | cons c t =>
          have first : ∀ d ∈ (c :: t).head?, isGap d = false ∧ d ≠ '/' := by
            rintro d ⟨⟩
            exact first_of_scanTerm term
          by_cases none : u = []
          · -- The first term is the last one.
            rcases takes_of_scanTerm (none ▸ term) with ⟨part, whole, partLast⟩
            have own : c :: t = part := List.append_cancel_right whole
            refine ⟨List.cons_ne_nil c t, first, own ▸ partLast, fun r' stops bound' last' enough => ?_⟩
            cases bound' with
            | zero => exact absurd enough (by simp)
            | succ bound' =>
              rw [scanTerms?, scanTerm_exchange stops term, none]
              change (skipBlank? r').bind _ = _
              rw [skipBlank?_of_stops stops]
              exact scanTerms?_of_stops stops bound'
          · have apart : u ++ r ≠ r := fun same => none (List.append_left_eq_self.mp same)
            cases bound with
            | zero => exact absurd (Prod.mk.inj (Option.some.inj further)).1 apart
            | succ bound =>
              rcases exists_of_scanTerms? further apart with ⟨rest, -, found, -, -, behind⟩
              have termBehind := suffix_of_scanTerm next
              rw [found] at termBehind
              rcases behind.trans termBehind with ⟨w, rfl⟩
              have later := inductionHypothesis further apart
              have blanks := suffix_of_skipBlank? skipped
              rcases blanks with ⟨blank, blankEq⟩
              rcases suffix_of_scanTerm (c :: t ++ r) with ⟨part, partEq⟩
              rw [term, ← blankEq, ← List.append_assoc, ← List.append_assoc] at partEq
              have whole : part ++ blank ++ w = c :: t := List.append_cancel_right partEq
              refine ⟨List.cons_ne_nil c t, first, ?_, fun r' stops bound' last' enough => ?_⟩
              · rw [← whole]
                exact Text.last_append (fun none => absurd none later.nonempty) later.last
              · cases bound' with
                | zero => exact absurd enough (by simp)
                | succ bound' =>
                  have size := congrArg List.length whole
                  have sizeTerm := congrArg List.length blankEq
                  simp only [List.length_append, List.length_cons] at size sizeTerm shorter enough
                  rw [scanTerms?, scanTerm_exchange stops term]
                  change (skipBlank? (u ++ r')).bind _ = _
                  rw [skipBlank?_exchange stops skipped]
                  exact later.scanned r' stops bound' _ (by omega)

end Runs

end DeclarationScan

end SlimSvg
