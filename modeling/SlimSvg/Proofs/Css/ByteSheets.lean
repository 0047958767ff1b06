import SlimSvg.Css.Sheet
import SlimSvg.Proofs.Css.ByteSelectors

namespace SlimSvg
namespace Css

/-!
# Style sheets from bytes

A style sheet is read in two passes over the bytes: the first one leaves out comments, the
second one finds rules and blocks.  Whatever the text is, both end, neither looks or steps
beyond the end or cuts a character apart, and the sets of rules or the refusal are those
that the reader of characters gives.
-/

namespace ByteStream

open ByteRun

/-! ## Leaving out comments -/

/-- The character at the place and what follows it, unless the text ends. -/
def next? (s : ByteStream) : ByteRun (Option (Char × ByteStream)) := do
  if s.atEnd then return none
  match ← s.toEnd with
  | [] => return none
  | c :: _ => return some (c, ← s.advance c.utf8Size)

/-- Go on to a later place character by character. -/
def skipTo (stop : Nat) (s : ByteStream) : ByteRun ByteStream := do
  match ← s.next? with
  | none => return s
  | some (_, behind) => if s.place < stop then behind |>.skipTo stop else return s
partial_fixpoint

/-- Go on by some characters. -/
def skipChars : (n : Nat) → ByteStream → ByteRun ByteStream
  | 0, s => pure s
  | n + 1, s => do
    match ← s.next? with
    | none => skipChars n s
    | some (_, behind) => skipChars n behind

/-- The place behind the comment at the front of a text, given the place of the text. -/
def commentEnd (s : ByteStream) (rest : List Char) : ByteRun Nat := do
  let inner ← slice rest 2 (width rest)
  match Text.cut? ['*', '/'] inner with
  | some (comment, _) => return s.place + 2 + width comment + 2
  | none => return width s.text

/-- The text from the place on without comments, behind what was kept before. -/
def strip (quote : Option Char) (done : List Char) (s : ByteStream) : ByteRun (List Char) := do
  match ← s.next? with
  | none => return done
  | some (c, behind) =>
    match quote with
    | some q =>
      if c == '\\' then
        match ← behind.next? with
        | some (d, after) => after |>.strip quote (done ++ [c, d])
        | none => behind |>.strip quote (done ++ [c])
      else behind |>.strip (if c == q then none else some q) (done ++ [c])
    | none =>
      let rest ← s.toEnd
      if ['/', '*'].isPrefixOf rest then
        let stop ← s.commentEnd rest
        (← behind.skipTo stop) |>.strip none done
      else if ['<', '!', '-', '-'].isPrefixOf rest then (← behind.skipChars 3) |>.strip none done
      else if ['-', '-', '>'].isPrefixOf rest then (← behind.skipChars 2) |>.strip none done
      else behind |>.strip (if isQuote c then some c else none) (done ++ [c])
partial_fixpoint

/-! ## Reading a sheet -/

/-- The rule at the place, once for each selector, and what follows. -/
def rule (inMedia : Bool) (s : ByteStream) : ByteRun (List Rule × ByteStream) := do
  let (prelude, s) ← s.balanced '\x7b'
  if prelude.any fun c => c == ';' || c == '\x7d' then throw (.refusal (SelectorText.invalid prelude))
  let s ← s.advance 1
  let (block, s) ← s.block
  if block.contains '\x7b' then throw (.refusal .nesting)
  let selectors ← selectors false [] (start prelude)
  let declarations := Declarations.read (String.ofList block)
  return (selectors.map fun selector => .ofSelector selector declarations inMedia, s)

/-- The rules of a media block behind the ones that were read. -/
def rules (inMedia : Bool) (done : List Rule) (s : ByteStream) : ByteRun (List Rule) := do
  let s ← s.skipSpaces
  if s.atEnd then return done
  let c ← s.byte
  if c == '@' then throw (.refusal .nesting)
  else if c == '\x7d' then throw (.refusal .unbalanced)
  else
    let (here, s) ← s.rule inMedia
    s |>.rules inMedia (done ++ here)
partial_fixpoint

/-- The sets of a sheet behind the ones that were read and the set that is being read. -/
def sets (media : Option String) (done : List RuleSet) (current : RuleSet) (s : ByteStream) :
    ByteRun (List RuleSet) := do
  let s ← s.skipSpaces
  if s.atEnd then return done ++ SheetText.unlessEmpty current
  let c ← s.byte
  if c == '@' then
    let (name, s) ← (← s.advance 1).name
    let name := Text.toAsciiLower (String.ofList name)
    if name == "media" then
      if media.isSome then throw (.refusal .nesting)
      let (query, s) ← s.beforeSign '\x7b'
      let (block, s) ← s.block
      let query := mediaQuery? (String.ofList query)
      let inner ← rules query.isSome [] (start block)
      let following := if current.isEmpty then current else .ofMedia media
      s |>.sets media (done ++ SheetText.unlessEmpty current ++ [⟨query, true, inner, []⟩]) following
    else if name == "font-face" then
      let (_, s) ← s.beforeSign '\x7b'
      let (block, s) ← s.block
      let face := "@font-face\x7b" ++ String.ofList (Text.trimChars block) ++ "\x7d"
      s |>.sets media done { current with fontFaces := current.fontFaces ++ [face] }
    else if name == "charset" then
      let (_, s) ← s.beforeSign ';'
      s |>.sets media done current
    else throw (.refusal (.unsupportedAtRule name))
  else if c == '\x7d' then throw (.refusal .unbalanced)
  else
    let (here, s) ← s.rule media.isSome
    s |>.sets media done { current with rules := current.rules ++ here }
partial_fixpoint

/-! ## What is left of a text -/

section Found

variable {text cs rest : List Char}

theorem next?_before_nil (text : List Char) : (before text []).next? = pure none := by
  rw [next?, atEnd_before List.nil_suffix]
  rfl

theorem next?_before_cons {c : Char} (suffix : c :: rest <:+ text) :
    (before text (c :: rest)).next? = pure (some (c, before text rest)) := by
  rw [next?, atEnd_before_cons suffix, if_neg Bool.false_ne_true, toEnd_before suffix, pure_bind]
  dsimp only
  rw [advance_before suffix]
  rfl

/-- The loop stops exactly at the place, if the place lies between characters. -/
theorem skipTo_before (suffix : cs <:+ text) {after : List Char} (later : after <:+ cs) :
    (before text cs).skipTo (before text after).place = pure (before text after) := by
  induction cs with
  | nil =>
      rw [List.suffix_nil.mp later, skipTo, next?_before_nil]
      rfl
  | cons c rest inductionHypothesis =>
      have behind : rest <:+ text := (List.suffix_cons _ _).trans suffix
      have fits := width_le_of_suffix suffix
      have positive := c.utf8Size_pos
      rw [skipTo, next?_before_cons suffix, pure_bind]
      dsimp only
      rcases List.suffix_cons_iff.mp later with same | further
      · rw [same, if_neg (Nat.lt_irrefl _)]
      · have inside := width_le_of_suffix further
        have place : (before text (c :: rest)).place < (before text after).place := by
          rw [width_cons] at fits
          rw [before, before, width_cons]
          dsimp only
          omega
        rw [if_pos place, inductionHypothesis behind further]

theorem skipChars_before (front : List Char) (suffix : front ++ rest <:+ text) :
    (before text (front ++ rest)).skipChars front.length = pure (before text rest) := by
  induction front with
  | nil => rfl
  | cons c front inductionHypothesis =>
      rw [List.cons_append] at suffix ⊢
      rw [List.length_cons, skipChars, next?_before_cons suffix, pure_bind]
      exact inductionHypothesis ((List.suffix_cons _ _).trans suffix)

/-! ### Comments -/

/-- What follows a comment whose beginning was read. -/
def behindComment (cs : List Char) : List Char :=
  (Text.cut? ['*', '/'] cs).elim [] (·.2)

theorem suffix_of_behindComment (cs : List Char) : behindComment cs <:+ cs := by
  rw [behindComment]
  cases cut : Text.cut? ['*', '/'] cs with
  | none => exact List.nil_suffix
  | some parts =>
      have split := Text.eq_append_of_cut? cut
      exact ⟨parts.1 ++ ['*', '/'], split.symm⟩

/-- The place behind a comment lies between characters. -/
theorem commentEnd_before (suffix : '/' :: '*' :: rest <:+ text) :
    (before text ('/' :: '*' :: rest)).commentEnd ('/' :: '*' :: rest) =
      pure (before text (behindComment rest)).place := by
  have fits := width_le_of_suffix suffix
  have opened : width ('/' :: '*' :: rest) = 2 + width rest := width_append ['/', '*'] rest
  have inner : slice ('/' :: '*' :: rest) 2 (width ('/' :: '*' :: rest)) = pure rest := by
    have found := toEnd_before (List.suffix_append ['/', '*'] rest)
    rw [toEnd, before] at found
    have first : width (['/', '*'] ++ rest) - width rest = 2 := by
      rw [width_append, Nat.add_sub_cancel]
      rfl
    rw [first] at found
    exact found
  rw [commentEnd, inner, pure_bind, behindComment]
  cases cut : Text.cut? ['*', '/'] rest with
  | none => rfl
  | some parts =>
      have split := Text.eq_append_of_cut? cut
      have whole : width rest = width parts.1 + 2 + width parts.2 := by
        rw [split, width_append, width_append]
        rfl
      have place : width text - width ('/' :: '*' :: rest) + 2 + width parts.1 + 2 = width text - width parts.2 := by
        omega
      exact congrArg pure place

theorem isPrefixOf_eq_false {mark : List Char} (other : ∀ later, cs ≠ mark ++ later) : mark.isPrefixOf cs = false := by
  rw [Bool.eq_false_iff]
  intro begins
  rcases List.isPrefixOf_iff_prefix.mp begins with ⟨later, same⟩
  exact other later same.symm

theorem strip_comment (suffix : '/' :: '*' :: rest <:+ text) (done : List Char) :
    (before text ('/' :: '*' :: rest)).strip none done = (before text (behindComment rest)).strip none done := by
  have behind : '*' :: rest <:+ text := (List.suffix_cons _ _).trans suffix
  have later : behindComment rest <:+ '*' :: rest := (suffix_of_behindComment rest).trans (List.suffix_cons _ _)
  rw [strip, next?_before_cons suffix, pure_bind]
  dsimp only
  rw [toEnd_before suffix, pure_bind]
  change (before text ('/' :: '*' :: rest)).commentEnd ('/' :: '*' :: rest) >>= (fun stop =>
    (before text ('*' :: rest)).skipTo stop >>= strip none done) = _
  rw [commentEnd_before suffix, pure_bind, skipTo_before behind later, pure_bind]

theorem strip_before (suffix : cs <:+ text) (quote : Option Char) (done : List Char) :
    (before text cs).strip quote done = pure (done ++ stripComments quote cs) := by
  fun_induction stripComments quote cs generalizing done with
  | case1 quote =>
      rw [strip, next?_before_nil, List.append_nil]
      rfl
  | case2 q c rest inductionHypothesis =>
      have behind : c :: rest <:+ text := (List.suffix_cons _ _).trans suffix
      rw [strip, next?_before_cons suffix, pure_bind]
      dsimp only
      rw [beq_self_eq_true, if_pos rfl, next?_before_cons behind, pure_bind]
      dsimp only
      rw [inductionHypothesis ((List.suffix_cons _ _).trans behind), List.append_assoc]
      rfl
  | case3 q c rest unescaped inductionHypothesis =>
      have behind : rest <:+ text := (List.suffix_cons _ _).trans suffix
      have goesOn : (before text (c :: rest)).strip (some q) done =
          (before text rest).strip (if c == q then none else some q) (done ++ [c]) := by
        rw [strip, next?_before_cons suffix, pure_bind]
        dsimp only
        by_cases backslash : c = '\\'
        · -- A backslash at the end of the text has nothing to escape.
          cases rest with
          | cons d later => exact (unescaped d later backslash rfl).elim
          | nil =>
              rw [backslash, beq_self_eq_true, if_pos rfl, next?_before_nil, pure_bind]
              dsimp only
              rw [strip, strip, next?_before_nil]
              rfl
        · rw [beq_false_of_ne backslash, if_neg Bool.false_ne_true]
      rw [goesOn, ← dite_eq_ite, inductionHypothesis behind, List.append_assoc, dite_eq_ite]
      rfl
  | case4 rest comment after cut inductionHypothesis =>
      have left : behindComment rest = after := by rw [behindComment, cut]; rfl
      have part : after <:+ rest := left ▸ suffix_of_behindComment rest
      rw [strip_comment suffix, left]
      exact inductionHypothesis (part.trans ((List.suffix_append ['/', '*'] rest).trans suffix)) done
  | case5 rest unclosed =>
      have left : behindComment rest = [] := by rw [behindComment, unclosed]; rfl
      rw [strip_comment suffix, left, strip, next?_before_nil, List.append_nil]
      rfl
  | case6 rest inductionHypothesis =>
      have behind : '!' :: '-' :: '-' :: rest <:+ text := (List.suffix_cons _ _).trans suffix
      rw [strip, next?_before_cons suffix, pure_bind]
      dsimp only
      rw [toEnd_before suffix, pure_bind]
      change (before text (['!', '-', '-'] ++ rest)).skipChars ['!', '-', '-'].length >>= strip none done = _
      rw [skipChars_before _ behind, pure_bind, inductionHypothesis ((List.suffix_append ['!', '-', '-'] _).trans behind)]
  | case7 rest inductionHypothesis =>
      have behind : '-' :: '>' :: rest <:+ text := (List.suffix_cons _ _).trans suffix
      rw [strip, next?_before_cons suffix, pure_bind]
      dsimp only
      rw [toEnd_before suffix, pure_bind]
      change (before text (['-', '>'] ++ rest)).skipChars ['-', '>'].length >>= strip none done = _
      rw [skipChars_before _ behind, pure_bind, inductionHypothesis ((List.suffix_append ['-', '>'] _).trans behind)]
  | case8 c rest noComment noStart noEnd inductionHypothesis =>
      have behind : rest <:+ text := (List.suffix_cons _ _).trans suffix
      have comment : ['/', '*'].isPrefixOf (c :: rest) = false := isPrefixOf_eq_false fun later same =>
        noComment later (List.cons.inj same).1 (List.cons.inj same).2
      have start : ['<', '!', '-', '-'].isPrefixOf (c :: rest) = false := isPrefixOf_eq_false fun later same =>
        noStart later (List.cons.inj same).1 (List.cons.inj same).2
      have finish : ['-', '-', '>'].isPrefixOf (c :: rest) = false := isPrefixOf_eq_false fun later same =>
        noEnd later (List.cons.inj same).1 (List.cons.inj same).2
      rw [strip, next?_before_cons suffix, pure_bind]
      dsimp only
      rw [toEnd_before suffix, pure_bind, comment, start, finish, if_neg Bool.false_ne_true, if_neg Bool.false_ne_true,
        if_neg Bool.false_ne_true, ← dite_eq_ite, inductionHypothesis behind, List.append_assoc, dite_eq_ite]
      rfl

/-! ### Rules -/

/-- What follows a block is a shorter part of the text. -/
theorem suffix_of_spanBlock? {parts : List Char × List Char} (cut : spanBlock? 0 none cs = some parts) :
    parts.2 <:+ cs ∧ parts.2.length < cs.length := by
  have split := (passes_of_spanBlock? cs cut).1
  have size := congrArg List.length split
  rw [List.length_append, List.length_cons] at size
  refine ⟨?_, by omega⟩
  rw [split]
  exact (List.suffix_cons _ _).trans (List.suffix_append _ _)

/-- What follows a rule is a shorter part of the text. -/
theorem suffix_of_rule {inMedia : Bool} {found : List Rule × List Char} (read : SheetText.rule inMedia cs = .ok found) :
    found.2 <:+ cs ∧ found.2.length < cs.length := by
  rw [SheetText.rule] at read
  rcases bind_eq_ok.mp read with ⟨start, startRead, read⟩
  rcases unless_refused_eq_ok.mp read with ⟨-, read⟩
  rcases bind_eq_ok.mp read with ⟨block, blockRead, read⟩
  rcases unless_refused_eq_ok.mp read with ⟨-, read⟩
  rcases bind_eq_ok.mp read with ⟨selectors, -, read⟩
  rw [← pure_eq_ok.mp read]
  have opened := SelectorText.suffix_of_spanBefore? (orEnd_eq_ok.mp startRead)
  have closed := suffix_of_spanBlock? (orEnd_eq_ok.mp blockRead)
  exact ⟨closed.1.trans opened, Nat.lt_of_lt_of_le closed.2 opened.length_le⟩

theorem rule_before (suffix : cs <:+ text) (inMedia : Bool) :
    (before text cs).rule inMedia = answer ((SheetText.rule inMedia cs).map (stand text)) := by
  rw [rule, balanced_before (by decide) suffix, SheetText.rule, spanBefore?]
  cases cut : spanBalanced? '\x7b' 0 none cs with
  | none => rfl
  | some parts =>
      rcases run?_of_spanBalanced? cs cut with ⟨split, ⟨after, behind⟩, -⟩
      have brace : '\x7b' :: after <:+ text := by
        rw [split, behind] at suffix
        exact (List.suffix_append _ _).trans suffix
      have inside : after <:+ text := (List.suffix_cons _ _).trans brace
      rcases parts with ⟨prelude, left⟩
      rw [show left = '\x7b' :: after from behind]
      change (if _ then _ else (before text ('\x7b' :: after)).advance 1 >>= _) = answer (Except.map _ (if _ then _ else _))
      split
      · rfl
      · rw [advance_before_of_narrow brace (by decide), pure_bind]
        dsimp only
        rw [block_before inside]
        change _ = answer (Except.map _ (orEnd (spanBlock? 0 none after) >>= _))
        cases spanBlock? 0 none after with
        | none => rfl
        | some block =>
            rcases block with ⟨content, later⟩
            by_cases nested : content.contains '\x7b' = true
            · change (if content.contains '\x7b' = true then _ else _) =
                answer (Except.map _ (if content.contains '\x7b' = true then _ else _))
              rw [if_pos nested, if_pos nested]
              rfl
            · change (if content.contains '\x7b' = true then _ else selectors false [] (start prelude) >>= _) =
                answer (Except.map _ (if content.contains '\x7b' = true then _ else Selector.readList prelude >>= _))
              rw [if_neg nested, if_neg nested, selectors_eq_readList]
              cases Selector.readList prelude <;> rfl

/-- Items that are read behind some others stand behind them. -/
theorem map_append_append {α : Type} (done here : List α) (found : Except CssError (List α)) :
    found.map (done ++ here ++ ·) = (found.map (here ++ ·)).map (done ++ ·) := by
  cases found with
  | error e => rfl
  | ok others => exact congrArg Except.ok (List.append_assoc done here others)

theorem rules_before (suffix : cs <:+ text) (inMedia : Bool) {bound : Nat} (bounded : cs.length < bound)
    (done : List Rule) :
    (before text cs).rules inMedia done = answer ((SheetText.rules inMedia bound cs).map (done ++ ·)) := by
  induction bound generalizing cs done with
  | zero => exact absurd bounded (Nat.not_lt_zero _)
  | succ bound inductionHypothesis =>
      have spaced : Css.skipSpaces cs <:+ text := (suffix_of_skipSpaces cs).trans suffix
      have fewer := (suffix_of_skipSpaces cs).length_le
      rw [rules, skipSpaces_before suffix, pure_bind, atEnd_before spaced, SheetText.rules]
      cases skipped : Css.skipSpaces cs with
      | nil => exact congrArg pure (List.append_nil done).symm
      | cons c rest =>
          rw [skipped] at spaced fewer
          rcases byte_before spaced with ⟨b, found, like⟩
          rw [List.isEmpty_cons, if_neg Bool.false_ne_true, found, pure_bind, like.beq_eq (by decide),
            like.beq_eq (by decide)]
          by_cases atRule : c = '@'
          · rw [atRule]
            rfl
          by_cases closes : c = '\x7d'
          · rw [closes]
            rfl
          rw [beq_false_of_ne atRule, if_neg Bool.false_ne_true, beq_false_of_ne closes, if_neg Bool.false_ne_true,
            rule_before spaced]
          split
          · next impossible => cases impossible
          · next same => exact absurd (List.cons.inj same).1 atRule
          · next same => exact absurd (List.cons.inj same).1 closes
          · cases read : SheetText.rule inMedia (c :: rest) with
            | error e => rfl
            | ok found =>
                have shorter := suffix_of_rule read
                change (before text found.2).rules inMedia (done ++ found.1) = _
                rw [inductionHypothesis (shorter.1.trans spaced) (by omega), map_append_append]
                change _ = answer (Except.map _ (SheetText.rules inMedia bound found.2 >>= _))
                cases SheetText.rules inMedia bound found.2 <;> rfl

theorem rules_start (inMedia : Bool) (cs : List Char) :
    rules inMedia [] (start cs) = answer (SheetText.rules inMedia cs.length.succ cs) := by
  rw [start_eq, rules_before (List.suffix_refl cs) inMedia (Nat.lt_succ_self _)]
  cases SheetText.rules inMedia cs.length.succ cs <;> rfl

/-! ### Sheets -/

/-- Going on behind a block with a text before it. -/
theorem braced_bind {α β : Type} {loop : List Char × ByteStream → List Char × ByteStream → ByteRun β}
    {next : List Char × List Char → List Char × List Char → Except CssError α} {f : α → β} (suffix : cs <:+ text)
    (later : ∀ query block : List Char × List Char, block.2 <:+ text → block.2.length < cs.length →
      loop (stand text query) (stand text block) = answer ((next query block).map f)) :
    ((before text cs).beforeSign '\x7b' >>= fun query => query.2.block >>= fun block => loop query block) =
      answer ((orEnd (spanBefore? '\x7b' cs) >>= fun query =>
        orEnd (spanBlock? 0 none query.2) >>= fun block => next query block).map f) := by
  rw [beforeSign_before (by decide) suffix]
  cases opened : spanBefore? '\x7b' cs with
  | none => rfl
  | some query =>
      have opens := SelectorText.suffix_of_spanBefore? opened
      change (before text query.2).block >>= _ = answer (Except.map f (orEnd (spanBlock? 0 none query.2) >>= _))
      rw [block_before (opens.trans suffix)]
      cases closed : spanBlock? 0 none query.2 with
      | none => rfl
      | some block =>
          have closes := suffix_of_spanBlock? closed
          exact later query block (closes.1.trans (opens.trans suffix)) (Nat.lt_of_lt_of_le closes.2 opens.length_le)

theorem sets_before (suffix : cs <:+ text) (media : Option String) {bound : Nat} (bounded : cs.length < bound)
    (done : List RuleSet) (current : RuleSet) :
    (before text cs).sets media done current = answer ((SheetText.sets media bound current cs).map (done ++ ·)) := by
  induction bound generalizing cs done current with
  | zero => exact absurd bounded (Nat.not_lt_zero _)
  | succ bound inductionHypothesis =>
      have spaced : Css.skipSpaces cs <:+ text := (suffix_of_skipSpaces cs).trans suffix
      have fewer := (suffix_of_skipSpaces cs).length_le
      generalize read : SheetText.sets media (bound + 1) current cs = answered
      rw [SheetText.sets] at read
      rw [sets, skipSpaces_before suffix, pure_bind, atEnd_before spaced]
      split at read
      · next skipped =>
        rw [skipped, ← read]
        rfl
      · next rest skipped =>
        rw [skipped] at spaced fewer ⊢
        have behind : rest <:+ text := (List.suffix_cons _ _).trans spaced
        have named := (SelectorText.suffix_of_spanName rest).trans behind
        have shorter := (SelectorText.suffix_of_spanName rest).length_le
        rw [List.length_cons] at fewer
        rw [List.isEmpty_cons, if_neg Bool.false_ne_true, byte_before_of_narrow spaced (by decide), pure_bind,
          beq_self_eq_true, if_pos rfl, advance_before_of_narrow spaced (by decide), pure_bind, name_before behind,
          pure_bind]
        dsimp only [stand]
        dsimp only at read
        generalize (spanName rest).2 = afterName at named shorter read ⊢
        split at read
        · next same =>
          rw [same, beq_self_eq_true, if_pos rfl, ← read]
          by_cases inside : media.isSome = true
          · rw [if_pos inside, if_pos inside]
            rfl
          · rw [if_neg inside, if_neg inside]
            refine braced_bind named fun query block part less => ?_
            dsimp only [stand]
            rw [rules_start]
            cases SheetText.rules (mediaQuery? (String.ofList query.1)).isSome block.1.length.succ block.1 with
            | error e => rfl
            | ok inner =>
                change (before text block.2).sets media _ _ =
                  answer (Except.map _ (SheetText.sets media bound _ block.2 >>= _))
                rw [inductionHypothesis part (by omega), List.append_assoc, map_append_append]
                cases SheetText.sets media bound _ block.2 with
                | error e => rfl
                | ok others => exact congrArg (pure <| done ++ ·) (List.append_cons _ _ others).symm
        · next same =>
          rw [same, if_neg (by decide), beq_self_eq_true, if_pos rfl, ← read]
          exact braced_bind named fun query block part less => inductionHypothesis part (by omega) done _
        · next same =>
          rw [same, if_neg (by decide), if_neg (by decide), beq_self_eq_true, if_pos rfl, ← read,
            beforeSign_before (by decide) named]
          cases opened : spanBefore? ';' afterName with
          | none => rfl
          | some query =>
              have opens := SelectorText.suffix_of_spanBefore? opened
              have left := opens.length_le
              exact inductionHypothesis (opens.trans named) (by omega) done current
        · next noMedia noFace noCharset =>
          rw [beq_false_of_ne noMedia, beq_false_of_ne noFace, beq_false_of_ne noCharset, ← read]
          rfl
      · next rest skipped =>
        rw [skipped] at spaced ⊢
        rw [List.isEmpty_cons, if_neg Bool.false_ne_true, byte_before_of_narrow spaced (by decide), pure_bind, ← read]
        rfl
      · next ended unruled unclosed =>
        cases skipped : Css.skipSpaces cs with
        | nil => exact (ended skipped).elim
        | cons c rest =>
            rw [skipped] at spaced fewer read
            rw [← read]
            have plain : c ≠ '@' := fun same => unruled rest (by rw [skipped, same])
            have unfinished : c ≠ '\x7d' := fun same => unclosed rest (by rw [skipped, same])
            rcases byte_before spaced with ⟨b, found, like⟩
            rw [List.isEmpty_cons, if_neg Bool.false_ne_true, found, pure_bind, like.beq_eq (by decide),
              like.beq_eq (by decide), beq_false_of_ne plain, if_neg Bool.false_ne_true, beq_false_of_ne unfinished,
              if_neg Bool.false_ne_true, rule_before spaced]
            cases ruleRead : SheetText.rule media.isSome (c :: rest) with
            | error e => rfl
            | ok found =>
                have shorter := suffix_of_rule ruleRead
                exact inductionHypothesis (shorter.1.trans spaced) (by omega) done _

end Found

end ByteStream

/-- The text without comments, byte by byte. -/
def stripBytes (text : String) : ByteRun String :=
  String.ofList <$> (ByteStream.start text.toList).strip none []

/-- Read a style sheet byte by byte. -/
def readSheetBytes (text : String) (media : Option String) : ByteRun (List RuleSet) := do
  let bare ← stripBytes text
  let media := media.bind mediaQuery?
  (ByteStream.start bare.toList).sets media [] (.ofMedia media)

section Whole

open ByteStream ByteRun

theorem stripBytes_eq (text : String) : stripBytes text = pure (String.ofList (stripComments none text.toList)) := by
  rw [stripBytes, start_eq, strip_before (List.suffix_refl _)]
  rfl

theorem readSheetBytes_eq (text : String) (media : Option String) :
    readSheetBytes text media = answer (readSheet text media) := by
  rw [readSheetBytes, stripBytes_eq, pure_bind, String.toList_ofList, start_eq,
    sets_before (List.suffix_refl _) _ (Nat.lt_succ_self _), readSheet]
  cases SheetText.sets (media.bind mediaQuery?) _ _ _ <;> rfl

/-- Both passes end, whatever the text is, and the only way to end without a result is a
refusal: nothing is looked at and no step is made beyond the end, and no character is cut
apart. -/
theorem readSheetBytes_ends_without_fault (text : String) (media : Option String) :
    (stripBytes text).run = some (.ok (String.ofList (stripComments none text.toList))) ∧
      (readSheetBytes text media).run = some ((readSheet text media).mapError .refusal) := by
  refine ⟨congrArg ExceptT.run (stripBytes_eq text), ?_⟩
  rw [readSheetBytes_eq]
  cases readSheet text media <;> rfl

end Whole

end Css
end SlimSvg
