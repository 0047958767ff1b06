import SlimSvg.Proofs.Css.ByteStream

namespace SlimSvg
namespace Css

/-!
# Scanners of bytes

The scanners go past wide characters byte by byte, and behind a backslash in a quoted
text they may stand inside of one.  All bytes of such a character are treated alike, so
they come out at its end, and what they cut off begins and ends between characters.
-/

namespace ByteStream

open ByteRun

/-! ## The scanners -/

/-- Go on as long as there are blanks. -/
def skipSpaces (s : ByteStream) : ByteRun ByteStream := do
  if s.atEnd then return s
  if Text.isCssSpace (← s.byte) then (← s.advance 1) |>.skipSpaces else return s
partial_fixpoint

/-- Whether there is a byte behind the one at the place. -/
def hasNext (s : ByteStream) : Bool :=
  s.place + 1 < width s.text

/-- Go to the end of a name.  Behind a backslash a whole character is skipped. -/
def nameEnd (s : ByteStream) : ByteRun ByteStream := do
  if s.atEnd then return s
  let c ← s.byte
  if c == '\\' && s.hasNext then
    let s ← s.advance 1
    let rest ← s.toEnd
    (← s.advance (rest.head?.elim 1 Char.utf8Size)) |>.nameEnd
  else if isNameChar c then (← s.advance 1) |>.nameEnd
  else return s
partial_fixpoint

/-- A name as it is written, and what follows it. -/
def name (s : ByteStream) : ByteRun (List Char × ByteStream) := do
  let behind ← s.nameEnd
  return (← s.upTo behind, behind)

/-- Go on by one byte, unless the text ends. -/
def step (s : ByteStream) : ByteRun ByteStream :=
  if s.atEnd then pure s else s.advance 1

/-- Go to a quotation mark.  Behind a backslash one byte is skipped. -/
def quoteEnd (quote : Char) (s : ByteStream) : ByteRun ByteStream := do
  if s.atEnd then throw (.refusal .endOfSheet)
  let c ← s.byte
  if c == '\\' then (← (← s.advance 1).step) |>.quoteEnd quote
  else if c == quote then return s
  else (← s.step) |>.quoteEnd quote
partial_fixpoint

/-- The text between quotation marks, and what follows the second one. -/
def quoted (s : ByteStream) : ByteRun (List Char × ByteStream) := do
  let quote ← s.byteOrEnd
  let inside ← s.advance 1
  let close ← inside.quoteEnd quote
  let content ← inside.upTo close
  return (content, ← close.advance 1)

/-- Go to a byte outside of brackets and quotation marks. -/
def balancedEnd (stop : Char) (depth : Nat) (s : ByteStream) : ByteRun ByteStream := do
  if s.atEnd then throw (.refusal .endOfSheet)
  let c ← s.byte
  if isQuote c then (← s.quoted).2 |>.balancedEnd stop depth
  else if c == '(' || c == '[' then (← s.advance 1) |>.balancedEnd stop (depth + 1)
  else if (c == ')' || c == ']') && 0 < depth then (← s.advance 1) |>.balancedEnd stop (depth - 1)
  else if c == stop && depth == 0 then return s
  else (← s.advance 1) |>.balancedEnd stop depth
partial_fixpoint

/-- The text before a byte outside of brackets and quotation marks, and the text from it on. -/
def balanced (stop : Char) (s : ByteStream) : ByteRun (List Char × ByteStream) := do
  let behind ← s.balancedEnd stop 0
  return (← s.upTo behind, behind)

/-- The text before a byte outside of brackets and quotation marks, and the text behind it. -/
def beforeSign (stop : Char) (s : ByteStream) : ByteRun (List Char × ByteStream) := do
  let (inner, s) ← s.balanced stop
  return (inner, ← s.advance 1)

/-- Go to the brace that closes a block. -/
def blockEnd (depth : Nat) (s : ByteStream) : ByteRun ByteStream := do
  if s.atEnd then throw (.refusal .endOfSheet)
  let c ← s.byte
  if isQuote c then (← s.quoted).2 |>.blockEnd depth
  else if c == '\x7b' then (← s.advance 1) |>.blockEnd (depth + 1)
  else if c == '\x7d' then
    if depth == 0 then return s else (← s.advance 1) |>.blockEnd (depth - 1)
  else (← s.advance 1) |>.blockEnd depth
partial_fixpoint

/-- What stands before the brace that closes a block, and what follows it. -/
def block (s : ByteStream) : ByteRun (List Char × ByteStream) := do
  let close ← s.blockEnd 0
  let content ← s.upTo close
  return (content, ← close.advance 1)

/-! ## What they find -/

section Found

variable {text cs rest : List Char}

/-- A result with the stream before what is left. -/
def stand {α : Type} (text : List Char) (found : α × List Char) : α × ByteStream :=
  (found.1, before text found.2)

theorem suffix_of_skipSpaces (cs : List Char) : Css.skipSpaces cs <:+ cs :=
  List.dropWhile_suffix _

theorem skipSpaces_before (suffix : cs <:+ text) :
    (before text cs).skipSpaces = pure (before text (Css.skipSpaces cs)) := by
  induction cs with
  | nil =>
      rw [skipSpaces, atEnd_before suffix]
      rfl
  | cons c rest inductionHypothesis =>
      rcases byte_before suffix with ⟨b, found, like⟩
      rw [skipSpaces, atEnd_before_cons suffix, if_neg Bool.false_ne_true, found, pure_bind, like.isCssSpace_eq,
        Css.skipSpaces, List.dropWhile_cons]
      by_cases blank : Text.isCssSpace c = true
      · have narrow : ¬ IsWide c := fun wide => absurd blank (by rw [isCssSpace_of_wide wide]; decide)
        rw [if_pos blank, if_pos blank, advance_before_of_narrow suffix narrow, pure_bind]
        exact inductionHypothesis ((List.suffix_cons c rest).trans suffix)
      · rw [if_neg blank, if_neg blank]

/-! ### Names -/

theorem nameEnd_step (s : ByteStream) (b : Char) (unfinished : s.atEnd = false) (found : s.byte = pure b)
    (wide : IsWide b) : s.nameEnd = s.advance 1 >>= nameEnd := by
  have plain : (b == '\\') = false := beq_false_of_ne (ne_of_wide wide (by decide))
  rw [nameEnd, unfinished, if_neg Bool.false_ne_true, found, pure_bind, plain, Bool.false_and,
    if_neg Bool.false_ne_true, isNameChar_of_wide wide, if_pos rfl]

/-- Whether there is a byte behind the first byte of a character. -/
theorem hasNext_before {c : Char} (suffix : c :: rest <:+ text) (narrow : ¬ IsWide c) :
    (before text (c :: rest)).hasNext = !rest.isEmpty := by
  have fits := width_le_of_suffix suffix
  have whole := width_cons c rest
  have empty := @width_eq_zero rest
  rw [utf8Size_of_narrow narrow] at whole
  rw [hasNext, Bool.eq_iff_iff, decide_eq_true_iff, Bool.not_eq_true', List.isEmpty_eq_false_iff, ne_eq, ← empty,
    before]
  dsimp only
  omega

theorem nameEnd_before (suffix : cs <:+ text) : (before text cs).nameEnd = pure (before text (spanName cs).2) := by
  fun_induction spanName cs with
  | case1 c rest name after cut inductionHypothesis =>
      have behind : c :: rest <:+ text := (List.suffix_cons _ _).trans suffix
      rw [nameEnd, atEnd_before_cons suffix, if_neg Bool.false_ne_true, byte_before_of_narrow suffix (by decide),
        pure_bind, hasNext_before suffix (by decide), beq_self_eq_true, List.isEmpty_cons, Bool.not_false,
        Bool.and_self, if_pos rfl, advance_before_of_narrow suffix (by decide), pure_bind, toEnd_before behind,
        pure_bind, List.head?_cons, Option.elim_some, advance_before behind, pure_bind,
        inductionHypothesis ((List.suffix_cons _ _).trans behind), cut]
  | case2 c rest unescaped named name after cut inductionHypothesis =>
      have plain : (c == '\\') = false := by
        rw [beq_eq_false_iff_ne]
        rintro rfl
        exact absurd named (by decide)
      rcases byte_before suffix with ⟨b, found, like⟩
      rw [nameEnd, atEnd_before_cons suffix, if_neg Bool.false_ne_true, found, pure_bind, like.beq_eq (by decide),
        plain, Bool.false_and, if_neg Bool.false_ne_true, like.isNameChar_eq, if_pos named,
        passes_rest nameEnd_step suffix, inductionHypothesis ((List.suffix_cons _ _).trans suffix), cut]
  | case3 c rest unescaped unnamed =>
      have narrow : ¬ IsWide c := fun wide => unnamed (isNameChar_of_wide wide)
      have alone : (c == '\\' && !rest.isEmpty) = false := by
        rw [Bool.eq_false_iff, ne_eq, Bool.and_eq_true, beq_iff_eq, Bool.not_eq_true', List.isEmpty_eq_false_iff,
          not_and_not_right]
        intro backslash
        cases rest with
        | nil => rfl
        | cons d later => exact (unescaped d later backslash rfl).elim
      rw [nameEnd, atEnd_before_cons suffix, if_neg Bool.false_ne_true, byte_before_of_narrow suffix narrow,
        pure_bind, hasNext_before suffix narrow, alone, if_neg Bool.false_ne_true, if_neg unnamed]
  | case4 =>
      rw [nameEnd, atEnd_before suffix]
      rfl

theorem name_before (suffix : cs <:+ text) : (before text cs).name = pure (stand text (spanName cs)) := by
  have cut := append_of_spanName cs
  have whole : (spanName cs).1 ++ (spanName cs).2 <:+ text := cut.symm ▸ suffix
  have found := upTo_before whole
  rw [cut] at found
  rw [name, nameEnd_before suffix, pure_bind, found, pure_bind]
  rfl

/-! ### Quoted texts -/

variable {q : Char}

theorem step_of_unfinished {s : ByteStream} (unfinished : s.atEnd = false) : s.step = s.advance 1 := by
  rw [step, unfinished, if_neg Bool.false_ne_true]

theorem narrow_of_isQuote (mark : isQuote q = true) : ¬ IsWide q :=
  fun wide => absurd mark (by rw [isQuote_of_wide wide]; decide)

theorem quoteEnd_step (mark : isQuote q = true) (s : ByteStream) (b : Char) (unfinished : s.atEnd = false)
    (found : s.byte = pure b) (wide : IsWide b) : s.quoteEnd q = s.advance 1 >>= quoteEnd q := by
  have plain : (b == '\\') = false := beq_false_of_ne (ne_of_wide wide (by decide))
  have other : (b == q) = false := beq_false_of_ne (ne_of_wide wide (narrow_of_isQuote mark))
  rw [quoteEnd, unfinished, if_neg Bool.false_ne_true, found, pure_bind, plain, if_neg Bool.false_ne_true, other,
    if_neg Bool.false_ne_true, step_of_unfinished unfinished]

theorem quoteEnd_before (mark : isQuote q = true) (suffix : cs <:+ text) :
    (before text cs).quoteEnd q = answer ((orEnd (spanQuoted? q cs)).map fun cut => before text (q :: cut.2)) := by
  fun_induction spanQuoted? q cs with
  | case1 =>
      rw [quoteEnd, atEnd_before suffix]
      rfl
  | case2 c rest inductionHypothesis =>
      have behind : c :: rest <:+ text := (List.suffix_cons _ _).trans suffix
      rw [quoteEnd, atEnd_before_cons suffix, if_neg Bool.false_ne_true, byte_before_of_narrow suffix (by decide),
        pure_bind, beq_self_eq_true, if_pos rfl, advance_before_of_narrow suffix (by decide), pure_bind,
        step_of_unfinished (atEnd_before_cons behind), passes_rest (quoteEnd_step mark) behind,
        inductionHypothesis ((List.suffix_cons _ _).trans behind)]
      cases spanQuoted? q rest <;> rfl
  | case3 c rest unescaped closes =>
      have same : c = q := eq_of_beq closes
      have plain : (q == '\\') = false := by
        rw [beq_eq_false_iff_ne]
        rintro rfl
        exact absurd mark (by decide)
      rw [same] at suffix ⊢
      rw [quoteEnd, atEnd_before_cons suffix, if_neg Bool.false_ne_true,
        byte_before_of_narrow suffix (narrow_of_isQuote mark), pure_bind, plain, if_neg Bool.false_ne_true,
        beq_self_eq_true, if_pos rfl]
      rfl
  | case4 c rest unescaped unclosed inductionHypothesis =>
      have after : rest <:+ text := (List.suffix_cons _ _).trans suffix
      have goesOn : (before text (c :: rest)).quoteEnd q = (before text rest).quoteEnd q := by
        rcases byte_before suffix with ⟨b, found, like⟩
        rw [quoteEnd, atEnd_before_cons suffix, if_neg Bool.false_ne_true, found, pure_bind,
          like.beq_eq (by decide), like.beq_eq (narrow_of_isQuote mark)]
        by_cases backslash : c = '\\'
        · -- A backslash at the end of the text has nothing to escape.
          cases rest with
          | cons d later => exact (unescaped d later backslash rfl).elim
          | nil =>
              rw [backslash] at suffix ⊢
              rw [beq_self_eq_true, if_pos rfl, advance_before_of_narrow suffix (by decide), pure_bind, step,
                atEnd_before after]
              rfl
        · rw [beq_false_of_ne backslash, if_neg Bool.false_ne_true, if_neg unclosed,
            step_of_unfinished (atEnd_before_cons suffix), passes_rest (quoteEnd_step mark) suffix]
      rw [goesOn, inductionHypothesis after]
      cases spanQuoted? q rest <;> rfl

theorem quoted_before (mark : isQuote q = true) (suffix : q :: cs <:+ text) :
    (before text (q :: cs)).quoted = answer ((orEnd (spanQuoted? q cs)).map (stand text)) := by
  have narrow := narrow_of_isQuote mark
  have inside : cs <:+ text := (List.suffix_cons _ _).trans suffix
  rw [quoted, byteOrEnd, atEnd_before_cons suffix, if_neg Bool.false_ne_true, byte_before_of_narrow suffix narrow,
    pure_bind, advance_before_of_narrow suffix narrow, pure_bind, quoteEnd_before mark inside]
  cases cut : spanQuoted? q cs with
  | none => rfl
  | some parts =>
      have split := append_of_spanQuoted? cut
      rw [split] at inside ⊢
      change (before text (parts.1 ++ q :: parts.2)).upTo (before text (q :: parts.2)) >>= _ = _
      rw [upTo_before inside, pure_bind,
        advance_before_of_narrow ((List.suffix_append _ _).trans inside) narrow, pure_bind]
      rfl

/-- What follows a quoted text is a shorter part of the text. -/
theorem suffix_of_spanQuoted? {parts : List Char × List Char} (cut : spanQuoted? q cs = some parts) :
    parts.2 <:+ cs ∧ parts.2.length < cs.length := by
  have split := append_of_spanQuoted? cut
  have size := congrArg List.length split
  rw [List.length_append, List.length_cons] at size
  refine ⟨?_, by omega⟩
  rw [split]
  exact (List.suffix_cons _ _).trans (List.suffix_append _ _)

/-- Going on behind a quoted text. -/
theorem quoted_bind {α : Type} {loop : ByteStream → ByteRun α} {next : List Char → Except CssError α}
    (mark : isQuote q = true) (suffix : q :: cs <:+ text)
    (later : ∀ after, after <:+ cs → after.length < cs.length → loop (before text after) = answer (next after)) :
    ((before text (q :: cs)).quoted >>= fun found => loop found.2) =
      answer (orEnd (spanQuoted? q cs) >>= fun cut => next cut.2) := by
  rw [quoted_before mark suffix]
  cases cut : spanQuoted? q cs with
  | none => rfl
  | some parts =>
      have shorter := suffix_of_spanQuoted? cut
      exact later parts.2 shorter.1 shorter.2

/-! ### Balanced texts -/

variable {stop : Char} {depth : Nat}

/-- A quotation mark takes the scan behind the quoted text. -/
theorem spanBalanced?_quote (stop : Char) (depth : Nat) (q : Char) (cs : List Char) :
    spanBalanced? stop depth (some q) cs = (spanQuoted? q cs).bind fun cut =>
      (spanBalanced? stop depth none cut.2).map (putBefore (cut.1 ++ [q])) := by
  fun_induction spanQuoted? q cs with
  | case1 => rw [spanBalanced?]; rfl
  | case2 c rest inductionHypothesis =>
      rw [spanBalanced?_escaped, inductionHypothesis]
      cases spanQuoted? q rest with
      | none => rfl
      | some cut => exact (map_putBefore_append _ _ _).symm
  | case3 c rest unescaped closes =>
      rw [spanBalanced?, if_pos closes, eq_of_beq closes]
      · rfl
      · exact unescaped
  | case4 c rest unescaped unclosed inductionHypothesis =>
      rw [spanBalanced?, if_neg unclosed, inductionHypothesis]
      · cases spanQuoted? q rest with
        | none => rfl
        | some cut => exact (map_putBefore_append [c] _ _).symm
      · exact unescaped

theorem balancedEnd_step (narrow : ¬ IsWide stop) (s : ByteStream) (b : Char) (unfinished : s.atEnd = false)
    (found : s.byte = pure b) (wide : IsWide b) : s.balancedEnd stop depth = s.advance 1 >>= balancedEnd stop depth := by
  have other {d : Char} (narrow : ¬ IsWide d) : (b == d) = false := beq_false_of_ne (ne_of_wide wide narrow)
  rw [balancedEnd, unfinished, if_neg Bool.false_ne_true, found, pure_bind, isQuote_of_wide wide,
    if_neg Bool.false_ne_true, other (by decide), other (by decide), other (by decide), other (by decide),
    other narrow, Bool.or_self, Bool.false_and, Bool.false_and]
  rfl

/-- Going on behind a part of the text. -/
theorem answer_putBefore (front : List Char) (found : Option (List Char × List Char)) (next : List Char → ByteStream) :
    answer ((orEnd (found.map (putBefore front))).map fun cut => next cut.2) =
      answer ((orEnd found).map fun cut => next cut.2) := by
  cases found <;> rfl

theorem balancedEnd_before (narrow : ¬ IsWide stop) (suffix : cs <:+ text) :
    (before text cs).balancedEnd stop depth =
      answer ((orEnd (spanBalanced? stop depth none cs)).map fun cut => before text cut.2) := by
  -- A quoted text is skipped at once, so the induction is on the length.
  induction size : cs.length using Nat.strong_induction_on generalizing cs depth with
  | h size inductionHypothesis =>
    cases cs with
    | nil =>
        rw [balancedEnd, atEnd_before suffix]
        rfl
    | cons c rest =>
        have behind : rest <:+ text := (List.suffix_cons _ _).trans suffix
        have goesOn (level : Nat) : (before text rest).balancedEnd stop level =
            answer ((orEnd ((spanBalanced? stop level none rest).map (putBefore [c]))).map
              fun cut => before text cut.2) := by
          rw [answer_putBefore]
          exact inductionHypothesis rest.length (by rw [← size]; exact Nat.lt_succ_self _) behind rfl
        rcases byte_before suffix with ⟨b, found, like⟩
        rw [balancedEnd, atEnd_before_cons suffix, if_neg Bool.false_ne_true, found, pure_bind, like.isQuote_eq,
          like.beq_eq (by decide), like.beq_eq (by decide), like.beq_eq (by decide), like.beq_eq (by decide),
          like.beq_eq narrow, passes_rest (balancedEnd_step narrow) suffix, passes_rest (balancedEnd_step narrow) suffix,
          passes_rest (balancedEnd_step narrow) suffix, spanBalanced?]
        dsimp only
        split
        · next mark =>
          have later : ∀ after, after <:+ rest → after.length < rest.length →
              (before text after).balancedEnd stop depth =
                answer ((orEnd (spanBalanced? stop depth none after)).map fun cut => before text cut.2) :=
            fun after part shorter => inductionHypothesis after.length (by rw [← size]; exact Nat.lt_succ_of_lt shorter)
              (part.trans behind) rfl
          rw [quoted_bind mark suffix later, spanBalanced?_quote]
          cases spanQuoted? c rest with
          | none => rfl
          | some parts =>
              change answer ((orEnd (spanBalanced? stop depth none parts.2)).map _) =
                answer ((orEnd (((spanBalanced? stop depth none parts.2).map _).map _)).map _)
              cases spanBalanced? stop depth none parts.2 <;> rfl
        · split
          · exact goesOn (depth + 1)
          · split
            · exact goesOn (depth - 1)
            · split
              · rfl
              · exact goesOn depth

theorem balanced_before (narrow : ¬ IsWide stop) (suffix : cs <:+ text) :
    (before text cs).balanced stop = answer ((orEnd (spanBalanced? stop 0 none cs)).map (stand text)) := by
  rw [balanced, balancedEnd_before narrow suffix]
  cases cut : spanBalanced? stop 0 none cs with
  | none => rfl
  | some parts =>
      have split := (run?_of_spanBalanced? cs cut).1
      rw [split] at suffix ⊢
      change (before text (parts.1 ++ parts.2)).upTo (before text parts.2) >>= _ = _
      rw [upTo_before suffix]
      rfl

theorem beforeSign_before (narrow : ¬ IsWide stop) (suffix : cs <:+ text) :
    (before text cs).beforeSign stop = answer ((orEnd (spanBefore? stop cs)).map (stand text)) := by
  rw [beforeSign, balanced_before narrow suffix, spanBefore?]
  cases cut : spanBalanced? stop 0 none cs with
  | none => rfl
  | some parts =>
      rcases run?_of_spanBalanced? cs cut with ⟨split, ⟨after, behind⟩, -⟩
      rw [split, behind] at suffix
      change (before text parts.2).advance 1 >>= _ = pure (parts.1, before text (parts.2.drop 1))
      rw [behind, advance_before_of_narrow ((List.suffix_append _ _).trans suffix) narrow, pure_bind]
      rfl

/-! ### Blocks -/

theorem spanBlock?_quote (depth : Nat) (q : Char) (cs : List Char) :
    spanBlock? depth (some q) cs = (spanQuoted? q cs).bind fun cut =>
      (spanBlock? depth none cut.2).map (putBefore (cut.1 ++ [q])) := by
  fun_induction spanQuoted? q cs with
  | case1 => rw [spanBlock?]; rfl
  | case2 c rest inductionHypothesis =>
      rw [spanBlock?_escaped, inductionHypothesis]
      cases spanQuoted? q rest with
      | none => rfl
      | some cut => exact (map_putBefore_append _ _ _).symm
  | case3 c rest unescaped closes =>
      rw [spanBlock?, if_pos closes, eq_of_beq closes]
      · rfl
      · exact unescaped
  | case4 c rest unescaped unclosed inductionHypothesis =>
      rw [spanBlock?, if_neg unclosed, inductionHypothesis]
      · cases spanQuoted? q rest with
        | none => rfl
        | some cut => exact (map_putBefore_append [c] _ _).symm
      · exact unescaped

theorem blockEnd_step (s : ByteStream) (b : Char) (unfinished : s.atEnd = false) (found : s.byte = pure b)
    (wide : IsWide b) : s.blockEnd depth = s.advance 1 >>= blockEnd depth := by
  have other {d : Char} (narrow : ¬ IsWide d) : (b == d) = false := beq_false_of_ne (ne_of_wide wide narrow)
  rw [blockEnd, unfinished, if_neg Bool.false_ne_true, found, pure_bind, isQuote_of_wide wide,
    if_neg Bool.false_ne_true, other (by decide), other (by decide)]
  rfl

/-- The brace that closes a block stands before what follows the block. -/
theorem blockEnd_before (suffix : cs <:+ text) :
    (before text cs).blockEnd depth =
      answer ((orEnd (spanBlock? depth none cs)).map fun cut => before text ('\x7d' :: cut.2)) := by
  induction size : cs.length using Nat.strong_induction_on generalizing cs depth with
  | h size inductionHypothesis =>
    cases cs with
    | nil =>
        rw [blockEnd, atEnd_before suffix]
        rfl
    | cons c rest =>
        have behind : rest <:+ text := (List.suffix_cons _ _).trans suffix
        have goesOn (level : Nat) : (before text rest).blockEnd level =
            answer ((orEnd ((spanBlock? level none rest).map (putBefore [c]))).map
              fun cut => before text ('\x7d' :: cut.2)) := by
          rw [answer_putBefore [c] _ fun after => before text ('\x7d' :: after)]
          exact inductionHypothesis rest.length (by rw [← size]; exact Nat.lt_succ_self _) behind rfl
        rcases byte_before suffix with ⟨b, found, like⟩
        rw [blockEnd, atEnd_before_cons suffix, if_neg Bool.false_ne_true, found, pure_bind, like.isQuote_eq,
          like.beq_eq (by decide), like.beq_eq (by decide), passes_rest blockEnd_step suffix,
          passes_rest blockEnd_step suffix, passes_rest blockEnd_step suffix, spanBlock?]
        dsimp only
        split
        · next mark =>
          have later : ∀ after, after <:+ rest → after.length < rest.length →
              (before text after).blockEnd depth =
                answer ((orEnd (spanBlock? depth none after)).map fun cut => before text ('\x7d' :: cut.2)) :=
            fun after part shorter => inductionHypothesis after.length (by rw [← size]; exact Nat.lt_succ_of_lt shorter)
              (part.trans behind) rfl
          rw [quoted_bind mark suffix later, spanBlock?_quote]
          cases spanQuoted? c rest with
          | none => rfl
          | some parts =>
              change answer ((orEnd (spanBlock? depth none parts.2)).map _) =
                answer ((orEnd (((spanBlock? depth none parts.2).map _).map _)).map _)
              cases spanBlock? depth none parts.2 <;> rfl
        · split
          · exact goesOn (depth + 1)
          · split
            · split
              · next closes _ =>
                rw [eq_of_beq closes]
                rfl
              · exact goesOn (depth - 1)
            · exact goesOn depth

theorem block_before (suffix : cs <:+ text) :
    (before text cs).block = answer ((orEnd (spanBlock? 0 none cs)).map (stand text)) := by
  rw [block, blockEnd_before suffix]
  cases cut : spanBlock? 0 none cs with
  | none => rfl
  | some parts =>
      have split := (passes_of_spanBlock? cs cut).1
      rw [split] at suffix ⊢
      change (before text (parts.1 ++ '\x7d' :: parts.2)).upTo (before text ('\x7d' :: parts.2)) >>= _ = _
      rw [upTo_before suffix, pure_bind,
        advance_before_of_narrow ((List.suffix_append _ _).trans suffix) (by decide)]
      rfl

end Found

end ByteStream
end Css
end SlimSvg
