import SlimSvg.Proofs.Css.Pieces

namespace SlimSvg
namespace Css

/-!
# Blocks and comments

A block ends at a brace outside of quotation marks, so a text is found again between
braces if its own braces and quotation marks are closed.  Comments are taken away before
anything else is read.  A piece without comments stays as it is in a longer text, as long
as no quotation mark is open at its end and the character behind it belongs to no comment.
-/

/-! ## Quotation marks -/

/-- The quotation mark that is open behind a text. -/
def openQuote : Option Char → List Char → Option Char
  | quote, [] => quote
  | some q, '\\' :: _ :: rest => openQuote (some q) rest
  | some q, c :: rest => openQuote (if c == q then none else some q) rest
  | none, c :: rest => openQuote (if isQuote c then some c else none) rest

theorem openQuote_quoted (q : Char) {c : Char} (plain : c ≠ '\\') (rest : List Char) :
    openQuote (some q) (c :: rest) = openQuote (if c == q then none else some q) rest := by
  rw [openQuote]
  exact fun d others same => absurd same plain

/-- A scan for the end of a balanced text leaves no quotation mark open. -/
theorem openQuote_of_spanBalanced? {stop : Char} :
    ∀ {depth : Nat} {quote : Option Char} (cs : List Char) {inner rest : List Char},
      spanBalanced? stop depth quote cs = some (inner, rest) → openQuote quote inner = none
  | depth, quote, [], inner, rest, cut => by
    rw [spanBalanced?] at cut
    cases cut
  | depth, none, c :: later, inner, rest, cut => by
    rcases spanBalanced?_outside stop depth c later with ⟨next, goes, -, split⟩ | ⟨-, -, -, split⟩
    · rw [split] at cut
      rcases exists_of_map_putBefore cut with ⟨innerLater, cutLater, innerEq⟩
      have quote_eq : next.quote = if isQuote c then some c else none := by
        rw [Balance.step?] at goes
        dsimp only at goes
        split at goes
        · next quoted =>
          rw [← Option.some.inj goes, if_pos quoted]
        · next unquoted =>
          rw [if_neg unquoted]
          split at goes
          · rw [← Option.some.inj goes]
          · split at goes
            · rw [← Option.some.inj goes]
            · split at goes
              · cases goes
              · rw [← Option.some.inj goes]
      rw [innerEq, List.singleton_append, openQuote, ← quote_eq]
      exact openQuote_of_spanBalanced? later cutLater
    · rw [split] at cut
      rw [← (Prod.mk.inj (Option.some.inj cut)).1]
      rfl
  | depth, some q, c :: later, inner, rest, cut => by
    by_cases backslash : c = '\\'
    · rw [backslash] at cut
      cases later with
      | nil =>
          rw [spanBalanced?, spanBalanced?] at cut
          · cases cut
          · intro d others _ impossible
            cases impossible
      | cons d later =>
          rw [spanBalanced?_escaped] at cut
          rcases exists_of_map_putBefore cut with ⟨innerLater, cutLater, innerEq⟩
          rw [innerEq, List.cons_append, List.singleton_append, openQuote]
          exact openQuote_of_spanBalanced? later cutLater
    · rw [spanBalanced?_quoted q backslash] at cut
      rcases exists_of_map_putBefore cut with ⟨innerLater, cutLater, innerEq⟩
      rw [innerEq, List.singleton_append, openQuote_quoted q backslash]
      exact openQuote_of_spanBalanced? later cutLater
termination_by _ _ cs => cs.length

theorem Balanced.openQuote_eq {stop : Char} {cs : List Char} (balanced : Balanced stop cs)
    (sign : Balance.step? stop .outside stop = none) : openQuote none cs = none := by
  have cut := spanBefore?_append balanced sign []
  rcases Option.map_eq_some_iff.mp cut with ⟨⟨inner, rest⟩, found, same⟩
  rw [← (Prod.mk.inj same).1]
  exact openQuote_of_spanBalanced? _ found

/-! ## Blocks -/

section Block

variable {depth : Nat}

/-- Outside of quotation marks a scan goes on or is at the end of its block. -/
theorem spanBlock?_outside (depth : Nat) (c : Char) :
    (∃ next, ∀ more rest, spanBlock? (depth + more) none (c :: rest) =
        (spanBlock? (next + more) (if isQuote c then some c else none) rest).map (putBefore [c])) ∨
      c = '\x7d' ∧ depth = 0 ∧ ∀ rest, spanBlock? 0 none (c :: rest) = some ([], rest) := by
  by_cases quoted : isQuote c = true
  · refine .inl ⟨depth, fun more rest => ?_⟩
    rw [spanBlock?]
    dsimp only
    rw [if_pos quoted, if_pos quoted]
    rfl
  · by_cases opens : c = '\x7b'
    · refine .inl ⟨depth + 1, fun more rest => ?_⟩
      rw [opens, Nat.add_right_comm]
      rfl
    · by_cases closes : c = '\x7d'
      · cases depth with
        | zero =>
            refine .inr ⟨closes, rfl, fun rest => ?_⟩
            rw [closes]
            rfl
        | succ depth =>
            refine .inl ⟨depth, fun more rest => ?_⟩
            rw [closes, Nat.add_right_comm]
            rfl
      · refine .inl ⟨depth, fun more rest => ?_⟩
        rw [spanBlock?]
        dsimp only
        rw [if_neg quoted, if_neg quoted, if_neg (by rw [beq_iff_eq]; exact opens),
          if_neg (by rw [beq_iff_eq]; exact closes)]
        rfl

theorem spanBlock?_escaped (depth : Nat) (q c : Char) (rest : List Char) :
    spanBlock? depth (some q) ('\\' :: c :: rest) = (spanBlock? depth (some q) rest).map (putBefore ['\\', c]) := by
  rw [spanBlock?]
  rfl

theorem spanBlock?_quoted (depth : Nat) (q : Char) {c : Char} (plain : c ≠ '\\') (rest : List Char) :
    spanBlock? depth (some q) (c :: rest) =
      (spanBlock? depth (if c == q then none else some q) rest).map (putBefore [c]) := by
  rw [spanBlock?]
  · rfl
  · exact fun d others same => absurd same plain

/-- What a scan has cut off it goes past in a deeper block as well, whatever stands behind. -/
theorem passes_of_spanBlock? :
    ∀ {depth : Nat} {quote : Option Char} (cs : List Char) {inner rest : List Char},
      spanBlock? depth quote cs = some (inner, rest) →
      cs = inner ++ '\x7d' :: rest ∧ openQuote quote inner = none ∧
        ∀ more tail, spanBlock? (depth + more) quote (inner ++ tail) =
          (spanBlock? more none tail).map (putBefore inner)
  | depth, quote, [], inner, rest, cut => by
    rw [spanBlock?] at cut
    cases cut
  | depth, none, c :: later, inner, rest, cut => by
    rcases spanBlock?_outside depth c with ⟨next, goes⟩ | ⟨closes, level, split⟩
    · have here := goes 0 later
      rw [Nat.add_zero, Nat.add_zero, cut] at here
      rcases exists_of_map_putBefore here.symm with ⟨innerLater, cutLater, innerEq⟩
      rcases passes_of_spanBlock? later cutLater with ⟨laterEq, unquoted, passes⟩
      rw [innerEq, laterEq]
      refine ⟨rfl, ?_, fun more tail => ?_⟩
      · rw [List.singleton_append, openQuote]
        exact unquoted
      · rw [List.append_assoc, List.singleton_append, goes, passes, ← map_putBefore_append]
    · rw [level, split] at cut
      rcases Prod.mk.inj (Option.some.inj cut) with ⟨innerEq, restEq⟩
      rw [← innerEq, ← restEq, closes, level]
      refine ⟨rfl, rfl, fun more tail => ?_⟩
      rw [Nat.zero_add, map_putBefore_nil, List.nil_append]
  | depth, some q, c :: later, inner, rest, cut => by
    by_cases backslash : c = '\\'
    · rw [backslash] at cut ⊢
      cases later with
      | nil =>
          rw [spanBlock?, spanBlock?] at cut
          · cases cut
          · intro d others _ impossible
            cases impossible
      | cons d later =>
          rw [spanBlock?_escaped] at cut
          rcases exists_of_map_putBefore cut with ⟨innerLater, cutLater, innerEq⟩
          rcases passes_of_spanBlock? later cutLater with ⟨laterEq, unquoted, passes⟩
          rw [innerEq, laterEq]
          refine ⟨rfl, unquoted, fun more tail => ?_⟩
          rw [List.append_assoc, List.cons_append, List.singleton_append, spanBlock?_escaped, passes,
            ← map_putBefore_append]
    · rw [spanBlock?_quoted depth q backslash] at cut
      rcases exists_of_map_putBefore cut with ⟨innerLater, cutLater, innerEq⟩
      rcases passes_of_spanBlock? later cutLater with ⟨laterEq, unquoted, passes⟩
      rw [innerEq, laterEq]
      refine ⟨rfl, ?_, fun more tail => ?_⟩
      · rw [List.singleton_append, openQuote_quoted q backslash]
        exact unquoted
      · rw [List.append_assoc, List.singleton_append, spanBlock?_quoted _ q backslash, passes,
          ← map_putBefore_append]
termination_by _ _ cs => cs.length

/-- Whether a text can stand between the braces of a block: the brace behind it is the one
that closes the block. -/
def IsBlock (cs : List Char) : Prop :=
  spanBlock? 0 none (cs ++ ['\x7d']) = some (cs, [])

instance (cs : List Char) : Decidable (IsBlock cs) :=
  inferInstanceAs (Decidable (_ = _))

theorem isBlock_of_spanBlock? {cs inner rest : List Char} (cut : spanBlock? 0 none cs = some (inner, rest)) :
    IsBlock inner := by
  have passes := (passes_of_spanBlock? cs cut).2.2 0 ['\x7d']
  rw [IsBlock, ← Nat.zero_add 0, passes]
  change some (inner ++ [], []) = _
  rw [List.append_nil]

namespace IsBlock

variable {cs : List Char}

/-- A scan goes past a block and is as deep behind it as before. -/
theorem passes (block : IsBlock cs) (depth : Nat) (tail : List Char) :
    spanBlock? depth none (cs ++ tail) = (spanBlock? depth none tail).map (putBefore cs) := by
  have goes := (passes_of_spanBlock? _ block).2.2 depth tail
  rwa [Nat.zero_add] at goes

theorem openQuote_eq (block : IsBlock cs) : openQuote none cs = none :=
  (passes_of_spanBlock? _ block).2.1

theorem nil : IsBlock [] :=
  rfl

theorem append {other : List Char} (block : IsBlock cs) (further : IsBlock other) : IsBlock (cs ++ other) := by
  rw [IsBlock, List.append_assoc, block.passes, further]
  rfl

/-- A block may stand inside of another one. -/
theorem braces (block : IsBlock cs) : IsBlock ('\x7b' :: (cs ++ ['\x7d'])) := by
  have inside : spanBlock? 1 none (cs ++ ['\x7d', '\x7d']) = some (cs ++ ['\x7d'], []) := block.passes 1 _
  rw [IsBlock, List.cons_append, List.append_assoc]
  change (spanBlock? 1 none (cs ++ ['\x7d', '\x7d'])).map (putBefore ['\x7b']) = _
  rw [inside]
  rfl

end IsBlock

/-! ### Blanks around a block -/

theorem spanBlock?_blank {c : Char} (blank : Text.isWhiteSpace c = true) (depth : Nat) (rest : List Char) :
    spanBlock? depth none (c :: rest) = (spanBlock? depth none rest).map (putBefore [c]) := by
  rw [spanBlock?]
  dsimp only
  rw [if_neg (by rw [not_isQuote_of_blank blank]; exact Bool.false_ne_true),
    if_neg (by rw [beq_iff_eq]; exact ne_of_blank blank rfl), if_neg (by rw [beq_iff_eq]; exact ne_of_blank blank rfl)]
  rfl

/-- Only blanks before the end of a block: the scan stood in that block before them. -/
theorem outside_of_blanks {blanks : List Char} (blank : ∀ c ∈ blanks, Text.isWhiteSpace c = true) {quote : Option Char}
    (quoted : ∀ q ∈ quote, isQuote q = true) {rest : List Char}
    (cut : spanBlock? depth quote (blanks ++ '\x7d' :: rest) = some (blanks, rest)) : depth = 0 ∧ quote = none := by
  induction blanks with
  | nil =>
      cases quote with
      | none =>
          cases depth with
          | zero => exact ⟨rfl, rfl⟩
          | succ depth =>
              rcases exists_of_map_putBefore (show (spanBlock? depth none rest).map (putBefore ['\x7d']) = some ([], rest) from cut) with
                ⟨later, -, impossible⟩
              cases impossible
      | some q =>
          rw [List.nil_append, spanBlock?_quoted depth q (by decide)] at cut
          rcases exists_of_map_putBefore cut with ⟨later, -, impossible⟩
          cases impossible
  | cons c others inductionHypothesis =>
      have here := blank c List.mem_cons_self
      have further := inductionHypothesis fun d listed => blank d (List.mem_cons_of_mem c listed)
      cases quote with
      | none =>
          rw [List.cons_append, spanBlock?_blank here] at cut
          rcases exists_of_map_putBefore cut with ⟨later, cutLater, same⟩
          rw [show later = others from (List.cons.inj same).2.symm] at cutLater
          exact further cutLater
      | some q =>
          have mark : ¬ (c == q) = true := by
            rw [beq_iff_eq]
            rintro rfl
            exact absurd (not_isQuote_of_blank here) (by rw [quoted c rfl]; decide)
          rw [List.cons_append, spanBlock?_quoted depth q (ne_of_blank here rfl), if_neg mark] at cut
          rcases exists_of_map_putBefore cut with ⟨later, cutLater, same⟩
          rw [show later = others from (List.cons.inj same).2.symm] at cutLater
          exact further cutLater

/-- A block ends where its last blanks begin just as well. -/
theorem spanBlock?_without_blanks :
    ∀ {depth : Nat} {quote : Option Char} (cs : List Char) {inner blanks rest : List Char},
      (∀ q ∈ quote, isQuote q = true) → (∀ c ∈ blanks, Text.isWhiteSpace c = true) →
      spanBlock? depth quote cs = some (inner ++ blanks, rest) →
      ∀ tail, spanBlock? depth quote (inner ++ '\x7d' :: tail) = some (inner, tail)
  | depth, quote, cs, [], blanks, rest, quoted, blank, cut, tail => by
    rw [List.nil_append] at cut
    rw [(passes_of_spanBlock? cs cut).1] at cut
    rcases outside_of_blanks blank quoted cut with ⟨level, unquoted⟩
    rw [level, unquoted]
    rfl
  | depth, quote, [], d :: inner, blanks, rest, quoted, blank, cut, tail => by
    rw [spanBlock?] at cut
    cases cut
  | depth, none, c :: later, d :: inner, blanks, rest, quoted, blank, cut, tail => by
    rcases spanBlock?_outside depth c with ⟨next, goes⟩ | ⟨-, level, split⟩
    · have here := goes 0 later
      rw [Nat.add_zero, Nat.add_zero, cut] at here
      rcases exists_of_map_putBefore here.symm with ⟨innerLater, cutLater, innerEq⟩
      rcases List.cons.inj innerEq with ⟨first, others⟩
      have quotedLater : ∀ q ∈ (if isQuote c then some c else none), isQuote q = true := by
        intro q among
        split at among
        · next isMark => exact Option.some.inj among ▸ isMark
        · cases among
      rw [show innerLater = inner ++ blanks from others.symm] at cutLater
      have again := goes 0 (inner ++ '\x7d' :: tail)
      rw [Nat.add_zero, Nat.add_zero, spanBlock?_without_blanks later quotedLater blank cutLater tail] at again
      rw [first]
      exact again
    · rw [level, split] at cut
      cases (Prod.mk.inj (Option.some.inj cut)).1
  | depth, some q, c :: later, d :: inner, blanks, rest, quoted, blank, cut, tail => by
    by_cases backslash : c = '\\'
    · rw [backslash] at cut
      cases later with
      | nil =>
          rw [spanBlock?, spanBlock?] at cut
          · cases cut
          · intro e others _ impossible
            cases impossible
      | cons e later =>
          rw [spanBlock?_escaped] at cut
          rcases exists_of_map_putBefore cut with ⟨innerLater, cutLater, innerEq⟩
          rcases List.cons.inj innerEq with ⟨first, others⟩
          cases inner with
          | nil =>
              -- A blank cannot be the character that is escaped, for the quotation mark stays open.
              have blankBehind : ∀ b ∈ innerLater, Text.isWhiteSpace b = true := fun b listed =>
                blank b (by rw [show blanks = e :: innerLater from others]; exact List.mem_cons_of_mem e listed)
              rw [(passes_of_spanBlock? later cutLater).1] at cutLater
              cases (outside_of_blanks blankBehind quoted cutLater).2
          | cons e' inner =>
              rcases List.cons.inj others with ⟨second, more⟩
              rw [show innerLater = inner ++ blanks from more.symm] at cutLater
              rw [first, second, List.cons_append, List.cons_append, spanBlock?_escaped,
                spanBlock?_without_blanks later quoted blank cutLater tail]
              rfl
    · rw [spanBlock?_quoted depth q backslash] at cut
      rcases exists_of_map_putBefore cut with ⟨innerLater, cutLater, innerEq⟩
      rcases List.cons.inj innerEq with ⟨first, others⟩
      have quotedLater : ∀ m ∈ (if c == q then none else some q), isQuote m = true := by
        intro m among
        split at among
        · cases among
        · exact quoted m among
      rw [show innerLater = inner ++ blanks from others.symm] at cutLater
      rw [first, List.cons_append, spanBlock?_quoted depth q backslash,
        spanBlock?_without_blanks later quotedLater blank cutLater tail]
      rfl
termination_by _ _ cs => cs.length

/-- A block stays one without the blanks around it. -/
theorem IsBlock.trimChars {cs : List Char} (block : IsBlock cs) : IsBlock (Text.trimChars cs) := by
  rcases Text.exists_append_trimChars cs with ⟨front, back, whole, frontBlank, backBlank, -⟩
  have passed : IsBlock front := by
    clear whole
    induction front with
    | nil => exact nil
    | cons c rest inductionHypothesis =>
        rw [IsBlock, List.cons_append, spanBlock?_blank (frontBlank c List.mem_cons_self),
          inductionHypothesis fun d listed => frontBlank d (List.mem_cons_of_mem c listed)]
        rfl
  have unquoted : ∀ q ∈ (none : Option Char), isQuote q = true := fun q impossible => nomatch impossible
  rw [IsBlock, whole] at block
  have cut := spanBlock?_without_blanks _ unquoted backBlank block []
  rw [List.append_assoc, passed.passes] at cut
  rcases exists_of_map_putBefore cut with ⟨inner, found, same⟩
  rw [← List.append_cancel_left same] at found
  exact found

end Block

/-! ## Comments -/

/-- Whether a comment or a mark that hides a sheet begins at the front of a text. -/
def BeginsMark (cs : List Char) : Prop :=
  ['/', '*'] <+: cs ∨ ['<', '!', '-', '-'] <+: cs ∨ ['-', '-', '>'] <+: cs

instance (cs : List Char) : Decidable (BeginsMark cs) :=
  inferInstanceAs (Decidable (_ ∨ _ ∨ _))

theorem stripComments_cons {c : Char} {rest : List Char} (bare : ¬ BeginsMark (c :: rest)) :
    stripComments none (c :: rest) = c :: stripComments (if isQuote c then some c else none) rest := by
  rw [stripComments]
  · rintro later rfl rfl
    exact bare (.inl ⟨later, rfl⟩)
  · rintro later rfl rfl
    exact bare (.inr (.inl ⟨later, rfl⟩))
  · rintro later rfl rfl
    exact bare (.inr (.inr ⟨later, rfl⟩))

theorem length_stripComments_le (quote : Option Char) (cs : List Char) :
    (stripComments quote cs).length ≤ cs.length := by
  fun_induction stripComments quote cs with
  | case1 => exact le_rfl
  | case2 q c rest inductionHypothesis => exact Nat.succ_le_succ (Nat.succ_le_succ inductionHypothesis)
  | case3 q c rest _ inductionHypothesis => exact Nat.succ_le_succ inductionHypothesis
  | case4 rest before after cut inductionHypothesis =>
      have whole := congrArg List.length (Text.eq_append_of_cut? cut)
      simp only [List.length_append, List.length_cons] at whole ⊢
      omega
  | case5 => exact Nat.zero_le _
  | case6 rest inductionHypothesis =>
      simp only [List.length_cons]
      omega
  | case7 rest inductionHypothesis =>
      simp only [List.length_cons]
      omega
  | case8 c rest _ _ _ inductionHypothesis => exact Nat.succ_le_succ inductionHypothesis

/-- A text that begins with a mark does not stay as it is. -/
theorem not_beginsMark_of_stripComments {cs : List Char} (same : stripComments none cs = cs) : ¬ BeginsMark cs := by
  have shorter (front rest : List Char) (shape : cs = front ++ rest) (nonempty : front ≠ [])
      (lost : (stripComments none cs).length ≤ rest.length) : False := by
    rw [same, shape, List.length_append] at lost
    exact nonempty (List.eq_nil_of_length_eq_zero (by omega))
  rintro (⟨rest, shape⟩ | ⟨rest, shape⟩ | ⟨rest, shape⟩)
  · refine shorter _ rest shape.symm (List.cons_ne_nil _ _) ?_
    rw [← shape, List.cons_append, List.singleton_append, stripComments]
    split
    · next before after cut =>
      have whole := congrArg List.length (Text.eq_append_of_cut? cut)
      rw [List.length_append, List.length_append] at whole
      have less := length_stripComments_le none after
      omega
    · exact Nat.zero_le _
  · refine shorter _ rest shape.symm (List.cons_ne_nil _ _) ?_
    rw [← shape, List.cons_append, List.cons_append, List.cons_append, List.singleton_append, stripComments]
    exact length_stripComments_le none rest
  · refine shorter _ rest shape.symm (List.cons_ne_nil _ _) ?_
    rw [← shape, List.cons_append, List.cons_append, List.singleton_append, stripComments]
    exact length_stripComments_le none rest

/-- Whether a character stands between the pieces of a sheet. -/
def isSeparator (c : Char) : Bool :=
  c == ',' || c == '\x7b' || c == '\x7d'

theorem isPrefix_of_notMem {mark cs tail : List Char} {c : Char} (foreign : c ∉ mark)
    (begins : mark <+: cs ++ c :: tail) : mark <+: cs := by
  rcases List.prefix_or_prefix_of_prefix begins (List.prefix_append cs (c :: tail)) with inside | ⟨beyond, shape⟩
  · exact inside
  · rw [← shape, List.prefix_append_right_inj] at begins
    cases beyond with
    | nil => exact ⟨[], by rw [← shape, List.append_nil, List.append_nil]⟩
    | cons d more =>
        refine absurd ?_ foreign
        rw [← shape, ← (List.cons_prefix_cons.mp begins).1]
        exact List.mem_append_right _ List.mem_cons_self

/-- No mark reaches over the character between two pieces. -/
theorem BeginsMark.of_append {cs tail : List Char} {c : Char} (separates : isSeparator c = true)
    (begins : BeginsMark (cs ++ c :: tail)) : BeginsMark cs := by
  have foreign : c ∉ ['/', '*'] ∧ c ∉ ['<', '!', '-', '-'] ∧ c ∉ ['-', '-', '>'] := by
    simp only [isSeparator, Bool.or_eq_true, beq_iff_eq] at separates
    rcases separates with (rfl | rfl) | rfl
    all_goals decide
  rcases begins with comment | opens | closes
  · exact .inl (isPrefix_of_notMem foreign.1 comment)
  · exact .inr (.inl (isPrefix_of_notMem foreign.2.1 opens))
  · exact .inr (.inr (isPrefix_of_notMem foreign.2.2 closes))

theorem BeginsMark.append {cs : List Char} (begins : BeginsMark cs) (tail : List Char) : BeginsMark (cs ++ tail) :=
  begins.imp (·.trans (List.prefix_append _ _)) (.imp (·.trans (List.prefix_append _ _)) (·.trans (List.prefix_append _ _)))

/-- A piece without comments, possibly with the character behind it, stays as it is in front
of that character. -/
theorem stripComments_append {c : Char} (separates : isSeparator c = true) {last : List Char}
    (ended : last = [] ∨ last = [c]) :
    ∀ {quote : Option Char} (cs : List Char), (∀ q ∈ quote, isQuote q = true) →
      stripComments quote (cs ++ last) = cs ++ last → openQuote quote cs = none →
      ∀ tail, stripComments quote (cs ++ c :: tail) = cs ++ c :: stripComments none tail
  | quote, [], quoted, same, unquoted, tail => by
    have bare : ¬ BeginsMark (c :: tail) := fun begins =>
      absurd (show BeginsMark [] from BeginsMark.of_append separates begins) (by decide)
    have plain : ¬ isQuote c = true := by
      simp only [isSeparator, Bool.or_eq_true, beq_iff_eq] at separates
      rcases separates with (rfl | rfl) | rfl
      all_goals decide
    rw [openQuote] at unquoted
    rw [unquoted, List.nil_append, stripComments_cons bare, if_neg plain]
    rfl
  | none, d :: rest, quoted, same, unquoted, tail => by
    have bare : ¬ BeginsMark (d :: (rest ++ c :: tail)) := fun begins =>
      have here : BeginsMark (d :: rest) := BeginsMark.of_append separates begins
      not_beginsMark_of_stripComments same (here.append last)
    have quotedLater : ∀ q ∈ (if isQuote d then some d else none), isQuote q = true := by
      intro q among
      split at among
      · next isMark => exact Option.some.inj among ▸ isMark
      · cases among
    rw [openQuote] at unquoted
    rw [List.cons_append, stripComments_cons (not_beginsMark_of_stripComments same)] at same
    rw [List.cons_append, stripComments_cons bare,
      stripComments_append separates ended rest quotedLater (List.cons.inj same).2 unquoted]
    rfl
  | some q, d :: rest, quoted, same, unquoted, tail => by
    by_cases backslash : d = '\\'
    · rw [backslash] at same unquoted ⊢
      cases rest with
      | nil =>
          have other : ¬ ('\\' == q) = true := by
            rw [beq_iff_eq]
            rintro rfl
            exact absurd (quoted _ rfl) (by decide)
          rw [openQuote, if_neg other, openQuote] at unquoted
          · cases unquoted
          · intro e others _ impossible
            cases impossible
      | cons e rest =>
          rw [openQuote] at unquoted
          rw [List.cons_append, List.cons_append, stripComments] at same
          rw [List.cons_append, List.cons_append, stripComments,
            stripComments_append separates ended rest quoted (List.cons.inj (List.cons.inj same).2).2 unquoted]
          rfl
    · have quotedLater : ∀ m ∈ (if d == q then none else some q), isQuote m = true := by
        intro m among
        split at among
        · cases among
        · exact quoted m among
      have step (more : List Char) : stripComments (some q) (d :: more) =
          d :: stripComments (if d == q then none else some q) more := by
        rw [stripComments]
        exact fun e others impossible => absurd impossible backslash
      rw [openQuote_quoted q backslash] at unquoted
      rw [List.cons_append, step] at same
      rw [List.cons_append, step,
        stripComments_append separates ended rest quotedLater (List.cons.inj same).2 unquoted]
      rfl
termination_by _ cs => cs.length

end Css
end SlimSvg
