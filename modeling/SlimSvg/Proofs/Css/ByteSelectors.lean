import SlimSvg.Proofs.Css.ByteScan
import SlimSvg.Proofs.Css.Depth

namespace SlimSvg
namespace Css

/-!
# Selectors from bytes

Reading selectors byte by byte, with the loops and the recursion into pseudo-classes that
nothing bounds.  Every step takes something off the text, a backslash at its end apart:
that one stands for a type without a name, and is refused when it is met again.
-/

namespace ByteStream

open ByteRun SelectorText

/-! ## Reading an attribute test -/

/-- Go past a byte that has to be there. -/
def consume (c : Char) (s : ByteStream) : ByteRun ByteStream := do
  if (← s.byteOrEnd) != c then throw (.refusal (.invalidSelector (String.ofList s.text)))
  s.advance 1

/-- The operator that begins with a byte and ends with an equals sign. -/
def operatorOf? : Char → Option AttributeOperator
  | '~' => some .includes
  | '|' => some .dashMatch
  | '^' => some .startsWith
  | '$' => some .endsWith
  | '*' => some .contains
  | _ => none

/-- The operator of a test and what follows it. -/
def operator? (s : ByteStream) : ByteRun (Option (AttributeOperator × ByteStream)) := do
  if ← s.beginsWith '=' then
    return some (.equals, ← s.advance 1)
  else
    match operatorOf? (← s.byte) with
    | none => return none
    | some operator =>
      let behind ← attempt ((← s.advance 1).consume '=')
      return behind.toOption.map fun s => (operator, s)

/-- The value of a test and what follows it. -/
def testValue? (s : ByteStream) : ByteRun (Option (List Char × ByteStream)) := do
  match ← attempt s.byteOrEnd with
  | .error _ => return none
  | .ok c =>
    if isQuote c then
      return (← attempt s.quoted).toOption
    else
      let (name, s) ← s.name
      return some (unescape name, s)

/-- Whether a mark asks to ignore case. -/
def flagOf? : List Char → Option Bool
  | ['i'] | ['I'] => some true
  | ['s'] | ['S'] => some false
  | _ => none

/-- Whether the mark behind a value asks to ignore case. -/
def caseFlag? (s : ByteStream) : ByteRun (Option Bool) := do
  if s.atEnd then return some false
  let (flag, s) ← s.name
  match flagOf? flag with
  | none => return none
  | some ignoresCase =>
    let s ← s.skipSpaces
    return if s.atEnd then some ignoresCase else none

/-- The test between square brackets. -/
def attributeTest? (text : List Char) : ByteRun (Option AttributeTest) := do
  let s ← (start text).skipSpaces
  let (name, s) ← s.name
  if name.isEmpty then return none
  let name := String.ofList (unescape name)
  let s ← s.skipSpaces
  if s.atEnd then return some ⟨name, .present, "", false⟩
  match ← s.operator? with
  | none => return none
  | some (operator, s) =>
    let s ← s.skipSpaces
    match ← s.testValue? with
    | none => return none
    | some (value, s) =>
      let s ← s.skipSpaces
      return (← s.caseFlag?).map fun ignoresCase => ⟨name, operator, String.ofList value, ignoresCase⟩

/-! ## Reading selectors -/

/-- The combinator at the place and what follows it. -/
def combinator (s : ByteStream) : ByteRun (Combinator × ByteStream) := do
  let c ← s.byte
  return (combinatorOf c, ← s.advance 1)

/-- Whether a combinator goes first. -/
def leads (relative : Bool) (s : ByteStream) : ByteRun Bool :=
  if relative && !s.atEnd then isCombinator <$> s.byte else pure false

/-- Whether there is a second colon, and what follows it. -/
def afterColon (s : ByteStream) : ByteRun (Bool × ByteStream) := do
  if ← s.isAt ':' then return (true, ← s.advance 1) else return (false, s)

/-- A name that must not be empty, as it is written, and what follows it. -/
def someName (text : List Char) (s : ByteStream) : ByteRun (List Char × ByteStream) := do
  let (name, s) ← s.name
  if name.isEmpty then throw (.refusal (invalid text)) else return (name, s)

mutual

/-- Selectors between commas, behind the ones that were read. -/
def selectors (relative : Bool) (done : List Selector) (s : ByteStream) : ByteRun (List Selector) := do
  match ← attempt (s.beforeSign ',') with
  | .ok (part, s) =>
    let one ← start part |>.selector relative
    s |>.selectors relative (done ++ [one])
  | .error .endOfSheet =>
    let one ← start (← s.toEnd) |>.selector relative
    return done ++ [one]
  | .error e => throw (.refusal e)
partial_fixpoint

/-- One selector, which is the whole text. -/
def selector (relative : Bool) (whole : ByteStream) : ByteRun Selector := do
  if whole.text.contains '&' then throw (.refusal .nesting)
  let s ← whole.skipSpaces
  if ← s.leads relative then
    let (first, s) ← s.combinator
    let found ← (← s.skipSpaces) |>.compounds whole.text [] (some first)
    return .ofCompounds found
  else
    let found ← s |>.compounds whole.text [] none
    return .ofCompounds found
partial_fixpoint

/-- The compounds of a text behind the ones that were read. -/
def compounds (text : List Char) (done : List Compound) (combinator : Option Combinator) (s : ByteStream) :
    ByteRun (List Compound) := do
  let (tests, s) ← s |>.compound text []
  if tests.isEmpty then throw (.refusal (invalid text))
  let behind ← s.skipSpaces
  if behind.atEnd then return done ++ [⟨combinator, tests⟩]
  if isCombinator (← behind.byte) then
    let (next, s) ← behind.combinator
    (← s.skipSpaces) |>.compounds text (done ++ [⟨combinator, tests⟩]) (some next)
  else if s.place != behind.place then
    behind |>.compounds text (done ++ [⟨combinator, tests⟩]) (some .descendant)
  else throw (.refusal (invalid text))
partial_fixpoint

/-- The compound at the place and what follows it. -/
def compound (text : List Char) (done : List SimpleSelector) (s : ByteStream) :
    ByteRun (List SimpleSelector × ByteStream) := do
  if s.atEnd then return (done.reverse, s)
  match ← s |>.test text done.isEmpty with
  | none => return (done.reverse, s)
  | some (t, s) => s |>.compound text (t :: done)
partial_fixpoint

/-- The test at the place, unless the compound ends there. -/
def test (text : List Char) (isFirst : Bool) (s : ByteStream) : ByteRun (Option (SimpleSelector × ByteStream)) := do
  let c ← s.byte
  if c == '*' then return some (.universal, ← s.advance 1)
  else if c == '.' then
    let (name, s) ← (← s.advance 1).someName text
    return some (.className (String.ofList (unescape name)), s)
  else if c == '#' then
    let (name, s) ← (← s.advance 1).someName text
    return some (.idName (String.ofList (unescape name)), s)
  else if c == '[' then
    let (inner, s) ← (← s.advance 1).beforeSign ']'
    match ← attributeTest? inner with
    | some t => return some (.attributeTest t, s)
    | none => throw (.refusal (invalid text))
  else if c == ':' then
    let (t, s) ← (← s.advance 1) |>.pseudo text
    return some (t, s)
  else if isNameChar c || c == '\\' then
    -- A type goes first.
    if !isFirst then throw (.refusal (invalid text))
    let (name, s) ← s.name
    return some (.typeName (String.ofList (unescape name)), s)
  else if Text.isCssSpace c || isCombinator c then return none
  else throw (.refusal (invalid text))
partial_fixpoint

/-- A pseudo-class or pseudo-element behind its first colon. -/
def pseudo (text : List Char) (s : ByteStream) : ByteRun (SimpleSelector × ByteStream) := do
  let (doubled, s) ← s.afterColon
  let (name, s) ← s.someName text
  let name := String.ofList name
  let (args, s) ← s |>.arguments (!doubled && takesSelectors name) (name == "has")
  return (pseudoTest doubled name args, s)
partial_fixpoint

/-- The arguments at the place and what follows them. -/
def arguments (asSelectors relative : Bool) (s : ByteStream) : ByteRun (PseudoArguments × ByteStream) := do
  if ← s.isAt '(' then
    let (inner, s) ← (← s.advance 1).beforeSign ')'
    if asSelectors then
      return (.selectors (← start inner |>.selectors relative []), s)
    else return (.raw (String.ofList (Text.trimChars inner)), s)
  else return (.none, s)
partial_fixpoint

end

/-! ## What is read: attribute tests -/

section Found

variable {text cs : List Char}

/-- What follows an equals sign. -/
def afterEquals? : List Char → Option (List Char)
  | '=' :: rest => some rest
  | _ => none

theorem operator?_cons {c : Char} (other : c ≠ '=') (rest : List Char) :
    SelectorText.operator? (c :: rest) =
      (operatorOf? c).bind fun operator => (afterEquals? rest).map fun after => (operator, after) := by
  unfold SelectorText.operator? operatorOf? afterEquals?
  grind

theorem operatorOf?_of_wide {c : Char} (wide : IsWide c) : operatorOf? c = none := by
  unfold operatorOf?
  split
  case h_6 => rfl
  all_goals exact absurd wide (by decide)

theorem attempt_consume_before (suffix : cs <:+ text) :
    ∃ found, attempt ((before text cs).consume '=') = pure found ∧
      found.toOption = (afterEquals? cs).map (before text) := by
  cases cs with
  | nil =>
      rw [consume, byteOrEnd, atEnd_before suffix]
      exact ⟨.error .endOfSheet, rfl, rfl⟩
  | cons c rest =>
      rcases byte_before suffix with ⟨b, found, like⟩
      rw [consume, byteOrEnd, atEnd_before_cons suffix, if_neg Bool.false_ne_true, found, pure_bind, bne,
        like.beq_eq (by decide)]
      by_cases equals : c = '='
      · rw [equals] at suffix ⊢
        rw [beq_self_eq_true, Bool.not_true, if_neg Bool.false_ne_true,
          advance_before_of_narrow suffix (by decide)]
        exact ⟨.ok (before text rest), rfl, rfl⟩
      · rw [beq_false_of_ne equals]
        refine ⟨.error _, rfl, ?_⟩
        unfold afterEquals?
        split
        · next same => exact absurd (List.cons.inj same).1 equals
        · rfl

theorem operator?_before (nonempty : cs ≠ []) (suffix : cs <:+ text) :
    (before text cs).operator? = pure ((SelectorText.operator? cs).map (stand text)) := by
  cases cs with
  | nil => exact absurd rfl nonempty
  | cons c rest =>
      have behind : rest <:+ text := (List.suffix_cons _ _).trans suffix
      rw [operator?, beginsWith_before suffix (by decide), pure_bind, List.head?_cons]
      by_cases equals : c = '='
      · rw [equals] at suffix ⊢
        rw [beq_self_eq_true, if_pos rfl, advance_before_of_narrow suffix (by decide)]
        rfl
      · rcases byte_before suffix with ⟨b, found, like⟩
        have unequal : (some c == some '=') = false := beq_false_of_ne fun same => equals (Option.some.inj same)
        rw [unequal, if_neg Bool.false_ne_true, found, pure_bind, like.same_of fun _ => operatorOf?_of_wide,
          operator?_cons equals]
        cases operatorEq : operatorOf? c with
        | none => rfl
        | some operator =>
            have narrow : ¬ IsWide c := by
              intro wide
              rw [operatorOf?_of_wide wide] at operatorEq
              cases operatorEq
            rcases attempt_consume_before behind with ⟨after, consumed, afterEq⟩
            dsimp only
            rw [advance_before_of_narrow suffix narrow, pure_bind, consumed, pure_bind, afterEq, Option.map_map,
              Option.bind_some, Option.map_map]
            rfl

theorem testValue?_before (suffix : cs <:+ text) :
    (before text cs).testValue? = pure ((SelectorText.testValue? cs).map (stand text)) := by
  rw [testValue?, byteOrEnd, atEnd_before suffix]
  cases cs with
  | nil => rfl
  | cons c rest =>
      rcases byte_before suffix with ⟨b, found, like⟩
      have known : attempt (before text (c :: rest)).byte = pure (.ok b) := by
        rw [found]
        rfl
      rw [List.isEmpty_cons, if_neg Bool.false_ne_true, known, pure_bind, SelectorText.testValue?]
      dsimp only
      rw [like.isQuote_eq]
      split
      · next mark =>
        rw [quoted_before mark suffix, attempt_answer]
        cases spanQuoted? c rest <;> rfl
      · rw [name_before suffix]
        rfl

theorem suffix_of_testValue? {value rest : List Char} (read : SelectorText.testValue? cs = some (value, rest)) :
    rest <:+ cs := by
  cases cs with
  | nil => cases read
  | cons c later =>
      rw [SelectorText.testValue?] at read
      split at read
      · exact (suffix_of_spanQuoted? read).1.trans (List.suffix_cons _ _)
      · rw [← (Prod.mk.inj (Option.some.inj read)).2]
        exact suffix_of_spanName _

theorem caseFlag?_cons (c : Char) (rest : List Char) :
    SelectorText.caseFlag? (c :: rest) =
      if (Css.skipSpaces (spanName (c :: rest)).2).isEmpty then flagOf? (spanName (c :: rest)).1 else none :=
  rfl

theorem caseFlag?_before (suffix : cs <:+ text) :
    (before text cs).caseFlag? = pure (SelectorText.caseFlag? cs) := by
  have behind : (spanName cs).2 <:+ text := (suffix_of_spanName cs).trans suffix
  have blank : Css.skipSpaces (spanName cs).2 <:+ text := (suffix_of_skipSpaces _).trans behind
  rw [caseFlag?, atEnd_before suffix]
  cases cs with
  | nil => rfl
  | cons c rest =>
      rw [List.isEmpty_cons, if_neg Bool.false_ne_true, name_before suffix, pure_bind, caseFlag?_cons]
      dsimp only [stand]
      cases flagOf? (spanName (c :: rest)).1 with
      | none => exact congrArg pure (ite_self none).symm
      | some ignoresCase =>
          dsimp only
          rw [skipSpaces_before behind, pure_bind, atEnd_before blank]

theorem attributeTest?_eq (text : List Char) :
    attributeTest? text = pure (SelectorText.attributeTest? text) := by
  have first : Css.skipSpaces text <:+ text := suffix_of_skipSpaces _
  have named : (spanName (Css.skipSpaces text)).2 <:+ text := (suffix_of_spanName _).trans first
  have further : Css.skipSpaces (spanName (Css.skipSpaces text)).2 <:+ text := (suffix_of_skipSpaces _).trans named
  rw [attributeTest?, start_eq, skipSpaces_before (List.suffix_refl text), pure_bind, name_before first, pure_bind,
    SelectorText.attributeTest?]
  dsimp only [stand]
  split
  · rfl
  · rw [skipSpaces_before named, pure_bind, atEnd_before further]
    cases tailEq : Css.skipSpaces (spanName (Css.skipSpaces text)).2 with
    | nil => rfl
    | cons c rest =>
        rw [tailEq] at further
        rw [List.isEmpty_cons, if_neg Bool.false_ne_true, operator?_before (List.cons_ne_nil c rest) further,
          pure_bind]
        dsimp only
        cases operatorRead : SelectorText.operator? (c :: rest) with
        | none => rfl
        | some found =>
            have behind : found.2 <:+ text := (operator?_spec operatorRead).2.trans further
            have blank : Css.skipSpaces found.2 <:+ text := (suffix_of_skipSpaces _).trans behind
            dsimp only [Option.map_some, stand]
            rw [skipSpaces_before behind, pure_bind, testValue?_before blank, pure_bind]
            change _ = pure ((SelectorText.testValue? (Css.skipSpaces found.2)).bind _)
            cases valueRead : SelectorText.testValue? (Css.skipSpaces found.2) with
            | none => rfl
            | some value =>
                have after : value.2 <:+ text := (suffix_of_testValue? valueRead).trans blank
                dsimp only [Option.map_some, stand]
                rw [skipSpaces_before after, pure_bind, caseFlag?_before ((suffix_of_skipSpaces _).trans after),
                  pure_bind, Option.bind_some]
                cases SelectorText.caseFlag? (Css.skipSpaces value.2) <;> rfl

/-! ## What is read: selectors -/

theorem someName_before (suffix : cs <:+ text) (message : List Char) :
    (before text cs).someName message =
      answer (if (spanName cs).1.isEmpty then .error (invalid message) else .ok (stand text (spanName cs))) := by
  rw [someName, name_before suffix, pure_bind]
  dsimp only [stand]
  split <;> rfl

/-- A list between parentheses is read by bytes as it is read by characters, if it is
short. -/
def Follows (nested : Bool → List Char → Except CssError (List Selector)) (size : Nat) : Prop :=
  ∀ relative cs, cs.length < size → selectors relative [] (start cs) = answer (nested relative cs)

variable {nested : Bool → List Char → Except CssError (List Selector)} {size : Nat}

theorem isAt_before_cons {c d : Char} {rest : List Char} (suffix : c :: rest <:+ text) (narrow : ¬ IsWide d) :
    (before text (c :: rest)).isAt d = pure (c == d) := by
  rw [isAt_before suffix narrow]
  rfl

theorem afterColon_before (suffix : cs <:+ text) :
    (before text cs).afterColon = pure (stand text (SelectorText.afterColon cs)) := by
  rw [afterColon]
  unfold SelectorText.afterColon
  split
  · rw [isAt_before_cons suffix (by decide), pure_bind, beq_self_eq_true, if_pos rfl,
      advance_before_of_narrow suffix (by decide)]
    rfl
  · next other =>
    rw [isAt_before suffix (by decide), pure_bind, if_neg]
    · rfl
    · rw [beq_iff_eq, List.head?_eq_some_iff]
      rintro ⟨rest, same⟩
      exact other rest same

theorem length_of_spanBefore? {sign : Char} {parts : List Char × List Char} (cut : spanBefore? sign cs = some parts) :
    parts.1.length + parts.2.length < cs.length := by
  have whole := congrArg List.length (balanced_of_spanBefore? cut).1
  rw [List.length_append, List.length_cons] at whole
  omega

theorem arguments_before (follows : Follows nested size) (suffix : cs <:+ text) (short : cs.length ≤ size)
    (asSelectors relative : Bool) :
    (before text cs).arguments asSelectors relative =
      answer ((SelectorText.arguments nested asSelectors relative cs).map (stand text)) := by
  rw [arguments]
  by_cases opens : ∃ later, cs = '(' :: later
  · rcases opens with ⟨later, rfl⟩
    have inside : later <:+ text := (List.suffix_cons _ _).trans suffix
    rw [isAt_before_cons suffix (by decide), pure_bind, beq_self_eq_true, if_pos rfl,
      advance_before_of_narrow suffix (by decide), pure_bind, beforeSign_before (by decide) inside,
      arguments_parenthesis]
    cases cut : spanBefore? ')' later with
    | none => rfl
    | some parts =>
        have shorter := length_of_spanBefore? cut
        rw [List.length_cons] at short
        change (if _ then selectors relative [] (start parts.1) >>= _ else _) =
          answer (((argumentsOf nested asSelectors relative parts.1).map _).map _)
        rw [follows relative parts.1 (by omega), argumentsOf]
        split
        · cases nested relative parts.1 <;> rfl
        · rfl
  · have other : ∀ later, cs ≠ '(' :: later := fun later same => opens ⟨later, same⟩
    rw [isAt_before suffix (by decide), pure_bind, arguments_none _ _ other, if_neg]
    · rfl
    · rw [beq_iff_eq, List.head?_eq_some_iff]
      exact opens

theorem pseudo_before (follows : Follows nested size) (suffix : cs <:+ text) (short : cs.length ≤ size)
    (message : List Char) :
    (before text cs).pseudo message = answer ((SelectorText.pseudo nested message cs).map (stand text)) := by
  have behind : (SelectorText.afterColon cs).2 <:+ cs := suffix_afterColon cs
  have named : (spanName (SelectorText.afterColon cs).2).2 <:+ cs := (suffix_of_spanName _).trans behind
  rw [pseudo, afterColon_before suffix, pure_bind]
  dsimp only [stand]
  rw [someName_before (behind.trans suffix), pseudo_eq, pseudoBehind]
  split
  · rfl
  · change arguments _ _ (before text _) >>= _ = _
    rw [arguments_before follows (named.trans suffix) (named.length_le.trans short)]
    dsimp only [stand]
    cases SelectorText.arguments nested _ _ (spanName (SelectorText.afterColon cs).2).2 <;> rfl

/-! ### Compounds -/

theorem spanName_ne_nil {c : Char} {rest : List Char} (named : (isNameChar c || c == '\\') = true)
    (escapes : c = '\\' → rest ≠ []) : (spanName (c :: rest)).1.isEmpty = false := by
  by_cases backslash : c = '\\'
  · rcases List.exists_cons_of_ne_nil (escapes backslash) with ⟨d, others, same⟩
    rw [backslash, same, spanName]
    rfl
  · rw [beq_false_of_ne backslash, Bool.or_false] at named
    rw [spanName, if_pos named]
    · rfl
    · exact fun d others same => absurd same backslash

theorem test_before (follows : Follows nested size) {c : Char} {rest : List Char} (suffix : c :: rest <:+ text)
    (short : (c :: rest).length ≤ size) (message : List Char) (isFirst : Bool)
    (named : c = '\\' → isFirst = true → rest ≠ []) :
    (before text (c :: rest)).test message isFirst =
      answer ((testAt nested message isFirst (c :: rest)).map (Option.map (stand text))) := by
  have behind : rest <:+ text := (List.suffix_cons _ _).trans suffix
  rcases byte_before suffix with ⟨b, found, like⟩
  rw [test, found, pure_bind, like.beq_eq (by decide), like.beq_eq (by decide), like.beq_eq (by decide),
    like.beq_eq (by decide), like.beq_eq (by decide), like.beq_eq (by decide), like.isNameChar_eq,
    like.isCssSpace_eq, like.isCombinator_eq]
  by_cases star : c = '*'
  · subst star
    rw [beq_self_eq_true, if_pos rfl, advance_before_of_narrow suffix (by decide)]
    rfl
  rw [beq_false_of_ne star, if_neg Bool.false_ne_true]
  by_cases dot : c = '.'
  · subst dot
    rw [beq_self_eq_true, if_pos rfl, advance_before_of_narrow suffix (by decide), pure_bind, someName_before behind,
      testAt, SelectorText.requireName]
    dsimp only
    split <;> rfl
  rw [beq_false_of_ne dot, if_neg Bool.false_ne_true]
  by_cases hash : c = '#'
  · subst hash
    rw [beq_self_eq_true, if_pos rfl, advance_before_of_narrow suffix (by decide), pure_bind, someName_before behind,
      testAt, SelectorText.requireName]
    dsimp only
    split <;> rfl
  rw [beq_false_of_ne hash, if_neg Bool.false_ne_true]
  by_cases bracket : c = '['
  · subst bracket
    rw [beq_self_eq_true, if_pos rfl, advance_before_of_narrow suffix (by decide), pure_bind,
      beforeSign_before (by decide) behind, testAt]
    cases spanBefore? ']' rest with
    | none => rfl
    | some parts =>
        change attributeTest? parts.1 >>= _ =
          answer (Except.map _ (Option.elim (SelectorText.attributeTest? parts.1) _ _))
        rw [attributeTest?_eq]
        cases SelectorText.attributeTest? parts.1 <;> rfl
  rw [beq_false_of_ne bracket, if_neg Bool.false_ne_true]
  by_cases colon : c = ':'
  · subst colon
    rw [beq_self_eq_true, if_pos rfl, advance_before_of_narrow suffix (by decide), pure_bind,
      pseudo_before follows behind (Nat.le_of_succ_le short), testAt]
    cases SelectorText.pseudo nested message rest <;> rfl
  rw [beq_false_of_ne colon, if_neg Bool.false_ne_true, testAt]
  · split
    · next isNamed =>
      cases isFirst with
      | false => rfl
      | true =>
          rw [name_before suffix, spanName_ne_nil isNamed fun backslash => named backslash rfl]
          rfl
    · split <;> rfl
  all_goals assumption

/-- A backslash alone stands for a type without a name, and the stream does not move. -/
theorem test_backslash (suffix : ['\\'] <:+ text) (message : List Char) :
    (before text ['\\']).test message true = pure (some (.typeName "", before text ['\\'])) := by
  have named : spanName ['\\'] = ([], ['\\']) := rfl
  rw [test, byte_before_of_narrow suffix (by decide), pure_bind, name_before suffix, named]
  rfl

theorem compound_before (follows : Follows nested size) (suffix : cs <:+ text) (short : cs.length ≤ size)
    (message : List Char) {bound : Nat} (bounded : cs.length ≤ bound) (done : List SimpleSelector) :
    (before text cs).compound message done =
      answer ((SelectorText.compound nested message bound done cs).map (stand text)) := by
  induction bound generalizing cs done with
  | zero =>
      have empty := List.eq_nil_of_length_eq_zero (Nat.le_zero.mp bounded)
      rw [empty] at suffix ⊢
      rw [compound, atEnd_before suffix]
      rfl
  | succ bound inductionHypothesis =>
      rw [compound, compound_succ, atEnd_before suffix]
      cases cs with
      | nil => rfl
      | cons c rest =>
          rw [List.isEmpty_cons, if_neg Bool.false_ne_true]
          by_cases lone : c = '\\' ∧ done.isEmpty = true ∧ rest = []
          · rcases lone with ⟨rfl, first, rfl⟩
            -- The type without a name is found once, and then no type may follow it.
            have again := test_before follows suffix short message false fun _ impossible => nomatch impossible
            rw [first, test_backslash suffix, pure_bind]
            dsimp only
            rw [compound, atEnd_before suffix]
            change (before text ['\\']).test message false >>= _ = _
            rw [again]
            rfl
          · rw [test_before follows suffix short message _ fun backslash first alone => lone ⟨backslash, first, alone⟩]
            cases found : testAt nested message done.isEmpty (c :: rest) with
            | error e => rfl
            | ok front =>
                cases front with
                | none => rfl
                | some front =>
                    have shorter := suffix_of_testAt_cons found
                    rw [List.length_cons] at short bounded
                    have size := shorter.length_le
                    exact inductionHypothesis ((shorter.trans (List.suffix_cons _ _)).trans suffix) (by omega) (by omega) _

/-- Whether a compound may end before a text. -/
def EndsCompound (cs : List Char) : Prop :=
  ∀ c ∈ cs.head?, Text.isCssSpace c = true ∨ isCombinator c = true

theorem endsCompound_of_testAt {message : List Char} {isFirst : Bool}
    (found : testAt nested message isFirst cs = .ok none) : EndsCompound cs := by
  intro c first
  rcases List.head?_eq_some_iff.mp first with ⟨rest, rfl⟩
  generalize listEq : c :: rest = cs at found
  unfold testAt at found
  split at found
  case h_1 => cases listEq
  case h_2 => cases Except.ok.inj found
  case h_3 | h_4 | h_6 =>
    rcases map_eq_ok.mp found with ⟨_, -, impossible⟩
    cases impossible
  case h_5 =>
    rcases bind_eq_ok.mp found with ⟨cut, -, found⟩
    cases read : SelectorText.attributeTest? cut.1 with
    | none =>
        rw [read] at found
        cases found
    | some t =>
        rw [read] at found
        cases Except.ok.inj found
  case h_7 =>
    rcases List.cons.inj listEq with ⟨rfl, rfl⟩
    split at found
    · split at found
      · cases found
      · cases Except.ok.inj found
    · split at found
      · next ends => exact Bool.or_eq_true_iff.mp ends
      · cases found

theorem endsCompound_of_compound {message : List Char} {bound : Nat} (bounded : cs.length ≤ bound)
    {done tests : List SimpleSelector} {rest : List Char}
    (read : SelectorText.compound nested message bound done cs = .ok (tests, rest)) : EndsCompound rest := by
  induction bound generalizing cs done with
  | zero =>
      rw [SelectorText.compound] at read
      rw [← (Prod.mk.inj (Except.ok.inj read)).2, List.eq_nil_of_length_eq_zero (Nat.le_zero.mp bounded)]
      intro c impossible
      cases impossible
  | succ bound inductionHypothesis =>
      rw [compound_succ] at read
      rcases bind_eq_ok.mp read with ⟨found, foundRead, read⟩
      cases found with
      | none =>
          rw [← (Prod.mk.inj (Except.ok.inj read)).2]
          exact endsCompound_of_testAt foundRead
      | some front =>
          cases cs with
          | nil => cases Except.ok.inj foundRead
          | cons c later =>
              have shorter := (suffix_of_testAt_cons foundRead).length_le
              rw [List.length_cons] at bounded
              exact inductionHypothesis (by omega) read

/-- A compound with tests takes at least one character. -/
theorem length_lt_of_compound {message : List Char} {bound : Nat} {tests : List SimpleSelector} {rest : List Char}
    (read : SelectorText.compound nested message bound [] cs = .ok (tests, rest)) (tested : tests.isEmpty = false) :
    rest.length < cs.length := by
  cases bound with
  | zero =>
      rw [SelectorText.compound] at read
      rw [← (Prod.mk.inj (Except.ok.inj read)).1] at tested
      cases tested
  | succ bound =>
      rw [compound_succ] at read
      rcases bind_eq_ok.mp read with ⟨found, foundRead, read⟩
      cases found with
      | none =>
          rw [← (Prod.mk.inj (Except.ok.inj read)).1] at tested
          cases tested
      | some front =>
          cases cs with
          | nil => cases Except.ok.inj foundRead
          | cons c later =>
              have shorter := (suffix_of_compound read).trans (suffix_of_testAt_cons foundRead)
              exact Nat.lt_succ_of_le shorter.length_le

theorem combinator_before {c : Char} {rest : List Char} (suffix : c :: rest <:+ text)
    (sign : isCombinator c = true) :
    (before text (c :: rest)).combinator = pure (combinatorOf c, before text rest) := by
  have narrow : ¬ IsWide c := fun wide => absurd sign (by rw [isCombinator_of_wide wide]; decide)
  rw [combinator, byte_before_of_narrow suffix narrow, pure_bind, advance_before_of_narrow suffix narrow]
  rfl

/-- Going past blanks is seen from the places. -/
theorem place_ne_of_blank {c : Char} {rest : List Char} (suffix : c :: rest <:+ text)
    (blank : Text.isCssSpace c = true) :
    ((before text (c :: rest)).place != (before text (Css.skipSpaces (c :: rest))).place) = true := by
  have fits := width_le_of_suffix suffix
  have skipped : Css.skipSpaces (c :: rest) <:+ rest := by
    rw [Css.skipSpaces, List.dropWhile_cons_of_pos blank]
    exact suffix_of_skipSpaces rest
  have shorter := width_le_of_suffix skipped
  have positive := c.utf8Size_pos
  rw [width_cons] at fits
  rw [bne_iff_ne, before, before, width_cons]
  dsimp only
  omega

/-- Before a compound that follows without a combinator there are blanks. -/
theorem place_ne_of_ends (suffix : cs <:+ text) (ends : EndsCompound cs) {c : Char} {after : List Char}
    (behind : Css.skipSpaces cs = c :: after) (plain : isCombinator c = false) :
    ((before text cs).place != (before text (c :: after)).place) = true := by
  cases cs with
  | nil => cases behind
  | cons d rest =>
      by_cases blank : Text.isCssSpace d = true
      · rw [← behind]
        exact place_ne_of_blank suffix blank
      · rw [Css.skipSpaces, List.dropWhile_cons_of_neg blank] at behind
        rw [← (List.cons.inj behind).1] at plain
        rcases ends d rfl with isBlank | sign
        · exact absurd isBlank blank
        · rw [sign] at plain
          cases plain

/-- What is read behind some items stands behind them. -/
theorem map_append_singleton {α : Type} (done : List α) (a : α) (found : Except CssError (List α)) :
    found.map (done ++ [a] ++ ·) = (found.map (a :: ·)).map (done ++ ·) := by
  cases found with
  | error e => rfl
  | ok others => exact congrArg Except.ok (List.append_cons done a others).symm

theorem compounds_before (follows : Follows nested size) (suffix : cs <:+ text) (short : cs.length ≤ size)
    (message : List Char) {bound : Nat} (bounded : cs.length < bound) (combinator : Option Combinator)
    (done : List Compound) :
    (before text cs).compounds message done combinator =
      answer ((SelectorText.compounds nested message bound combinator cs).map (done ++ ·)) := by
  induction bound generalizing cs combinator done with
  | zero => exact absurd bounded (Nat.not_lt_zero _)
  | succ bound inductionHypothesis =>
      rw [compounds, compound_before follows suffix short message le_rfl, compounds_succ]
      cases read : SelectorText.compound nested message cs.length [] cs with
      | error e => rfl
      | ok found =>
          have ends := endsCompound_of_compound le_rfl read
          have left : found.2 <:+ text := (suffix_of_compound read).trans suffix
          change (if found.1.isEmpty then _ else _) = answer (Except.map _ (if found.1.isEmpty then _ else _))
          cases tested : found.1.isEmpty with
          | true => rfl
          | false =>
              have gone := length_lt_of_compound read tested
              have spaced : Css.skipSpaces found.2 <:+ text := (suffix_of_skipSpaces _).trans left
              have fewer := (suffix_of_skipSpaces found.2).length_le
              rw [if_neg Bool.false_ne_true, if_neg Bool.false_ne_true, further?]
              change (before text found.2).skipSpaces >>= _ = _
              rw [skipSpaces_before left, pure_bind, atEnd_before spaced]
              cases behind : Css.skipSpaces found.2 with
              | nil => rfl
              | cons c after =>
                  rw [behind] at spaced fewer
                  rw [List.length_cons] at fewer
                  rcases byte_before spaced with ⟨b, byteEq, like⟩
                  rw [List.isEmpty_cons, if_neg Bool.false_ne_true, byteEq, pure_bind, like.isCombinator_eq]
                  dsimp only
                  cases sign : isCombinator c with
                  | true =>
                      have further : Css.skipSpaces after <:+ text :=
                        (suffix_of_skipSpaces _).trans ((List.suffix_cons _ _).trans spaced)
                      have size := (suffix_of_skipSpaces after).length_le
                      rw [if_pos rfl, if_pos rfl, combinator_before spaced sign, pure_bind]
                      dsimp only
                      rw [skipSpaces_before ((List.suffix_cons _ _).trans spaced), pure_bind,
                        inductionHypothesis further (by omega) (by omega), map_append_singleton]
                      rfl
                  | false =>
                      rw [if_neg Bool.false_ne_true, if_neg Bool.false_ne_true,
                        if_pos (place_ne_of_ends left ends behind sign),
                        inductionHypothesis spaced (by rw [List.length_cons]; omega) (by rw [List.length_cons]; omega),
                        map_append_singleton]
                      rfl

/-! ### Selectors and lists of them -/

theorem leads_before (suffix : cs <:+ text) (relative : Bool) :
    (before text cs).leads relative = pure (relative && cs.head?.any isCombinator) := by
  rw [leads, atEnd_before suffix]
  cases relative with
  | false => rfl
  | true =>
      cases cs with
      | nil => rfl
      | cons c rest =>
          rcases byte_before suffix with ⟨b, found, like⟩
          rw [found, List.isEmpty_cons, Bool.not_false, Bool.and_self, if_pos rfl, map_pure, like.isCombinator_eq]
          rfl

theorem selector_eq (follows : Follows nested size) (short : text.length ≤ size) (relative : Bool) :
    (start text).selector relative = answer (SelectorText.selector nested relative text) := by
  have spaced := suffix_of_skipSpaces text
  have whole : (start text).text = text := rfl
  rw [selector, SelectorText.selector_eq, whole]
  cases nesting : text.contains '&' with
  | true => rfl
  | false =>
      rw [if_neg Bool.false_ne_true, if_neg Bool.false_ne_true, start_eq, skipSpaces_before (List.suffix_refl text),
        pure_bind, leads_before spaced, pure_bind]
      dsimp only
      cases front : Css.skipSpaces text with
      | nil =>
          rw [front] at spaced
          rw [List.head?_nil, Option.any_none, Bool.and_false, if_neg Bool.false_ne_true, leading,
            compounds_before follows spaced (Nat.zero_le _) text (Nat.lt_succ_self _)]
          cases SelectorText.compounds nested text ([] : List Char).length.succ none [] <;> rfl
      | cons c rest =>
          rw [front] at spaced
          rw [List.head?_cons, Option.any_some, leading]
          cases first : relative && isCombinator c with
          | true =>
              have after : rest <:+ text := (List.suffix_cons _ _).trans spaced
              have further : Css.skipSpaces rest <:+ text := (suffix_of_skipSpaces rest).trans after
              rw [if_pos rfl, if_pos rfl, combinator_before spaced (Bool.and_eq_true_iff.mp first).2, pure_bind]
              dsimp only
              rw [skipSpaces_before after, pure_bind,
                compounds_before follows further (further.length_le.trans short) text (Nat.lt_succ_self _)]
              cases SelectorText.compounds nested text _ _ (Css.skipSpaces rest) <;> rfl
          | false =>
              rw [if_neg Bool.false_ne_true, if_neg Bool.false_ne_true,
                compounds_before follows spaced (spaced.length_le.trans short) text (Nat.lt_succ_self _)]
              cases SelectorText.compounds nested text _ _ (c :: rest) <;> rfl

theorem selectors_before {one : List Char → Except CssError Selector} {relative : Bool} (suffix : cs <:+ text)
    (each : ∀ part : List Char, part.length ≤ cs.length → (start part).selector relative = answer (one part)) {bound : Nat}
    (bounded : cs.length < bound) (done : List Selector) :
    (before text cs).selectors relative done =
      answer ((SelectorText.selectors one bound cs).map (done ++ ·)) := by
  induction bound generalizing cs done with
  | zero => exact absurd bounded (Nat.not_lt_zero _)
  | succ bound inductionHypothesis =>
      rw [selectors, beforeSign_before (by decide) suffix, attempt_answer, pure_bind, SelectorText.selectors]
      cases cut : spanBefore? ',' cs with
      | none =>
          change (before text cs).toEnd >>= _ = _
          rw [toEnd_before suffix, pure_bind, each cs le_rfl]
          cases one cs <;> rfl
      | some parts =>
          have shorter := length_of_spanBefore? cut
          change (start parts.1).selector relative >>= _ = _
          rw [each parts.1 (by omega)]
          dsimp only
          cases one parts.1 with
          | error e => rfl
          | ok first =>
              change (before text parts.2).selectors relative (done ++ [first]) = _
              rw [inductionHypothesis ((suffix_of_spanBefore? cut).trans suffix)
                (fun part short => each part (by omega)) (by omega), map_append_singleton]
              rfl

/-- Lists are read alike at every level of nesting. -/
theorem follows_listWithin (depth : Nat) : Follows (listWithin depth) depth := by
  induction depth with
  | zero => exact fun _ _ impossible => absurd impossible (Nat.not_lt_zero _)
  | succ depth inductionHypothesis =>
      intro relative cs shorter
      rw [start_eq, listWithin, selectors_before (List.suffix_refl cs)
        (fun part short => selector_eq inductionHypothesis (by omega) relative) (Nat.lt_succ_self _)]
      cases SelectorText.selectors _ cs.length.succ cs <;> rfl

theorem selectors_eq_readList (cs : List Char) :
    selectors false [] (start cs) = answer (Selector.readList cs) :=
  follows_listWithin cs.length.succ false cs (Nat.lt_succ_self _)

end Found

end ByteStream
end Css
end SlimSvg
