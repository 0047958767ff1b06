import Mathlib.Data.List.Infix
import SlimSvg.Proofs.Css.Forms

namespace SlimSvg
namespace Css
namespace SelectorText

/-!
# Enough levels of nesting

The reader of a list of selectors is given a number of levels, since a pseudo-class may
hold selectors again.  What stands between parentheses is shorter than the text around
it, so with as many levels as the text is long the number no longer matters.  A selector
is therefore read alike alone and as a part of a longer list.
-/

variable {nested : Bool → List Char → Except CssError (List Selector)}

/-! ## What remains of a text -/

theorem suffix_of_requireName {text cs rest : List Char} {name : String}
    (read : requireName text cs = .ok (name, rest)) : rest <:+ cs := by
  rw [requireName] at read
  dsimp only at read
  split at read
  · cases read
  · rw [← (Prod.mk.inj (Except.ok.inj read)).2]
    exact suffix_of_spanName cs

theorem suffix_of_spanBefore? {stop : Char} {cs inner rest : List Char}
    (cut : spanBefore? stop cs = some (inner, rest)) : rest <:+ cs := by
  rw [(balanced_of_spanBefore? cut).1]
  exact (List.suffix_cons _ _).trans (List.suffix_append _ _)

theorem suffix_of_arguments {asSelectors relative : Bool} {cs rest : List Char} {args : PseudoArguments}
    (read : arguments nested asSelectors relative cs = .ok (args, rest)) : rest <:+ cs := by
  unfold arguments at read
  split at read
  · rcases bind_eq_ok.mp read with ⟨⟨inner, after⟩, cutRead, read⟩
    rcases map_eq_ok.mp read with ⟨found, -, same⟩
    rw [← (Prod.mk.inj same).2]
    exact (suffix_of_spanBefore? (orEnd_eq_ok.mp cutRead)).trans (List.suffix_cons _ _)
  · rw [← (Prod.mk.inj (Except.ok.inj read)).2]

theorem suffix_of_pseudo {text cs rest : List Char} {test : SimpleSelector}
    (read : pseudo nested text cs = .ok (test, rest)) : rest <:+ cs := by
  rw [pseudo_eq, pseudoBehind] at read
  split at read
  · cases read
  · rcases map_eq_ok.mp read with ⟨⟨args, found⟩, argsRead, same⟩
    rw [← (Prod.mk.inj same).2]
    exact ((suffix_of_arguments argsRead).trans (suffix_of_spanName _)).trans (suffix_afterColon cs)

theorem suffix_of_spanName_cons {c : Char} {rest : List Char} (nonempty : (spanName (c :: rest)).1 ≠ []) :
    (spanName (c :: rest)).2 <:+ rest := by
  have whole := append_of_spanName (c :: rest)
  rcases List.exists_cons_of_ne_nil nonempty with ⟨d, name, found⟩
  rw [found] at whole
  exact ⟨name, (List.cons.inj whole).2⟩

/-- A test takes at least one character. -/
theorem suffix_of_testAt_cons {text later rest : List Char} {c : Char} {isFirst : Bool} {test : SimpleSelector}
    (read : testAt nested text isFirst (c :: later) = .ok (some (test, rest))) : rest <:+ later := by
  generalize listEq : c :: later = cs at read
  unfold testAt at read
  split at read
  · cases Except.ok.inj read
  · rcases List.cons.inj listEq with ⟨-, rfl⟩
    rw [← (Prod.mk.inj (Option.some.inj (Except.ok.inj read))).2]
  · rcases List.cons.inj listEq with ⟨-, rfl⟩
    rcases map_eq_ok.mp read with ⟨⟨name, after⟩, nameRead, same⟩
    rw [← (Prod.mk.inj (Option.some.inj same)).2]
    exact suffix_of_requireName nameRead
  · rcases List.cons.inj listEq with ⟨-, rfl⟩
    rcases map_eq_ok.mp read with ⟨⟨name, after⟩, nameRead, same⟩
    rw [← (Prod.mk.inj (Option.some.inj same)).2]
    exact suffix_of_requireName nameRead
  · rcases List.cons.inj listEq with ⟨-, rfl⟩
    rcases bind_eq_ok.mp read with ⟨⟨inner, after⟩, cutRead, read⟩
    dsimp only at read
    cases found : attributeTest? inner with
    | none =>
        rw [found] at read
        cases read
    | some t =>
        rw [found] at read
        rw [← (Prod.mk.inj (Option.some.inj (Except.ok.inj read))).2]
        exact suffix_of_spanBefore? (orEnd_eq_ok.mp cutRead)
  · rcases List.cons.inj listEq with ⟨-, rfl⟩
    rcases map_eq_ok.mp read with ⟨⟨found, after⟩, pseudoRead, same⟩
    rw [← (Prod.mk.inj (Option.some.inj same)).2]
    exact suffix_of_pseudo pseudoRead
  · rcases List.cons.inj listEq with ⟨rfl, rfl⟩
    split at read
    · split at read
      · cases read
      · next named =>
        rw [← (Prod.mk.inj (Option.some.inj (Except.ok.inj read))).2]
        refine suffix_of_spanName_cons fun empty => named ?_
        rw [empty, List.isEmpty_nil, Bool.or_true]
    · split at read
      · cases Except.ok.inj read
      · cases read

theorem suffix_of_testAt {text cs rest : List Char} {isFirst : Bool} {test : SimpleSelector}
    (read : testAt nested text isFirst cs = .ok (some (test, rest))) : rest <:+ cs := by
  cases cs with
  | nil => cases Except.ok.inj read
  | cons c later => exact (suffix_of_testAt_cons read).trans (List.suffix_cons c later)

theorem suffix_of_compound {text : List Char} {bound : Nat} {done tests : List SimpleSelector} {cs rest : List Char}
    (read : compound nested text bound done cs = .ok (tests, rest)) : rest <:+ cs := by
  induction bound generalizing done cs with
  | zero =>
      rw [compound] at read
      rw [← (Prod.mk.inj (Except.ok.inj read)).2]
  | succ bound inductionHypothesis =>
      rw [compound_succ] at read
      rcases bind_eq_ok.mp read with ⟨found, foundRead, read⟩
      cases found with
      | none => rw [← (Prod.mk.inj (Except.ok.inj read)).2]
      | some front => exact (inductionHypothesis read).trans (suffix_of_testAt foundRead)

theorem suffix_of_further? {cs : List Char} {next : Combinator × List Char} (found : further? cs = some next) :
    next.2 <:+ cs := by
  have spaced : skipSpaces cs <:+ cs := List.dropWhile_suffix _
  rw [further?] at found
  split at found
  · cases found
  · next c after split =>
    rw [split] at spaced
    split at found
    · rw [← Option.some.inj found]
      exact ((List.dropWhile_suffix _).trans (List.suffix_cons _ _)).trans spaced
    · rw [← Option.some.inj found]
      exact spaced

/-! ## Readers that agree -/

/-- Whether two readers of nested lists find the same in every shorter text. -/
def Agree (nested other : Bool → List Char → Except CssError (List Selector)) (size : Nat) : Prop :=
  ∀ relative cs, cs.length < size → nested relative cs = other relative cs

variable {other : Bool → List Char → Except CssError (List Selector)} {size : Nat}

theorem Agree.arguments_eq (agree : Agree nested other size) (asSelectors relative : Bool) {cs : List Char}
    (short : cs.length ≤ size) :
    arguments nested asSelectors relative cs = arguments other asSelectors relative cs := by
  unfold arguments
  split
  · next later =>
    cases cut : spanBefore? ')' later with
    | none => rfl
    | some parts =>
        have shorter : parts.1.length < size := by
          have whole := congrArg List.length (balanced_of_spanBefore? cut).1
          rw [List.length_append] at whole
          rw [List.length_cons] at short
          omega
        change Except.map _ (argumentsOf _ _ _ _) = Except.map _ (argumentsOf _ _ _ _)
        rw [argumentsOf, argumentsOf, agree relative parts.1 shorter]
  · rfl

theorem Agree.pseudo_eq (agree : Agree nested other size) (text : List Char) {cs : List Char}
    (short : cs.length ≤ size) : pseudo nested text cs = pseudo other text cs := by
  have behind : (spanName (afterColon cs).2).2 <:+ cs := (suffix_of_spanName _).trans (suffix_afterColon cs)
  rw [SelectorText.pseudo_eq, SelectorText.pseudo_eq, pseudoBehind, pseudoBehind]
  dsimp only
  rw [agree.arguments_eq _ _ (behind.length_le.trans short)]

theorem Agree.testAt_eq (agree : Agree nested other size) (text : List Char) (isFirst : Bool) {cs : List Char}
    (short : cs.length ≤ size) : testAt nested text isFirst cs = testAt other text isFirst cs := by
  unfold testAt
  split
  any_goals rfl
  next later => rw [agree.pseudo_eq text ((Nat.le_succ _).trans short)]

theorem Agree.compound_eq (agree : Agree nested other size) (text : List Char) {bound : Nat}
    {done : List SimpleSelector} {cs : List Char} (short : cs.length ≤ size) :
    compound nested text bound done cs = compound other text bound done cs := by
  induction bound generalizing done cs with
  | zero => rfl
  | succ bound inductionHypothesis =>
      rw [compound_succ, compound_succ, ← agree.testAt_eq text _ short]
      cases found : testAt nested text done.isEmpty cs with
      | error e => rfl
      | ok front =>
          cases front with
          | none => rfl
          | some front => exact inductionHypothesis ((suffix_of_testAt found).length_le.trans short)

theorem Agree.compounds_eq (agree : Agree nested other size) (text : List Char) {bound : Nat}
    {combinator : Option Combinator} {cs : List Char} (short : cs.length ≤ size) :
    compounds nested text bound combinator cs = compounds other text bound combinator cs := by
  induction bound generalizing combinator cs with
  | zero => rfl
  | succ bound inductionHypothesis =>
      rw [compounds_succ, compounds_succ, ← agree.compound_eq text short]
      cases read : compound nested text cs.length [] cs with
      | error e => rfl
      | ok found =>
          change (if _ then _ else _) = (if _ then _ else _)
          cases next : further? found.2 with
          | none => rfl
          | some front =>
              have behind := (suffix_of_further? next).trans (suffix_of_compound read)
              change (if _ then _ else Except.map _ (compounds nested text bound _ _)) = _
              rw [inductionHypothesis (behind.length_le.trans short)]
              rfl

theorem Agree.selector_eq (agree : Agree nested other size) (relative : Bool) {text : List Char}
    (short : text.length ≤ size) : selector nested relative text = selector other relative text := by
  have behind : (leading relative (skipSpaces text)).2 <:+ text :=
    (leading_spec relative _).2.trans (List.dropWhile_suffix _)
  rw [SelectorText.selector_eq, SelectorText.selector_eq]
  dsimp only
  rw [agree.compounds_eq text (behind.length_le.trans short)]

/-- Lists are read alike if their parts are. -/
theorem selectors_congr {one another : List Char → Except CssError Selector} {bound : Nat} {cs : List Char}
    (each : ∀ part, part.length ≤ cs.length → one part = another part) :
    selectors one bound cs = selectors another bound cs := by
  induction bound generalizing cs with
  | zero => rfl
  | succ bound inductionHypothesis =>
      rw [selectors, selectors]
      cases cut : spanBefore? ',' cs with
      | none =>
          dsimp only
          rw [each cs le_rfl]
      | some parts =>
          have whole := congrArg List.length (balanced_of_spanBefore? cut).1
          rw [List.length_append, List.length_cons] at whole
          dsimp only
          rw [each parts.1 (by omega), inductionHypothesis fun part short => each part (by omega)]

/-- Two numbers of levels are as good as each other for texts shorter than both. -/
theorem agree_listWithin (size first second : Nat) (deep : size ≤ first ∧ size ≤ second) :
    Agree (listWithin first) (listWithin second) size := by
  induction size generalizing first second with
  | zero => exact fun _ _ impossible => absurd impossible (Nat.not_lt_zero _)
  | succ size inductionHypothesis =>
      intro relative cs shorter
      cases first with
      | zero => exact absurd deep.1 (Nat.not_succ_le_zero _)
      | succ first =>
          cases second with
          | zero => exact absurd deep.2 (Nat.not_succ_le_zero _)
          | succ second =>
              have inner := inductionHypothesis first second
                ⟨Nat.le_of_succ_le_succ deep.1, Nat.le_of_succ_le_succ deep.2⟩
              rw [listWithin, listWithin]
              exact selectors_congr fun part short =>
                inner.selector_eq relative (short.trans (Nat.le_of_lt_succ shorter))

/-- A selector that is read alone is read with more levels of nesting. -/
theorem selector_of_read {text : String} {s : Selector} (read : Selector.read text = .ok s) {depth : Nat}
    (deep : text.toList.length ≤ depth) : selector (listWithin depth) false text.toList = .ok s := by
  rw [← (agree_listWithin text.toList.length text.toList.length depth ⟨le_rfl, deep⟩).selector_eq false le_rfl]
  exact read

end SelectorText
end Css
end SlimSvg
