import SlimSvg.Css.SelectorText
import SlimSvg.Proofs.Attempt
import SlimSvg.Proofs.Text.Trim

namespace SlimSvg
namespace Css

/-!
# Pieces that were cut off

What a scanner cuts off the front of a text it cuts off again from any other text
that begins with it, as long as the piece does not run into what follows.  For names
that asks for a character that no name has; a balanced piece stops at the same sign
whatever stands behind it.
-/

theorem orEnd_eq_ok {α : Type} {result : Option α} {a : α} : orEnd result = .ok a ↔ result = some a := by
  cases result with
  | none =>
      constructor
      · intro impossible
        cases impossible
      · intro impossible
        cases impossible
  | some b => exact ⟨fun same => congrArg some (Except.ok.inj same),
      fun same => congrArg Except.ok (Option.some.inj same)⟩

/-! ## Names -/

/-- Whether no name goes on at the front of a text. -/
def EndsName (cs : List Char) : Prop :=
  ∀ c ∈ cs.head?, isNameChar c = false ∧ c ≠ '\\'

theorem endsName_nil : EndsName [] := by
  intro c impossible
  cases impossible

theorem spanName_of_endsName {cs : List Char} (ends : EndsName cs) : spanName cs = ([], cs) := by
  cases cs with
  | nil => rfl
  | cons c rest =>
      have first := ends c rfl
      rw [spanName, if_neg (by rw [first.1]; decide)]
      rintro d others rfl -
      exact first.2 rfl

theorem append_of_spanName (cs : List Char) : (spanName cs).1 ++ (spanName cs).2 = cs := by
  fun_induction spanName cs with
  | case1 c rest name after cut inductionHypothesis =>
      rw [cut] at inductionHypothesis
      rw [List.cons_append, List.cons_append, inductionHypothesis]
  | case2 c rest unescaped named name after cut inductionHypothesis =>
      rw [cut] at inductionHypothesis
      rw [List.cons_append, inductionHypothesis]
  | case3 c rest unescaped unnamed => rfl
  | case4 => rfl

/-- A name that was cut off is cut off again where no name goes on. -/
theorem spanName_append (cs : List Char) {tail : List Char} (ends : EndsName tail) :
    spanName ((spanName cs).1 ++ tail) = ((spanName cs).1, tail) := by
  fun_induction spanName cs with
  | case1 c rest name after cut inductionHypothesis =>
      rw [cut] at inductionHypothesis
      rw [List.cons_append, List.cons_append, spanName, inductionHypothesis]
  | case2 c rest unescaped named name after cut inductionHypothesis =>
      rw [cut] at inductionHypothesis
      rw [List.cons_append, spanName, if_pos named, inductionHypothesis]
      rintro d others rfl -
      exact absurd named (by decide)
  | case3 c rest unescaped unnamed => exact spanName_of_endsName ends
  | case4 => exact spanName_of_endsName ends

theorem mem_of_mem_unescape {c : Char} {cs : List Char} (listed : c ∈ unescape cs) : c ∈ cs := by
  fun_induction unescape cs with
  | case1 d rest inductionHypothesis =>
      rcases List.mem_cons.mp listed with here | later
      · exact List.mem_cons_of_mem _ (here ▸ List.mem_cons_self)
      · exact List.mem_cons_of_mem _ (List.mem_cons_of_mem _ (inductionHypothesis later))
  | case2 => cases listed
  | case3 d rest unescaped further inductionHypothesis =>
      rcases List.mem_cons.mp listed with here | later
      · exact here ▸ List.mem_cons_self
      · exact List.mem_cons_of_mem _ (inductionHypothesis later)
  | case4 => cases listed

/-- A name that was cut off stands for some text. -/
theorem unescape_ne_nil {cs : List Char} (nonempty : (spanName cs).1 ≠ []) :
    unescape (spanName cs).1 ≠ [] := by
  revert nonempty
  fun_cases spanName cs with
  | case1 c rest name after cut =>
      intro _
      rw [unescape]
      exact List.cons_ne_nil _ _
  | case2 c rest unescaped named name after cut =>
      intro _
      have plain : c ≠ '\\' := by
        rintro rfl
        exact absurd named (by decide)
      rw [unescape]
      · exact List.cons_ne_nil _ _
      · intro d others same
        exact fun _ => absurd same plain
      · exact fun same => absurd same plain
  | case3 c rest unescaped unnamed => exact fun nonempty => absurd rfl nonempty
  | case4 => exact fun nonempty => absurd rfl nonempty

/-! ## Quoted texts -/

theorem append_of_spanQuoted? {quote : Char} {cs inner rest : List Char}
    (cut : spanQuoted? quote cs = some (inner, rest)) : cs = inner ++ quote :: rest := by
  fun_induction spanQuoted? quote cs generalizing inner rest with
  | case1 => cases cut
  | case2 c later inductionHypothesis =>
      rcases Option.map_eq_some_iff.mp cut with ⟨⟨innerLater, after⟩, found, same⟩
      rcases Prod.mk.inj same with ⟨innerEq, restEq⟩
      rw [inductionHypothesis found, ← innerEq, ← restEq]
      rfl
  | case3 c later unescaped closes =>
      rcases Prod.mk.inj (Option.some.inj cut) with ⟨innerEq, restEq⟩
      rw [← innerEq, ← restEq, beq_iff_eq.mp closes]
      rfl
  | case4 c later unescaped unclosed inductionHypothesis =>
      rcases Option.map_eq_some_iff.mp cut with ⟨⟨innerLater, after⟩, found, same⟩
      rcases Prod.mk.inj same with ⟨innerEq, restEq⟩
      rw [inductionHypothesis found, ← innerEq, ← restEq]
      rfl

/-! ## Balanced texts -/

/-- Where a scan for the end of a balanced text stands: how many brackets are open,
which quotation mark is to be closed, and whether a backslash stands before the next
character. -/
structure Balance where
  depth : Nat
  quote : Option Char
  escaped : Bool
deriving DecidableEq

namespace Balance

/-- Outside of brackets and quotation marks. -/
def outside : Balance :=
  ⟨0, none, false⟩

/-- Go past a character, unless it is the sign at which the scan stops. -/
def step? (stop : Char) (b : Balance) (c : Char) : Option Balance :=
  match b.quote with
  | some q =>
    if b.escaped then some ⟨b.depth, some q, false⟩
    else if c == '\\' then some ⟨b.depth, some q, true⟩
    else some ⟨b.depth, if c == q then none else some q, false⟩
  | none =>
    if isQuote c then some { b with quote := some c }
    else if c == '(' || c == '[' then some { b with depth := b.depth + 1 }
    else if (c == ')' || c == ']') && 0 < b.depth then some { b with depth := b.depth - 1 }
    else if c == stop && b.depth == 0 then none
    else some b

/-- Go past all characters of a text. -/
def run? (stop : Char) (b : Balance) (cs : List Char) : Option Balance :=
  cs.foldlM (step? stop) b

section Running

variable {stop : Char}

theorem run?_cons (b : Balance) (c : Char) (cs : List Char) :
    run? stop b (c :: cs) = (step? stop b c).bind fun next => run? stop next cs :=
  List.foldlM_cons

theorem run?_append (b : Balance) (first second : List Char) :
    run? stop b (first ++ second) = (run? stop b first).bind fun next => run? stop next second :=
  List.foldlM_append

end Running

end Balance

/-- Put a text before the piece that a scan cuts off. -/
def putBefore (front : List Char) (cut : List Char × List Char) : List Char × List Char :=
  (front ++ cut.1, cut.2)

theorem map_putBefore_nil (found : Option (List Char × List Char)) : found.map (putBefore []) = found := by
  cases found <;> rfl

theorem map_putBefore_append (first second : List Char) (found : Option (List Char × List Char)) :
    found.map (putBefore (first ++ second)) = (found.map (putBefore second)).map (putBefore first) := by
  rw [Option.map_map]
  refine congrArg (Option.map · found) (funext fun cut => ?_)
  rw [putBefore, List.append_assoc]
  rfl

section Balanced

variable {stop : Char} {depth : Nat}

/-- Outside of quotation marks a scan goes on or has found its sign. -/
theorem spanBalanced?_outside (stop : Char) (depth : Nat) (c : Char) (rest : List Char) :
    (∃ next : Balance, Balance.step? stop ⟨depth, none, false⟩ c = some next ∧ next.escaped = false ∧
        spanBalanced? stop depth none (c :: rest) =
          (spanBalanced? stop next.depth next.quote rest).map (putBefore [c])) ∨
      Balance.step? stop ⟨depth, none, false⟩ c = none ∧ c = stop ∧ depth = 0 ∧
        spanBalanced? stop depth none (c :: rest) = some ([], c :: rest) := by
  rw [spanBalanced?, Balance.step?]
  dsimp only
  split
  · exact .inl ⟨_, rfl, rfl, rfl⟩
  · split
    · exact .inl ⟨_, rfl, rfl, rfl⟩
    · split
      · exact .inl ⟨_, rfl, rfl, rfl⟩
      · split
        · next found =>
          rw [Bool.and_eq_true, beq_iff_eq, beq_iff_eq] at found
          exact .inr ⟨rfl, found.1, found.2, rfl⟩
        · exact .inl ⟨_, rfl, rfl, rfl⟩

theorem spanBalanced?_escaped (q c : Char) (rest : List Char) :
    spanBalanced? stop depth (some q) ('\\' :: c :: rest) =
      (spanBalanced? stop depth (some q) rest).map (putBefore ['\\', c]) := by
  rw [spanBalanced?]
  rfl

theorem spanBalanced?_quoted (q : Char) {c : Char} (plain : c ≠ '\\') (rest : List Char) :
    spanBalanced? stop depth (some q) (c :: rest) =
      (spanBalanced? stop depth (if c == q then none else some q) rest).map (putBefore [c]) := by
  rw [spanBalanced?]
  · rfl
  · exact fun d others same => absurd same plain

theorem step?_quoted (q : Char) {c : Char} (plain : c ≠ '\\') :
    Balance.step? stop ⟨depth, some q, false⟩ c = some ⟨depth, if c == q then none else some q, false⟩ := by
  rw [Balance.step?]
  dsimp only
  rw [if_neg Bool.false_ne_true, if_neg (by rw [beq_iff_eq]; exact plain)]

theorem run?_escaped (q c : Char) (rest : List Char) :
    Balance.run? stop ⟨depth, some q, false⟩ ('\\' :: c :: rest) =
      Balance.run? stop ⟨depth, some q, false⟩ rest :=
  rfl

/-- A scan goes past a text in the same way whatever stands behind it. -/
theorem spanBalanced?_append {depth' : Nat} {quote' : Option Char} :
    ∀ {depth : Nat} {quote : Option Char} (cs : List Char),
      Balance.run? stop ⟨depth, quote, false⟩ cs = some ⟨depth', quote', false⟩ →
      ∀ tail, spanBalanced? stop depth quote (cs ++ tail) =
        (spanBalanced? stop depth' quote' tail).map (putBefore cs)
  | depth, quote, [], passed, tail => by
    have same : (⟨depth, quote, false⟩ : Balance) = ⟨depth', quote', false⟩ := Option.some.inj passed
    rw [Balance.mk.injEq] at same
    rw [← same.1, ← same.2.1, map_putBefore_nil, List.nil_append]
  | depth, none, c :: rest, passed, tail => by
    rw [Balance.run?_cons] at passed
    rcases spanBalanced?_outside stop depth c (rest ++ tail) with
      ⟨next, goes, unescaped, split⟩ | ⟨stops, -, -, -⟩
    · rcases next with ⟨nextDepth, nextQuote, escaped⟩
      rw [goes, Option.bind_some, show escaped = false from unescaped] at passed
      rw [List.cons_append, split, spanBalanced?_append rest passed tail, ← map_putBefore_append]
      rfl
    · rw [stops] at passed
      cases passed
  | depth, some q, c :: rest, passed, tail => by
    by_cases backslash : c = '\\'
    · rw [backslash] at passed ⊢
      -- A backslash takes the character behind it along.
      cases rest with
      | nil => cases Option.some.inj passed
      | cons d later =>
          rw [run?_escaped] at passed
          rw [List.cons_append, List.cons_append, spanBalanced?_escaped, spanBalanced?_append later passed tail,
            ← map_putBefore_append]
          rfl
    · rw [Balance.run?_cons, step?_quoted q backslash, Option.bind_some] at passed
      rw [List.cons_append, spanBalanced?_quoted q backslash, spanBalanced?_append rest passed tail,
        ← map_putBefore_append]
      rfl
termination_by _ _ cs => cs.length

theorem exists_of_map_putBefore {front inner rest : List Char} {found : Option (List Char × List Char)}
    (cut : found.map (putBefore front) = some (inner, rest)) :
    ∃ later, found = some (later, rest) ∧ inner = front ++ later := by
  rcases Option.map_eq_some_iff.mp cut with ⟨⟨later, after⟩, same, shape⟩
  rcases Prod.mk.inj shape with ⟨innerEq, restEq⟩
  rw [show after = rest from restEq] at same
  exact ⟨later, same, innerEq.symm⟩

/-- What a scan cuts off is balanced, and the sign at which it stopped stands behind. -/
theorem run?_of_spanBalanced? :
    ∀ {depth : Nat} {quote : Option Char} (cs : List Char) {inner rest : List Char},
      spanBalanced? stop depth quote cs = some (inner, rest) →
      cs = inner ++ rest ∧ (∃ after, rest = stop :: after) ∧
        Balance.run? stop ⟨depth, quote, false⟩ inner = some .outside
  | depth, quote, [], inner, rest, cut => by
    rw [spanBalanced?] at cut
    cases cut
  | depth, none, c :: later, inner, rest, cut => by
    rcases spanBalanced?_outside stop depth c later with
      ⟨⟨nextDepth, nextQuote, escaped⟩, goes, unescaped, split⟩ | ⟨-, stops, level, split⟩
    · rw [split] at cut
      rcases exists_of_map_putBefore cut with ⟨innerLater, cutLater, innerEq⟩
      rcases run?_of_spanBalanced? later cutLater with ⟨laterEq, behind, ran⟩
      rw [innerEq, laterEq]
      refine ⟨rfl, behind, ?_⟩
      rw [List.singleton_append, Balance.run?_cons, goes, Option.bind_some, show escaped = false from unescaped]
      exact ran
    · rw [split] at cut
      rcases Prod.mk.inj (Option.some.inj cut) with ⟨innerEq, restEq⟩
      rw [← innerEq, ← restEq, stops, level]
      exact ⟨rfl, ⟨later, rfl⟩, rfl⟩
  | depth, some q, c :: later, inner, rest, cut => by
    by_cases backslash : c = '\\'
    · rw [backslash] at cut ⊢
      cases later with
      | nil =>
          rw [spanBalanced?, spanBalanced?] at cut
          · cases cut
          · intro d others _ impossible
            cases impossible
      | cons d later =>
          rw [spanBalanced?_escaped] at cut
          rcases exists_of_map_putBefore cut with ⟨innerLater, cutLater, innerEq⟩
          rcases run?_of_spanBalanced? later cutLater with ⟨laterEq, behind, ran⟩
          rw [innerEq, laterEq]
          exact ⟨rfl, behind, ran⟩
    · rw [spanBalanced?_quoted q backslash] at cut
      rcases exists_of_map_putBefore cut with ⟨innerLater, cutLater, innerEq⟩
      rcases run?_of_spanBalanced? later cutLater with ⟨laterEq, behind, ran⟩
      rw [innerEq, laterEq]
      refine ⟨rfl, behind, ?_⟩
      rw [List.singleton_append, Balance.run?_cons, step?_quoted q backslash, Option.bind_some]
      exact ran
termination_by _ _ cs => cs.length

/-- Whether a scan for a sign goes past a text and is outside of brackets and quotation
marks behind it. -/
def Balanced (stop : Char) (cs : List Char) : Prop :=
  Balance.run? stop .outside cs = some .outside

instance (cs : List Char) : Decidable (Balanced stop cs) :=
  inferInstanceAs (Decidable (_ = _))

theorem balanced_nil : Balanced stop [] :=
  rfl

theorem Balanced.append {first second : List Char} (before : Balanced stop first) (after : Balanced stop second) :
    Balanced stop (first ++ second) := by
  rw [Balanced, Balance.run?_append, before, Option.bind_some]
  exact after

theorem spanBefore?_append {cs : List Char} (balanced : Balanced stop cs)
    (sign : Balance.step? stop .outside stop = none) (rest : List Char) :
    spanBefore? stop (cs ++ stop :: rest) = some (cs, rest) := by
  rw [spanBefore?, spanBalanced?_append cs balanced]
  rcases spanBalanced?_outside stop 0 stop rest with ⟨next, goes, -⟩ | ⟨-, -, -, split⟩
  · exact absurd (goes.symm.trans sign) (Option.some_ne_none next)
  · rw [split, Option.map_some, Option.map_some, putBefore, List.append_nil]
    rfl

theorem spanBefore?_eq_none {cs : List Char} (balanced : Balanced stop cs) : spanBefore? stop cs = none := by
  have span := spanBalanced?_append cs balanced []
  rw [List.append_nil] at span
  rw [spanBefore?, span]
  rfl

theorem balanced_of_spanBefore? {cs inner rest : List Char} (cut : spanBefore? stop cs = some (inner, rest)) :
    cs = inner ++ stop :: rest ∧ Balanced stop inner := by
  rcases Option.map_eq_some_iff.mp cut with ⟨⟨front, behind⟩, found, same⟩
  rcases Prod.mk.inj same with ⟨frontEq, restEq⟩
  rcases run?_of_spanBalanced? cs found with ⟨whole, ⟨after, signed⟩, balanced⟩
  rw [signed] at whole restEq
  rw [show front = inner from frontEq] at whole balanced
  rw [← show after = rest from restEq]
  exact ⟨whole, balanced⟩

/-! ### Blanks around a balanced text -/

theorem ne_of_blank {c d : Char} (blank : Text.isWhiteSpace c = true) (solid : Text.isWhiteSpace d = false) :
    c ≠ d := by
  rintro rfl
  exact absurd (blank.symm.trans solid) (by decide)

theorem not_isQuote_of_blank {c : Char} (blank : Text.isWhiteSpace c = true) : isQuote c = false := by
  rw [isQuote, Bool.or_eq_false_iff, beq_eq_false_iff_ne, beq_eq_false_iff_ne]
  exact ⟨ne_of_blank blank rfl, ne_of_blank blank rfl⟩

theorem Balance.step?_blank_outside {c : Char} (blank : Text.isWhiteSpace c = true)
    (solid : Text.isWhiteSpace stop = false) (depth : Nat) (escaped : Bool) :
    step? stop ⟨depth, none, escaped⟩ c = some ⟨depth, none, escaped⟩ := by
  have other : ∀ d, Text.isWhiteSpace d = false → (c == d) = false :=
    fun d solid => beq_eq_false_iff_ne.mpr (ne_of_blank blank solid)
  rw [step?]
  dsimp only
  rw [not_isQuote_of_blank blank, other '(' rfl, other '[' rfl, other ')' rfl, other ']' rfl, other stop solid]
  rfl

/-- The only marks that a scan waits for are quotation marks. -/
def Balance.WellQuoted (b : Balance) : Prop :=
  ∀ q ∈ b.quote, isQuote q = true

theorem Balance.WellQuoted.step? {b next : Balance} {c : Char} (well : b.WellQuoted)
    (goes : b.step? stop c = some next) : next.WellQuoted := by
  rcases b with ⟨depth, quote, escaped⟩
  rw [Balance.step?] at goes
  cases quote with
  | none =>
      dsimp only at goes
      split at goes
      · next quote =>
        rw [← Option.some.inj goes]
        intro q among
        rw [← Option.some.inj among]
        exact quote
      · split at goes
        · rw [← Option.some.inj goes]
          exact well
        · split at goes
          · rw [← Option.some.inj goes]
            exact well
          · split at goes
            · cases goes
            · rw [← Option.some.inj goes]
              exact well
  | some q =>
      dsimp only at goes
      split at goes
      · rw [← Option.some.inj goes]
        exact well
      · split at goes
        · rw [← Option.some.inj goes]
          exact well
        · rw [← Option.some.inj goes]
          intro mark among
          dsimp only at among
          split at among
          · cases among
          · exact well mark among

theorem Balance.WellQuoted.run? {cs : List Char} {b next : Balance} (well : b.WellQuoted)
    (goes : b.run? stop cs = some next) : next.WellQuoted := by
  induction cs generalizing b with
  | nil => exact Option.some.inj goes ▸ well
  | cons c rest inductionHypothesis =>
      rw [Balance.run?_cons] at goes
      rcases Option.bind_eq_some_iff.mp goes with ⟨middle, first, later⟩
      exact inductionHypothesis (well.step? first) later

/-- A blank does not lead out of quotation marks or brackets. -/
theorem Balance.eq_outside_of_blanks {cs : List Char} (blank : ∀ c ∈ cs, Text.isWhiteSpace c = true)
    (solid : Text.isWhiteSpace stop = false) {b : Balance} (well : b.WellQuoted)
    (goes : b.run? stop cs = some .outside) : b = .outside := by
  induction cs generalizing b with
  | nil => exact Option.some.inj goes
  | cons c rest inductionHypothesis =>
      rw [Balance.run?_cons] at goes
      rcases Option.bind_eq_some_iff.mp goes with ⟨middle, first, later⟩
      have here := blank c List.mem_cons_self
      have reached := inductionHypothesis (fun d listed => blank d (List.mem_cons_of_mem c listed))
        (well.step? first) later
      rcases b with ⟨depth, quote, escaped⟩
      cases quote with
      | none =>
          rw [Balance.step?_blank_outside here solid] at first
          exact (Option.some.inj first).trans reached
      | some q =>
          have mark : c ≠ q := by
            rintro rfl
            exact absurd (not_isQuote_of_blank here) (by rw [well c rfl]; decide)
          rw [reached, Balance.step?] at first
          dsimp only at first
          rw [beq_eq_false_iff_ne.mpr mark] at first
          split at first
          · cases Option.some.inj first
          · split at first
            · cases Option.some.inj first
            · cases Option.some.inj first

/-- A balanced text stays balanced without the blanks around it. -/
theorem Balanced.trimChars {cs : List Char} (balanced : Balanced stop cs) (solid : Text.isWhiteSpace stop = false) :
    Balanced stop (Text.trimChars cs) := by
  rcases Text.exists_append_trimChars cs with ⟨front, back, whole, frontBlank, backBlank, -⟩
  have front_passed : Balanced stop front := by
    clear whole
    induction front with
    | nil => rfl
    | cons c rest inductionHypothesis =>
        rw [Balanced, Balance.run?_cons, Balance.outside,
          Balance.step?_blank_outside (frontBlank c List.mem_cons_self) solid]
        exact inductionHypothesis fun d listed => frontBlank d (List.mem_cons_of_mem c listed)
  rw [Balanced, whole, List.append_assoc, Balance.run?_append, front_passed, Option.bind_some,
    Balance.run?_append] at balanced
  rcases Option.bind_eq_some_iff.mp balanced with ⟨middle, passed, behind⟩
  have well : Balance.outside.WellQuoted := by
    intro q impossible
    cases impossible
  rw [Balanced, passed, Balance.eq_outside_of_blanks backBlank solid (well.run? passed) behind]

end Balanced

/-!
## Selectors are read piece by piece

A pseudo-class is a name with arguments, a compound is a line of tests, a selector is
what follows its first combinator.  Each of these is cut off here in one step, so that
what reading finds and what it finds in a text that was written can be said step by
step.
-/

namespace SelectorText

variable {nested : Bool → List Char → Except CssError (List Selector)}

/-! ### Pseudo-classes -/

/-- The arguments between parentheses. -/
def argumentsOf (nested : Bool → List Char → Except CssError (List Selector)) (asSelectors relative : Bool)
    (inner : List Char) : Except CssError PseudoArguments :=
  if asSelectors then (nested relative inner).map .selectors
  else .ok (.raw (String.ofList (Text.trimChars inner)))

/-- The arguments at the front of a text and what follows them. -/
def arguments (nested : Bool → List Char → Except CssError (List Selector)) (asSelectors relative : Bool) :
    List Char → Except CssError (PseudoArguments × List Char)
  | '(' :: rest =>
    (orEnd (spanBefore? ')' rest)).bind fun cut =>
      (argumentsOf nested asSelectors relative cut.1).map fun args => (args, cut.2)
  | rest => .ok (.none, rest)

/-- The test with a name and its arguments. -/
def pseudoTest (doubled : Bool) (name : String) (args : PseudoArguments) : SimpleSelector :=
  if doubled || isLegacyPseudoElement name then .pseudoElement name args else .pseudoClass name args

/-- A pseudo-class or pseudo-element behind all of its colons. -/
def pseudoBehind (nested : Bool → List Char → Except CssError (List Selector)) (text : List Char) (doubled : Bool)
    (cs : List Char) : Except CssError (SimpleSelector × List Char) :=
  if (spanName cs).1.isEmpty then .error (invalid text)
  else
    let name := String.ofList (spanName cs).1
    (arguments nested (!doubled && takesSelectors name) (name == "has") (spanName cs).2).map
      fun found => (pseudoTest doubled name found.1, found.2)

theorem pure_pseudoTest (doubled : Bool) (name : String) (args : PseudoArguments) (rest : List Char) :
    (if doubled || isLegacyPseudoElement name then pure (.pseudoElement name args, rest)
      else pure (.pseudoClass name args, rest) : Except CssError (SimpleSelector × List Char)) =
      .ok (pseudoTest doubled name args, rest) := by
  rw [pseudoTest]
  split
  · rfl
  · rfl

theorem arguments_parenthesis (asSelectors relative : Bool) (later : List Char) :
    arguments nested asSelectors relative ('(' :: later) =
      (orEnd (spanBefore? ')' later)).bind fun cut =>
        (argumentsOf nested asSelectors relative cut.1).map fun args => (args, cut.2) :=
  rfl

theorem arguments_none (asSelectors relative : Bool) {rest : List Char} (other : ∀ later, rest ≠ '(' :: later) :
    arguments nested asSelectors relative rest = .ok (.none, rest) := by
  unfold arguments
  split
  · next later => exact absurd rfl (other later)
  · rfl

/-- Whether there is a second colon, and the text behind it. -/
def afterColon : List Char → Bool × List Char
  | ':' :: rest => (true, rest)
  | cs => (false, cs)

theorem pseudo_eq (text cs : List Char) :
    pseudo nested text cs = pseudoBehind nested text (afterColon cs).1 (afterColon cs).2 := by
  unfold pseudo
  split
  next doubled behind found =>
  rw [show afterColon cs = (doubled, behind) from found]
  simp only [pure_pseudoTest, pseudoBehind]
  split
  · rfl
  · generalize (spanName behind).2 = rest
    generalize String.ofList (spanName behind).1 = name
    split
    · next later =>
      rw [arguments_parenthesis]
      cases spanBefore? ')' later with
      | none => rfl
      | some cut =>
          change (if _ then _ else _) = Except.map _ (Except.map _ (argumentsOf _ _ _ _))
          rw [argumentsOf]
          split
          · cases nested (name == "has") cut.1 with
            | error e => rfl
            | ok list => rfl
          · rfl
    · next other =>
      rw [arguments_none _ _ other]
      rfl

/-! ### Compounds -/

/-- The test at the front of a text and what follows it, unless the compound ends there. -/
def testAt (nested : Bool → List Char → Except CssError (List Selector)) (text : List Char) (isFirst : Bool) :
    List Char → Except CssError (Option (SimpleSelector × List Char))
  | [] => .ok none
  | '*' :: rest => .ok (some (.universal, rest))
  | '.' :: rest => (requireName text rest).map fun found => some (.className found.1, found.2)
  | '#' :: rest => (requireName text rest).map fun found => some (.idName found.1, found.2)
  | '[' :: rest =>
    (orEnd (spanBefore? ']' rest)).bind fun cut =>
      (attributeTest? cut.1).elim (.error (invalid text)) fun t => .ok (some (.attributeTest t, cut.2))
  | ':' :: rest => (pseudo nested text rest).map some
  | c :: rest =>
    if isNameChar c || c == '\\' then
      if !isFirst || (spanName (c :: rest)).1.isEmpty then .error (invalid text)
      else
        .ok (some (.typeName (String.ofList (unescape (spanName (c :: rest)).1)), (spanName (c :: rest)).2))
    else if Text.isCssSpace c || isCombinator c then .ok none
    else .error (invalid text)

/-- A compound is read test by test. -/
theorem compound_succ (text : List Char) (bound : Nat) (done : List SimpleSelector) (cs : List Char) :
    compound nested text (bound + 1) done cs =
      (testAt nested text done.isEmpty cs).bind fun found =>
        found.elim (.ok (done.reverse, cs)) fun test => compound nested text bound (test.1 :: done) test.2 := by
  cases cs with
  | nil => rfl
  | cons c rest =>
      rw [compound.eq_def]
      dsimp only
      split
      · rfl
      · rw [testAt]
        cases requireName text rest with
        | error e => rfl
        | ok found => rfl
      · rw [testAt]
        cases requireName text rest with
        | error e => rfl
        | ok found => rfl
      · rw [testAt]
        cases spanBefore? ']' rest with
        | none => rfl
        | some cut =>
            dsimp only [orEnd, bind, Except.bind]
            cases attributeTest? cut.1 with
            | none => rfl
            | some test => rfl
      · rw [testAt]
        cases pseudo nested text rest with
        | error e => rfl
        | ok found => rfl
      · next star dot hash bracket colon =>
        rw [testAt]
        · by_cases named : (isNameChar c || c == '\\') = true
          · rw [if_pos named, if_pos named]
            cases done with
            | nil =>
                cases (spanName (c :: rest)).1.isEmpty with
                | false => rfl
                | true => rfl
            | cons test others => rfl
          · rw [if_neg named, if_neg named]
            split
            · rfl
            · rfl
        · exact star
        · exact dot
        · exact hash
        · exact bracket
        · exact colon

/-- The combinator behind a compound and the text of the next one, if there is one. -/
def further? (cs : List Char) : Option (Combinator × List Char) :=
  match skipSpaces cs with
  | [] => none
  | c :: after =>
    if isCombinator c then some (combinatorOf c, skipSpaces after) else some (.descendant, c :: after)

/-- Compounds are read one by one, each with the combinator behind it. -/
theorem compounds_succ (text : List Char) (bound : Nat) (combinator : Option Combinator) (cs : List Char) :
    compounds nested text (bound + 1) combinator cs =
      (compound nested text cs.length [] cs).bind fun found =>
        if found.1.isEmpty then .error (invalid text)
        else
          (further? found.2).elim (.ok [⟨combinator, found.1⟩]) fun next =>
            (compounds nested text bound (some next.1) next.2).map (⟨combinator, found.1⟩ :: ·) := by
  rw [compounds]
  refine congrArg (Except.bind (compound nested text cs.length [] cs)) (funext fun found => ?_)
  dsimp only
  split
  · rfl
  · rw [further?]
    cases skipSpaces found.2 with
    | nil => rfl
    | cons c after =>
        dsimp only
        split
        · exact bind_pure_eq_map _ _
        · exact bind_pure_eq_map _ _

/-! ### Selectors -/

/-- The combinator before the first compound and the text of the compounds. -/
def leading (relative : Bool) : List Char → Option Combinator × List Char
  | c :: rest =>
    if relative && isCombinator c then (some (combinatorOf c), skipSpaces rest) else (none, c :: rest)
  | [] => (none, [])

theorem selector_eq (relative : Bool) (text : List Char) :
    selector nested relative text =
      if text.contains '&' then .error .nesting
      else
        let lead := leading relative (skipSpaces text)
        (compounds nested text lead.2.length.succ lead.1 lead.2).map .ofCompounds := by
  rw [selector]
  split
  · rfl
  · dsimp only
    cases skipSpaces text with
    | nil => exact bind_pure_eq_map _ _
    | cons c rest =>
        rw [leading]
        dsimp only
        split
        · exact bind_pure_eq_map _ _
        · exact bind_pure_eq_map _ _

end SelectorText
end Css
end SlimSvg
